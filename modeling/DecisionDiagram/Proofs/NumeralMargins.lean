import DecisionDiagram.WeightTable
import Mathlib
/-! Blanks around numerals. White space before and after a numeral makes no difference to what is
read, but the four separators stand in no numeral, and around none. -/
namespace DecisionDiagram

namespace Text

variable {p : Char → Bool} {t ws : Text} {c : Char}

/-- The four separators U+001C to U+001F. They are blank, but no part of the margin of a numeral. -/
def isSeparator (c : Char) : Bool := 0x1C ≤ c.toNat && c.toNat ≤ 0x1F

def Plain (t : Text) : Prop := ∀ c ∈ t, isSeparator c = false

instance : Decidable (Plain t) := List.decidableBAll _ t

theorem plain_append : Plain (t ++ ws) ↔ Plain t ∧ Plain ws := List.forall_mem_append

theorem dropEnd_append_right (h : ∀ c ∈ ws, p c = true) : dropEnd p (t ++ ws) = dropEnd p t := by
  rw [dropEnd, List.reverse_append, List.dropWhile_append_of_pos fun c hc =>
    h c (List.mem_reverse.mp hc), dropEnd]

theorem trim_append_left (h : ∀ c ∈ ws, p c = true) : trim p (ws ++ t) = trim p t := by
  rw [trim, List.dropWhile_append_of_pos h, trim]

theorem trim_append_right (h : ∀ c ∈ ws, p c = true) : trim p (t ++ ws) = trim p t := by
  rw [trim, trim, List.dropWhile_append]
  split
  · rename_i hnil
    rw [List.isEmpty_iff.mp hnil, List.dropWhile_eq_nil_iff.mpr h]
  · exact dropEnd_append_right h

theorem mem_dropWhile (hc : c ∈ t) (hp : p c = false) : c ∈ t.dropWhile p := by
  rw [← List.takeWhile_append_dropWhile (p := p) (l := t)] at hc
  refine (List.mem_append.mp hc).resolve_left fun h => ?_
  simp [List.mem_takeWhile_imp h] at hp

theorem mem_trim (hc : c ∈ t) (hp : p c = false) : c ∈ trim p t :=
  List.mem_reverse.mpr (mem_dropWhile (List.mem_reverse.mpr (mem_dropWhile hc hp)) hp)

end Text

namespace Numeral
open Text

variable {c : Char} {t u ws : Text}

theorem isMargin_of_isBlank (hblank : isBlank c = true) (hplain : isSeparator c = false) :
    isMargin c = true := by
  unfold isSeparator at hplain
  rw [isMargin, hblank, hplain]
  rfl

theorem isMargin_eq_false (h : isSeparator c = true) : isMargin c = false := by
  unfold isSeparator at h
  rw [isMargin, h]
  exact Bool.and_false _

theorem normalize?_append_left (h : ∀ c ∈ ws, isMargin c = true) :
    normalize? (ws ++ t) = normalize? t := by
  rw [normalize?, trim_append_left h, normalize?]

theorem normalize?_append_right (h : ∀ c ∈ ws, isMargin c = true) :
    normalize? (t ++ ws) = normalize? t := by
  rw [normalize?, trim_append_right h, normalize?]

theorem Integer.read?_congr (h : normalize? t = normalize? u) :
    Integer.read? t = Integer.read? u := by
  rw [Integer.read?, h, Integer.read?]

theorem Real.read?_congr (h : normalize? t = normalize? u) : Real.read? t = Real.read? u := by
  rw [Real.read?, h, Real.read?]

theorem asciiDigit_of_lt (h : c.toNat < 0x30) : asciiDigit c = c := by
  have hzeros : ∀ z ∈ zeros, 0x30 ≤ z := by decide
  have hnone : (zeros.find? fun z => z ≤ c.toNat && c.toNat < z + 10) = none := by
    refine List.find?_eq_none.mpr fun z hz => ?_
    have hle := hzeros z hz
    simp only [Bool.and_eq_true, decide_eq_true_eq]
    omega
  rw [asciiDigit, digit?, hnone]
  rfl

theorem mem_dropUnderscores? {b : Bool} (h : dropUnderscores? b t = some u) (hc : c ∈ t)
    (hne : c ≠ '_') : c ∈ u := by
  fun_induction dropUnderscores? b t generalizing u with
  | case1 => cases hc
  | case2 b d t hd ih =>
    obtain ⟨v, hv, rfl⟩ := Option.map_eq_some_iff.mp h
    simp only [List.mem_cons] at hc ⊢
    exact (hc.resolve_left hne).imp_right (ih hv)
  | case3 => cases h
  | case4 => cases h
  | case5 b d t _ _ ih =>
    obtain ⟨v, hv, rfl⟩ := Option.map_eq_some_iff.mp h
    exact List.mem_cons.mpr ((List.mem_cons.mp hc).imp_right (ih hv))

theorem plain_of_normalize? (h : normalize? t = some u) (hu : Plain u) : Plain t := by
  intro c hc
  by_contra hsep
  rw [Bool.not_eq_false] at hsep
  have hbounds : 0x1C ≤ c.toNat ∧ c.toNat ≤ 0x1F := by simpa [isSeparator] using hsep
  have hne : c ≠ '_' := by
    rintro rfl
    simp at hbounds
  have hascii : asciiDigit c = c := asciiDigit_of_lt (by omega)
  have hmem : c ∈ (trim isMargin t).map asciiDigit :=
    List.mem_map.mpr ⟨c, mem_trim hc (isMargin_eq_false hsep), hascii⟩
  simp [hu c (mem_dropUnderscores? h hmem hne)] at hsep

theorem isSeparator_eq_false (h : c.isDigit = true) : isSeparator c = false := by
  simp only [Char.isDigit, Bool.and_eq_true, decide_eq_true_eq, ge_iff_le,
    UInt32.le_iff_toNat_le] at h
  have hlow : 48 ≤ c.toNat := h.1
  simp only [isSeparator, Bool.and_eq_false_iff, decide_eq_false_iff_not]
  omega

theorem plain_of_all_isDigit (h : t.all Char.isDigit = true) : Plain t := fun c hc =>
  isSeparator_eq_false (List.all_eq_true.mp h c hc)

theorem plain_cons (hc : isSeparator c = false) (ht : Plain t) : Plain (c :: t) :=
  List.forall_mem_cons.mpr ⟨hc, ht⟩

theorem plain_of_natural? {n : Nat} (h : natural? t = some n) : Plain t := by
  unfold natural? at h
  split at h
  · rename_i hdigits
    simp only [Bool.and_eq_true] at hdigits
    exact plain_of_all_isDigit hdigits.1.2
  · cases h

theorem Integer.plain_of_read? {i : Int} (h : Integer.read? t = some i) : Plain t := by
  have hdigits : ∀ {ds}, natural? ds ≠ none → Plain ds := fun hds =>
    (Option.ne_none_iff_exists'.mp hds).elim fun _ => plain_of_natural?
  unfold Integer.read? at h
  split at h
  · exact plain_of_normalize? ‹_›
      (plain_cons (by decide) (hdigits fun hnone => by simp [hnone] at h))
  · exact plain_of_normalize? ‹_›
      (plain_cons (by decide) (hdigits fun hnone => by simp [hnone] at h))
  · exact plain_of_normalize? ‹_› (hdigits fun hnone => by simp [hnone] at h)
  · cases h

theorem plain_takeWhile_isDigit (t : Text) : Plain (t.takeWhile Char.isDigit) := fun _ hc =>
  isSeparator_eq_false (List.mem_takeWhile_imp hc)

theorem plain_of_exponent? {i : Int} (h : Decimal.exponent? t = some i) : Plain t := by
  unfold Decimal.exponent? at h
  split at h
  · exact fun c hc => absurd hc List.not_mem_nil
  · rename_i c t
    split at h
    · cases h
    · rename_i hletter
      have hc : isSeparator c = false := by
        have : c = 'e' ∨ c = 'E' := by simpa [imp_iff_not_or, or_comm] using hletter
        rcases this with rfl | rfl <;> decide
      have hdigits : ∀ ds : Text, ¬ ((ds.isEmpty || !ds.all Char.isDigit) = true) → Plain ds := by
        intro ds hds
        exact plain_of_all_isDigit (by simpa using (not_or.mp (mt Bool.or_eq_true_iff.mpr hds)).2)
      refine plain_cons hc ?_
      dsimp only at h
      split at h <;> dsimp only at h <;> split at h
      any_goals cases h
      · exact plain_cons (by decide) (hdigits _ ‹_›)
      · exact plain_cons (by decide) (hdigits _ ‹_›)
      · exact hdigits _ ‹_›

theorem Decimal.plain_of_read? {d : Decimal} (h : Decimal.read? t = some d) : Plain t := by
  unfold Decimal.read? at h
  rw [← List.takeWhile_append_dropWhile (p := Char.isDigit) (l := t)]
  refine plain_append.mpr ⟨plain_takeWhile_isDigit t, ?_⟩
  dsimp only at h
  split at h <;> dsimp only at h <;> split at h
  any_goals cases h
  · rename_i u hu _
    obtain ⟨e, he, -⟩ := Option.map_eq_some_iff.mp h
    rw [hu, ← List.takeWhile_append_dropWhile (p := Char.isDigit) (l := u)]
    exact plain_cons (by decide)
      (plain_append.mpr ⟨plain_takeWhile_isDigit u, plain_of_exponent? he⟩)
  · obtain ⟨e, he, -⟩ := Option.map_eq_some_iff.mp h
    exact plain_of_exponent? he

theorem plain_of_toLower {name : String} (h : String.ofList (t.map Char.toLower) = name)
    (hname : Plain name.toList) : Plain t := by
  intro c hc
  by_contra hsep
  rw [Bool.not_eq_false] at hsep
  have hbounds : 0x1C ≤ c.toNat ∧ c.toNat ≤ 0x1F := by simpa [isSeparator] using hsep
  have hsame : c.toLower = c := by
    refine dif_neg fun hcapital => ?_
    have hlow : 65 ≤ c.toNat := UInt32.le_iff_toNat_le.mp hcapital.1
    omega
  have hmem : c ∈ name.toList := by simpa [← h] using ⟨c, hc, hsame⟩
  simp [hname c hmem] at hsep

theorem Real.plain_of_unsigned? {b : Bool} {x : Binary64} (h : Real.unsigned? b t = some x) :
    Plain t := by
  unfold Real.unsigned? at h
  split at h
  · exact plain_of_toLower ‹_› (by simp [Plain, isSeparator])
  · exact plain_of_toLower ‹_› (by simp [Plain, isSeparator])
  · exact plain_of_toLower ‹_› (by simp [Plain, isSeparator])
  · obtain ⟨d, hd, -⟩ := Option.map_eq_some_iff.mp h
    exact Decimal.plain_of_read? hd

theorem Real.plain_of_read? {x : Binary64} (h : Real.read? t = some x) : Plain t := by
  unfold Real.read? at h
  split at h
  · exact plain_of_normalize? ‹_› (plain_cons (by decide) (Real.plain_of_unsigned? h))
  · exact plain_of_normalize? ‹_› (plain_cons (by decide) (Real.plain_of_unsigned? h))
  · exact plain_of_normalize? ‹_› (Real.plain_of_unsigned? h)
  · cases h

end Numeral

end DecisionDiagram
