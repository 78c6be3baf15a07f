import DecisionDiagram.Numeral.Integer
import Mathlib.Algebra.Ring.Nat
/-! Decimal numerals: what is rendered is read again, as long as it is not too long to be read. -/
namespace DecisionDiagram

namespace Text

variable {p : Char → Bool} {t : Text}

theorem dropWhile_eq_self (h : ∀ c ∈ t, p c = false) : t.dropWhile p = t := by
  cases t with
  | nil => rfl
  | cons c t => rw [List.dropWhile_cons_of_neg (by simp [h c List.mem_cons_self])]

theorem dropEnd_eq_self (h : ∀ c ∈ t, p c = false) : dropEnd p t = t := by
  rw [dropEnd, dropWhile_eq_self (fun c hc => h c (List.mem_reverse.mp hc)), List.reverse_reverse]

theorem trim_eq_self (h : ∀ c ∈ t, p c = false) : trim p t = t := by
  rw [trim, dropWhile_eq_self h, dropEnd_eq_self h]

end Text

namespace Numeral

variable {c : Char} {t : Text} {n k : Nat} {i : Int}

def IsDigit (c : Char) : Prop := ∃ d : Fin 10, c = digitChar d

def IsRendered (c : Char) : Prop := c = '-' ∨ IsDigit c

theorem isDigit_digitChar (h : n < 10) : IsDigit (digitChar n) := ⟨⟨n, h⟩, rfl⟩

namespace IsRendered

@[elab_as_elim]
theorem elim {motive : Char → Prop} (h : IsRendered c) (hsign : motive '-')
    (hdigits : ∀ d : Fin 10, motive (digitChar d)) : motive c := by
  rcases h with rfl | ⟨d, rfl⟩
  · exact hsign
  · exact hdigits d

theorem isBlank_eq (h : IsRendered c) : Text.isBlank c = false := h.elim (by decide) (by decide)

theorem isMargin_eq (h : IsRendered c) : isMargin c = false := by
  rw [isMargin, h.isBlank_eq, Bool.false_and]

theorem isAlpha_eq (h : IsRendered c) : c.isAlpha = false := h.elim (by decide) (by decide)

theorem ne_underscore (h : IsRendered c) : c ≠ '_' := h.elim (by decide) (by decide)

theorem ne_colon (h : IsRendered c) : c ≠ ':' := h.elim (by decide) (by decide)

theorem asciiDigit_eq (h : IsRendered c) : asciiDigit c = c := by
  refine h.elim (by decide) fun d => ?_
  rw [asciiDigit, digit?_ofAscii]
  rfl

end IsRendered

namespace IsDigit

theorem isDigit (h : IsDigit c) : c.isDigit = true := by
  obtain ⟨d, rfl⟩ := h
  revert d
  decide

theorem ne_sign (h : IsDigit c) : c ≠ '-' ∧ c ≠ '+' := by
  obtain ⟨d, rfl⟩ := h
  revert d
  decide

end IsDigit

theorem isDigit_of_mem_digits (h : c ∈ digits n) : IsDigit c := by
  induction n using digits.induct with
  | case1 n hn =>
    rw [digits, if_pos hn, List.mem_singleton] at h
    exact h ▸ isDigit_digitChar hn
  | case2 n hn ih =>
    rw [digits, if_neg hn, List.mem_append, List.mem_singleton] at h
    rcases h with h | rfl
    · exact ih h
    · exact isDigit_digitChar (Nat.mod_lt n (by decide))

theorem digits_ne_nil (n : Nat) : digits n ≠ [] := by
  rw [digits]
  split
  · exact List.cons_ne_nil _ _
  · simp

theorem ofDigits_concat (ds : Text) (d : Fin 10) :
    ofDigits (ds ++ [digitChar d]) = 10 * ofDigits ds + d := by
  have hvalue : (digitChar d).toNat - 0x30 = d := by
    revert d
    decide
  rw [ofDigits, List.foldl_append, List.foldl_cons, List.foldl_nil, hvalue, ofDigits]

theorem ofDigits_digits (n : Nat) : ofDigits (digits n) = n := by
  induction n using digits.induct with
  | case1 n hn =>
    rw [digits, if_pos hn]
    simpa [ofDigits] using ofDigits_concat [] ⟨n, hn⟩
  | case2 n hn ih =>
    have hlast := ofDigits_concat (digits (n / 10)) ⟨n % 10, Nat.mod_lt n (by decide)⟩
    rw [digits, if_neg hn, hlast, ih]
    exact Nat.div_add_mod n 10

theorem digits_injective : Function.Injective digits :=
  Function.LeftInverse.injective (g := ofDigits) ofDigits_digits

theorem length_digits_le (hk : 0 < k) (hn : n < 10 ^ k) : (digits n).length ≤ k := by
  induction n using digits.induct generalizing k with
  | case1 n hsmall =>
    rw [digits, if_pos hsmall]
    exact hk
  | case2 n hlarge ih =>
    obtain ⟨k, rfl⟩ := Nat.exists_eq_add_one.mpr hk
    have hdiv : n / 10 < 10 ^ k := by
      rw [Nat.pow_succ] at hn
      omega
    have hpos : 0 < k := by
      rcases Nat.eq_zero_or_pos k with rfl | hpos
      · omega
      · exact hpos
    have hlength := ih hpos hdiv
    rw [digits, if_neg hlarge, List.length_append, List.length_singleton]
    omega

theorem natural?_digits (hn : n < 10 ^ digitLimit) : natural? (digits n) = some n := by
  have hall : (digits n).all Char.isDigit = true :=
    List.all_eq_true.mpr fun c hc => (isDigit_of_mem_digits hc).isDigit
  have hlength := length_digits_le (by decide) hn
  rw [natural?, hall, ofDigits_digits, if_pos]
  simp [digits_ne_nil, hlength]

theorem dropUnderscores?_eq_self (b : Bool) (h : '_' ∉ t) : dropUnderscores? b t = some t := by
  fun_induction dropUnderscores? b t <;> simp_all

theorem normalize?_eq_self (h : ∀ c ∈ t, IsRendered c) : normalize? t = some t := by
  have hascii : t.map asciiDigit = t :=
    (List.map_congr_left fun c hc => (h c hc).asciiDigit_eq).trans (List.map_id t)
  rw [normalize?, Text.trim_eq_self fun c hc => (h c hc).isMargin_eq, hascii]
  exact dropUnderscores?_eq_self _ fun hc => (h _ hc).ne_underscore rfl

namespace Integer

def Short (i : Int) : Prop := i.natAbs < 10 ^ digitLimit

theorem isRendered_of_mem_render (h : c ∈ render i) : IsRendered c := by
  cases i with
  | ofNat n => exact .inr (isDigit_of_mem_digits h)
  | negSucc n =>
    rcases List.mem_cons.mp h with hc | hc
    · exact .inl hc
    · exact .inr (isDigit_of_mem_digits hc)

theorem render_ne_nil (i : Int) : render i ≠ [] := by
  cases i with
  | ofNat n => exact digits_ne_nil n
  | negSucc n => exact List.cons_ne_nil _ _

theorem render_injective : Function.Injective render := by
  have hsign : ∀ m n : Nat, render (.ofNat m) ≠ render (.negSucc n) := by
    intro m n heq
    have hmem : '-' ∈ render (.ofNat m) := by
      rw [heq]
      exact List.mem_cons_self
    exact (isDigit_of_mem_digits hmem).ne_sign.1 rfl
  intro i j h
  cases i with
  | ofNat m =>
    cases j with
    | ofNat n => exact congrArg Int.ofNat (digits_injective h)
    | negSucc n => exact absurd h (hsign m n)
  | negSucc m =>
    cases j with
    | ofNat n => exact absurd h.symm (hsign n m)
    | negSucc n => exact congrArg Int.negSucc (Nat.succ.inj (digits_injective (List.cons.inj h).2))

/-- A rendered integer is read again. -/
theorem read?_render (hi : Short i) : read? (render i) = some i := by
  rw [read?, normalize?_eq_self fun c hc => isRendered_of_mem_render hc]
  cases i with
  | ofNat n =>
    obtain ⟨c, ds, hds⟩ := List.exists_cons_of_ne_nil (digits_ne_nil n)
    have hc := (isDigit_of_mem_digits (n := n) (c := c) (hds ▸ List.mem_cons_self)).ne_sign
    have hread := natural?_digits (n := n) hi
    rw [render, hds]
    rw [hds] at hread
    split
    · rename_i hsign
      exact absurd (List.cons.inj (Option.some.inj hsign)).1 hc.1
    · rename_i hsign
      exact absurd (List.cons.inj (Option.some.inj hsign)).1 hc.2
    · rename_i hsame
      rw [← Option.some.inj hsame, hread]
      rfl
    · rename_i hnone
      cases hnone
  | negSucc n =>
    have hread := natural?_digits (n := n + 1) hi
    simp only [render, hread]
    rfl

theorem foldl_digits_lt {ds : Text} (h : ∀ c ∈ ds, c.isDigit = true) (n : Nat) :
    ds.foldl (fun n c => 10 * n + (c.toNat - 0x30)) n < (n + 1) * 10 ^ ds.length := by
  induction ds generalizing n with
  | nil => simp
  | cons c ds ih =>
    obtain ⟨hc, hrest⟩ := List.forall_mem_cons.mp h
    have hdigit : c.toNat - 0x30 < 10 := by
      have hle : c.toNat ≤ 0x39 := by
        simpa [Char.isDigit, UInt32.le_iff_toNat_le] using (Bool.and_eq_true_iff.mp hc).2
      omega
    calc ds.foldl (fun n c => 10 * n + (c.toNat - 0x30)) (10 * n + (c.toNat - 0x30))
        < (10 * n + (c.toNat - 0x30) + 1) * 10 ^ ds.length := ih hrest _
      _ ≤ (10 * (n + 1)) * 10 ^ ds.length := Nat.mul_le_mul_right _ (by omega)
      _ = (n + 1) * 10 ^ (ds.length + 1) := by rw [Nat.pow_succ', Nat.mul_comm 10, Nat.mul_assoc]

theorem lt_of_natural? {ds : Text} (h : natural? ds = some n) : n < 10 ^ digitLimit := by
  unfold natural? at h
  split at h
  · rename_i hok
    obtain rfl := Option.some.inj h
    simp only [Bool.and_eq_true, decide_eq_true_eq, List.all_eq_true] at hok
    have hlt := foldl_digits_lt hok.1.2 0
    rw [Nat.zero_add, Nat.one_mul] at hlt
    exact Nat.lt_of_lt_of_le hlt (Nat.pow_le_pow_right (by decide) hok.2)
  · cases h

theorem short_of_read? (h : read? t = some i) : Short i := by
  unfold read? at h
  unfold Short
  split at h
  · obtain ⟨m, hm, rfl⟩ := Option.map_eq_some_iff.mp h
    obtain ⟨n, hn, hpure⟩ := Option.bind_eq_some_iff.mp hm
    obtain rfl := Option.some.inj hpure
    simpa using lt_of_natural? hn
  · obtain ⟨n, hn, rfl⟩ := Option.map_eq_some_iff.mp h
    exact lt_of_natural? hn
  · obtain ⟨n, hn, rfl⟩ := Option.map_eq_some_iff.mp h
    exact lt_of_natural? hn
  · cases h

end Integer

end Numeral

end DecisionDiagram
