import DecisionDiagram.Order.Merge
import Mathlib.Data.List.Basic
/-! Merging keeps the order: if the answers speak for a relation that is transitive on the elements,
and two lists are in order, then so is the list that they are joined to. -/
namespace DecisionDiagram.Order

variable {ε α : Type} {P : α → Prop} {R : α → α → Prop} {precedes : α → α → Except ε Bool}
variable {holds : α → Except ε Bool} {d : Direction} {p x y : α} {xs ys zs list : List α}
variable {low high next n threshold : Nat} {merged : Merged α}

def TransOn (P : α → Prop) (R : α → α → Prop) : Prop :=
  ∀ x y z, P x → P y → P z → R x y → R y z → R x z

/-- On the elements of interest the relation is transitive, and an answer speaks for it: an element
that precedes another may stand before it, and one that does not, behind. -/
structure Ranks (P : α → Prop) (R : α → α → Prop) (precedes : α → α → Except ε Bool) : Prop where
  trans : TransOn P R
  before : ∀ x y, P x → P y → precedes x y = .ok true → R x y
  behind : ∀ x y, P x → P y → precedes x y = .ok false → R y x

structure Ascends (P : α → Prop) (R : α → α → Prop) (xs : List α) : Prop where
  all : ∀ x ∈ xs, P x
  pairwise : xs.Pairwise R

namespace Ascends

theorem sublist (h : Ascends P R ys) (hsub : xs.Sublist ys) : Ascends P R xs :=
  ⟨fun x hx => h.all x (hsub.subset hx), h.pairwise.sublist hsub⟩

theorem take (h : Ascends P R xs) (n : Nat) : Ascends P R (xs.take n) :=
  h.sublist (List.take_sublist n xs)

theorem drop (h : Ascends P R xs) (n : Nat) : Ascends P R (xs.drop n) :=
  h.sublist (List.drop_sublist n xs)

theorem tail (h : Ascends P R (x :: xs)) : Ascends P R xs := h.sublist (List.sublist_cons_self x xs)

theorem reverse (h : Ascends P R xs) : Ascends P (flip R) xs.reverse :=
  ⟨fun x hx => h.all x (List.mem_reverse.mp hx), List.pairwise_reverse.mpr h.pairwise⟩

theorem append (h : Ascends P R (xs ++ ys)) :
    Ascends P R xs ∧ Ascends P R ys ∧ ∀ x ∈ xs, ∀ y ∈ ys, R x y :=
  ⟨h.sublist (List.sublist_append_left xs ys), h.sublist (List.sublist_append_right xs ys),
    (List.pairwise_append.mp h.pairwise).2.2⟩

theorem of_append (hx : Ascends P R xs) (hy : Ascends P R ys) (hxy : ∀ x ∈ xs, ∀ y ∈ ys, R x y) :
    Ascends P R (xs ++ ys) where
  all z hz := (List.mem_append.mp hz).elim (hx.all z) (hy.all z)
  pairwise := List.pairwise_append.mpr ⟨hx.pairwise, hy.pairwise, hxy⟩

theorem cons (hx : P x) (hxs : Ascends P R xs) (hrel : ∀ z ∈ xs, R x z) : Ascends P R (x :: xs) :=
  ⟨List.forall_mem_cons.mpr ⟨hx, hxs.all⟩, List.pairwise_cons.mpr ⟨hrel, hxs.pairwise⟩⟩

theorem singleton (hx : P x) : Ascends P R [x] := ⟨by simpa, List.pairwise_singleton R x⟩

end Ascends

/-- The elements up to a place satisfy a condition, as far as the last of them was asked, and the
element at the place does not. -/
structure Turns (holds : α → Except ε Bool) (xs : List α) (n : Nat) : Prop where
  le : n ≤ xs.length
  yes : ∀ i (hi : i < xs.length), i + 1 = n → holds xs[i] = .ok true
  no : ∀ hn : n < xs.length, holds xs[n] = .ok false

namespace Turns

theorem of_bisect {bound : high ≤ xs.length} (h : bisect d holds xs low high bound = .ok n)
    (hlow : low ≤ high) (yes : ∀ i (hi : i < xs.length), i + 1 = low → holds xs[i] = .ok true)
    (no : ∀ hn : high < xs.length, holds xs[high] = .ok false) : Turns holds xs n := by
  fun_induction bisect d holds xs low high bound with
  | case1 low high bound hlt hm ihHigher ihLower =>
    obtain ⟨b, hb, h⟩ := exists_of_bind_eq_ok h
    cases b with
    | true =>
      refine ihHigher h (by omega) (fun i hi hin => ?_) no
      obtain rfl : i = d.middle low high := by omega
      exact hb
    | false => exact ihLower h hm.1 yes fun _ => hb
  | case2 low high bound hlt =>
    obtain rfl := Except.ok.inj h
    obtain rfl : low = high := by omega
    exact ⟨bound, yes, no⟩

theorem of_gallop (h : gallop d holds xs low next = .ok n) (hlow : low ≤ next)
    (bound : low ≤ xs.length)
    (yes : ∀ i (hi : i < xs.length), i + 1 = low → holds xs[i] = .ok true) : Turns holds xs n := by
  fun_induction gallop d holds xs low next with
  | case1 low next hlt ih =>
    obtain ⟨b, hb, h⟩ := exists_of_bind_eq_ok h
    cases b with
    | true =>
      refine ih h (by omega) (by omega) fun i hi hin => ?_
      obtain rfl : i = next := by omega
      exact hb
    | false => exact of_bisect h hlow yes fun _ => hb
  | case2 low next hlt => exact of_bisect h bound yes fun hn => absurd hn (Nat.lt_irrefl _)

theorem of_stretch (h : stretch d holds xs = .ok n) : Turns holds xs n :=
  of_gallop h (Nat.le_refl 0) (Nat.zero_le _) fun _ _ hi => by omega

theorem of_bisectWhole (h : bisectWhole d holds xs = .ok n) : Turns holds xs n :=
  of_bisect h (Nat.zero_le _) (fun _ _ hi => by omega) fun hn => absurd hn (Nat.lt_irrefl _)

end Turns

namespace TransOn

theorem around (h : TransOn P R) (hzs : Ascends P R zs) (hp : P p) (hlist : Ascends P R list)
    (hbefore : ∀ z ∈ zs, R z p) (hbehind : ∀ z ∈ list, R p z) :
    Ascends P R (zs ++ [p] ++ list) := by
  rw [List.append_assoc]
  refine hzs.of_append (.cons hp hlist hbehind) fun z hz w hw => ?_
  rcases List.mem_cons.mp hw with rfl | hw
  · exact hbefore z hz
  · exact h z p w (hzs.all z hz) hp (hlist.all w hw) (hbefore z hz) (hbehind w hw)

theorem rel_of_cons (h : TransOn P R) (hys : Ascends P R (y :: ys)) (hx : P x) (hxy : R x y) :
    ∀ z ∈ y :: ys, R x z := by
  intro z hz
  rcases List.mem_cons.mp hz with rfl | hz
  · exact hxy
  · exact h x y z hx (hys.all y List.mem_cons_self) (hys.all z (List.mem_cons_of_mem y hz)) hxy
      (List.rel_of_pairwise_cons hys.pairwise hz)

theorem rel_of_take (h : TransOn P R) (hxs : Ascends P R xs) (hp : P p) (hn : Turns holds xs n)
    (hyes : ∀ x ∈ xs, holds x = .ok true → R x p) : ∀ x ∈ xs.take n, R x p := by
  intro x hx
  obtain ⟨i, hi, rfl⟩ := List.mem_take_iff_getElem.mp hx
  have hle := hn.le
  have hlast : n - 1 < xs.length := by omega
  have hlastp : R xs[n - 1] p := hyes _ (List.getElem_mem hlast) (hn.yes (n - 1) hlast (by omega))
  rcases Nat.lt_or_ge i (n - 1) with hlt | hge
  · exact h _ _ p (hxs.all _ (List.getElem_mem _)) (hxs.all _ (List.getElem_mem _)) hp
      (List.pairwise_iff_getElem.mp hxs.pairwise i (n - 1) (by omega) hlast hlt) hlastp
  · obtain rfl : i = n - 1 := by omega
    exact hlastp

theorem rel_of_drop (h : TransOn P R) (hxs : Ascends P R xs) (hp : P p) (hn : Turns holds xs n)
    (hno : ∀ x ∈ xs, holds x = .ok false → R p x) : ∀ x ∈ xs.drop n, R p x := by
  intro x hx
  obtain ⟨i, hi, rfl⟩ := List.mem_drop_iff_getElem.mp hx
  have hfirst : n < xs.length := by omega
  have hpfirst : R p xs[n] := hno _ (List.getElem_mem hfirst) (hn.no hfirst)
  rcases Nat.eq_zero_or_pos i with rfl | hpos
  · exact hpfirst
  · exact h p _ _ hp (hxs.all _ (List.getElem_mem _)) (hxs.all _ (List.getElem_mem _)) hpfirst
      (List.pairwise_iff_getElem.mp hxs.pairwise n (n + i) hfirst (by omega) (by omega))

end TransOn

theorem eq_of_not {a : Except ε Bool} {b : Bool} (h : (do return !(← a)) = Except.ok b) :
    a = .ok !b := by
  obtain ⟨c, hc, h⟩ := exists_of_bind_eq_ok h
  cases h
  rw [hc, Bool.not_not]

/-- The relation in the direction of a merging, and what the answers of the merging say about it. -/
structure Guides (d : Direction) (P : α → Prop) (R : α → α → Prop)
    (precedes : α → α → Except ε Bool) : Prop where
  trans : TransOn P R
  before : ∀ x y, P x → P y → d.leads precedes x y = .ok true → R x y
  behind : ∀ x y, P x → P y → d.leads precedes x y = .ok false → R y x

theorem Ranks.up (h : Ranks P R precedes) : Guides .up P R precedes where
  trans := h.trans
  before x y hx hy hlead := h.behind y x hy hx (eq_of_not hlead)
  behind x y hx hy hlead := h.before y x hy hx (eq_of_not hlead)

theorem Ranks.down (h : Ranks P R precedes) : Guides .down P (flip R) precedes where
  trans x y z hx hy hz hxy hyz := h.trans z y x hz hy hx hyz hxy
  before x y hx hy hlead := h.before y x hy hx hlead
  behind x y hx hy hlead := h.behind y x hy hx hlead

def Direction.Reserve (R : α → α → Prop) (xs ys : List α) : Direction → Prop
  | up => ∀ x ∈ xs.getLast?, ∀ y ∈ ys, R y x
  | down => ∀ y ∈ ys.getLast?, ∀ x ∈ xs, R x y

theorem mem_getLast?_of_suffix (h : xs <:+ ys) (hx : x ∈ xs.getLast?) : x ∈ ys.getLast? := by
  obtain ⟨front, rfl⟩ := h
  rw [Option.mem_def] at hx
  simp [List.getLast?_append, hx]

theorem Direction.Reserve.suffix {xs' ys' : List α} (h : d.Reserve R xs ys) (hx : xs' <:+ xs)
    (hy : ys' <:+ ys) : d.Reserve R xs' ys' := by
  cases d with
  | up => exact fun x hlast y hmem => h x (mem_getLast?_of_suffix hx hlast) y (hy.subset hmem)
  | down => exact fun y hlast x hmem => h y (mem_getLast?_of_suffix hy hlast) x (hx.subset hmem)

theorem Ascends.settle (hx : Ascends P R xs) (hy : Ascends P R ys) (hreserve : d.Reserve R xs ys)
    (hsettled : d.isSettled xs ys = true) : Ascends P R (d.settle xs ys) := by
  cases d with
  | up =>
    refine hy.of_append hx fun y hmem x hxs => hreserve x ?_ y hmem
    have hlength : xs.length ≤ 1 := by
      simp only [Direction.isSettled, Bool.or_eq_true, List.isEmpty_iff,
        decide_eq_true_eq] at hsettled
      exact hsettled.resolve_left (List.ne_nil_of_mem hmem)
    match xs, hlength with
    | [z], _ => simpa using (List.mem_singleton.mp hxs).symm
  | down =>
    refine hx.of_append hy fun x hmem y hys => hreserve y ?_ x hmem
    have hlength : ys.length ≤ 1 := by
      simp only [Direction.isSettled, Bool.or_eq_true, List.isEmpty_iff,
        decide_eq_true_eq] at hsettled
      exact hsettled.resolve_left (List.ne_nil_of_mem hmem)
    match ys, hlength with
    | [z], _ => simpa using (List.mem_singleton.mp hys).symm

namespace Guides

theorem merge_ascends (h : Guides d P R precedes) {pace : Pace} (hxs : Ascends P R xs)
    (hys : Ascends P R ys) (hreserve : d.Reserve R xs ys)
    (hmerge : merge d precedes threshold pace xs ys = .ok merged) : Ascends P R merged.list := by
  -- `case2` compares the two heads; `case3` and `case4` gallop for one head through the other run.
  fun_induction merge d precedes threshold pace xs ys generalizing merged with
  | case1 threshold pace x xs y ys hsettled =>
    cases hmerge
    exact hxs.settle hys hreserve hsettled
  | case2 threshold x xs y ys _ lower upper ihLower ihUpper =>
    have hx := hxs.all x List.mem_cons_self
    have hy := hys.all y List.mem_cons_self
    obtain ⟨b, hlead, hmerge⟩ := exists_of_bind_eq_ok hmerge
    split at hmerge
    · obtain ⟨left, hleft, hmerge⟩ := exists_of_bind_eq_ok hmerge
      cases hmerge
      have hleft' :=
        ihLower hxs.tail hys (hreserve.suffix (List.suffix_cons x xs) List.suffix_rfl) hleft
      subst b
      refine .cons hx hleft' fun z hz => ?_
      rcases List.mem_append.mp ((perm_of_merge hleft).mem_iff.mp hz) with hz | hz
      · exact List.rel_of_pairwise_cons hxs.pairwise hz
      · exact h.trans.rel_of_cons hys hx (h.before x y hx hy hlead) z hz
    · obtain ⟨left, hleft, hmerge⟩ := exists_of_bind_eq_ok hmerge
      cases hmerge
      have hleft' :=
        ihUpper hxs hys.tail (hreserve.suffix List.suffix_rfl (List.suffix_cons y ys)) hleft
      obtain rfl : b = false := by simpa using ‹¬ b = true›
      refine .cons hy hleft' fun z hz => ?_
      rcases List.mem_append.mp ((perm_of_merge hleft).mem_iff.mp hz) with hz | hz
      · exact h.trans.rel_of_cons hxs hy (h.behind x y hx hy hlead) z hz
      · exact List.rel_of_pairwise_cons hys.pairwise hz
  | case3 threshold x xs y ys _ ih =>
    have hy := hys.all y List.mem_cons_self
    obtain ⟨n, hn, hmerge⟩ := exists_of_bind_eq_ok hmerge
    obtain ⟨left, hleft, hmerge⟩ := exists_of_bind_eq_ok hmerge
    cases hmerge
    have hturns := Turns.of_stretch hn
    have hleft' := ih n (hxs.drop n) hys.tail
      (hreserve.suffix (List.drop_suffix n _) (List.suffix_cons y ys)) hleft
    refine h.trans.around (hxs.take n) hy hleft' ?_ fun z hz => ?_
    · exact h.trans.rel_of_take hxs hy hturns fun z hz => h.before z y (hxs.all z hz) hy
    · rcases List.mem_append.mp ((perm_of_merge hleft).mem_iff.mp hz) with hz | hz
      · exact h.trans.rel_of_drop hxs hy hturns (fun z hz => h.behind z y (hxs.all z hz) hy) z hz
      · exact List.rel_of_pairwise_cons hys.pairwise hz
  | case4 threshold x xs y ys _ n ih =>
    have hx := hxs.all x List.mem_cons_self
    obtain ⟨m, hm, hmerge⟩ := exists_of_bind_eq_ok hmerge
    obtain ⟨left, hleft, hmerge⟩ := exists_of_bind_eq_ok hmerge
    cases hmerge
    have hturns := Turns.of_stretch hm
    have hleft' := ih m _ _ hxs.tail (hys.drop m)
      (hreserve.suffix (List.suffix_cons x xs) (List.drop_suffix m _)) hleft
    refine h.trans.around (hys.take m) hx hleft' ?_ fun z hz => ?_
    · exact h.trans.rel_of_take hys hx hturns fun z hz hlead =>
        h.behind x z hx (hys.all z hz) (eq_of_not hlead)
    · rcases List.mem_append.mp ((perm_of_merge hleft).mem_iff.mp hz) with hz | hz
      · exact List.rel_of_pairwise_cons hxs.pairwise hz
      · exact h.trans.rel_of_drop hys hx hturns
          (fun z hz hlead => h.before x z hx (hys.all z hz) (eq_of_not hlead)) z hz
  | case5 threshold pace xs ys hempty =>
    cases hmerge
    refine hxs.of_append hys fun x hx y hy => ?_
    obtain ⟨z, zs, rfl⟩ := List.exists_cons_of_ne_nil (List.ne_nil_of_mem hx)
    obtain ⟨w, ws, rfl⟩ := List.exists_cons_of_ne_nil (List.ne_nil_of_mem hy)
    exact (hempty z zs w ws rfl rfl).elim

end Guides

namespace Ranks

theorem interleave_ascends (h : Ranks P R precedes) (hxs : Ascends P R xs) (hys : Ascends P R ys)
    (hfirst : ∀ y ∈ ys.head?, ∀ x ∈ xs, R y x) (hlast : ∀ x ∈ xs.getLast?, ∀ y ∈ ys, R y x)
    (hmerge : interleave precedes threshold xs ys = .ok merged) : Ascends P R merged.list := by
  unfold interleave at hmerge
  split at hmerge
  · split at hmerge
    · cases hmerge
      exact hxs
    · rename_i y ys _
      obtain ⟨left, hleft, hmerge⟩ := exists_of_bind_eq_ok hmerge
      cases hmerge
      have hleft' := h.up.merge_ascends hxs hys.tail
        (fun x hx z hz => hlast x hx z (List.mem_cons_of_mem y hz)) hleft
      refine .cons (hys.all y List.mem_cons_self) hleft' fun z hz => ?_
      rcases List.mem_append.mp ((perm_of_merge hleft).mem_iff.mp hz) with hz | hz
      · exact hfirst y rfl z hz
      · exact List.rel_of_pairwise_cons hys.pairwise hz
  · split at hmerge
    · cases hmerge
      exact hys
    · rename_i x front hfront
      obtain ⟨left, hleft, hmerge⟩ := exists_of_bind_eq_ok hmerge
      cases hmerge
      have hdown : Ascends P (flip R) (x :: front) := hfront ▸ hxs.reverse
      have hx : x ∈ xs.getLast? := by rw [← List.head?_reverse, hfront]; rfl
      have hmem : ∀ z ∈ front, z ∈ xs :=
        fun z hz => List.mem_reverse.mp (hfront ▸ List.mem_cons_of_mem x hz)
      have hleft' := h.down.merge_ascends hdown.tail hys.reverse
        (fun y hy z hz => hfirst y (by rwa [List.getLast?_reverse] at hy) z (hmem z hz)) hleft
      refine Ascends.reverse (R := flip R) (.cons (hdown.all x List.mem_cons_self) hleft'
        fun z hz => ?_)
      rcases List.mem_append.mp ((perm_of_merge hleft).mem_iff.mp hz) with hz | hz
      · exact List.rel_of_pairwise_cons hdown.pairwise hz
      · exact hlast x hx z (List.mem_reverse.mp hz)

theorem rel_of_getLast? (h : Ranks P R precedes) (hxs : Ascends P R xs) (hx : x ∈ xs.getLast?)
    (hp : P p) (hxp : R x p) : ∀ z ∈ xs, R z p := by
  obtain ⟨front, hfront⟩ := List.head?_eq_some_iff.mp ((List.head?_reverse (l := xs)).trans hx)
  intro z hz
  rw [← List.mem_reverse, hfront] at hz
  exact h.down.trans.rel_of_cons (hfront ▸ hxs.reverse) hp hxp z hz

theorem lower_parted (h : Ranks P R precedes) (hxs : Ascends P R xs) (hy : P y)
    (hn : stretch .up (fun x => Direction.up.leads precedes x y) xs = .ok n) :
    (∀ z ∈ xs.take n, R z y) ∧ ∀ z ∈ xs.drop n, R y z :=
  ⟨h.up.trans.rel_of_take hxs hy (.of_stretch hn) fun z hz => h.up.before z y (hxs.all z hz) hy,
    h.up.trans.rel_of_drop hxs hy (.of_stretch hn) fun z hz => h.up.behind z y (hxs.all z hz) hy⟩

theorem upper_parted (h : Ranks P R precedes) (hys : Ascends P R ys) (hx : P x)
    (hn : stretch .down (fun y => return !(← Direction.down.leads precedes x y))
      ys.reverse = .ok n) :
    (∀ z ∈ ys.take (ys.length - n), R z x) ∧ ∀ z ∈ ys.drop (ys.length - n), R x z := by
  have hall := hys.reverse.all
  constructor
  · intro z hz
    rw [← List.mem_reverse, ← List.drop_reverse] at hz
    exact h.down.trans.rel_of_drop hys.reverse hx (.of_stretch hn)
      (fun w hw hlead => h.down.before x w hx (hall w hw) (eq_of_not hlead)) z hz
  · intro z hz
    rw [← List.mem_reverse, ← List.take_reverse] at hz
    exact h.down.trans.rel_of_take hys.reverse hx (.of_stretch hn)
      (fun w hw hlead => h.down.behind x w hx (hall w hw) (eq_of_not hlead)) z hz

/-- Two neighbouring runs in order are joined to a run in order. -/
theorem join_ascends (h : Ranks P R precedes) (hxs : Ascends P R xs) (hys : Ascends P R ys)
    (hjoin : join precedes threshold xs ys = .ok merged) : Ascends P R merged.list := by
  unfold join at hjoin
  split at hjoin
  · cases hjoin
    exact hxs
  · rename_i y ys
    obtain ⟨n, hn, hjoin⟩ := exists_of_bind_eq_ok hjoin
    -- What comes before the head of `ys`, or after the last of `xs`, is not merged at all.
    obtain ⟨hlower, hupper⟩ := h.lower_parted hxs (hys.all y List.mem_cons_self) hn
    have hbelow : ∀ z ∈ xs.take n, ∀ w ∈ y :: ys, R z w := fun z hz =>
      h.up.trans.rel_of_cons hys (hxs.all z (List.mem_of_mem_take hz)) (hlower z hz)
    split at hjoin
    · rename_i hnone
      cases hjoin
      rw [List.getLast?_eq_none_iff] at hnone
      have htake : xs.take n = xs := by simpa [hnone] using List.take_append_drop n xs
      exact hxs.of_append hys (htake ▸ hbelow)
    · rename_i x hx
      obtain ⟨m, hm, hjoin⟩ := exists_of_bind_eq_ok hjoin
      obtain ⟨inner, hinner, hjoin⟩ := exists_of_bind_eq_ok hjoin
      cases hjoin
      have hdrop := hxs.drop n
      obtain ⟨hstart, hend⟩ := h.upper_parted hys (hdrop.all x (List.mem_of_getLast? hx)) hm
      obtain ⟨-, -, hxparts⟩ := ((List.take_append_drop n xs).symm ▸ hxs).append
      obtain ⟨-, htail, hyparts⟩ :=
        ((List.take_append_drop ((y :: ys).length - m) (y :: ys)).symm ▸ hys).append
      have hfirst : ∀ z ∈ ((y :: ys).take ((y :: ys).length - m)).head?, ∀ w ∈ xs.drop n,
          R z w := by
        intro z hz w hw
        obtain rfl : z = y := by cases hlength : (y :: ys).length - m <;> simp_all
        exact hupper w hw
      have hlast : ∀ z ∈ (xs.drop n).getLast?, ∀ w ∈ (y :: ys).take ((y :: ys).length - m),
          R w z := by
        intro z hz w hw
        obtain rfl : z = x := Option.some.inj (hz.symm.trans hx)
        exact hstart w hw
      have hmiddle := h.interleave_ascends hdrop (hys.take _) hfirst hlast hinner
      have hmem : ∀ z ∈ inner.list, z ∈ xs.drop n ∨ z ∈ (y :: ys).take ((y :: ys).length - m) :=
        fun z hz => List.mem_append.mp ((perm_of_interleave hinner).mem_iff.mp hz)
      refine ((hxs.take n).of_append hmiddle fun z hz w hw => ?_).of_append htail
        fun z hz w hw => ?_
      · exact (hmem w hw).elim (hxparts z hz w) fun hw => hbelow z hz w (List.mem_of_mem_take hw)
      · rcases List.mem_append.mp hz with hz | hz
        · exact hbelow z hz w (List.mem_of_mem_drop hw)
        · refine (hmem z hz).elim (fun hz => ?_) fun hz => hyparts z hz w hw
          exact h.rel_of_getLast? hdrop hx (htail.all w hw) (hend w hw) z hz

end Ranks

end DecisionDiagram.Order
