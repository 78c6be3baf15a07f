import DecisionDiagram.Proofs.EvaluationSteps
import DecisionDiagram.Proofs.MethodEffects
import Mathlib
/-! Walks in one direction, against the iterates of the branch that they follow. A walk meets the
iterates in their order until one of them comes up a second time, and from there on there is nothing
new to meet. -/
namespace DecisionDiagram

namespace Store

variable {s : Store} {side : Bool} {met rs : List Ref} {r q n t : Ref} {i : Nat}

/-- The iterates of a branch from a vertex on. There is none after a terminal, nor where the branch
is missing. -/
def orbit (s : Store) (side : Bool) (r : Ref) : Nat → Option Ref
  | 0 => some r
  | i + 1 => (s.orbit side r i).bind (s.next side)

/-- The list is an initial segment of the iterates. -/
def Opens (s : Store) (side : Bool) (r : Ref) (rs : List Ref) : Prop :=
  ∀ i, i < rs.length → s.orbit side r i = rs[i]?

/-- Every branch leads to a vertex of the store. -/
def Closed (s : Store) : Prop := ∀ r side n, s.branch side r = some n → n < s.size

theorem next_of_not_isTerminal (h : s.isTerminal r = false) : s.next side r = s.branch side r := by
  unfold isTerminal at h
  unfold next branch
  cases hx : s.vertex? r with
  | none => rfl
  | some x =>
    simp only [hx, Option.any_some] at h
    simp [Vertex.next, h]

theorem answer_readBranch (s : Store) (r : Ref) (selector : Selector) :
    Edit.answer (readBranch r selector) s = .ok (s.next selector.side r) := by
  rw [Edit.answer, readBranch_run]
  cases hterm : s.isTerminal r with
  | true => rw [next_of_isTerminal hterm, if_pos rfl]
  | false => rw [next_of_not_isTerminal hterm, if_neg Bool.false_ne_true]

theorem orbit_succ : s.orbit side r (i + 1) = (s.next side r).bind fun n => s.orbit side n i := by
  induction i with
  | zero => exact (Option.bind_fun_some _).symm
  | succ i ih =>
    rw [orbit, ih, Option.bind_assoc]
    rfl

theorem opens_cons : s.Opens side r (q :: rs) ↔
    q = r ∧ (rs = [] ∨ ∃ n, s.next side r = some n ∧ s.Opens side n rs) := by
  constructor
  · intro h
    refine ⟨(Option.some.inj (h 0 (Nat.succ_pos _))).symm, ?_⟩
    cases rs with
    | nil => exact .inl rfl
    | cons n rest =>
      have hn : s.next side r = some n := h 1 (by simp)
      refine .inr ⟨n, hn, fun i hi => ?_⟩
      have hnext := h (i + 1) (Nat.succ_lt_succ hi)
      rwa [orbit_succ, hn] at hnext
  · rintro ⟨rfl, hrest⟩ (_ | i) hi
    · rfl
    · obtain rfl | ⟨n, hn, hopens⟩ := hrest
      · simp at hi
      · rw [orbit_succ, hn]
        exact hopens i (Nat.lt_of_succ_lt_succ hi)

theorem opens_walkOn : s.Opens side r (s.walkOn side met r) := by
  fun_induction Store.walkOn with
  | case1 => exact fun _ hi => absurd hi (Nat.not_lt_zero _)
  | case2 => exact opens_cons.mpr ⟨rfl, .inl rfl⟩
  | case3 _ _ _ n hn ih => exact opens_cons.mpr ⟨rfl, .inr ⟨n, hn, ih⟩⟩

theorem nodup_walkOn : (s.walkOn side met r).Nodup ∧ ∀ q ∈ s.walkOn side met r, q ∉ met := by
  fun_induction Store.walkOn with
  | case1 => simp
  | case2 _ _ hnew => simpa using hnew
  | case3 met r hnew n _ ih =>
    refine ⟨List.nodup_cons.mpr ⟨fun hmem => ih.2 r hmem List.mem_cons_self, ih.1⟩, fun q hq => ?_⟩
    rcases List.mem_cons.mp hq with rfl | hq
    · exact hnew
    · exact fun hmet => ih.2 q hq (List.mem_cons_of_mem _ hmet)

theorem Opens.prefix_walkOn (h : s.Opens side r rs) (hnodup : rs.Nodup) (hnew : ∀ q ∈ rs, q ∉ met) :
    rs <+: s.walkOn side met r := by
  fun_induction Store.walkOn generalizing rs with
  | case1 met r hold =>
    cases rs with
    | nil => exact List.nil_prefix
    | cons q rs => exact absurd ((opens_cons.mp h).1 ▸ hold) (hnew q List.mem_cons_self)
  | case2 met r _ hnone =>
    cases rs with
    | nil => exact List.nil_prefix
    | cons q rs =>
      obtain ⟨rfl, rfl | ⟨n, hn, -⟩⟩ := opens_cons.mp h
      · exact List.prefix_rfl
      · simp [hnone] at hn
  | case3 met r _ n hn ih =>
    cases rs with
    | nil => exact List.nil_prefix
    | cons q rs =>
      obtain ⟨rfl, rfl | ⟨n', hn', hopens⟩⟩ := opens_cons.mp h
      · simp
      · obtain rfl := Option.some.inj (hn.symm.trans hn')
        obtain ⟨hq, hrs⟩ := List.nodup_cons.mp hnodup
        refine List.cons_prefix_cons.mpr ⟨rfl, ih hopens hrs fun x hx hmet => ?_⟩
        rcases List.mem_cons.mp hmet with rfl | hmet
        · exact hq hx
        · exact hnew x (List.mem_cons_of_mem _ hx) hmet

theorem mem_walkOn_self (h : r ∉ met) : r ∈ s.walkOn side met r := by
  rw [walkOn_eq, if_neg h]
  cases s.next side r <;> simp

theorem mem_walkOn_of_next (hq : q ∈ s.walkOn side met r) (hn : s.next side q = some n) :
    n ∈ s.walkOn side met r ∨ n ∈ met := by
  fun_induction Store.walkOn with
  | case1 => simp at hq
  | case2 _ _ _ hnone =>
    obtain rfl := List.mem_singleton.mp hq
    simp [hnone] at hn
  | case3 met r _ n' hn' ih =>
    have htail : n ∈ s.walkOn side (r :: met) n' ∨ n ∈ r :: met := by
      rcases List.mem_cons.mp hq with rfl | hq
      · obtain rfl := Option.some.inj (hn'.symm.trans hn)
        by_cases hmet : n' ∈ q :: met
        · exact .inr hmet
        · exact .inl (mem_walkOn_self hmet)
      · exact ih hq
    simp only [List.mem_cons] at htail ⊢
    tauto

theorem exists_walkOn_eq (h : r ∉ met) : ∃ front last, s.walkOn side met r = front ++ [last] ∧
    ∀ q ∈ front, (s.next side q).isSome := by
  fun_induction Store.walkOn with
  | case1 _ _ hold => exact absurd hold h
  | case2 _ r => exact ⟨[], r, rfl, by simp⟩
  | case3 met r _ n hn ih =>
    have hr : (s.next side r).isSome := by rw [hn]; rfl
    by_cases hmet : n ∈ r :: met
    · exact ⟨[], r, by rw [walkOn_eq, if_pos hmet]; rfl, by simp⟩
    · obtain ⟨front, last, heq, hfront⟩ := ih hmet
      exact ⟨r :: front, last, by rw [heq]; rfl, List.forall_mem_cons.mpr ⟨hr, hfront⟩⟩

theorem mem_walk_iff : q ∈ s.walk side r ↔ ∃ i, s.orbit side r i = some q := by
  constructor
  · intro h
    obtain ⟨i, hi, rfl⟩ := List.getElem_of_mem h
    exact ⟨i, (opens_walkOn i hi).trans (List.getElem?_eq_getElem hi)⟩
  · rintro ⟨i, hi⟩
    induction i generalizing q with
    | zero => exact Option.some.inj hi ▸ mem_walkOn_self List.not_mem_nil
    | succ i ih =>
      obtain ⟨p, hp, hq⟩ := Option.bind_eq_some_iff.mp hi
      exact (mem_walkOn_of_next (ih hp) hq).resolve_right List.not_mem_nil

theorem isTerminal_eq_false_of_next (h : s.next side r = some n) : s.isTerminal r = false := by
  cases hterm : s.isTerminal r with
  | true => simp [next_of_isTerminal hterm] at h
  | false => rfl

theorem branch_of_next (h : s.next side r = some n) : s.branch side r = some n :=
  (next_of_not_isTerminal (isTerminal_eq_false_of_next h)).symm.trans h

theorem exists_walk_eq (s : Store) (side : Bool) (r : Ref) :
    ∃ front last, s.walk side r = front ++ [last] ∧
    (∀ q ∈ front, s.isTerminal q = false ∧ ∃ n, s.branch side q = some n) ∧
    (s.isTerminal last = true ∨ s.branch side last = none ∨
      ∃ n ∈ s.walk side r, s.branch side last = some n) := by
  obtain ⟨front, last, heq, hfront⟩ : ∃ front last, s.walk side r = front ++ [last] ∧ _ :=
    exists_walkOn_eq List.not_mem_nil
  refine ⟨front, last, heq, fun q hq => ?_, ?_⟩
  · obtain ⟨n, hn⟩ := Option.isSome_iff_exists.mp (hfront q hq)
    exact ⟨isTerminal_eq_false_of_next hn, n, branch_of_next hn⟩
  · cases hterm : s.isTerminal last with
    | true => exact .inl rfl
    | false =>
      cases hn : s.branch side last with
      | none => exact .inr (.inl rfl)
      | some n =>
        have hlast : last ∈ s.walk side r := by simp [heq]
        have hnext : s.next side last = some n := (next_of_not_isTerminal hterm).trans hn
        exact .inr (.inr ⟨n, (mem_walkOn_of_next hlast hnext).resolve_right List.not_mem_nil, rfl⟩)

theorem closed_iff : s.Closed ↔ ∀ x ∈ s.vertices, ∀ side, ∀ n ∈ x.branch side, n < s.size := by
  constructor
  · intro h x hx side n hn
    obtain ⟨r, hr⟩ := Array.mem_iff_getElem?.mp hx
    exact h r side n (Option.bind_eq_some_iff.mpr ⟨x, hr, hn⟩)
  · intro h r side n hn
    obtain ⟨x, hx, hn⟩ := Option.bind_eq_some_iff.mp hn
    exact h x (Array.mem_iff_getElem?.mpr ⟨r, hx⟩) side n hn

instance : Decidable s.Closed := decidable_of_iff' _ closed_iff

namespace Closed

theorem orbit_lt (h : s.Closed) (hr : r < s.size) (hq : s.orbit side r i = some q) :
    q < s.size := by
  cases i with
  | zero => exact Option.some.inj hq ▸ hr
  | succ i =>
    obtain ⟨p, -, hp⟩ := Option.bind_eq_some_iff.mp hq
    exact h p side q (branch_of_next hp)

theorem length_walk_le (h : s.Closed) (hr : r < s.size) : (s.walk side r).length ≤ s.size := by
  have hsub : s.walk side r ⊆ s.refs := fun q hq => by
    obtain ⟨i, hi⟩ := mem_walk_iff.mp hq
    exact mem_refs.mpr (h.orbit_lt hr hi)
  have hnodup : (s.walk side r).Nodup := nodup_walkOn.1
  simpa [refs] using (hnodup.subperm hsub).length_le

end Closed

theorem terminalAlong_eq_some_iff :
    s.terminalAlong side r = some t ↔ s.isTerminal t = true ∧ ∃ i, s.orbit side r i = some t := by
  rw [← mem_walk_iff]
  constructor
  · intro h
    exact ⟨by simpa using List.find?_some h, List.mem_of_find?_eq_some h⟩
  · rintro ⟨ht, hmem⟩
    obtain ⟨front, last, heq, hfront, -⟩ := s.exists_walk_eq side r
    have hnone : ∀ q ∈ front, s.isTerminal q = false := fun q hq => (hfront q hq).1
    obtain rfl : t = last := by
      rw [heq, List.mem_append, List.mem_singleton] at hmem
      rcases hmem with hmem | hmem
      · simp [hnone t hmem] at ht
      · exact hmem
    rw [terminalAlong, heq, List.find?_append,
      List.find?_eq_none.mpr fun q hq => by simp [hnone q hq]]
    simp [ht]

theorem terminalAlong_eq_none_iff :
    s.terminalAlong side r = none ↔ ∀ i q, s.orbit side r i = some q → s.isTerminal q = false := by
  rw [terminalAlong, List.find?_eq_none]
  simp only [mem_walk_iff, Bool.not_eq_true]
  exact ⟨fun h i q hq => h q ⟨i, hq⟩, fun h q ⟨i, hq⟩ => h i q hq⟩

end Store

/-- A walk in one direction, whatever the branches lead to. Its vertices are the longest initial
segment of the iterates without repetition: one that ends with the first terminal, where the branch
is missing, or just before the first vertex that comes up again. There are as many as the store has
vertices, at most. A terminal is found if and only if it is one of the iterates. -/
theorem walk_longest_segment (s : Store) (selector : Selector) (r : Ref) :
    (∀ q, Edit.answer (readBranch q selector) s = .ok (s.next selector.side q)) ∧
    (s.walk selector.side r).Nodup ∧ s.Opens selector.side r (s.walk selector.side r) ∧
    (∀ rs : List Ref, rs.Nodup → s.Opens selector.side r rs → rs <+: s.walk selector.side r) ∧
    (∃ front last, s.walk selector.side r = front ++ [last] ∧
      (∀ q ∈ front, s.isTerminal q = false ∧ ∃ n, s.branch selector.side q = some n) ∧
      (s.isTerminal last = true ∨ s.branch selector.side last = none ∨
        ∃ n ∈ s.walk selector.side r, s.branch selector.side last = some n)) ∧
    (s.Closed → r < s.size → (s.walk selector.side r).length ≤ s.size) ∧
    (∀ t, s.terminalAlong selector.side r = some t ↔
      s.isTerminal t = true ∧ ∃ i, s.orbit selector.side r i = some t) ∧
    (s.terminalAlong selector.side r = none ↔
      ∀ i q, s.orbit selector.side r i = some q → s.isTerminal q = false) :=
  ⟨fun q => s.answer_readBranch q selector, Store.nodup_walkOn.1, Store.opens_walkOn,
    fun _ hnodup hopens => hopens.prefix_walkOn hnodup fun _ _ => List.not_mem_nil,
    s.exists_walk_eq selector.side r, fun h hr => h.length_walk_le hr,
    fun _ => Store.terminalAlong_eq_some_iff, Store.terminalAlong_eq_none_iff⟩

/-- Three nodes: the `hi` branches of the second and third lead back and forth between them, and the
`lo` branch of the third leads to a terminal. -/
def roundabout : Store where
  vertices := #[{ kind := .decision 1, hi := some 1, lo := some 2 },
    { kind := .decision 2, hi := some 2 },
    { kind := .decision 3, hi := some 1, lo := some 3 }, { kind := .terminal 4 true }]

theorem walk_longest_segment_roundabout : roundabout.Closed ∧ 0 < roundabout.size ∧
    roundabout.walk true 0 = [0, 1, 2] ∧ roundabout.terminalAlong true 0 = none ∧
    (∀ i q, roundabout.orbit true 0 i = some q → roundabout.isTerminal q = false) ∧
    roundabout.walk false 0 = [0, 2, 3] ∧ (∃ i, roundabout.orbit false 0 i = some 3) ∧
    (roundabout.walk true 0).length ≤ roundabout.size := by
  obtain ⟨-, -, -, -, -, hlength, -, hnone⟩ := walk_longest_segment roundabout (.flag true) 0
  obtain ⟨-, -, -, -, -, -, hsome, -⟩ := walk_longest_segment roundabout (.flag false) 0
  have hclosed : roundabout.Closed := by decide
  have hround : roundabout.terminalAlong true 0 = none := by cbv
  have hfound : roundabout.terminalAlong false 0 = some 3 := by cbv
  exact ⟨hclosed, by decide, by cbv, hround, hnone.mp hround, by cbv, ((hsome 3).mp hfound).2,
    hlength hclosed (by decide)⟩

end DecisionDiagram
