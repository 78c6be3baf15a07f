import DecisionDiagram.Proofs.WriteAgreement
/-! Lines that match, under whatever numbers. The diagrams that are built from two files agree if
and only if the lines below their root lines match. -/
namespace DecisionDiagram.Document
open Numeral Relation

section Matching

variable {lines lines' : Lines} {n n' a b v lo hi : Int} {s s' : Store} {d d' : Ref}
variable {g g' : Registry}
variable {yes no top q yes' no' top' : Ref} {built built' : List (Int × Ref)} {R : Int → Int → Prop}
variable {rule rule' : Rule}

inductive Rule.Matches (R : Int → Int → Prop) : Rule → Rule → Prop
  | constant (value : Bool) : Matches R (.constant value) (.constant value)
  | test (v : Int) {lo hi lo' hi' : Int} (los : R lo lo') (his : R hi hi') :
    Matches R (.test v lo hi) (.test v lo' hi')

/-- Lines that match from the root lines on. A line may be related to any number of others; those
that are not related to any do not matter. -/
structure Matching (R : Int → Int → Prop) (lines lines' : Lines) (root root' : Int) : Prop where
  top : R root root'
  rules : ∀ {a b rule rule'}, R a b → lines.lookup a = some rule → lines'.lookup b = some rule' →
    rule.Matches R rule'

theorem Rule.Matches.variable_eq (h : rule.Matches R rule') : rule.variable = rule'.variable := by
  cases h <;> rfl

theorem Rule.matches_eq (rule : Rule) : rule.Matches (· = ·) rule := by
  cases rule with
  | constant value => exact .constant value
  | test v lo hi => exact .test v rfl rfl

theorem Rule.constant_inj : ∀ {value value' : Bool},
    (constant value).variable = (constant value').variable → value = value' := by decide

theorem Rule.matches_of_variable_eq (heq : rule.variable = rule'.variable)
    (hfree : ∀ v lo hi, rule = .test v lo hi → isReserved v = false)
    (hfree' : ∀ v lo hi, rule' = .test v lo hi → isReserved v = false)
    (hchildren : ∀ v lo hi lo' hi', rule = .test v lo hi → rule' = .test v lo' hi' →
      R lo lo' ∧ R hi hi') :
    rule.Matches R rule' := by
  have hreserved : ∀ value, isReserved (Rule.constant value).variable = true := by decide
  cases rule with
  | constant value =>
    cases rule' with
    | constant value' => exact constant_inj heq ▸ .constant value
    | test v lo hi =>
      have hv := hreserved value
      rw [heq] at hv
      simp [Rule.variable, hfree' v lo hi rfl] at hv
  | test v lo hi =>
    cases rule' with
    | constant value =>
      have hv := hreserved value
      rw [← heq] at hv
      simp [Rule.variable, hfree v lo hi rfl] at hv
    | test v' lo' hi' =>
      obtain rfl : v = v' := heq
      obtain ⟨hlo, hhi⟩ := hchildren v lo hi lo' hi' rfl rfl
      exact .test v hlo hhi

theorem Matching.exists_related (h : Matching R lines lines' n n')
    (hdefined : ∀ x, Below lines' n' x → (lines'.lookup x).isSome) (hbelow : Below lines n a) :
    ∃ b, R a b ∧ Below lines' n' b := by
  induction hbelow with
  | refl => exact ⟨n', h.top, .refl⟩
  | tail hp hchild ih =>
    obtain ⟨b, hR, hb⟩ := ih
    obtain ⟨v, lo, hi, hrule, hside⟩ := child_iff.mp hchild
    obtain ⟨rule', hrule'⟩ := Option.isSome_iff_exists.mp (hdefined b hb)
    cases h.rules hR hrule hrule' with
    | test _ hlo hhi =>
      rcases hside with rfl | rfl
      · exact ⟨_, hlo, hb.tail ((child_of_test hrule').mpr (.inl rfl))⟩
      · exact ⟨_, hhi, hb.tail ((child_of_test hrule').mpr (.inr rfl))⟩

def Twins (lines lines' : Lines) (n n' a b : Int) : Prop := Below lines n a ∧ Below lines' n' b ∧
  ∃ rule rule', lines.lookup a = some rule ∧ lines'.lookup b = some rule' ∧
    rule.variable = rule'.variable

namespace Stands

theorem var?_eq (h : Stands lines n s d g yes no top built) (ha : built.lookup a = some q)
    (hrule : lines.lookup a = some rule) : s.var? q = some rule.variable := by
  cases rule with
  | constant value =>
    obtain rfl := h.constant ha hrule
    cases value
    · exact h.rooted.wired.var?_no
    · exact h.rooted.wired.var?_yes
  | test v lo hi => exact h.rooted.wired.var?_of_find? (h.test ha hrule).1

/-- The variables that are tested are those of the tests below the root line. -/
theorem mem_tested_iff (h : Stands lines n s d g yes no top built) :
    v ∈ s.tested top ↔ ∃ a lo hi, Below lines n a ∧ lines.lookup a = some (.test v lo hi) := by
  rw [← h.isSome_find?_iff]
  constructor
  · exact h.rooted.isSome_find?_of_mem_tested
  · intro hv
    obtain ⟨q, hq⟩ := Option.isSome_iff_exists.mp hv
    obtain ⟨a, lo, hi, ha, hrule⟩ := h.table hq
    exact h.rooted.mem_tested (h.reaches ((h.keys a).mp (by simp [ha])) ha) hq

theorem short (h : Stands lines n s d g yes no top built) (hlines : ShortLines lines) :
    ∀ v ∈ s.tested top, Integer.Short v := by
  intro v hv
  obtain ⟨a, lo, hi, -, hrule⟩ := h.mem_tested_iff.mp hv
  exact (hlines a _ hrule).2.1

theorem exists_child (h : Stands lines n s d g yes no top built) (hbelow : Below lines n a)
    (hrule : lines.lookup a = some (.test v lo hi)) (side : Bool) :
    ∃ rule, Below lines n (if side then hi else lo) ∧
      lines.lookup (if side then hi else lo) = some rule ∧ s.Branches d v side rule.variable := by
  obtain ⟨q, hq⟩ := Option.isSome_iff_exists.mp ((h.keys a).mpr hbelow)
  obtain ⟨hfind, hiRef, loRef, hhi, hlo, hbody⟩ := h.test hq hrule
  have hchild : Below lines n (if side then hi else lo) :=
    hbelow.tail ((child_of_test hrule).mpr (by cases side <;> simp))
  obtain ⟨rule, hruleChild⟩ := Option.isSome_iff_exists.mp (h.defined _ hchild)
  refine ⟨rule, hchild, hruleChild,
    (h.rooted.branches_iff (h.reaches hbelow hq) hfind hbody).mpr ?_⟩
  cases side
  · exact h.var?_eq hlo hruleChild
  · exact h.var?_eq hhi hruleChild

theorem agree_of_matching (h : Stands lines n s d g yes no top built)
    (h' : Stands lines' n' s' d' g' yes' no' top' built') (hmatch : Matching R lines lines' n n') :
    Agree s d top s' d' top' where
  top := by
    obtain ⟨rule, hrule⟩ := Option.isSome_iff_exists.mp (h.defined n .refl)
    obtain ⟨rule', hrule'⟩ := Option.isSome_iff_exists.mp (h'.defined n' .refl)
    rw [h.var?_eq h.top hrule, h'.var?_eq h'.top hrule',
      (hmatch.rules hmatch.top hrule hrule').variable_eq]
  branches := by
    intro v hv side
    obtain ⟨a, lo, hi, ha, hrule⟩ := h.mem_tested_iff.mp hv
    obtain ⟨b, hR, hb⟩ := hmatch.exists_related h'.defined ha
    obtain ⟨rule', hrule'⟩ := Option.isSome_iff_exists.mp (h'.defined b hb)
    cases hmatch.rules hR hrule hrule' with
    | test _ hlo hhi =>
      obtain ⟨child, -, hchild, hbranch⟩ := h.exists_child ha hrule side
      obtain ⟨child', -, hchild', hbranch'⟩ := h'.exists_child hb hrule' side
      have hmatches : child.Matches R child' := by
        cases side
        · exact hmatch.rules hlo hchild hchild'
        · exact hmatch.rules hhi hchild hchild'
      exact ⟨_, hbranch, hmatches.variable_eq ▸ hbranch'⟩

theorem matching_of_agree (h : Stands lines n s d g yes no top built)
    (h' : Stands lines' n' s' d' g' yes' no' top' built') (same : Agree s d top s' d' top') :
    Matching (Twins lines lines' n n') lines lines' n n' where
  top := by
    obtain ⟨rule, hrule⟩ := Option.isSome_iff_exists.mp (h.defined n .refl)
    obtain ⟨rule', hrule'⟩ := Option.isSome_iff_exists.mp (h'.defined n' .refl)
    have htop := same.top
    rw [h.var?_eq h.top hrule, h'.var?_eq h'.top hrule'] at htop
    exact ⟨.refl, .refl, rule, rule', hrule, hrule', (Option.some.inj htop).symm⟩
  rules := by
    rintro a b rule rule' ⟨ha, hb, _, _, hrule, hrule', heq⟩ hsame hsame'
    obtain rfl := Option.some.inj (hrule.symm.trans hsame)
    obtain rfl := Option.some.inj (hrule'.symm.trans hsame')
    refine Rule.matches_of_variable_eq heq ?_ ?_ ?_
    · rintro v lo hi rfl
      exact h.rooted.isReserved_of_mem_tested (h.mem_tested_iff.mpr ⟨a, lo, hi, ha, hrule⟩)
    · rintro v lo hi rfl
      exact h'.rooted.isReserved_of_mem_tested (h'.mem_tested_iff.mpr ⟨b, lo, hi, hb, hrule'⟩)
    · rintro v lo hi lo' hi' rfl rfl
      have hside : ∀ side : Bool, Twins lines lines' n n' (if side then hi else lo)
          (if side then hi' else lo') := by
        intro side
        obtain ⟨child, hbelow, hchild, hbranch⟩ := h.exists_child ha hrule side
        obtain ⟨child', hbelow', hchild', hbranch'⟩ := h'.exists_child hb hrule' side
        obtain ⟨u, hu, hu'⟩ := same.branches v (h.mem_tested_iff.mpr ⟨a, lo, hi, ha, hrule⟩) side
        exact ⟨hbelow, hbelow', child, child', hchild, hchild',
          (h.rooted.branches_unique hbranch hu).trans (h'.rooted.branches_unique hu' hbranch')⟩
      exact ⟨hside false, hside true⟩

end Stands

end Matching

end DecisionDiagram.Document
