import DecisionDiagram.Proofs.RoundTrip
/-! Diagrams that agree variable by variable. Agreement from the root on makes them alike, so they
are written as one text; and a text tells everything below the root, so diagrams that are written as
one text agree. -/
namespace DecisionDiagram
open Numeral

/-- Two diagrams have the same variable at their roots, and each branch of a variable that the first
one tests leads to the same variable in both, or to terminals of one value. -/
structure Agree (s : Store) (d root : Ref) (s' : Store) (d' root' : Ref) : Prop where
  top : s'.var? root' = s.var? root
  branches : ∀ v ∈ s.tested root, ∀ side, ∃ u, s.Branches d v side u ∧ s'.Branches d' v side u

theorem Rooted.tested_induction {s : Store} {d root : Ref} {g : Registry} {yes no : Ref}
    {P : Int → Prop} (h : Rooted s d g yes no root) (top : ∀ v, s.var? root = some v → P v)
    (step : ∀ v ∈ s.tested root, P v → ∀ side, ∀ u ∈ s.tested root, s.Branches d v side u → P u) :
    ∀ v ∈ s.tested root, P v := by
  have hbelow : ∀ r, s.Reaches root r → ∀ v, g.find? v = some r → P v := by
    intro r hr
    induction hr with
    | refl => exact fun v hv => top v (h.wired.var?_of_find? hv)
    | tail hp hlead ih =>
      intro u hu
      obtain ⟨v, hi, lo, hv, -, hbody⟩ := h.charted.exists_body hp (Store.isTerminal_of_leads hlead)
      obtain ⟨side, rfl⟩ : ∃ side : Bool, (if side then hi else lo) = _ := by
        rw [Store.Leads, Store.successors_of_body hbody, List.mem_cons, List.mem_singleton] at hlead
        rcases hlead with rfl | rfl
        · exact ⟨true, rfl⟩
        · exact ⟨false, rfl⟩
      exact step v (h.mem_tested hp hv) (ih v hv) side u (h.mem_tested (hp.tail hlead) hu)
        ((h.branches_iff hp hv hbody).mpr (h.wired.var?_of_find? hu))
  intro v hv
  obtain ⟨r, -, -, hr, hfind, -⟩ := h.exists_node hv
  exact hbelow r hr v hfind

section

variable {s s' : Store} {d d' root root' : Ref} {g g' : Registry} {yes no yes' no' : Ref}
variable {numbers numbers' : List (Int × Int)} {v n n' : Int}

theorem Agree.tested_eq (same : Agree s d root s' d' root') (h : Rooted s d g yes no root)
    (h' : Rooted s' d' g' yes' no' root') : s'.tested root' = s.tested root := by
  have hother : ∀ {v u side}, v ∈ s.tested root →
      (s.Branches d v side u ↔ s'.Branches d' v side u) := by
    intro v u side hv
    obtain ⟨w, hw, hw'⟩ := same.branches v hv side
    exact ⟨fun hu => h.branches_unique hw hu ▸ hw', fun hu => h'.branches_unique hw' hu ▸ hw⟩
  obtain ⟨w, hw, hwTested⟩ := h.exists_rootVariable
  obtain ⟨w', hw', hwTested'⟩ := h'.exists_rootVariable
  obtain rfl := Option.some.inj (hw'.symm.trans (same.top.trans hw))
  refine Set.Subset.antisymm (h'.tested_induction (fun v hv => ?_) ?_)
    (h.tested_induction (fun v hv => ?_) ?_)
  · exact Option.some.inj (hw'.symm.trans hv) ▸ hwTested
  · intro v _ hv side u hu hbranch
    refine (h.mem_of_branches hv ((hother hv).mpr hbranch)).resolve_left fun hreserved => ?_
    simp [h'.isReserved_of_mem_tested hu] at hreserved
  · exact Option.some.inj (hw.symm.trans hv) ▸ hwTested'
  · intro v hv hv' side u hu hbranch
    refine (h'.mem_of_branches hv' ((hother hv).mp hbranch)).resolve_left fun hreserved => ?_
    simp [h.isReserved_of_mem_tested hu] at hreserved

theorem Agree.alike (same : Agree s d root s' d' root') (h : Rooted s d g yes no root)
    (h' : Rooted s' d' g' yes' no' root') : Alike s d root s' d' root' :=
  ⟨same.top, same.tested_eq h h', same.branches⟩

def Document.Rule.variable : Document.Rule → Int
  | constant true => trueVariable
  | constant false => falseVariable
  | test v _ _ => v

theorem Store.variable_ruleOf (s : Store) (d : Ref) (numbers : List (Int × Int)) (v : Int) :
    (s.ruleOf d numbers v).variable = v := by
  unfold ruleOf
  split
  · exact Eq.symm ‹_›
  · split
    · exact Eq.symm ‹_›
    · rfl

theorem numbers_eq_of_entries_eq (h : s.entries d numbers = s'.entries d' numbers') :
    numbers = numbers' := by
  have hback : ∀ (s : Store) (d : Ref) (numbers : List (Int × Int)),
      (s.entries d numbers).map (fun e => (e.2.variable, e.1)) = numbers := by
    intro s d numbers
    rw [Store.entries, List.map_map]
    refine (List.map_congr_left fun e _ => ?_).trans (List.map_id numbers)
    exact Prod.ext (s.variable_ruleOf d numbers e.1) rfl
  rw [← hback s d numbers, h, hback]

theorem agree_of_entries_eq (h : Rooted s d g yes no root) (h' : Rooted s' d' g' yes' no' root')
    (hnumbers : Numbering s d root numbers) (hnumbers' : Numbering s' d' root' numbers)
    (heq : s.entries d numbers = s'.entries d' numbers) (hv : s.var? root = some v)
    (hv' : s'.var? root' = some n) (hn : numbers.lookup v = some n')
    (hn' : numbers.lookup n = some n') : Agree s d root s' d' root' where
  top := by
    obtain rfl := hnumbers.inj (hnumbers.lookup_iff.mp hn) (hnumbers.lookup_iff.mp hn')
    rw [hv, hv']
  branches := by
    intro w hw side
    obtain ⟨m, hm⟩ := hnumbers.exists_number (.inr hw)
    have hline := h.lookup_entries_test hnumbers hw (hnumbers.lookup_iff.mp hm)
    rw [heq] at hline
    obtain ⟨-, hw', hlo, hhi⟩ := h'.eq_of_lookup_entries hnumbers' hline
    have hsame : s.branchNumber d numbers w side = s'.branchNumber d' numbers w side := by
      cases side
      · exact hlo
      · exact hhi
    obtain ⟨u, hu, hunumber⟩ := h.branchNumber_mem hnumbers hw side
    obtain ⟨u', hu', hunumber'⟩ := h'.branchNumber_mem hnumbers' hw' side
    rw [← hsame] at hunumber'
    obtain rfl := hnumbers.inj hunumber hunumber'
    exact ⟨u, hu, hu'⟩

/-- Diagrams are written as one text, under the default order, if and only if they agree. -/
theorem Rooted.write_eq_iff (h : Rooted s d g yes no root) (h' : Rooted s' d' g' yes' no' root')
    (hshort : ∀ v ∈ s.tested root, Integer.Short v)
    (hshort' : ∀ v ∈ s'.tested root', Integer.Short v) :
    ∃ t t', Document.write s d none = .ok t ∧ Document.write s' d' none = .ok t' ∧
      (t = t' ↔ Agree s d root s' d' root') := by
  obtain ⟨numbers, hnumbers⟩ := h.exists_numbering
  obtain ⟨numbers', hnumbers'⟩ := h'.exists_numbering
  obtain ⟨v, hv, htested⟩ := h.exists_rootVariable
  obtain ⟨v', hv', htested'⟩ := h'.exists_rootVariable
  obtain ⟨n, hn⟩ := hnumbers.exists_number (.inr htested)
  obtain ⟨n', hn'⟩ := hnumbers'.exists_number (.inr htested')
  have hwrite := h.write_default hnumbers hv hn hshort
  have hwrite' := h'.write_default hnumbers' hv' hn' hshort'
  refine ⟨_, _, hwrite, hwrite', fun heq => ?_, fun same => ?_⟩
  · have hinline : ∀ vs : List Int, ∀ w ∈ vs.map Integer.render, Text.Inline w := by
      intro vs w hw
      obtain ⟨v, -, rfl⟩ := List.mem_map.mp hw
      exact Text.inline_render v
    obtain ⟨rfl, hentries⟩ := Document.eq_of_written_eq (hinline _) (hinline _) heq
    obtain rfl := numbers_eq_of_entries_eq hentries
    exact agree_of_entries_eq h h' hnumbers hnumbers' hentries hv hv' hn hn'
  · exact (Except.ok.inj
      (hwrite'.symm.trans (((same.alike h h').write_eq h h' none).trans hwrite))).symm

end

end DecisionDiagram
