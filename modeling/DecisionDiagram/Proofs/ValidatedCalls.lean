import DecisionDiagram.Proofs.SettledDiagrams
/-! Validated diagrams under further calls, whatever is handed over. Nodes, branches and the root
stay for good. A vertex may still lose the diagram itself as a parent: nothing but that is ever
changed. -/
namespace DecisionDiagram

namespace Store

variable {s : Store} {d r q p : Ref} {g : Registry} {side : Bool} {source target : Reference}

theorem require_dropParent (source : Reference) :
    (s.dropParent q p).require d source = s.require d source := by
  cases source with
  | «variable» v =>
    simp only [require, vertexOf?, branch_dropParent, registry_dropParent,
      (s.dropParent q p).raise_unknownNode s]
  | _ => rfl

def released? (s : Store) (d : Ref) (source target : Reference) : Option Ref :=
  match s.require d source, s.require d target with
  | .ok a, .ok b => if a = d then some b else none
  | _, _ => none

theorem released?_eq_some_iff :
    s.released? d source target = some r ↔ s.require d source = .ok d ∧
    s.require d target = .ok r := by
  unfold released?
  cases s.require d source with
  | error e => simp
  | ok a =>
    cases s.require d target with
    | error e => simp
    | ok b =>
      simp

/-- Vertices lose the diagram as a parent. -/
def releasing (s : Store) (d : Ref) (rs : List Ref) : Store :=
  rs.foldl (fun s r => s.dropParent r d) s

theorem releasing_cons (rs : List Ref) :
    s.releasing d (r :: rs) = (s.dropParent r d).releasing d rs := rfl

theorem require_releasing (rs : List Ref) :
    (s.releasing d rs).require d source = s.require d source := by
  induction rs generalizing s with
  | nil => rfl
  | cons r rs ih => rw [releasing_cons, ih, require_dropParent]

theorem registry?_releasing (rs : List Ref) :
    Store.registry? (s.releasing d rs) d = s.registry? d := by
  induction rs generalizing s with
  | nil => rfl
  | cons r rs ih => rw [releasing_cons, ih, registry_dropParent]

theorem body?_releasing (rs : List Ref) : (s.releasing d rs).body? q = s.body? q := by
  induction rs generalizing s with
  | nil => rfl
  | cons r rs ih => rw [releasing_cons, ih, body?_dropParent]

theorem label?_releasing (rs : List Ref) :
    (s.releasing d rs).label? q p = if q ∈ rs ∧ p = d then none else s.label? q p := by
  induction rs generalizing s with
  | nil => simp [releasing]
  | cons r rs ih =>
    rw [releasing_cons, ih, label?_dropParent]
    by_cases hp : p = d <;> by_cases hq : q = r <;> simp [hp, hq]

theorem vertex?_releasing (rs : List Ref) :
    (s.releasing d rs).vertex? q = if q ∈ rs then (s.vertex? q).map (·.dropParent d)
      else s.vertex? q := by
  induction rs generalizing s with
  | nil => rfl
  | cons r rs ih =>
    rw [releasing_cons, ih, dropParent, vertex?_modify]
    by_cases hr : r = q
    · subst hr
      simp [Option.map_map, Function.comp_def, Vertex.dropParent, List.filter_filter]
    · simp [hr, Ne.symm hr]

end Store

/-- The vertex that the call takes off the diagram. -/
def Call.released? (s : Store) (d : Ref) : Call → Option Ref
  | removeEdge source target => s.released? d source target
  | addNode .. | setEdge .. | validate => none

section Later

variable {s s' : Store} {d r root : Ref} {g : Registry} {source target : Reference}

theorem removeEdge_of_ready (h : s.registry? d = some g) (hready : g.ready = true)
    (source target : Reference) : (∃ r, s.released? d source target = some r ∧
      Diagram.removeEdge d source target s = .ok () (s.dropParent r d)) ∨
    ∃ e, s.released? d source target = none ∧
    Diagram.removeEdge d source target s = .error e s := by
  unfold Diagram.removeEdge Store.released?
  rw [bind_of_ok (observe_of_ok (registry_eq_ok h))]
  cases hsource : s.require d source with
  | error e => exact .inr ⟨e, rfl, bind_of_error (observe_of_error hsource)⟩
  | ok a =>
    rw [bind_of_ok (observe_of_ok hsource)]
    cases htarget : s.require d target with
    | error e => exact .inr ⟨e, rfl, bind_of_error (observe_of_error htarget)⟩
    | ok b =>
      rw [bind_of_ok (observe_of_ok htarget)]
      by_cases had : a = d
      · subst had
        simp only [ne_eq, not_true_eq_false, ↓reduceIte]
        exact .inl ⟨b, rfl, rfl⟩
      · simp only [ne_eq, had, not_false_eq_true, ↓reduceIte]
        exact .inr ⟨_, trivial, bind_of_error (requireMutable_of_ready h hready)⟩

theorem after_of_root (h : s.registry? d = some g) (hroot : g.root = some root) (c : Call) :
    c.after d s = s.releasing d (c.released? s d).toList := by
  have hready : g.ready = true := by rw [Registry.ready, hroot]; rfl
  cases c with
  | addNode v hi lo => exact addNode_after_ready h hready v hi lo
  | setEdge source target selector => exact setEdge_after_ready h hready source target selector
  | validate => exact after_of_ok (validate_of_root h hroot)
  | removeEdge source target =>
    rcases removeEdge_of_ready h hready source target with ⟨r, hr, hrun⟩ | ⟨e, hnone, hrun⟩
    · rw [Call.after, Call.released?, hr, after_of_ok hrun]
      rfl
    · rw [Call.after, Call.released?, hnone, after_of_error hrun]
      rfl

theorem released?_releasing (rs : List Ref) (c : Call) :
    c.released? (s.releasing d rs) d = c.released? s d := by
  cases c with
  | removeEdge source target => simp only [Call.released?, Store.released?, Store.require_releasing]
  | _ => rfl

theorem afterCalls_eq_releasing (h : s.registry? d = some g) (hroot : g.root = some root)
    (calls : List Call) :
    s.afterCalls d calls = s.releasing d (calls.filterMap (·.released? s d)) := by
  induction calls generalizing s with
  | nil => rfl
  | cons c calls ih =>
    have hstep := after_of_root h hroot c
    have hnext : s.afterCalls d (c :: calls) = (c.after d s).afterCalls d calls := rfl
    rw [hnext, hstep, ih ((Store.registry?_releasing _).trans h)]
    simp only [released?_releasing, List.filterMap_cons]
    cases c.released? s d <;> rfl

theorem root_of_validate {before : Store} (hvalid : Diagram.validate d before = .ok root s) :
    ∃ g, s.registry? d = some g ∧ g.root = some root := by
  unfold Diagram.validate at hvalid
  obtain ⟨g, t, hg, hrest⟩ := bind_eq_ok_iff.mp hvalid
  obtain ⟨hreg, rfl⟩ := observe_eq_ok_iff.mp hg
  have hsome : t.registry? d = some g := by
    unfold Store.registry at hreg
    split at hreg
    · cases hreg
      assumption
    · cases hreg
  cases hroot : g.root with
  | some r =>
    rw [hroot] at hrest
    cases hrest
    exact ⟨g, hsome, hroot⟩
  | none =>
    rw [hroot] at hrest
    obtain ⟨r, t', hfind, hset⟩ := bind_eq_ok_iff.mp hrest
    obtain ⟨-, rfl⟩ := observe_eq_ok_iff.mp hfind
    cases hset
    refine ⟨g.setRoot root, ?_, rfl⟩
    unfold Store.registry? Store.updateRegistry at *
    obtain ⟨x, hx, hkind⟩ := Option.bind_eq_some_iff.mp hsome
    rw [Store.vertex?_modify_self, hx]
    cases hxk : x.kind <;> simp_all [Kind.registry?]

end Later

section Edges

variable {s : Store} {d r : Ref} {g : Registry} {source target : Reference}

theorem edgeSide_of_released {rs : List Ref} (h : s.registry? d = some g)
    (hr : s.released? d source target = some r) (hmem : r ∈ rs) :
    Diagram.edgeSide (s.releasing d rs) d source target = .error
      ((s.releasing d rs).raise (.unknownEdge d r)) := by
  obtain ⟨hsource, htarget⟩ := Store.released?_eq_some_iff.mp hr
  unfold Diagram.edgeSide
  rw [registry_eq_ok ((Store.registry?_releasing rs).trans h), Store.require_releasing,
    Store.require_releasing,
    hsource, htarget, ok_bind, ok_bind, ok_bind, Store.label?_releasing, if_pos ⟨hmem, rfl⟩]
  rfl

theorem edgeSide_of_kept {rs : List Ref}
    (hkept : ∀ r, s.released? d source target = some r → r ∉ rs) :
    Diagram.edgeSide (s.releasing d rs) d source target = Diagram.edgeSide s d source target := by
  have hregistry : Store.registry (s.releasing d rs) d = s.registry d := by
    rw [Store.registry, Store.registry?_releasing, ← Store.registry]
  refine Diagram.edgeSide_congr hregistry (fun _ => Store.require_releasing rs)
    (fun a b ha hb => ?_)
    fun a b _ _ => Store.raise_congr_body (fun _ => Store.body?_releasing rs) _
  rw [Store.label?_releasing, if_neg]
  rintro ⟨hmem, rfl⟩
  exact hkept b (Store.released?_eq_some_iff.mpr ⟨ha, hb⟩) hmem

end Edges

/-- After validation, whatever is called with whatever references: the registry stays as it is, root
and table included, and so does every vertex but for this, that it may lose the diagram itself as a
parent. It does so exactly if an edge from the diagram to it was removed. A call that does not ask
for that leaves everything as it is. An edge from any other source is found as it was right after
validation. -/
theorem afterCalls_of_validated {before s : Store} {d root : Ref}
    (hvalid : Diagram.validate d before = .ok root s) (calls : List Call) :
    let s' := s.afterCalls d calls
    let freed := calls.filterMap (·.released? s d)
    (∃ g, s.registry? d = some g ∧ s'.registry? d = some g ∧ g.root = some root) ∧
      (∀ r, s'.vertex? r = if r ∈ freed then (s.vertex? r).map (·.dropParent d) else s.vertex? r) ∧
      (∀ c : Call, c.released? s d = none → c.after d s' = s') ∧
      ∀ source target,
        (∀ r, s.released? d source target = some r → r ∈ freed →
          Diagram.edgeSide s' d source target = .error (s'.raise (.unknownEdge d r))) ∧
        ((∀ r, s.released? d source target = some r → r ∉ freed) →
          Diagram.edgeSide s' d source target = Diagram.edgeSide s d source target) := by
  obtain ⟨g, hg, hroot⟩ := root_of_validate hvalid
  dsimp only
  rw [afterCalls_eq_releasing hg hroot]
  have hlater : Store.registry? (s.releasing d (calls.filterMap (·.released? s d))) d = some g :=
    (Store.registry?_releasing _).trans hg
  refine ⟨⟨g, hg, hlater, hroot⟩, fun r => Store.vertex?_releasing _, fun c hc => ?_,
    fun source target => ⟨?_, ?_⟩⟩
  · rw [after_of_root hlater hroot, released?_releasing, hc]
    rfl
  · exact fun r hr hmem => edgeSide_of_released hg hr hmem
  · exact edgeSide_of_kept

def rootedNode : Store := Call.validate.after 0 loneNode

theorem rootedNode_eq : rootedNode = loneNode.updateRegistry 0 (·.setRoot 3) :=
  after_of_ok loneNode_validate

theorem afterCalls_of_validated_rootedNode : Diagram.validate 0 loneNode = .ok 3 rootedNode ∧
    (rootedNode.afterCalls 0
      [.addNode 6 .nothing .nothing, .removeEdge (.vertex 0) (.variable 5)]).vertex? 3 =
      (rootedNode.vertex? 3).map (·.dropParent 0) ∧
    (rootedNode.afterCalls 0
      [.addNode 6 .nothing .nothing, .removeEdge (.vertex 0) (.variable 5)]).vertex? 1 =
      rootedNode.vertex? 1 := by
  have hvalid : Diagram.validate 0 loneNode = .ok 3 rootedNode := by
    rw [rootedNode_eq, loneNode_validate]
  have hfreed : rootedNode.released? 0 (.vertex 0) (.variable 5) = some 3 := by
    rw [rootedNode_eq]
    decide
  obtain ⟨-, hvertex, -, -⟩ := afterCalls_of_validated hvalid
    [.addNode 6 .nothing .nothing, .removeEdge (.vertex 0) (.variable 5)]
  exact ⟨hvalid, (hvertex 3).trans (by simp [Call.released?, hfreed]),
    (hvertex 1).trans (by simp [Call.released?, hfreed])⟩

/-- A validated diagram still lets go of its root: the call succeeds, and the edge to the root is
not found any more. -/
theorem removeEdge_changes_rootedNode : Diagram.validate 0 loneNode = .ok 3 rootedNode ∧ ∃ s',
    Diagram.removeEdge 0 (.vertex 0) (.variable 5) rootedNode = .ok () s' ∧
      rootedNode.parents 3 = [0] ∧ s'.parents 3 = [] ∧
      Diagram.edgeSide rootedNode 0 (.vertex 0) (.variable 5) = .ok false ∧
      Diagram.edgeSide s' 0 (.vertex 0) (.variable 5) = .error (.unknownEdge 0 3) := by
  rw [rootedNode_eq]
  refine ⟨loneNode_validate, _, rfl, by decide, by decide, by rfl, ?_⟩
  refine Eq.trans rfl (congrArg Except.error (Store.raise_of_small ?_))
  decide

end DecisionDiagram
