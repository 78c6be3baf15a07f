import DecisionDiagram.Probability
import DecisionDiagram.Proofs.DiagramLayers
/-! The branches of a validated diagram, from variable to variable: each variable that is tested
below the root has two of them, and they lead to terminals or to other variables that are tested. -/
namespace DecisionDiagram

def Store.Branches (s : Store) (d : Ref) (v : Int) (side : Bool) (u : Int) : Prop :=
  ∃ r q, s.vertexOf? d v = some r ∧ s.branch side r = some q ∧ s.vertexOf? d u = some q

namespace Rooted

variable {s : Store} {d : Ref} {g : Registry} {yes no root r hi lo : Ref} {v u : Int} {side : Bool}

theorem exists_node (h : Rooted s d g yes no root) (hv : v ∈ s.tested root) : ∃ r hi lo,
    s.Reaches root r ∧ g.find? v = some r ∧ s.body? r = some (decisionBody v hi lo) ∧ hi ≠ lo := by
  obtain ⟨r, hr, htests⟩ := hv
  have hfind := (h.wired.tests_iff (h.reaches_member hr)).mp htests
  obtain ⟨-, hi, lo, hbody, hne, -⟩ := h.wired.node hfind
  exact ⟨r, hi, lo, hr, hfind, hbody, hne⟩

theorem isSome_find?_of_mem_tested (h : Rooted s d g yes no root) (hv : v ∈ s.tested root) :
    (g.find? v).isSome := by
  obtain ⟨r, -, -, -, hfind, -⟩ := h.exists_node hv
  rw [hfind]
  rfl

theorem mem_tested (h : Rooted s d g yes no root) (hr : s.Reaches root r)
    (hv : g.find? v = some r) : v ∈ s.tested root :=
  ⟨r, hr, (h.wired.tests_iff (h.reaches_member hr)).mpr hv⟩

theorem not_tested_below (h : Rooted s d g yes no root) {q : Ref} (hr : s.Reaches root r)
    (hv : g.find? v = some r) (hlead : s.Leads r q) : v ∉ s.tested q := by
  rintro ⟨c, hc, htests⟩
  have hreach : s.Reaches root c := hr.trans (.head hlead hc)
  have hfind := (h.wired.tests_iff (h.reaches_member hreach)).mp htests
  obtain rfl := Option.some.inj (hv.symm.trans hfind)
  exact (h.grounded.of_reaches hr).not_reaches_back hlead hc

theorem isReserved_of_mem_tested (h : Rooted s d g yes no root) (hv : v ∈ s.tested root) :
    isReserved v = false := by
  obtain ⟨r, hi, lo, -, hfind, -⟩ := h.exists_node hv
  exact (h.wired.node hfind).1

theorem exists_rootVariable (h : Rooted s d g yes no root) :
    ∃ v, s.var? root = some v ∧ v ∈ s.tested root := by
  obtain ⟨v, hv⟩ := (Registry.mem_nodes_iff h.wired.ascending).mp h.mem_nodes
  exact ⟨v, h.wired.var?_of_find? hv, h.mem_tested .refl hv⟩

theorem var?_cases (h : Rooted s d g yes no root) (hr : s.Reaches root r) (hv : s.var? r = some v) :
    v = trueVariable ∧ r = yes ∨ v = falseVariable ∧ r = no ∨ v ∈ s.tested root ∧
    g.find? v = some r := by
  rcases h.reaches_member hr with rfl | rfl | hnode
  · exact .inl ⟨Option.some.inj (hv.symm.trans h.wired.var?_yes), rfl⟩
  · exact .inr (.inl ⟨Option.some.inj (hv.symm.trans h.wired.var?_no), rfl⟩)
  · obtain ⟨w, hw⟩ := (Registry.mem_nodes_iff h.wired.ascending).mp hnode
    obtain rfl := Option.some.inj ((h.wired.var?_of_find? hw).symm.trans hv)
    exact .inr (.inr ⟨h.mem_tested hr hw, hw⟩)

theorem branches_iff (h : Rooted s d g yes no root) (hr : s.Reaches root r)
    (hv : g.find? v = some r) (hbody : s.body? r = some (decisionBody v hi lo)) :
    s.Branches d v side u ↔ s.var? (if side then hi else lo) = some u := by
  have hbranch := Store.branch_of_body hbody side
  have hmember := h.reaches_member (hr.tail (Store.leads_of_body hbody side))
  constructor
  · rintro ⟨r', q, hr', hq, hu⟩
    obtain rfl := Option.some.inj ((h.wired.vertexOf?_of_find? hv).symm.trans hr')
    obtain rfl := Option.some.inj (hbranch.symm.trans hq)
    exact (h.wired.vertexOf?_eq_some_iff.mp hu).2
  · intro hu
    exact ⟨r, _, h.wired.vertexOf?_of_find? hv, hbranch,
      h.wired.vertexOf?_eq_some_iff.mpr ⟨hmember, hu⟩⟩

theorem exists_branches (h : Rooted s d g yes no root) (hv : v ∈ s.tested root) (side : Bool) :
    ∃ u, s.Branches d v side u := by
  obtain ⟨r, hi, lo, hr, hfind, hbody, -⟩ := h.exists_node hv
  obtain ⟨u, hu⟩ := h.wired.exists_var (h.reaches_member (hr.tail (Store.leads_of_body hbody side)))
  exact ⟨u, (h.branches_iff hr hfind hbody).mpr hu⟩

theorem mem_of_branches (h : Rooted s d g yes no root) (hv : v ∈ s.tested root)
    (hu : s.Branches d v side u) : isReserved u = true ∨ u ∈ s.tested root := by
  obtain ⟨r, hi, lo, hr, hfind, hbody, -⟩ := h.exists_node hv
  have hreach := hr.tail (Store.leads_of_body hbody side)
  rcases h.var?_cases hreach ((h.branches_iff hr hfind hbody).mp hu) with
    ⟨rfl, -⟩ | ⟨rfl, -⟩ | ⟨hu, -⟩
  · exact .inl rfl
  · exact .inl rfl
  · exact .inr hu

theorem branches_ne (h : Rooted s d g yes no root) (hv : v ∈ s.tested root) {w : Int}
    (hu : s.Branches d v true u) (hw : s.Branches d v false w) : u ≠ w := by
  obtain ⟨r, hi, lo, hr, hfind, hbody, hne⟩ := h.exists_node hv
  rintro rfl
  exact hne (h.wired.var?_inj (h.reaches_member (hr.tail (Store.leads_of_body hbody true)))
    (h.reaches_member (hr.tail (Store.leads_of_body hbody false)))
      ((h.branches_iff hr hfind hbody).mp hu)
    ((h.branches_iff hr hfind hbody).mp hw))

theorem over_of_branches (h : Rooted s d g yes no root) (hv : v ∈ s.tested root)
    (hu : s.Branches d v side u) : s.Over root v u := by
  obtain ⟨r, hi, lo, hr, hfind, hbody, -⟩ := h.exists_node hv
  exact ⟨r, _, hr, Store.leads_of_body hbody side, h.wired.var?_of_find? hfind,
    (h.branches_iff hr hfind hbody).mp hu⟩

theorem branchVariable_of_branches (h : Rooted s d g yes no root) (hu : s.Branches d v side u) :
    s.branchVariable d v side = .ok u := by
  obtain ⟨r, q, hr, hq, hu⟩ := hu
  rw [Store.branchVariable, hr, Option.bind_some, hq, Option.bind_some,
    (h.wired.vertexOf?_eq_some_iff.mp hu).2]

theorem branches_unique (h : Rooted s d g yes no root) {w : Int} (hu : s.Branches d v side u)
    (hw : s.Branches d v side w) : u = w :=
  Except.ok.inj ((h.branchVariable_of_branches hu).symm.trans (h.branchVariable_of_branches hw))

theorem branchVariable_reserved (h : Rooted s d g yes no root) (hv : isReserved v = true)
    (side : Bool) : s.branchVariable d v side = .error .notOffered := by
  simp only [isReserved, Bool.or_eq_true, beq_iff_eq] at hv
  rcases hv with rfl | rfl
  · rw [Store.branchVariable, h.wired.vertexOf?_yes, Option.bind_some, h.wired.branch_yes]
    rfl
  · rw [Store.branchVariable, h.wired.vertexOf?_no, Option.bind_some, h.wired.branch_no]
    rfl

theorem mem_edges_iff_branches (h : Rooted s d g yes no root) {needs : List Int} :
    (v, needs) ∈ s.edgeList root ↔ v ∈ s.tested root ∧ ∃ hi lo, s.Branches d v true hi ∧
      s.Branches d v false lo ∧ needs = ascending [hi, lo] := by
  have hnode : ∀ {r x y a b}, s.Reaches root r → g.find? v = some r →
    s.body? r = some (decisionBody v x y) →
      s.Branches d v true a → s.Branches d v false b → s.childVariables r = ascending [a, b] := by
    intro r x y a b hr hfind hbody ha hb
    have hx : s.var? x = some a := (h.branches_iff hr hfind hbody).mp ha
    have hy : s.var? y = some b := (h.branches_iff hr hfind hbody).mp hb
    rw [Store.childVariables, Store.successors_of_body hbody, List.filterMap_cons_some hx,
      List.filterMap_cons_some hy]
    rfl
  rw [h.charted.mem_edges_iff]
  constructor
  · rintro ⟨r, hr, htests, rfl⟩
    have hfind := (h.wired.tests_iff (h.reaches_member hr)).mp htests
    have hv := h.mem_tested hr hfind
    obtain ⟨-, x, y, hbody, -⟩ := h.wired.node hfind
    obtain ⟨a, ha⟩ := h.exists_branches hv true
    obtain ⟨b, hb⟩ := h.exists_branches hv false
    exact ⟨hv, a, b, ha, hb, hnode hr hfind hbody ha hb⟩
  · rintro ⟨hv, a, b, ha, hb, rfl⟩
    obtain ⟨r, x, y, hr, hfind, hbody, -⟩ := h.exists_node hv
    exact ⟨r, hr, (h.wired.tests_iff (h.reaches_member hr)).mpr hfind,
      (hnode hr hfind hbody ha hb).symm⟩

end Rooted

end DecisionDiagram
