import DecisionDiagram.Proofs.BranchVariables
/-! Diagrams that are alike: they test the same variables from the same root on, and their branches
lead to the same variables. Nothing that is computed below the root tells them apart. -/
namespace DecisionDiagram
open Relation

theorem foldlM_congr {ε α β : Type} {f f' : β → α → Except ε β} {l : List α}
    (h : ∀ a ∈ l, ∀ b, f b a = f' b a) (b : β) : l.foldlM f b = l.foldlM f' b := by
  induction l generalizing b with
  | nil => rfl
  | cons a l ih =>
    obtain ⟨ha, hrest⟩ := List.forall_mem_cons.mp h
    rw [List.foldlM_cons, List.foldlM_cons, ha b]
    exact congrArg _ (funext fun b => ih hrest b)

/-- The diagram `d'` has, below `root'`, a vertex for each vertex that `d` has below `root`, and
branches between the same vertices. -/
structure Alike (s : Store) (d root : Ref) (s' : Store) (d' root' : Ref) : Prop where
  top : s'.var? root' = s.var? root
  tested : s'.tested root' = s.tested root
  branches : ∀ v ∈ s.tested root, ∀ side, ∃ u, s.Branches d v side u ∧ s'.Branches d' v side u

namespace Alike

variable {s s' : Store} {d d' root root' : Ref} {g g' : Registry} {yes no yes' no' : Ref}

theorem branches_iff (same : Alike s d root s' d' root') (h : Rooted s d g yes no root)
    (h' : Rooted s' d' g' yes' no' root') {v u : Int} {side : Bool} (hv : v ∈ s.tested root) :
    s'.Branches d' v side u ↔ s.Branches d v side u := by
  obtain ⟨w, hw, hw'⟩ := same.branches v hv side
  constructor
  · intro hu
    exact h'.branches_unique hw' hu ▸ hw
  · intro hu
    exact h.branches_unique hw hu ▸ hw'

theorem perm_edges (same : Alike s d root s' d' root') (h : Rooted s d g yes no root)
    (h' : Rooted s' d' g' yes' no' root') : (s'.edgeList root').Perm (s.edgeList root) := by
  refine (List.perm_ext_iff_of_nodup h'.charted.nodup_edges.of_map h.charted.nodup_edges.of_map).mpr
    fun ⟨v, needs⟩ => ?_
  rw [h'.mem_edges_iff_branches, h.mem_edges_iff_branches, same.tested]
  refine and_congr_right fun hv => ?_
  simp only [same.branches_iff h h' hv]

theorem layers_eq (same : Alike s d root s' d' root') (h : Rooted s d g yes no root)
    (h' : Rooted s' d' g' yes' no' root') : s'.layers d' = s.layers d := by
  unfold Store.layers
  rw [h'.charted.edges_eq, h.charted.edges_eq]
  simp only [bind, Except.bind, Dependencies.layers?_congr (same.perm_edges h h')]

theorem requireVariable_eq (same : Alike s d root s' d' root') :
    s'.requireVariable root' = s.requireVariable root := by
  rw [Store.requireVariable, same.top, Store.requireVariable]

theorem branchVariable_eq (same : Alike s d root s' d' root') (h : Rooted s d g yes no root)
    (h' : Rooted s' d' g' yes' no' root') {r : Ref} {v : Int} (hr : s.Reaches root r)
    (hv : s.var? r = some v) (side : Bool) :
    s'.branchVariable d' v side = s.branchVariable d v side := by
  rcases h.var?_cases hr hv with ⟨rfl, -⟩ | ⟨rfl, -⟩ | ⟨hv, -⟩
  · rw [h'.branchVariable_reserved rfl, h.branchVariable_reserved rfl]
  · rw [h'.branchVariable_reserved rfl, h.branchVariable_reserved rfl]
  · obtain ⟨u, hu, hu'⟩ := same.branches v hv side
    rw [h'.branchVariable_of_branches hu', h.branchVariable_of_branches hu]

theorem probability_eq (same : Alike s d root s' d' root') (h : Rooted s d g yes no root)
    (h' : Rooted s' d' g' yes' no' root') (weights : Weights) :
    s'.probability d' weights = s.probability d weights := by
  obtain ⟨layers, hlayers, -, hmem⟩ := h.exists_layers
  have henter : ∀ v ∈ layers.flatten, ∀ known,
      s'.enterProbability d' weights known v = s.enterProbability d weights known v := by
    intro v hv known
    obtain ⟨r, hr, hrv⟩ := (hmem v).mp hv
    unfold Store.enterProbability Store.branchEntry
    simp only [same.branchVariable_eq h h' hr hrv]
  unfold Store.probability Store.foldLayers
  rw [same.layers_eq h h', hlayers, h.validatedRoot, h'.validatedRoot]
  simp only [bind, Except.bind, same.requireVariable_eq]
  rw [foldlM_congr henter]

theorem modelCount_eq (same : Alike s d root s' d' root') (h : Rooted s d g yes no root)
    (h' : Rooted s' d' g' yes' no' root') : s'.modelCount d' = s.modelCount d := by
  unfold Store.modelCount
  rw [same.layers_eq h h', same.probability_eq h h']

theorem follow_eq (same : Alike s d root s' d' root') (h : Rooted s d g yes no root)
    (h' : Rooted s' d' g' yes' no' root') (assignment : Assignment) {r r' : Ref} {v : Int}
    (hr : s.Reaches root r) (hr' : s'.Reaches root' r') (hv : s.var? r = some v)
    (hv' : s'.var? r' = some v) : s'.follow assignment [] r' = s.follow assignment [] r := by
  have hground := h.grounded.of_reaches hr
  induction hground generalizing r' v with
  | intro r hbelow ih =>
    rcases h.var?_cases hr hv with ⟨rfl, rfl⟩ | ⟨rfl, rfl⟩ | ⟨htested, hfind⟩
    · obtain rfl := h'.wired.var?_inj (h'.reaches_member hr') (.inl rfl) hv' h'.wired.var?_yes
      rw [h.wired.follow_yes, h'.wired.follow_yes]
    · obtain rfl := h'.wired.var?_inj (h'.reaches_member hr') (.inr (.inl rfl)) hv' h'.wired.var?_no
      rw [h.wired.follow_no, h'.wired.follow_no]
    · obtain ⟨-, hi, lo, hbody, -⟩ := h.wired.node hfind
      obtain ⟨q', hi', lo', hq', hfind', hbody', -⟩ := h'.exists_node (same.tested ▸ htested)
      obtain rfl := h'.wired.var?_inj (h'.reaches_member hr') (h'.reaches_member hq') hv'
        (h'.wired.var?_of_find? hfind')
      rw [h.wired.follow_node (h.grounded.of_reaches hr) hfind hbody,
        h'.wired.follow_node (h'.grounded.of_reaches hr') hfind' hbody']
      cases assignment v with
      | none => rfl
      | some side =>
        obtain ⟨u, hu, hu'⟩ := same.branches v htested side
        have hlead := Store.leads_of_body hbody side
        exact ih _ hlead (hr.tail hlead) (hr'.tail (Store.leads_of_body hbody' side))
          ((h.branches_iff hr hfind hbody).mp hu) ((h'.branches_iff hr' hfind' hbody').mp hu')

theorem evaluate_eq (same : Alike s d root s' d' root') (h : Rooted s d g yes no root)
    (h' : Rooted s' d' g' yes' no' root') (assignment : Assignment) :
    s'.evaluate d' assignment = s.evaluate d assignment := by
  obtain ⟨v, hv⟩ := h.wired.exists_var h.member
  rw [h.evaluate_eq, h'.evaluate_eq]
  exact same.follow_eq h h' assignment .refl .refl hv (same.top.trans hv)

end Alike

end DecisionDiagram
