import DecisionDiagram.Proofs.DependencyLayers
import DecisionDiagram.Proofs.EvaluationOutcome
/-! The layers of a validated diagram: they always exist, hold the variables of all vertices below
the root, and put each variable behind those that its branches lead to. -/
namespace DecisionDiagram
open Relation

namespace Store

variable {s : Store} {d r root : Ref} {v u : Int}

def childVariables (s : Store) (r : Ref) : List Int := ascending ((s.successors r).filterMap s.var?)

def entry (s : Store) (r : Ref) : Option (Int × List Int) :=
  if s.isTerminal r then none else (s.var? r).map (·, s.childVariables r)

def edgeList (s : Store) (root : Ref) : Dependencies :=
  (s.depthFirst none [] root).met.filterMap s.entry

def Over (s : Store) (root : Ref) (v u : Int) : Prop :=
  ∃ r q, s.Reaches root r ∧ s.Leads r q ∧ s.var? r = some v ∧ s.var? q = some u

theorem requireVariable_of_var? (h : s.var? r = some v) : s.requireVariable r = .ok v := by
  rw [requireVariable, h]

theorem mem_childVariables : u ∈ s.childVariables r ↔ ∃ q, s.Leads r q ∧ s.var? q = some u := by
  unfold childVariables Leads
  rw [mem_ascending, List.mem_filterMap]

theorem isTerminal_of_leads {q : Ref} (h : s.Leads r q) : s.isTerminal r = false := by
  unfold Leads successors at h
  unfold isTerminal
  cases hx : s.vertex? r with
  | none => simp [hx] at h
  | some x =>
    rw [hx] at h
    simp only [Option.elim_some, Vertex.successors] at h
    cases hterm : x.isTerminal with
    | true => simp [hterm] at h
    | false => simp [hterm]

end Store

namespace Wired

variable {s : Store} {d : Ref} {g : Registry} {yes no r q root : Ref} {v u : Int}

theorem var?_yes (h : Wired s d g yes no) : s.var? yes = some trueVariable := by
  rw [Store.var?_eq_body, h.yesBody]
  rfl

theorem var?_no (h : Wired s d g yes no) : s.var? no = some falseVariable := by
  rw [Store.var?_eq_body, h.noBody]
  rfl

theorem var?_of_find? (h : Wired s d g yes no) (hv : g.find? v = some r) : s.var? r = some v := by
  obtain ⟨-, hi, lo, hbody, -⟩ := h.node hv
  rw [Store.var?_eq_body, hbody]
  rfl

theorem vertexOf?_eq_some_iff (h : Wired s d g yes no) :
    s.vertexOf? d v = some q ↔ g.Member yes no q ∧ s.var? q = some v := by
  have hfree : ∀ {w r}, g.find? w = some r → w ≠ trueVariable ∧ w ≠ falseVariable := by
    intro w r hw
    simpa [isReserved] using (h.node hw).1
  rw [h.vertexOf?_eq]
  constructor
  · intro hv
    split at hv
    · obtain rfl := Option.some.inj hv
      subst_vars
      exact ⟨.inl rfl, h.var?_yes⟩
    · split at hv
      · obtain rfl := Option.some.inj hv
        subst_vars
        exact ⟨.inr (.inl rfl), h.var?_no⟩
      · exact ⟨.inr (.inr (h.mem_nodes hv)), h.var?_of_find? hv⟩
  · rintro ⟨rfl | rfl | hq, hv⟩
    · obtain rfl := Option.some.inj (h.var?_yes.symm.trans hv)
      rw [if_pos rfl]
    · obtain rfl := Option.some.inj (h.var?_no.symm.trans hv)
      rw [if_neg (by decide), if_pos rfl]
    · obtain ⟨w, hw⟩ := (Registry.mem_nodes_iff h.ascending).mp hq
      obtain rfl := Option.some.inj ((h.var?_of_find? hw).symm.trans hv)
      rw [if_neg (hfree hw).1, if_neg (hfree hw).2, hw]

theorem vertexOf?_yes (h : Wired s d g yes no) : s.vertexOf? d trueVariable = some yes :=
  h.vertexOf?_eq_some_iff.mpr ⟨.inl rfl, h.var?_yes⟩

theorem vertexOf?_no (h : Wired s d g yes no) : s.vertexOf? d falseVariable = some no :=
  h.vertexOf?_eq_some_iff.mpr ⟨.inr (.inl rfl), h.var?_no⟩

theorem vertexOf?_of_find? (h : Wired s d g yes no) (hv : g.find? v = some r) :
    s.vertexOf? d v = some r :=
  h.vertexOf?_eq_some_iff.mpr ⟨.inr (.inr (h.mem_nodes hv)), h.var?_of_find? hv⟩

theorem exists_var (h : Wired s d g yes no) (hq : g.Member yes no q) : ∃ v, s.var? q = some v := by
  rcases hq with rfl | rfl | hq
  · exact ⟨trueVariable, h.var?_yes⟩
  · exact ⟨falseVariable, h.var?_no⟩
  · obtain ⟨v, hv⟩ := (Registry.mem_nodes_iff h.ascending).mp hq
    exact ⟨v, h.var?_of_find? hv⟩

theorem var?_inj (h : Wired s d g yes no) (hr : g.Member yes no r) (hq : g.Member yes no q)
    (hrv : s.var? r = some v) (hqv : s.var? q = some v) : r = q := by
  have hr' := h.vertexOf?_eq_some_iff.mpr ⟨hr, hrv⟩
  have hq' := h.vertexOf?_eq_some_iff.mpr ⟨hq, hqv⟩
  exact Option.some.inj (hr'.symm.trans hq')

end Wired

/-- A sound diagram that is validated, with its root. -/
structure Rooted (s : Store) (d : Ref) (g : Registry) (yes no root : Ref) : Prop where
  wired : Wired s d g yes no
  found : g.root = some root
  grounded : s.Grounded root

theorem Sound.rooted {s : Store} {d : Ref} {g : Registry} {yes no root : Ref}
    (h : Sound s d g yes no) (hroot : g.root = some root) : Rooted s d g yes no root :=
  ⟨h.wired, hroot, h.grounded root hroot⟩

theorem Rooted.of_history {s : Store} {d root : Ref} {g : Registry}
    (past : History (ownCalls d) d s) (hg : s.registry? d = some g) (hroot : g.root = some root) :
    ∃ yes no, Rooted s d g yes no root := by
  obtain ⟨g', yes, no, hsound⟩ := Sound.of_history past
  obtain rfl := Option.some.inj (hsound.wired.registry?.symm.trans hg)
  exact ⟨yes, no, hsound.rooted hroot⟩

def Store.Reserved (s : Store) (r : Ref) : Prop :=
  ∃ v value, s.kind? r = some (.terminal v value) ∧ isReserved v = true

theorem Store.Reserved.isTerminal {s : Store} {r : Ref} (h : s.Reserved r) :
    s.isTerminal r = true := by
  obtain ⟨v, value, hkind, -⟩ := h
  rw [isTerminal_eq_kind, hkind]
  rfl

theorem Store.Reserved.exists_var {s : Store} {r : Ref} (h : s.Reserved r) :
    ∃ v, s.var? r = some v ∧ isReserved v = true := by
  obtain ⟨v, value, hkind, hreserved⟩ := h
  exact ⟨v, by rw [var?_eq_kind, hkind]; rfl, hreserved⟩

def Store.Charts (s : Store) (g : Registry) (r : Ref) : Prop :=
  (∃ v hi lo, g.find? v = some r ∧ isReserved v = false ∧ s.body? r = some (decisionBody v hi lo)) ∨
    s.Reserved r

/-- A diagram with a root on solid ground, such that its table accounts for everything below the
root. -/
structure Charted (s : Store) (d : Ref) (g : Registry) (root : Ref) : Prop where
  registry? : s.registry? d = some g
  found : g.root = some root
  grounded : s.Grounded root
  charts : ∀ r, s.Reaches root r → s.Charts g r

theorem Wired.reserved_yes {s : Store} {d : Ref} {g : Registry} {yes no : Ref}
    (h : Wired s d g yes no) : s.Reserved yes :=
  ⟨trueVariable, true, by rw [Store.kind?_eq_body, h.yesBody]; rfl, rfl⟩

theorem Wired.reserved_no {s : Store} {d : Ref} {g : Registry} {yes no : Ref}
    (h : Wired s d g yes no) : s.Reserved no :=
  ⟨falseVariable, false, by rw [Store.kind?_eq_body, h.noBody]; rfl, rfl⟩

namespace Charted

variable {s : Store} {d : Ref} {g : Registry} {root r q : Ref} {v u : Int}

theorem registry (h : Charted s d g root) : s.registry d = .ok g := by
  rw [Store.registry, h.registry?]

theorem validatedRoot (h : Charted s d g root) : s.validatedRoot d = .ok root := by
  unfold Store.validatedRoot
  rw [h.registry, ok_bind, h.found]
  rfl

theorem mem_met_iff (h : Charted s d g root) :
    r ∈ (s.depthFirst none [] root).met ↔ s.Reaches root r :=
  Store.mem_met_depthFirst_nil_iff h.grounded

theorem exists_body (h : Charted s d g root) (hr : s.Reaches root r)
    (hterm : s.isTerminal r = false) :
    ∃ v hi lo, g.find? v = some r ∧ isReserved v = false ∧
    s.body? r = some (decisionBody v hi lo) := by
  rcases h.charts r hr with hnode | hreserved
  · exact hnode
  · simp [hreserved.isTerminal] at hterm

theorem vertexOf?_of_find? (h : Charted s d g root) (hv : g.find? v = some r)
    (hfree : isReserved v = false) : s.vertexOf? d v = some r := by
  simp only [isReserved, Bool.or_eq_false_iff, beq_eq_false_iff_ne] at hfree
  rw [Store.vertexOf?, if_neg hfree.1, if_neg hfree.2, h.registry?, Option.bind_some, hv]

theorem exists_var (h : Charted s d g root) (hr : s.Reaches root r) :
    ∃ v, s.var? r = some v ∧ isReserved v = s.isTerminal r := by
  rcases h.charts r hr with ⟨v, hi, lo, -, hfree, hbody⟩ | hterm
  · refine ⟨v, ?_, ?_⟩
    · rw [Store.var?_eq_body, hbody]
      rfl
    · rw [Store.isTerminal_eq_body, hbody, hfree]
      rfl
  · obtain ⟨v, hv, hreserved⟩ := hterm.exists_var
    exact ⟨v, hv, hreserved.trans hterm.isTerminal.symm⟩

theorem isReserved_eq (h : Charted s d g root) (hr : s.Reaches root r) (hv : s.var? r = some v) :
    isReserved v = s.isTerminal r := by
  obtain ⟨w, hw, hreserved⟩ := h.exists_var hr
  obtain rfl := Option.some.inj (hw.symm.trans hv)
  exact hreserved

theorem find?_of_var? (h : Charted s d g root) (hr : s.Reaches root r) (hv : s.var? r = some v)
    (hfree : isReserved v = false) : g.find? v = some r := by
  obtain ⟨w, hi, lo, hw, -, hbody⟩ := h.exists_body hr (h.isReserved_eq hr hv ▸ hfree)
  have hvar : s.var? r = some w := by
    rw [Store.var?_eq_body, hbody]
    rfl
  obtain rfl := Option.some.inj (hvar.symm.trans hv)
  exact hw

theorem eq_of_var? (h : Charted s d g root) (hr : s.Reaches root r) (hq : s.Reaches root q)
    (hrv : s.var? r = some v) (hqv : s.var? q = some v) (hterm : s.isTerminal r = false) :
    r = q := by
  have hfree : isReserved v = false := (h.isReserved_eq hr hrv).trans hterm
  exact Option.some.inj ((h.find?_of_var? hr hrv hfree).symm.trans (h.find?_of_var? hq hqv hfree))

theorem tests_iff (h : Charted s d g root) (hr : s.Reaches root r) :
    s.Tests r v ↔ s.isTerminal r = false ∧ s.var? r = some v := by
  constructor
  · intro htests
    unfold Store.Tests at htests
    rw [Store.isTerminal_eq_kind, Store.var?_eq_kind, htests]
    exact ⟨rfl, rfl⟩
  · rintro ⟨hterm, hv⟩
    obtain ⟨w, hi, lo, -, -, hbody⟩ := h.exists_body hr hterm
    rw [Store.var?_eq_body, hbody] at hv
    obtain rfl := Option.some.inj hv
    rw [Store.Tests, Store.kind?_eq_body, hbody]
    rfl

theorem mapM_requireVariable (h : Charted s d g root) {l : List Ref}
    (hl : ∀ q ∈ l, s.Reaches root q) : l.mapM s.requireVariable = .ok (l.filterMap s.var?) := by
  induction l with
  | nil => rfl
  | cons q l ih =>
    obtain ⟨v, hv, -⟩ := h.exists_var (hl q List.mem_cons_self)
    rw [List.mapM_cons, Store.requireVariable_of_var? hv, ih fun r hr =>
      hl r (List.mem_cons_of_mem _ hr), List.filterMap_cons_some hv]
    rfl

theorem enterEdges_below (h : Charted s d g root) {before : List Ref} (hr : s.Reaches root r)
    (hnew : r ∉ before) (hbefore : ∀ q ∈ before, s.Reaches root q) :
    s.enterEdges (before.filterMap s.entry) r = .ok ((before ++ [r]).filterMap s.entry) := by
  rw [List.filterMap_append, List.filterMap_cons, List.filterMap_nil]
  unfold Store.enterEdges
  cases hterm : s.isTerminal r with
  | true => simp [Store.entry, hterm]
  | false =>
    obtain ⟨v, hv, -⟩ := h.exists_var hr
    have hchildren := h.mapM_requireVariable fun q hq => hr.tail hq
    have hentry : s.entry r = some (v, s.childVariables r) := by simp [Store.entry, hterm, hv]
    have hout : v ∉ (before.filterMap s.entry).map (·.1) := by
      intro hmem
      obtain ⟨e, he, rfl⟩ := List.mem_map.mp hmem
      obtain ⟨q, hq, hqe⟩ := List.mem_filterMap.mp he
      unfold Store.entry at hqe
      split at hqe
      · cases hqe
      · obtain ⟨w, hw, rfl⟩ := Option.map_eq_some_iff.mp hqe
        exact hnew (h.eq_of_var? hr (hbefore q hq) hv hw hterm ▸ hq)
    rw [if_neg Bool.false_ne_true, hchildren, hentry]
    change (s.requireVariable r).map (fun w => upsert w (s.childVariables r) _) = _
    rw [Store.requireVariable_of_var? hv, ← upsert_of_not_mem hout]
    rfl

theorem foldlM_enterEdges (h : Charted s d g root) (before : List Ref) {l : List Ref}
    (hnodup : (before ++ l).Nodup) (hbelow : ∀ r ∈ before ++ l, s.Reaches root r) :
    l.foldlM s.enterEdges (before.filterMap s.entry) = .ok ((before ++ l).filterMap s.entry) := by
  induction l generalizing before with
  | nil =>
    rw [List.append_nil]
    rfl
  | cons r l ih =>
    have hnew : r ∉ before := by
      intro hr
      exact (List.nodup_append.mp hnodup).2.2 r hr r List.mem_cons_self rfl
    have hstep :=
      h.enterEdges_below (hbelow r (by simp)) hnew fun q hq => hbelow q (List.mem_append_left _ hq)
    have happend : before ++ r :: l = before ++ [r] ++ l := by simp
    rw [List.foldlM_cons, hstep, happend]
    rw [happend] at hnodup hbelow
    exact ih _ hnodup hbelow

theorem edges_eq (h : Charted s d g root) : s.edges d = .ok (s.edgeList root) := by
  have hfold : (s.depthFirst none [] root).met.foldlM s.enterEdges [] = .ok (s.edgeList root) :=
    h.foldlM_enterEdges [] Store.nodup_met_depthFirst fun r hr => h.mem_met_iff.mp hr
  unfold Store.edges
  rw [h.validatedRoot, ok_bind]
  dsimp only
  rw [hfold, ok_bind, Store.cycle_depthFirst_nil_eq_none_iff.mpr h.grounded]
  rfl

theorem mem_edges_iff (h : Charted s d g root) {needs : List Int} :
    (v, needs) ∈ s.edgeList root ↔
      ∃ r, s.Reaches root r ∧ s.Tests r v ∧ needs = s.childVariables r := by
  rw [Store.edgeList, List.mem_filterMap]
  constructor
  · rintro ⟨r, hr, he⟩
    unfold Store.entry at he
    split at he
    · cases he
    · rename_i hterm
      obtain ⟨w, hw, heq⟩ := Option.map_eq_some_iff.mp he
      obtain ⟨rfl, rfl⟩ := Prod.ext_iff.mp heq
      have hreach := h.mem_met_iff.mp hr
      refine ⟨r, hreach, (h.tests_iff hreach).mpr ⟨?_, hw⟩, rfl⟩
      simpa using hterm
  · rintro ⟨r, hr, htests, rfl⟩
    obtain ⟨hterm, hv⟩ := (h.tests_iff hr).mp htests
    exact ⟨r, h.mem_met_iff.mpr hr, by simp [Store.entry, hterm, hv]⟩

theorem nodup_edges (h : Charted s d g root) : (s.edgeList root).keys.Nodup := by
  have hkeys : (s.edgeList root).keys =
      (s.depthFirst none [] root).met.filterMap fun r => (s.entry r).map (·.1) := by
    rw [Dependencies.keys, Store.edgeList, List.map_filterMap]
  rw [hkeys, List.Nodup, List.pairwise_filterMap]
  refine List.Pairwise.imp_of_mem (fun ha hb hne v hv u hu huv => hne ?_) Store.nodup_met_depthFirst
  have hvar : ∀ {q w}, (s.entry q).map (·.1) = some w → s.isTerminal q = false ∧
      s.var? q = some w := by
    intro q w hw
    unfold Store.entry at hw
    split at hw
    · cases hw
    · rename_i hterm
      exact ⟨by simpa using hterm, by simpa using hw⟩
  exact h.eq_of_var? (h.mem_met_iff.mp ha) (h.mem_met_iff.mp hb) (hvar hv).2 (huv ▸ (hvar hu).2)
    (hvar hv).1

theorem needs_iff (h : Charted s d g root) :
    (s.edgeList root).Needs v u ↔ s.Over root v u := by
  constructor
  · rintro ⟨-, needs, hneeds, hu⟩
    obtain ⟨r, hr, htests, rfl⟩ := h.mem_edges_iff.mp hneeds
    obtain ⟨q, hq, hqu⟩ := Store.mem_childVariables.mp hu
    exact ⟨r, q, hr, hq, ((h.tests_iff hr).mp htests).2, hqu⟩
  · rintro ⟨r, q, hr, hrq, hv, hu⟩
    have hground := h.grounded.of_reaches hr
    have hterm := Store.isTerminal_of_leads hrq
    refine ⟨?_, s.childVariables r,
      h.mem_edges_iff.mpr ⟨r, hr, (h.tests_iff hr).mpr ⟨hterm, hv⟩, rfl⟩, ?_⟩
    · rintro rfl
      obtain rfl := h.eq_of_var? hr (hr.tail hrq) hv hu hterm
      exact hground.not_reaches_back hrq .refl
    · exact Store.mem_childVariables.mpr ⟨q, hrq, hu⟩

theorem acc_over (h : Charted s d g root) (hr : s.Reaches root r) (hv : s.var? r = some v) :
    Acc (Function.swap (s.Over root)) v := by
  have hground := h.grounded.of_reaches hr
  induction hground generalizing v with
  | intro r _ ih =>
    refine .intro v fun u hu => ?_
    obtain ⟨r', q, hr', hrq, hv', hqu⟩ := hu
    obtain rfl := h.eq_of_var? hr' hr hv' hv (Store.isTerminal_of_leads hrq)
    exact ih q hrq (hr'.tail hrq) hqu

theorem not_over_self (h : Charted s d g root) : ¬ ∃ v, TransGen (s.Over root) v v := by
  rintro ⟨v, hloop⟩
  obtain ⟨u, ⟨r, q, hr, -, hv, -⟩, -⟩ := TransGen.head'_iff.mp hloop
  exact Cycle.not_transGen_self_of_acc (h.acc_over hr hv) hloop

theorem exists_layers (h : Charted s d g root) (hroot : s.isTerminal root = false) :
    ∃ layers, s.layers d = .ok layers ∧ Dependencies.InOrder (s.Over root) [] layers.flatten ∧
      ∀ v, v ∈ layers.flatten ↔ ∃ r, s.Reaches root r ∧ s.var? r = some v := by
  have hover : (s.edgeList root).Needs = s.Over root := by
    funext v u
    exact propext h.needs_iff
  obtain ⟨layers, hlayers⟩ := Dependencies.exists_layers h.nodup_edges (hover ▸ h.not_over_self)
  obtain ⟨horder, hmem⟩ := Dependencies.inOrder_of_layers? h.nodup_edges hlayers
  rw [hover] at horder hmem
  refine ⟨layers, ?_, horder, fun v => ?_⟩
  · unfold Store.layers
    rw [h.edges_eq, ok_bind, hlayers]
    rfl
  · rw [hmem, Dependencies.mem_keys]
    constructor
    -- The layers hold the keys of the relation and what these need: the terminals are never keys.
    · rintro (⟨needs, hneeds⟩ | ⟨w, r, q, hr, hrq, -, hv⟩)
      · obtain ⟨r, hr, htests, -⟩ := h.mem_edges_iff.mp hneeds
        exact ⟨r, hr, ((h.tests_iff hr).mp htests).2⟩
      · exact ⟨q, hr.tail hrq, hv⟩
    · rintro ⟨r, hr, hv⟩
      cases hterm : s.isTerminal r with
      | false => exact .inl ⟨_, h.mem_edges_iff.mpr ⟨r, hr, (h.tests_iff hr).mpr ⟨hterm, hv⟩, rfl⟩⟩
      | true =>
        rcases ReflTransGen.cases_tail hr with rfl | ⟨p, hp, hpr⟩
        · simp [hroot] at hterm
        · obtain ⟨w, hw, -⟩ := h.exists_var hp
          exact .inr ⟨w, p, r, hp, hpr, hw, hv⟩

end Charted

namespace Rooted

variable {s : Store} {d : Ref} {g : Registry} {yes no root r q : Ref} {v u : Int}

theorem mem_nodes (h : Rooted s d g yes no root) : root ∈ g.nodes := h.wired.root h.found

theorem member (h : Rooted s d g yes no root) : g.Member yes no root := .inr (.inr h.mem_nodes)

theorem reaches_member (h : Rooted s d g yes no root) (hr : s.Reaches root r) : g.Member yes no r :=
  h.wired.reaches_member h.member hr

theorem charted (h : Rooted s d g yes no root) : Charted s d g root where
  registry? := h.wired.registry?
  found := h.found
  grounded := h.grounded
  charts := by
    intro r hr
    rcases h.reaches_member hr with rfl | rfl | hnode
    · exact .inr h.wired.reserved_yes
    · exact .inr h.wired.reserved_no
    · obtain ⟨v, hi, lo, hv, hbody, -⟩ := h.wired.exists_body hnode
      exact .inl ⟨v, hi, lo, hv, (h.wired.node hv).1, hbody⟩

theorem validatedRoot (h : Rooted s d g yes no root) : s.validatedRoot d = .ok root :=
  h.charted.validatedRoot

theorem evaluate_eq (h : Rooted s d g yes no root) (assignment : Assignment) :
    s.evaluate d assignment = s.follow assignment [] root := by
  unfold Store.evaluate
  rw [h.validatedRoot]
  rfl

theorem exists_layers (h : Rooted s d g yes no root) : ∃ layers, s.layers d = .ok layers ∧
    Dependencies.InOrder (s.Over root) [] layers.flatten ∧
    ∀ v, v ∈ layers.flatten ↔ ∃ r, s.Reaches root r ∧ s.var? r = some v :=
  h.charted.exists_layers (h.wired.isTerminal_of_mem_nodes h.mem_nodes)

end Rooted

end DecisionDiagram
