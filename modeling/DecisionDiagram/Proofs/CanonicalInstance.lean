import DecisionDiagram.Proofs.ProperBranches
/-! Which vertex is stored as a branch when a vertex is handed over. The table answers for its
variable, so that a vertex of another diagram, or of none, gives way to the node of the diagram. The
table has no terminals: a terminal that is handed over is stored itself, although the diagram finds
its own one under the same variable. -/
namespace DecisionDiagram

namespace Store

variable {s : Store} {d r n : Ref} {v : Int}

theorem registry?_updateRegistry (f : Registry → Registry) :
    registry? (s.updateRegistry d f) r = if d = r then (s.registry? r).map f
      else s.registry? r := by
  unfold registry? updateRegistry
  rw [vertex?_modify]
  split
  · cases s.vertex? r with
    | none => rfl
    | some x =>
      obtain ⟨kind, hi, lo, parents⟩ := x
      cases kind <;> rfl
  · rfl

def Unreserved (s : Store) : Prop :=
  ∀ d g, s.registry? d = some g → ∀ v, isReserved v = true → g.find? v = none

namespace Unreserved

theorem modify (h : s.Unreserved) {f : Vertex → Vertex} (hkind : ∀ x, (f x).kind = x.kind) :
    (s.modify r f).Unreserved := by
  intro d g hg
  refine h d g ?_
  unfold registry? at hg ⊢
  rw [vertex?_modify] at hg
  split at hg
  · simpa [Option.bind_map, Function.comp_def, hkind] using hg
  · exact hg

theorem push (h : s.Unreserved) {x : Vertex} (hx : ∀ g, x.kind.registry? = some g → g = {}) :
    (s.push x).Unreserved := by
  intro d g hg
  unfold registry? at hg
  rw [vertex?_push] at hg
  split at hg
  · obtain rfl := hx g hg
    exact fun _ _ => rfl
  · exact h d g hg

theorem updateRegistry (h : s.Unreserved) {f : Registry → Registry}
    (hf : ∀ g v, isReserved v = true → g.find? v = none → (f g).find? v = none) :
    (s.updateRegistry d f).Unreserved := by
  intro q g hg v hv
  rw [registry?_updateRegistry] at hg
  split at hg
  · obtain ⟨g, hg', rfl⟩ := Option.map_eq_some_iff.mp hg
    exact hf g v hv (h q g hg' v hv)
  · exact h q g hg v hv

theorem lasting : Lasting Unreserved where
  dropParent hs := hs.modify fun _ => rfl
  addParent _ hs := hs.modify fun _ => rfl
  setBranch {_ _ side _} _ _ hs := hs.modify fun _ => by cases side <;> rfl
  push hcreate _ hempty hs := hs.push fun g hg => hempty g (by rwa [(create_eq hcreate).1] at hg)
  warn hs := hs
  insert hfree _ hs := hs.updateRegistry fun g w hw hnone => by
    rw [Registry.find?_insert, if_neg, hnone]
    rintro rfl
    simp [hfree] at hw
  setRoot hs := hs.updateRegistry fun _ _ _ hnone => hnone

/-- A vertex gives way to the one that the diagram finds for its variable, but for terminals. -/
theorem listed_eq (h : s.Unreserved) (hv : s.var? r = some v) (hn : s.vertexOf? d v = some n) :
    s.listed d r = if isReserved v then r else n := by
  rw [listed, hv]
  dsimp only
  cases hfree : isReserved v with
  | true =>
    cases hg : s.registry? d with
    | none => rfl
    | some g => rw [Option.bind_some, h d g hg v hfree]; rfl
  | false =>
    rw [isReserved, Bool.or_eq_false_iff, beq_eq_false_iff_ne, beq_eq_false_iff_ne] at hfree
    rw [vertexOf?, if_neg hfree.1, if_neg hfree.2] at hn
    rw [hn]
    rfl

end Unreserved

end Store

namespace Diagram

variable {s s' : Store} {d node : Ref} {source target hi lo : Reference} {selector : Selector}
variable {edge : Edge} {v : Int}

theorem branch_lasts (side : Bool) (r : Ref) (end? : Option Ref) :
    (∀ {s child parent}, Store.branch s side r = end? →
      (s.dropParent child parent).branch side r = end?) ∧
      ∀ {s child parent l}, s.hasBranch child parent = false → Store.branch s side r = end? →
        (s.addParent child parent l).branch side r = end? := by
  constructor
  · intro s child parent hs
    rwa [Store.branch_dropParent]
  · intro s child parent l _ hs
    rwa [Store.branch_addParent]

theorem requireMutable_eq_ok {u : Unit} (hrun : requireMutable d s = .ok u s') : s' = s :=
  (after_of_ok hrun).symm.trans ((preserves_requireMutable : Edit.Preserves (· = s) _) s rfl)

theorem relink_eq_ok {a b : Ref} {former : Option Ref} {side : Bool} {l : Label}
    (hrun : relink d a b former side l s = .ok edge s') : edge = ⟨a, b, side⟩ := by
  have hlink :
      ∀ {t : Store}, (link d a b l >>= fun _ => pure (⟨a, b, side⟩ : Edge)) t = .ok edge s' →
        edge = ⟨a, b, side⟩ := by
    intro t hrun
    obtain ⟨_, _, -, hreturn⟩ := bind_eq_ok_iff.mp hrun
    exact (EStateM.Result.ok.inj hreturn).1.symm
  unfold relink at hrun
  dsimp only at hrun
  split at hrun
  · split at hrun
    · obtain ⟨_, _, -, hrest⟩ := bind_eq_ok_iff.mp hrun
      exact hlink hrest
    · exact hlink hrun
  · exact hlink hrun

theorem wireBranch_stores {a b : Ref} {side : Bool} {u : Unit} (hexists : a < s.size)
    (hrun : wireBranch a side b s = .ok u s') : s'.branch side a = some b := by
  obtain ⟨x, hx⟩ : ∃ x, s.vertex? a = some x := ⟨_, Array.getElem?_eq_getElem hexists⟩
  have hstored : (s.setBranch a side b).branch side a = some b := by
    rw [Store.branch, Store.setBranch, Store.vertex?_modify_self, hx, Option.map_some,
      Option.bind_some, Vertex.branch_setBranch, if_pos rfl]
  cases hterm : s.isTerminal a with
  | true => cases (Wired.wireBranch_terminal hterm).symm.trans hrun
  | false =>
    rw [Wired.wireBranch_run hterm] at hrun
    split at hrun
    · exact (EStateM.Result.ok.inj hrun).2 ▸ hstored
    · cases hrun

theorem setEdge_stores (hrun : Diagram.setEdge d source target selector s = .ok edge s')
    (hexists : edge.source < s.size) :
    s.requireListed d target = .ok edge.target ∧ edge.side = selector.side ∧
      s'.branch edge.side edge.source = some edge.target := by
  unfold Diagram.setEdge at hrun
  obtain ⟨_, s₁, hmutable, hrun₁⟩ := bind_eq_ok_iff.mp hrun
  obtain rfl := requireMutable_eq_ok hmutable
  obtain ⟨a, s₂, hsource, hrun₂⟩ := bind_eq_ok_iff.mp hrun₁
  obtain ⟨-, rfl⟩ := observe_eq_ok_iff.mp hsource
  obtain ⟨b, s₃, htarget, hrun₃⟩ := bind_eq_ok_iff.mp hrun₂
  obtain ⟨hb, rfl⟩ := observe_eq_ok_iff.mp htarget
  change (wireBranch a selector.side b >>= fun _ => relink d a b _ selector.side selector.toLabel)
    _ = _ at hrun₃
  obtain ⟨_, s₄, hwire, hrelink⟩ := bind_eq_ok_iff.mp hrun₃
  obtain rfl := relink_eq_ok hrelink
  refine ⟨hb, rfl, ?_⟩
  obtain ⟨hdrop, hadd⟩ := branch_lasts selector.side a (some b)
  rw [← after_of_ok hrelink]
  exact preserves_relink hdrop hadd _ (wireBranch_stores hexists hwire)

theorem createVertex_eq_ok {kind : Kind} {parent hi lo : Option Ref} {r : Ref}
    (hrun : createVertex kind parent hi lo s = .ok r s') :
    ∃ x, Vertex.create kind parent hi lo = .ok x ∧ r = s.size ∧ s' = s.push x := by
  obtain ⟨x, s₁, hobserve, hpush⟩ := bind_eq_ok_iff.mp hrun
  obtain ⟨hcreate, rfl⟩ := observe_eq_ok_iff.mp hobserve
  obtain ⟨rfl, rfl⟩ := EStateM.Result.ok.inj hpush
  refine ⟨x, ?_, rfl, rfl⟩
  cases hx : Vertex.create kind parent hi lo with
  | ok y => exact (congrArg (·.mapError s₁.raise) hx).symm.trans hcreate
  | error e => cases (congrArg (·.mapError s₁.raise) hx).symm.trans hcreate

theorem placeNode_stores (hrun : placeNode d v hi lo s = .ok node s') (side : Bool) :
    ∃ target, s.branchTarget d side (if side then hi else lo) = .ok target ∧
    s'.branch side node = target := by
  obtain ⟨a, s₁, hobserve, hrun₁⟩ := bind_eq_ok_iff.mp hrun
  obtain ⟨ha, rfl⟩ := observe_eq_ok_iff.mp hobserve
  obtain ⟨b, s₂, hobserve, hrun₂⟩ := bind_eq_ok_iff.mp hrun₁
  obtain ⟨hb, rfl⟩ := observe_eq_ok_iff.mp hobserve
  obtain ⟨r, s₃, hcreated, hrun₃⟩ := bind_eq_ok_iff.mp hrun₂
  obtain ⟨x, hcreate, rfl, rfl⟩ := createVertex_eq_ok hcreated
  have hnode : node = s₂.size := by
    obtain ⟨_, _, -, hrun₄⟩ := bind_eq_ok_iff.mp hrun₃
    obtain ⟨_, _, -, hrun₅⟩ := bind_eq_ok_iff.mp hrun₄
    obtain ⟨_, _, -, hreturn⟩ := bind_eq_ok_iff.mp hrun₅
    exact (EStateM.Result.ok.inj hreturn).1.symm
  obtain ⟨-, hhi, hlo⟩ := create_eq hcreate
  refine ⟨if side then a else b, by cases side <;> assumption, ?_⟩
  obtain ⟨hdrop, hadd⟩ := branch_lasts side node (if side then a else b)
  rw [← after_of_ok hrun₃]
  refine preserves_bind (preserves_linkInner hdrop hadd _)
    (fun _ => preserves_bind (preserves_linkInner hdrop hadd _)
    fun _ => preserves_bind (preserves_modify fun t ht => ?_) fun _ => preserves_pure _) _ ?_
  · rwa [Store.branch_updateRegistry]
  · subst hnode
    rw [Store.branch, Store.vertex?_push, if_pos rfl, Option.bind_some, Vertex.branch, hhi, hlo]

theorem addNode_stores (hrun : addNode d v hi lo s = .ok node s')
    (hnew : (s.registry? d).bind (·.find? v) = none) (side : Bool) :
    ∃ target, s.branchTarget d side (if side then hi else lo) = .ok target ∧
    s'.branch side node = target := by
  obtain ⟨g, s₁, hobserve, hrun₁⟩ := bind_eq_ok_iff.mp hrun
  obtain ⟨hg, rfl⟩ := observe_eq_ok_iff.mp hobserve
  have hfind : g.find? v = none := by
    unfold Store.registry at hg
    split at hg
    · rename_i hregistry
      rw [hregistry, Except.ok.inj hg] at hnew
      exact hnew
    · cases hg
  dsimp only at hrun₁
  rw [hfind] at hrun₁
  obtain ⟨_, s₂, hmutable, hrun₂⟩ := bind_eq_ok_iff.mp hrun₁
  obtain rfl := requireMutable_eq_ok hmutable
  cases hfree : isReserved v with
  | true =>
    rw [hfree] at hrun₂
    cases hrun₂
  | false =>
    rw [hfree] at hrun₂
    exact placeNode_stores hrun₂ side

end Diagram

/-- Whatever operations have gone before, with whatever vertices: a vertex is handed over as the
target of an edge that is set, or as a branch of a node that is added, and the diagram finds a
vertex under its variable. That one is stored, unless the variable is reserved: a terminal that is
handed over is stored itself, also if it belongs to another diagram. -/
theorem branch_of_handed (os : List Operation) {d r n : Ref} {v : Int}
    (hv : (Store.afterOperations {} os).var? r = some v)
    (hn : (Store.afterOperations {} os).vertexOf? d v = some n) :
    let s := Store.afterOperations {} os
    (∀ {source selector edge s'}, Diagram.setEdge d source (.vertex r) selector s = .ok edge s' →
      edge.source < s.size → edge.side = selector.side ∧
      s'.branch edge.side edge.source = some edge.target ∧
        edge.target = if isReserved v then r else n) ∧
    ∀ {w hi lo node s'}, Diagram.addNode d w hi lo s = .ok node s' →
    (s.registry? d).bind (·.find? w) = none →
      ∀ side, (if side then hi else lo) = .vertex r →
        s'.branch side node = some (if isReserved v then r else n) := by
  intro s
  have hunreserved : s.Unreserved :=
    Store.Unreserved.lasting.afterOperations (s := {}) (fun d g hg => by cases hg) os
  have hlisted : s.listed d r = if isReserved v then r else n := hunreserved.listed_eq hv hn
  constructor
  · intro source selector edge s' hrun hexists
    obtain ⟨htarget, hside, hbranch⟩ := Diagram.setEdge_stores hrun hexists
    exact ⟨hside, hbranch, (Except.ok.inj htarget).symm.trans hlisted⟩
  · intro w hi lo node s' hrun hnew side hr
    obtain ⟨target, htarget, hbranch⟩ := Diagram.addNode_stores hrun hnew side
    rw [hr] at htarget
    rw [hbranch, ← Except.ok.inj htarget, hlisted]

/-- Two diagrams, with a node for the variable 5 each; the second one has a node for 1 as well. -/
def neighbours : List Operation :=
  [.diagram, .call 0 (.addNode 5 .nothing .nothing), .diagram,
    .call 4 (.addNode 1 .nothing .nothing), .call 4 (.addNode 5 .nothing .nothing)]

theorem branch_of_handed_neighbours :
    let s := Store.afterOperations {} neighbours
    (∃ s', Diagram.setEdge 4 (.variable 1) (.vertex 3) (.flag true) s = .ok ⟨7, 8, true⟩ s' ∧
      s'.branch true 7 = some 8) ∧
    ∃ s', Diagram.addNode 4 2 (.vertex 3) .nothing s = .ok 9 s' ∧ s'.branch true 9 = some 8 := by
  intro s
  obtain ⟨hset, hadd⟩ := branch_of_handed neighbours (d := 4) (r := 3) (n := 8) (v := 5) rfl rfl
  have hsetRun : Diagram.setEdge 4 (.variable 1) (.vertex 3) (.flag true) s = .ok ⟨7, 8, true⟩
      ((Call.setEdge (.variable 1) (.vertex 3) (.flag true)).after 4 s) := rfl
  have haddRun : Diagram.addNode 4 2 (.vertex 3) .nothing s = .ok 9
      ((Call.addNode 2 (.vertex 3) .nothing).after 4 s) := rfl
  exact ⟨⟨_, hsetRun, (hset hsetRun (by decide)).2.1⟩, ⟨_, haddRun, hadd haddRun rfl true rfl⟩⟩

/-- The true terminal of the first diagram is handed to the second one. It is stored, though the
second one finds its own terminal under the same variable, so that the edge is not found under the
variables of its ends. -/
theorem setEdge_terminal_neighbours : let s := Store.afterOperations {} neighbours
    s.var? 1 = some trueVariable ∧ s.vertexOf? 4 trueVariable = some 5 ∧
      ∃ s', Diagram.setEdge 4 (.variable 1) (.vertex 1) (.flag true) s = .ok ⟨7, 1, true⟩ s' ∧
        s'.branch true 7 = some 1 ∧
        Diagram.edgeSide s' 4 (.variable 1) (.variable trueVariable) = .error
          (.unknownEdge 7 5) := by
  refine ⟨rfl, rfl, (Call.setEdge (.variable 1) (.vertex 1) (.flag true)).after 4
    (Store.afterOperations {} neighbours), rfl, rfl, ?_⟩
  exact (rfl : Diagram.edgeSide _ 4 _ _ = .error (Store.raise _ (.unknownEdge 7 5))).trans
    (congrArg Except.error (Store.raise_of_small (by decide)))

end DecisionDiagram
