import DecisionDiagram.Cursor
import DecisionDiagram.Proofs.CursorPreorder
import DecisionDiagram.Proofs.DecidingTables
import DecisionDiagram.Proofs.DirectedWalk
import DecisionDiagram.Proofs.EditTells
/-! Walks and edits that read one branch at a time. Each of them asks a vertex for a branch only
where it has made sure that the vertex is no terminal, and it comes to what the walk or the edit
comes to that has the whole store in view. A walk that may be abandoned reads a branch as soon as it
meets a vertex, which is no later than it has to. -/
namespace DecisionDiagram

variable {s : Store} {budget : Option Nat} {met visited : List Ref} {frames : List Frame}
variable {d r start : Ref} {side : Bool}
variable {n : Nat} {selector : Selector}

namespace Store

theorem successors_eq (s : Store) (r : Ref) : s.successors r =
    if s.isTerminal r then [] else (s.branch true r).toList ++ (s.branch false r).toList := by
  unfold successors isTerminal branch
  cases s.vertex? r <;> rfl

theorem length_successors_le (s : Store) (r : Ref) : (s.successors r).length ≤ 2 := by
  rw [successors_eq]
  split
  · exact Nat.zero_le 2
  · rw [List.length_append]
    exact Nat.add_le_add Option.length_toList_le Option.length_toList_le

theorem length_walk_le_succ (s : Store) (side : Bool) (r : Ref) :
    (s.walk side r).length ≤ s.size + 1 := by
  obtain ⟨front, last, heq, hfront, -⟩ := s.exists_walk_eq side r
  have hsub : front ⊆ s.refs := fun q hq => by
    obtain ⟨hterm, n, hn⟩ := hfront q hq
    exact mem_refs.mpr (lt_size_of_next ((next_of_not_isTerminal hterm).trans hn))
  have hnodup : (front ++ [last]).Nodup := heq ▸ nodup_walkOn.1
  have hfront := (hnodup.of_append_left.subperm hsub).length_le
  rw [heq, List.length_append]
  simpa [refs] using hfront

end Store

namespace Guarded

def next (r : Ref) (selector : Selector) : Edit (Option Ref) := do
  if (← get).isTerminal r then return none
  else readBranch r selector

def successors (r : Ref) : Edit (List Ref) := do
  if (← get).isTerminal r then return []
  else
    let hi ← readBranch r (.flag true)
    let lo ← readBranch r (.flag false)
    return hi.toList ++ lo.toList

def walkOn (side : Bool) : Nat → List Ref → Ref → Edit (List Ref)
  | 0, _, _ => return []
  | n + 1, met, r => do
    if r ∈ met then return []
    else
      match ← next r (.flag side) with
      | none => return [r]
      | some q => return r :: (← walkOn side n (r :: met) q)

/-- A walk meets every vertex once, and perhaps one that is not in the store. -/
def walkWithin (budget : Option Nat) (side : Bool) (r : Ref) : Edit (List Ref) := do
  walkOn side (budget.getD ((← get).size + 1)) [] r

def descend : Nat → Option Nat → List Ref → List Frame → Edit Pass
  | 0, _, visited, _ => return .stopped visited
  | n + 1, budget, visited, frames =>
    if budget = some 0 then return .stopped visited else
    match frames with
    | [] => return .stopped visited
    | ⟨_, []⟩ :: outer => descend n budget visited outer
    | ⟨r, c :: rest⟩ :: outer => do
      if c = r ∨ c ∈ outer.map (·.vertex) then return ⟨[], visited, some (r, c)⟩
      else if c ∈ visited then descend n budget visited (⟨r, rest⟩ :: outer)
      else
        let next ← successors c
        return (← descend n (budget.map (· - 1)) (visited ++ [c])
          (⟨c, next⟩ :: ⟨r, rest⟩ :: outer)).prepend c

/-- The rounds that are left for a walk: a vertex that is seen for the first time brings in two
successors. -/
def rounds (s : Store) (visited : List Ref) (frames : List Frame) : Nat :=
  4 * s.unseen visited + pendingWork frames

def depthFirst (budget : Option Nat) (visited : List Ref) (start : Ref) : Edit Pass := do
  if budget = some 0 ∨ start ∈ visited then return .stopped visited
  else
    let frames := [⟨start, ← successors start⟩]
    let n := rounds (← get) (visited ++ [start]) frames
    return (← descend (n + 1) (budget.map (· - 1)) (visited ++ [start]) frames).prepend start

def firstCycle (visited : List Ref) : List Ref → Edit (Option (Ref × Ref))
  | [] => return none
  | r :: rs => do
    let pass ← depthFirst none visited r
    match pass.cycle with
    | some edge => return some edge
    | none => firstCycle pass.visited rs

def findRoot (d : Ref) (g : Registry) : Edit Ref := do
  let s ← get
  match s.rootCandidates d g with
  | [root] =>
    match (← depthFirst none [] root).cycle with
    | some (source, target) => throw (s.raise (.cyclicPath source target))
    | none => return root
  | [] =>
    match ← firstCycle [] g.nodes with
    | some (source, target) => throw (s.raise (.cyclicPath source target))
    | none => throw (s.raise (.rootCount []))
  | candidates => throw (s.raise (.rootCount candidates))

def validate (d : Ref) : Edit Ref := do
  let g ← observe (·.registry d)
  match g.root with
  | some root => return root
  | none =>
    let root ← findRoot d g
    modify (·.updateRegistry d (·.setRoot root))
    return root

def setEdge (d : Ref) (source target : Reference) (selector : Selector) : Edit Edge := do
  Diagram.requireMutable d
  let source ← observe (·.require d source)
  let target ← observe (·.requireListed d target)
  let former ← next source selector
  wireBranch source selector.side target
  Diagram.relink d source target former selector.side selector.toLabel

def walk (c : Cursor) (budget : Option Nat) (start : Ref) : Edit Pass := do
  let pass ← depthFirst budget ((← get).visited c) start
  modify (·.setVisited c pass.visited)
  return pass

/-- The vertex of a constant line is a branch of the diagram, which is no terminal. No other line
reads a branch. -/
def buildLine (d : Ref) (lines : Document.Lines) (built : List (Int × Ref)) (id : Int) :
    Edit (List (Int × Ref)) := do
  match lines.lookup id with
  | some (.constant value) =>
    match ← readBranch d (.flag value) with
    | some r => return (id, r) :: built
    | none => throw .notOffered
  | _ => Document.buildLine d lines built id

def build (lines : Document.Lines) (root : Int) : Edit Ref := do
  let ids ← observe fun _ => Document.reachable lines root
  match (Document.dependencies lines ids).layers? with
  | none => throw .cyclicLines
  | some layers =>
    let d ← Diagram.create
    let built ← layers.flatten.foldlM (buildLine d lines) []
    let found ← validate d
    let declared ← observe fun _ => Document.builtVertex built root
    if found ≠ declared then throw ((← get).raise (.misplacedRoot root))
    return d

def load (document : Document) (file : String) : Edit (List Text × Ref) := do
  match document.root with
  | some root => return (document.order, ← build document.lines root)
  | none => throw (.noLines file)

def parse (bytes : Text.Bytes) (file : String) : Edit (List Text × Ref) := do
  load (← observe fun _ => Document.ofBytes bytes) file

theorem next_tells (s : Store) (r : Ref) (selector : Selector) :
    (next r selector).Tells s (.ok (s.next selector.side r)) := by
  refine tells_bind_ok tells_get ?_
  cases hterm : s.isTerminal r with
  | true =>
    rw [Store.next_of_isTerminal hterm]
    exact tells_pure none
  | false =>
    rw [Store.next_of_not_isTerminal hterm]
    exact tells_readBranch hterm

theorem successors_tells (s : Store) (r : Ref) : (successors r).Tells s (.ok (s.successors r)) := by
  refine tells_bind_ok tells_get ?_
  rw [Store.successors_eq]
  cases hterm : s.isTerminal r with
  | true => exact tells_pure []
  | false =>
    exact tells_bind_ok (tells_readBranch hterm)
      (tells_bind_ok (tells_readBranch hterm) (tells_pure _))

theorem walkOn_tells : (walkOn side n met r).Tells s (.ok ((s.walkOn side met r).take n)) := by
  induction n generalizing met r with
  | zero => exact tells_pure []
  | succ n ih =>
    rw [Store.walkOn_eq, walkOn]
    by_cases hmem : r ∈ met
    · rw [if_pos hmem, if_pos hmem]
      exact tells_pure []
    · rw [if_neg hmem, if_neg hmem]
      have hnext : (next r (.flag side)).Tells s (.ok (s.next side r)) :=
        next_tells s r (.flag side)
      cases hq : s.next side r with
      | none =>
        rw [hq] at hnext
        rw [Option.elim_none, List.take_succ_cons, List.take_nil]
        exact tells_bind_ok hnext (tells_pure [r])
      | some q =>
        rw [hq] at hnext
        exact tells_bind_ok hnext (tells_bind_ok ih (tells_pure _))

theorem walkWithin_tells (s : Store) (budget : Option Nat) (side : Bool) (r : Ref) :
    (walkWithin budget side r).Tells s (.ok (s.walkWithin budget side r)) := by
  refine tells_bind_ok tells_get ?_
  cases budget with
  | some n => exact walkOn_tells
  | none =>
    have hall : (s.walk side r).take (s.size + 1) = s.walk side r :=
      List.take_of_length_le (s.length_walk_le_succ side r)
    have hwalk : (walkOn side (s.size + 1) [] r).Tells s
      (.ok ((s.walk side r).take (s.size + 1))) := walkOn_tells
    rwa [hall] at hwalk

theorem rounds_meet {c : Ref} {rest : List Ref} (hnew : c ∉ visited) :
    rounds s (visited ++ [c]) (⟨c, s.successors c⟩ :: ⟨r, rest⟩ :: frames) < rounds s visited
      (⟨r, c :: rest⟩ :: frames) := by
  have hsub : ∀ x ∈ visited, x ∈ visited ++ [c] := fun _ hx => List.mem_append_left _ hx
  simp only [rounds, pendingWork, List.foldr_cons, List.length_cons]
  rcases Nat.lt_or_ge c s.size with hc | hc
  · have hseen := Store.unseen_lt hsub hc hnew (by simp)
    have hlength := s.length_successors_le c
    omega
  · have hseen := Store.unseen_le (s := s) hsub
    rw [Store.successors_of_size_le hc, List.length_nil]
    omega

theorem descend_tells (hn : rounds s visited frames < n) :
    (descend n budget visited frames).Tells s (.ok (s.descend budget visited frames)) := by
  -- `rounds` counts the steps that are left, and every branch of the loop takes one.
  induction n generalizing budget visited frames with
  | zero => exact absurd hn (Nat.not_lt_zero _)
  | succ n ih =>
    unfold descend
    by_cases hbudget : budget = some 0
    · rw [hbudget, if_pos rfl, Store.descend_zero]
      exact tells_pure _
    rw [if_neg hbudget]
    rcases frames with _ | ⟨⟨r, _ | ⟨c, rest⟩⟩, outer⟩
    · rw [Store.descend, if_neg hbudget]
      exact tells_pure _
    · rw [Store.descend, if_neg hbudget]
      refine ih ?_
      simp only [rounds, pendingWork, List.foldr_cons] at hn ⊢
      omega
    · rw [Store.descend_cons hbudget]
      by_cases hpath : c = r ∨ c ∈ outer.map (·.vertex)
      · simp only [if_pos hpath]
        exact tells_pure _
      simp only [if_neg hpath]
      by_cases hold : c ∈ visited
      · simp only [if_pos hold]
        refine ih ?_
        simp only [rounds, pendingWork, List.foldr_cons, List.length_cons] at hn ⊢
        omega
      · simp only [if_neg hold]
        have hrounds : rounds s (visited ++ [c]) (⟨c, s.successors c⟩ :: ⟨r, rest⟩ :: outer) < _ :=
          rounds_meet hold
        exact tells_bind_ok (successors_tells s c) (tells_bind_ok (ih (by omega)) (tells_pure _))

theorem depthFirst_tells (s : Store) (budget : Option Nat) (visited : List Ref) (start : Ref) :
    (depthFirst budget visited start).Tells s (.ok (s.depthFirst budget visited start)) := by
  unfold depthFirst Store.depthFirst
  split
  · exact tells_pure _
  · exact tells_bind_ok (successors_tells s start) (tells_bind_ok tells_get
      (tells_bind_ok (descend_tells (Nat.lt_succ_self _)) (tells_pure _)))

theorem firstCycle_tells (s : Store) (visited rs : List Ref) :
    (firstCycle visited rs).Tells s (.ok (s.firstCycle visited rs)) := by
  induction rs generalizing visited with
  | nil => exact tells_pure none
  | cons r rs ih =>
    refine tells_bind_ok (depthFirst_tells s none visited r) ?_
    unfold Store.firstCycle
    dsimp only
    cases (s.depthFirst none visited r).cycle with
    | some edge => exact tells_pure _
    | none => exact ih _

theorem findRoot_tells (s : Store) (d : Ref) (g : Registry) :
    (findRoot d g).Tells s (s.findRoot d g) := by
  refine tells_bind_ok tells_get ?_
  unfold Store.findRoot
  rcases s.rootCandidates d g with _ | ⟨root, _ | ⟨other, rest⟩⟩
  · refine tells_bind_ok (firstCycle_tells s [] g.nodes) ?_
    cases s.firstCycle [] g.nodes <;> exact tells_throw _
  · refine tells_bind_ok (depthFirst_tells s none [] root) ?_
    dsimp only
    cases (s.depthFirst none [] root).cycle with
    | some edge => exact tells_throw _
    | none => exact tells_pure _
  · exact tells_throw _

theorem validate_eq (d : Ref) : validate d = Diagram.validate d := by
  refine funext fun s => bind_congr_run rfl fun g s _ => ?_
  cases g.root with
  | some root => rfl
  | none =>
    rw [show findRoot d g = observe (·.findRoot d g) from eq_observe fun s => findRoot_tells s d g]

theorem setEdge_eq (d : Ref) (source target : Reference) (selector : Selector) :
    setEdge d source target selector = Diagram.setEdge d source target selector := by
  have hnext : ∀ r, next r selector = observe fun s => .ok (s.next selector.side r) := fun r =>
    eq_observe fun s => next_tells s r selector
  unfold setEdge Diagram.setEdge
  simp only [hnext]
  rfl

theorem walk_eq (c : Cursor) (budget : Option Nat) (start : Ref) :
    walk c budget start = c.walk budget start := by
  refine funext fun s => ?_
  have hpass :
      depthFirst budget (s.visited c) start s = .ok (s.depthFirst budget (s.visited c) start) s :=
    depthFirst_tells s budget (s.visited c) start
  exact bind_of_ok hpass

theorem buildLine_eq (hd : s.isDiagram d = true) (lines : Document.Lines) (built : List (Int × Ref))
    (id : Int) : buildLine d lines built id s = Document.buildLine d lines built id s := by
  unfold buildLine
  cases hline : lines.lookup id with
  | none => rfl
  | some rule =>
    cases rule with
    | constant value =>
      have hread : readBranch d (.flag value) s = .ok (s.branch value d) s :=
        tells_readBranch (Store.isTerminal_of_isDiagram hd)
      refine (bind_of_ok hread).trans ?_
      unfold Document.buildLine
      rw [hline]
      rfl
    | test v lo hi => rfl

theorem build_eq (lines : Document.Lines) (root : Int) :
    build lines root = Document.build lines root := by
  refine funext fun s => bind_congr_run rfl fun ids s _ => ?_
  cases (Document.dependencies lines ids).layers? with
  | none => rfl
  | some layers =>
    refine bind_congr_run rfl fun d s hcreate => bind_congr_run ?_ fun built s _ => ?_
    · refine foldlM_congr_run ?_ (fun s built id hs => buildLine_eq hs lines built id)
        ((Store.steady_isDiagram d).buildLine d lines) _ []
      rw [Store.isDiagram, Tabled.registry? (.created hcreate)]
      rfl
    · rw [validate_eq]

theorem load_eq (document : Document) (file : String) :
    load document file = document.load file := by
  unfold load Document.load
  cases document.root with
  | none => rfl
  | some root =>
    dsimp only
    rw [build_eq]

theorem parse_eq (bytes : Text.Bytes) (file : String) :
    parse bytes file = Document.parse bytes file := by
  unfold parse Document.parse
  simp only [load_eq]

end Guarded

end DecisionDiagram
