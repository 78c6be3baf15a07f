import DecisionDiagram.Diagram
/-! The two halves of a vertex. Its body is what walks and inference read: the kind and the
branches. Its labels tell which parents are recorded. Each edit of the store is described by what it
does to either. -/
namespace DecisionDiagram

namespace Vertex

def body (x : Vertex) : Vertex := { x with parents := [] }

@[simp] theorem body_addParent (x : Vertex) (p : Ref) (l : Label) :
    (x.addParent p l).body = x.body := rfl

@[simp] theorem body_dropParent (x : Vertex) (p : Ref) : (x.dropParent p).body = x.body := rfl

@[simp] theorem body_setBranch (x : Vertex) (side : Bool) (target : Ref) :
    (x.setBranch side target).body = x.body.setBranch side target := by
  cases side <;> rfl

end Vertex

namespace Store

variable {s : Store} {r q p : Ref} {x : Vertex}

def body? (s : Store) (r : Ref) : Option Vertex := (s.vertex? r).map Vertex.body

theorem exists_vertex_of_body (h : s.body? r = some x) : ∃ y, s.vertex? r = some y ∧ y.body = x :=
  Option.map_eq_some_iff.mp h

theorem lt_size_of_body (h : s.body? r = some x) : r < s.size := by
  obtain ⟨y, hy, -⟩ := exists_vertex_of_body h
  exact lt_size_of_vertex? hy

/-! What is read off the kind. -/

theorem isTerminal_eq_kind : s.isTerminal r = (s.kind? r).any Kind.isTerminal := by
  unfold isTerminal kind?
  cases s.vertex? r <;> rfl

theorem var?_eq_kind : s.var? r = (s.kind? r).bind Kind.var? := by
  unfold var? kind?
  cases s.vertex? r <;> rfl

theorem registry?_eq_kind : s.registry? r = (s.kind? r).bind Kind.registry? := by
  unfold registry? kind?
  cases s.vertex? r <;> rfl

theorem terminalValue?_eq_kind : s.terminalValue? r = (s.kind? r).bind Kind.terminalValue? := by
  unfold terminalValue? kind?
  cases s.vertex? r <;> rfl

theorem isTerminal_eq_isSome : s.isTerminal r = (s.terminalValue? r).isSome := by
  rw [isTerminal_eq_kind, terminalValue?_eq_kind]
  cases s.kind? r with
  | none => rfl
  | some kind => cases kind <;> rfl

/-! What is read off the body. -/

theorem kind?_eq_body : s.kind? r = (s.body? r).map Vertex.kind := by
  unfold kind? body?
  cases s.vertex? r <;> rfl

theorem isTerminal_eq_body : s.isTerminal r = (s.body? r).any (·.isTerminal) := by
  unfold isTerminal body?
  cases s.vertex? r <;> rfl

theorem var?_eq_body : s.var? r = (s.body? r).bind (·.kind.var?) := by
  unfold var? body?
  cases s.vertex? r <;> rfl

theorem registry?_eq_body : s.registry? r = (s.body? r).bind (·.kind.registry?) := by
  unfold registry? body?
  cases s.vertex? r <;> rfl

theorem terminalValue?_eq_body : s.terminalValue? r = (s.body? r).bind (·.kind.terminalValue?) := by
  unfold terminalValue? body?
  cases s.vertex? r <;> rfl

theorem branch_eq_body (side : Bool) : s.branch side r = (s.body? r).bind (·.branch side) := by
  unfold branch body?
  cases s.vertex? r <;> rfl

theorem next_eq_body (side : Bool) : s.next side r = (s.body? r).bind (·.next side) := by
  unfold next body?
  cases s.vertex? r <;> rfl

theorem successors_eq_body : s.successors r = (s.body? r).elim [] (·.successors) := by
  unfold successors body?
  cases s.vertex? r <;> rfl

theorem hasBranch_eq_body : s.hasBranch r q = (s.body? r).any (·.hasBranch q) := by
  unfold hasBranch body?
  cases s.vertex? r <;> rfl

theorem successors_congr {s' : Store} (h : s'.body? r = s.body? r) :
    s'.successors r = s.successors r := by
  rw [successors_eq_body, successors_eq_body, h]

/-! What edits do to bodies. -/

theorem body?_push : (s.push x).body? q = if q = s.size then some x.body else s.body? q := by
  unfold body?
  rw [vertex?_push]
  split <;> rfl

theorem body?_modify_of_body {f : Vertex → Vertex} (hf : ∀ y : Vertex, (f y).body = y.body) :
    (s.modify r f).body? q = s.body? q := by
  unfold body?
  rw [vertex?_modify]
  split
  · cases s.vertex? q <;> simp [hf]
  · rfl

@[simp] theorem body?_addParent (l : Label) : (s.addParent r p l).body? q = s.body? q :=
  body?_modify_of_body fun _ => rfl

@[simp] theorem body?_dropParent : (s.dropParent r p).body? q = s.body? q :=
  body?_modify_of_body fun _ => rfl

theorem branch_addParent (l : Label) (side : Bool) :
    (s.addParent r p l).branch side q = s.branch side q := by
  rw [branch_eq_body, body?_addParent, ← branch_eq_body]

theorem branch_dropParent (side : Bool) : (s.dropParent r p).branch side q = s.branch side q := by
  rw [branch_eq_body, body?_dropParent, ← branch_eq_body]

theorem body?_setBranch (side : Bool) (target : Ref) : (s.setBranch r side target).body? q =
    if r = q then (s.body? q).map (·.setBranch side target) else s.body? q := by
  unfold body? setBranch
  rw [vertex?_modify]
  split
  · cases s.vertex? q <;> simp
  · rfl

theorem body?_updateRegistry_ne (f : Registry → Registry) (h : r ≠ q) :
    (s.updateRegistry r f).body? q = s.body? q := by
  unfold body? updateRegistry
  rw [vertex?_modify_ne _ h]

theorem body?_updateRegistry_self {g : Registry} {hi lo : Option Ref} (f : Registry → Registry)
    (h : s.body? r = some { kind := .diagram g, hi, lo }) :
    (s.updateRegistry r f).body? r = some { kind := .diagram (f g), hi, lo } := by
  obtain ⟨y, hy, hbody⟩ := exists_vertex_of_body h
  obtain ⟨hkind, hhi, hlo⟩ : y.kind = .diagram g ∧ y.hi = hi ∧ y.lo = lo := by
    simpa [Vertex.body] using hbody
  unfold body? updateRegistry
  rw [vertex?_modify_self, hy]
  simp [Vertex.body, hkind, hhi, hlo]

/-! What edits do to labels. -/

theorem label?_push : (s.push x).label? q p = if q = s.size then x.label? p else s.label? q p := by
  unfold label?
  rw [vertex?_push]
  split <;> rfl

theorem label?_modify_of_labels {f : Vertex → Vertex}
    (hf : ∀ y : Vertex, (f y).parents = y.parents) : (s.modify r f).label? q p = s.label? q p := by
  unfold label?
  rw [vertex?_modify]
  split
  · cases s.vertex? q <;> simp [Vertex.label?, hf]
  · rfl

@[simp] theorem label?_setBranch (side : Bool) (target : Ref) :
    (s.setBranch r side target).label? q p = s.label? q p :=
  label?_modify_of_labels fun _ => by cases side <;> rfl

@[simp] theorem label?_updateRegistry (f : Registry → Registry) :
    (s.updateRegistry r f).label? q p = s.label? q p :=
  label?_modify_of_labels fun y => by
    split <;> rfl

theorem label?_addParent {c : Ref} {l : Label} (h : c < s.size) : (s.addParent c p l).label? q r =
    if q = c ∧ r = p then some l else s.label? q r := by
  obtain ⟨y, hy⟩ : ∃ y, s.vertex? c = some y := ⟨_, Array.getElem?_eq_getElem h⟩
  unfold label? addParent
  rw [vertex?_modify]
  by_cases hq : q = c
  · subst hq
    simp [hy, Vertex.label?_addParent]
  · simp [hq, Ne.symm hq]

theorem label?_dropParent {c : Ref} : (s.dropParent c p).label? q r =
    if q = c ∧ r = p then none else s.label? q r := by
  unfold label? dropParent
  rw [vertex?_modify]
  by_cases hq : q = c
  · subst hq
    cases s.vertex? q <;> simp [Vertex.label?_dropParent]
  · simp [hq, Ne.symm hq]

theorem mem_parents_iff : p ∈ s.parents r ↔ s.hasParent r p = true := by
  unfold parents hasParent label?
  cases s.vertex? r with
  | none => simp
  | some x => simp [Vertex.label?, List.lookup_isSome_iff]

/-! No edit but an addition changes the size. -/

@[simp] theorem size_addParent (l : Label) : (s.addParent r p l).size = s.size := size_modify ..

@[simp] theorem size_dropParent : (s.dropParent r p).size = s.size := size_modify ..

@[simp] theorem size_setBranch (side : Bool) (target : Ref) :
    (s.setBranch r side target).size = s.size := size_modify ..

@[simp] theorem size_updateRegistry (f : Registry → Registry) :
    (s.updateRegistry r f).size = s.size :=
  size_modify ..

end Store

end DecisionDiagram
