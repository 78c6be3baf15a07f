import DecisionDiagram.Proofs.VertexBody
/-! Diagrams whose vertices are in order: both terminals in place, and for each variable in the
table a decision node with two different branches to vertices of the diagram. -/
namespace DecisionDiagram

section Keys

theorem lookup_eq_some_iff_mem {κ α : Type} [DecidableEq κ] {es : List (κ × α)}
    (h : (es.map (·.1)).Nodup) {v : κ} {a : α} : es.lookup v = some a ↔ (v, a) ∈ es := by
  induction es with
  | nil => simp
  | cons e es ih =>
    obtain ⟨hnew, hrest⟩ := List.nodup_cons.mp h
    rw [lookup_cons_eq_ite, List.mem_cons]
    by_cases hv : v = e.1
    · subst hv
      have hout : (e.1, a) ∉ es := fun hmem => hnew (List.mem_map.mpr ⟨_, hmem, rfl⟩)
      simp [hout, Prod.ext_iff, eq_comm]
    · simp [hv, ih hrest, Prod.ext_iff]

theorem isSome_lookup_iff {κ α : Type} [DecidableEq κ] {es : List (κ × α)} {v : κ} :
    (es.lookup v).isSome ↔ v ∈ es.map (·.1) := by
  rw [List.lookup_isSome_iff, List.mem_map]
  simp only [beq_iff_eq, eq_comm (a := v)]

theorem mem_insertEntry {v : Int} {r : Ref} {es : List (Int × Ref)} {w : Int} :
    w ∈ (insertEntry v r es).map (·.1) ↔ w = v ∨ w ∈ es.map (·.1) := by
  induction es with
  | nil => simp [insertEntry]
  | cons e es ih =>
    unfold insertEntry
    split
    · simp
    · split
      · subst_vars
        simp
      · rw [List.map_cons, List.mem_cons, ih, List.map_cons, List.mem_cons]
        exact or_left_comm

theorem ascending_insertEntry {v : Int} {r : Ref} {es : List (Int × Ref)}
    (h : (es.map (·.1)).Pairwise (· < ·)) : ((insertEntry v r es).map (·.1)).Pairwise (· < ·) := by
  induction es with
  | nil => simp [insertEntry]
  | cons e es ih =>
    obtain ⟨hhead, hrest⟩ := List.pairwise_cons.mp h
    unfold insertEntry
    split
    · refine List.pairwise_cons.mpr ⟨fun w hw => ?_, h⟩
      rcases List.mem_cons.mp hw with rfl | hw
      · assumption
      · exact Int.lt_trans ‹_› (hhead w hw)
    · split
      · subst_vars
        exact h
      · rename_i hle hne
        refine List.pairwise_cons.mpr ⟨fun w hw => ?_, ih hrest⟩
        rcases mem_insertEntry.mp hw with rfl | hw
        · exact Int.lt_iff_le_and_ne.mpr ⟨Int.not_lt.mp hle, Ne.symm hne⟩
        · exact hhead w hw

end Keys

namespace Registry

def Ascending (g : Registry) : Prop := (g.table.map (·.1)).Pairwise (· < ·)

variable {g : Registry} {v : Int} {r : Ref}

theorem Ascending.nodup (h : g.Ascending) : (g.table.map (·.1)).Nodup :=
  h.imp fun hlt => Int.ne_of_lt hlt

theorem Ascending.insert (h : g.Ascending) : (g.insert v r).Ascending := ascending_insertEntry h

theorem mem_keys_iff : v ∈ g.table.map (·.1) ↔ (g.find? v).isSome := isSome_lookup_iff.symm

theorem mem_nodes_iff (h : g.Ascending) : r ∈ g.nodes ↔ ∃ v, g.find? v = some r := by
  unfold nodes find?
  simp only [lookup_eq_some_iff_mem h.nodup, List.mem_map]
  constructor
  · rintro ⟨e, he, rfl⟩
    exact ⟨e.1, he⟩
  · rintro ⟨w, hw⟩
    exact ⟨(w, r), hw, rfl⟩

theorem mem_nodes_insert (h : g.Ascending) (hv : g.find? v = none) {q : Ref} :
    q ∈ (g.insert v r).nodes ↔ q = r ∨ q ∈ g.nodes := by
  rw [mem_nodes_iff h.insert, mem_nodes_iff h]
  simp only [find?_insert]
  constructor
  · rintro ⟨w, hw⟩
    split at hw
    · exact .inl (Option.some.inj hw).symm
    · exact .inr ⟨w, hw⟩
  · rintro (rfl | ⟨w, hw⟩)
    · exact ⟨v, by simp⟩
    · refine ⟨w, ?_⟩
      rw [if_neg, hw]
      rintro rfl
      simp [hv] at hw

end Registry

/-- A vertex of a diagram: one of its terminals, or a node in its table. -/
def Registry.Member (g : Registry) (yes no r : Ref) : Prop := r = yes ∨ r = no ∨ r ∈ g.nodes

def decisionBody (v : Int) (hi lo : Ref) : Vertex :=
  { kind := .decision v, hi := some hi, lo := some lo }

namespace Store

variable {s : Store} {r hi lo : Ref} {v : Int}

theorem successors_of_body (hbody : s.body? r = some (decisionBody v hi lo)) :
    s.successors r = [hi, lo] := by
  rw [successors_eq_body, hbody]
  rfl

theorem branch_of_body (hbody : s.body? r = some (decisionBody v hi lo)) (side : Bool) :
    s.branch side r = some (if side then hi else lo) := by
  rw [branch_eq_body, hbody]
  cases side <;> rfl

theorem next_of_body (hbody : s.body? r = some (decisionBody v hi lo)) (side : Bool) :
    s.next side r = some (if side then hi else lo) := by
  rw [next_eq_body, hbody]
  cases side <;> rfl

end Store

structure Wired (s : Store) (d : Ref) (g : Registry) (yes no : Ref) : Prop where
  diagram : s.body? d = some { kind := .diagram g, hi := some yes, lo := some no }
  yesBody : s.body? yes = some { kind := .terminal trueVariable true }
  noBody : s.body? no = some { kind := .terminal falseVariable false }
  ascending : g.Ascending
  node : ∀ {v r}, g.find? v = some r → isReserved v = false ∧ ∃ hi lo,
    s.body? r = some (decisionBody v hi lo) ∧ hi ≠ lo ∧ g.Member yes no hi ∧ g.Member yes no lo
  root : ∀ {r}, g.root = some r → r ∈ g.nodes

def Store.Owns (s : Store) (d r : Ref) : Prop :=
  s.branch true d = some r ∨ s.branch false d = some r ∨ ∃ g, s.registry? d = some g ∧ r ∈ g.nodes

namespace Wired

variable {s s' : Store} {d : Ref} {g : Registry} {yes no r q : Ref} {v : Int}

theorem registry? (h : Wired s d g yes no) : s.registry? d = some g := by
  rw [Store.registry?_eq_body, h.diagram]
  rfl

theorem registry (h : Wired s d g yes no) : s.registry d = .ok g := by
  rw [Store.registry, h.registry?]

theorem branch_true (h : Wired s d g yes no) : s.branch true d = some yes := by
  rw [Store.branch_eq_body, h.diagram]
  rfl

theorem branch_false (h : Wired s d g yes no) : s.branch false d = some no := by
  rw [Store.branch_eq_body, h.diagram]
  rfl

theorem owns_iff (h : Wired s d g yes no) : s.Owns d r ↔ g.Member yes no r := by
  simp [Store.Owns, Registry.Member, h.branch_true, h.branch_false, h.registry?, eq_comm]

theorem exists_body (h : Wired s d g yes no) (hr : r ∈ g.nodes) : ∃ v hi lo, g.find? v = some r ∧
    s.body? r = some (decisionBody v hi lo) ∧ hi ≠ lo ∧ g.Member yes no hi ∧
    g.Member yes no lo := by
  obtain ⟨v, hv⟩ := (Registry.mem_nodes_iff h.ascending).mp hr
  obtain ⟨-, hi, lo, hbody⟩ := h.node hv
  exact ⟨v, hi, lo, hv, hbody⟩

theorem mem_nodes (h : Wired s d g yes no) (hv : g.find? v = some r) : r ∈ g.nodes :=
  (Registry.mem_nodes_iff h.ascending).mpr ⟨v, hv⟩

end Wired

end DecisionDiagram
