import DecisionDiagram.CommandLine
import DecisionDiagram.Folder
import DecisionDiagram.Proofs.BuildFaults
import DecisionDiagram.Proofs.SortFaults
/-! Faults that a run tells in words. Every fault of files, lines and weight tables is one of them,
and every fault of building but that for a line that names itself. -/
namespace DecisionDiagram
open DecisionDiagram.Order (bind_eq_error_iff)

theorem exists_of_foldlM_error {ε α β : Type} {f : β → α → Except ε β} {l : List α} {b : β} {e : ε}
    (h : l.foldlM f b = .error e) : ∃ x ∈ l, ∃ c, f c x = .error e := by
  induction l generalizing b with
  | nil => cases h
  | cons a l ih =>
    rw [List.foldlM_cons] at h
    rcases bind_eq_error_iff.mp h with h | ⟨c, -, h⟩
    · exact ⟨a, List.mem_cons_self, b, h⟩
    · obtain ⟨x, hx, hc⟩ := ih h
      exact ⟨x, List.mem_cons_of_mem _ hx, hc⟩

/-- The fault is reported, and there are words for it in the store that it left behind. -/
def Fault.Told (s : Store) (e : Fault) : Prop :=
  CommandLine.isReported e = true ∧ ∃ m, e.message? s = some m

section Files

variable {s : Store} {folder : Folder} {path : String} {place : Folder.Place} {isOpen : Bool}
variable {e : Fault}

theorem told_of_descend {names : List Text}
    (h : folder.descend path isOpen place names = .error e) : e.Told s := by
  induction names generalizing place with
  | nil =>
    unfold Folder.descend at h
    split at h
    · split at h <;> cases h
      exact ⟨rfl, _, rfl⟩
    · cases h
      exact ⟨rfl, _, rfl⟩
  | cons name rest ih =>
    unfold Folder.descend at h
    split at h
    · cases h; exact ⟨rfl, _, rfl⟩
    · split at h
      · cases h; exact ⟨rfl, _, rfl⟩
      · split at h
        · exact ih h
        · split at h
          · exact ih h
          · cases h; exact ⟨rfl, _, rfl⟩

theorem told_of_fetch (h : folder.read path = .error e) : e.Told s := by
  unfold Folder.read at h
  dsimp only at h
  split at h
  · cases h; exact ⟨rfl, _, rfl⟩
  · split at h
    · cases h; exact ⟨rfl, _, rfl⟩
    · split at h
      · cases h; exact ⟨rfl, _, rfl⟩
      · exact told_of_descend h

end Files

namespace Document

variable {s s' : Store} {id : Int} {ws : List Text} {draft : Draft} {line : Text}
variable {bytes : Text.Bytes} {e : Fault}

theorem told_of_readRule (hid : Numeral.Integer.Short id) (h : readRule id ws = .error e) :
    e.Told s := by
  unfold readRule at h
  split at h
  · cases h; exact ⟨rfl, Fault.message?_of_showInt hid rfl⟩
  · repeat' split at h
    all_goals cases h
    all_goals exact ⟨rfl, Fault.message?_of_showInt hid rfl⟩

theorem told_of_readLine (hws : ws ≠ []) (h : readLine ws = .error e) : e.Told s := by
  obtain ⟨first, rest, rfl⟩ := List.exists_cons_of_ne_nil hws
  simp only [readLine] at h
  split at h
  · cases h; exact ⟨rfl, _, rfl⟩
  · rename_i id hread
    cases hrule : readRule id rest.dropLast with
    | ok rule =>
      rw [hrule] at h
      cases h
    | error f =>
      rw [hrule] at h
      cases h
      exact told_of_readRule (Numeral.Integer.short_of_read? hread) hrule

theorem told_of_enter (h : draft.enter line = .error e) : e.Told s := by
  unfold Draft.enter at h
  dsimp only at h
  split at h
  · cases h
  · rename_i last hlast
    have hws : Text.words line ≠ [] := by
      intro hnil
      simp [hnil] at hlast
    split at h
    · cases h
    · split at h
      · cases h
      · split at h
        · split at h
          · cases h
          · cases h; exact ⟨rfl, _, rfl⟩
        · rcases bind_eq_error_iff.mp h with h | ⟨_, -, h⟩
          · exact told_of_readLine hws h
          · cases h

theorem told_of_ofBytes (h : ofBytes bytes = .error e) : e.Told s := by
  unfold ofBytes ofText read at h
  rcases bind_eq_error_iff.mp h with h | ⟨document, -, h⟩
  · rcases bind_eq_error_iff.mp h with h | ⟨_, -, h⟩
    · obtain ⟨line, -, draft, henter⟩ := exists_of_foldlM_error h
      exact told_of_enter henter
    · cases h
  · split at h
    · cases h; exact ⟨rfl, _, rfl⟩
    · cases h

theorem told_of_flaw {lines : Lines} {root : Int} (h : Flaw lines root e)
    (hwords : ∃ m, e.message? s = some m) :
    e.Told s ∨ ∃ a, Below lines root a ∧ Child lines a a ∧ e = .missingLine a := by
  cases h with
  | itself below child => exact .inr ⟨_, below, child, rfl⟩
  | _ => exact .inl ⟨rfl, hwords⟩

/-- The file has a line that names itself, below the root line. -/
def SelfNaming (bytes : Text.Bytes) (a : Int) : Prop :=
  ∃ document root, ofBytes bytes = .ok document ∧
  document.root = some root ∧ Below document.lines root a ∧ Child document.lines a a

theorem told_of_parse {file : String} (h : parse bytes file s = .error e s') :
    e.Told s' ∨ ∃ a, SelfNaming bytes a ∧ e = .missingLine a := by
  cases hread : ofBytes bytes with
  | error f =>
    rw [parse, bind_of_error (observe_of_error hread)] at h
    cases h
    exact .inl (told_of_ofBytes hread)
  | ok document =>
    cases hroot : document.root with
    | none =>
      rw [parse, bind_of_ok (observe_of_ok hread), load, hroot] at h
      cases h
      exact .inl ⟨rfl, _, rfl⟩
    | some root =>
      rw [parse_of_read hread hroot] at h
      cases hbuild : build document.lines root s with
      | ok d t =>
        rw [bind_of_ok hbuild] at h
        cases h
      | error f t =>
        rw [bind_of_error hbuild] at h
        cases h
        obtain ⟨hlines, hshort⟩ := short_of_ofBytes hread
        obtain ⟨hflaw, hwords⟩ := flaw_of_build hlines (hshort root hroot) hbuild
        rcases told_of_flaw hflaw hwords with htold | ⟨a, below, child, he⟩
        · exact .inl htold
        · exact .inr ⟨a, ⟨document, root, hread, hroot, below, child⟩, he⟩

end Document

namespace WeightTable

variable {s : Store} {bytes : Text.Bytes} {file : String} {table : Table} {e : Fault}

theorem told_of_ofBytes (h : ofBytes file bytes = .error e) : e.Told s := by
  unfold ofBytes read at h
  split at h
  · obtain ⟨line, -, table, henter⟩ := exists_of_foldlM_error h
    unfold enter at henter
    split at henter
    · cases henter
    · split at henter
      · cases henter
      · cases henter; exact ⟨rfl, _, rfl⟩
  · cases h; exact ⟨rfl, _, rfl⟩

theorem lookup_toWeights (table : Table) (v : Int) :
    (toWeights table).lookup v = (table.lookup v).map Weight.binary := by
  induction table with
  | nil => rfl
  | cons entry table ih =>
    rw [toWeights, List.map_cons, lookup_cons_eq_ite, lookup_cons_eq_ite, ← toWeights, ih]
    dsimp only
    split <;> rfl

theorem told_of_exact {v : Int} (h : ((toWeights table).of v).exact = .error e) :
    e.Told s ∨ e = .weightInfinite ∧ ∃ negative, table.lookup v = some (.infinite negative) := by
  unfold Weights.of at h
  rw [lookup_toWeights] at h
  cases hx : table.lookup v with
  | none =>
    rw [hx] at h
    cases h
  | some x =>
    rw [hx] at h
    cases x with
    | nan => cases h; exact .inl ⟨rfl, _, rfl⟩
    | infinite negative => cases h; exact .inr ⟨rfl, negative, rfl⟩
    | finite => cases h

end WeightTable

end DecisionDiagram
