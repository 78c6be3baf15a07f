import DecisionDiagram.Proofs.DecimalNumerals
import DecisionDiagram.Proofs.VertexBody
/-! A fault is raised as it is, unless its words would show an integer that is too long. -/
namespace DecisionDiagram
open Numeral

variable {α β : Type} {x : Except Fault α} {is js : List Int} {s t : Store} {e : Fault} {r : Ref}
variable {n : Int}

theorem Numeral.powTen_eq (k : Nat) : powTen k = 10 ^ k := rfl

theorem Numeral.Integer.isShort_iff : isShort n = true ↔ Short n := by
  unfold isShort Short
  rw [decide_eq_true_iff, powTen_eq]

theorem Numeral.Integer.short_of_small (h : n.natAbs < 10) : Short n :=
  Nat.lt_of_lt_of_le h (Nat.le_self_pow (by decide) 10)

theorem Numeral.Integer.written_of_short (h : Short n) : written n = .ok (render n) :=
  if_pos (isShort_iff.mpr h)

theorem Numeral.Integer.written_of_long (h : ¬ Short n) : written n = .error .longNumber :=
  if_neg fun hn => h (isShort_iff.mp hn)

/-- A text with these integers in it: it can be written if all of them are short. -/
inductive Shows (is : List Int) : Except Fault α → Prop
  | written (a : α) (h : ∀ i ∈ is, Integer.Short i) : Shows is (.ok a)
  | long {i : Int} (hi : i ∈ is) (h : ¬ Integer.Short i) : Shows is (.error .longNumber)

namespace Shows

theorem pure (a : α) : Shows [] (.ok a : Except Fault α) := .written a (by simp)

theorem bind {f : α → Except Fault β} (hx : Shows is x) (hf : ∀ a, Shows js (f a)) :
    Shows (is ++ js) (x >>= f) := by
  cases hx with
  | long hi h => exact .long (List.mem_append_left js hi) h
  | written a h =>
    rw [ok_bind]
    have hfa := hf a
    generalize f a = y at hfa
    cases hfa with
    | written b h' => exact .written b fun i hi => (List.mem_append.mp hi).elim (h i) (h' i)
    | long hi h' => exact .long (List.mem_append_right is hi) h'

theorem map {f : α → β} (hx : Shows is x) : Shows is (x.map f) := by
  cases hx with
  | written a h => exact .written (f a) h
  | long hi h => exact .long hi h

theorem bind_ok {f : α → β} (hx : Shows is x) : Shows is (x >>= fun a => .ok (f a)) := hx.map

theorem exists_ok (hx : Shows is x) (h : ∀ i ∈ is, Integer.Short i) : ∃ a, x = .ok a := by
  cases hx with
  | written a => exact ⟨a, rfl⟩
  | long hi hlong => exact absurd (h _ hi) hlong

theorem ok_or_long (hx : Shows is x) : (∃ a, x = .ok a) ∨ x = .error .longNumber := by
  cases hx with
  | written a => exact .inl ⟨a, rfl⟩
  | long => exact .inr rfl

theorem showInt (n : Int) : Shows [n] (showInt n) := by
  unfold DecisionDiagram.showInt
  by_cases hn : Integer.Short n
  · rw [Integer.written_of_short hn]
    exact .written _ (by simpa using hn)
  · rw [Integer.written_of_long hn]
    exact .long List.mem_cons_self hn

end Shows

namespace Store

def integersOf (s : Store) (x : Vertex) : List Int :=
  match x.kind with
  | .plain => []
  | .node v | .decision v => v :: ((x.hi.bind s.var?).toList ++ (x.lo.bind s.var?).toList)
  | .terminal v _ => [v]
  | .diagram g => (g.root.bind s.var?).toList

def integers (s : Store) (r : Ref) : List Int := (s.vertex? r).elim [] s.integersOf

theorem integers_eq_body : s.integers r = (s.body? r).elim [] s.integersOf := by
  unfold integers body?
  cases s.vertex? r <;> rfl

theorem integers_congr (hbody : t.body? r = s.body? r) (hvar : ∀ q, t.var? q = s.var? q) :
    t.integers r = s.integers r := by
  have hof : t.integersOf = s.integersOf := by
    funext x
    unfold integersOf
    rw [funext hvar]
  rw [integers_eq_body, integers_eq_body, hbody, hof]

theorem shows_elim (v : Option Int) (empty : String) :
    Shows v.toList (v.elim (.ok empty) showInt) := by
  cases v with
  | none => exact .pure empty
  | some v => exact .showInt v

theorem shows_showNode (s : Store) (name : String) (v : Int) (x : Vertex) :
    Shows (v :: ((x.hi.bind s.var?).toList ++ (x.lo.bind s.var?).toList)) (s.showNode name v x) :=
  (Shows.showInt v).bind fun _ => (shows_elim _ _).bind fun _ => (shows_elim _ _).bind_ok

theorem shows_showTerminal (v : Int) (value : Bool) : Shows [v] (showTerminal v value) :=
  (Shows.showInt v).bind_ok

theorem shows_showRegistry (s : Store) (g : Registry) :
    Shows (g.root.bind s.var?).toList (s.showRegistry g) :=
  (shows_elim _ _).bind_ok

theorem shows_show? (s : Store) (r : Ref) : Shows (s.integers r) (s.show? r) := by
  unfold integers show?
  cases s.vertex? r with
  | none => exact .pure none
  | some x =>
    rw [Option.elim_some, integersOf]
    cases hkind : x.kind with
    | plain => simpa only [hkind] using .pure none
    | node v | decision v => simpa only [hkind] using (s.shows_showNode _ v x).map
    | terminal v value => simpa only [hkind] using (shows_showTerminal v value).map
    | diagram g => simpa only [hkind] using (s.shows_showRegistry g).map

theorem shows_mapM (s : Store) (rs : List Ref) :
    Shows (rs.flatMap s.integers) (rs.mapM s.show?) := by
  induction rs with
  | nil => exact .pure []
  | cons r rs ih =>
    rw [List.mapM_cons, List.flatMap_cons]
    exact (s.shows_show? r).bind fun _ => ih.bind_ok

end Store

namespace Fault

/-- The integers in the words of a fault. -/
def integers (s : Store) : Fault → List Int
  | equalBranches r | absentTarget r | secondBranch r | parentAsBranch r | branchAsParent r
  | terminalSource r | notValidated r | lostWalk _ r | missingBranch r => s.integers r
  | unknownEdge a b | cyclicPath a b => s.integers a ++ s.integers b
  | rootCount rs => rs.flatMap s.integers
  | reservedVariable n | unknownNode (some n) | missingType n | conjunction n
  | malformedDecision n _ | childCount n | undefinedLine n | misplacedRoot n
  | repeatedVariable n | missingVariable n | missingLine n => [n]
  | _ => []

theorem shows_wording (s : Store) (e : Fault) : Shows (e.integers s) (e.wording s) := by
  cases e with
  | equalBranches r | absentTarget r | secondBranch r | parentAsBranch r | branchAsParent r
  | terminalSource r | notValidated r | lostWalk _ r | missingBranch r =>
    exact (s.shows_show? r).bind_ok
  | unknownEdge a b | cyclicPath a b =>
    exact (s.shows_show? a).bind fun _ => (s.shows_show? b).bind_ok
  | rootCount rs => exact (s.shows_mapM rs).bind_ok.bind_ok
  | unknownNode key =>
    cases key with
    | none => exact .pure _
    | some n => exact (Shows.showInt n).bind_ok
  | reservedVariable n | missingType n | conjunction n | malformedDecision n _ | childCount n
  | undefinedLine n | misplacedRoot n | repeatedVariable n | missingVariable n | missingLine n =>
    exact (Shows.showInt n).bind_ok
  | _ => exact .pure _

end Fault

/-- A fault with nothing in it but a short number has words. -/
theorem Fault.message?_of_showInt {f : String → String} (h : Integer.Short n)
    (hwords : e.wording s = (showInt n).map fun t => some (f t)) : ∃ m, e.message? s = some m := by
  obtain ⟨t, ht⟩ := (Shows.showInt n).exists_ok (by simpa using h)
  rw [ht] at hwords
  exact ⟨f t, by rw [Fault.message?, hwords]; rfl⟩

namespace Store

theorem raise_of_short (h : ∀ i ∈ e.integers s, Integer.Short i) : s.raise e = e := by
  have hshows := e.shows_wording s
  unfold raise
  generalize e.wording s = x at hshows
  cases hshows with
  | written => rfl
  | long hi hlong => exact absurd (h _ hi) hlong

theorem raise_of_long (h : ∃ i ∈ e.integers s, ¬ Integer.Short i) : s.raise e = .longNumber := by
  obtain ⟨i, hi, hlong⟩ := h
  have hshows := e.shows_wording s
  unfold raise
  generalize e.wording s = x at hshows
  cases hshows with
  | written _ hshort => exact absurd (hshort i hi) hlong
  | long => rfl

theorem raise_of_small (h : ∀ i ∈ e.integers s, i.natAbs < 10) : s.raise e = e :=
  raise_of_short fun i hi => Integer.short_of_small (h i hi)

theorem short_or_long (is : List Int) :
    (∀ i ∈ is, Integer.Short i) ∨ ∃ i ∈ is, ¬ Integer.Short i := by
  by_cases h : ∀ i ∈ is, Integer.Short i
  · exact .inl h
  · exact .inr (by simpa using h)

theorem raise_cases (s : Store) (e : Fault) : s.raise e = e ∨ s.raise e = .longNumber :=
  (short_or_long (e.integers s)).imp raise_of_short raise_of_long

theorem raise_congr (h : e.integers t = e.integers s) : t.raise e = s.raise e := by
  rcases short_or_long (e.integers s) with hshort | hlong
  · rw [raise_of_short hshort, raise_of_short (h ▸ hshort)]
  · rw [raise_of_long hlong, raise_of_long (h ▸ hlong)]

theorem raise_unknownNode (s t : Store) (v : Int) :
    s.raise (.unknownNode (some v)) = t.raise (.unknownNode (some v)) := rfl

/-- What is raised depends on the bodies of vertices alone. -/
theorem raise_congr_body (h : ∀ r, t.body? r = s.body? r) (e : Fault) : t.raise e = s.raise e := by
  have hintegers : t.integers = s.integers := funext fun r =>
    integers_congr (h r) fun q => by rw [var?_eq_body, h, ← var?_eq_body]
  refine raise_congr ?_
  unfold Fault.integers
  rw [hintegers]

end Store

end DecisionDiagram
