import DecisionDiagram.Proofs.GuardedQuestions
/-! When the warning about branches of terminals is given. Runs of any operations are followed
branch by branch: every operation asks for the branches that it needs one at a time, and each such
question might warn. None does but one that a caller puts to a terminal itself, and of these the
first one only. -/
namespace DecisionDiagram

/-- A question about vertices and diagrams, with whatever vertices it is handed. -/
inductive Inquiry
  | successors (r : Ref)
  | along (budget : Option Nat) (side : Bool) (r : Ref)
  | terminalAlong (side : Bool) (r : Ref)
  | combine (op : Connective) (a b : Ref)
  | compare (a b : Ref)
  | sort (ds : List Ref)
  | evaluate (d : Ref) (assignment : Assignment)
  | edges (d : Ref)
  | layers (d : Ref)
  | numbering (d : Ref)
  | probability (d : Ref) (weights : Weights)
  | logProbability (d : Ref) (weights : Weights)
  | modelCount (d : Ref)
  | lineText (numbers : List (Int × Int)) (r : Ref)
  | write (d : Ref) (order : Option (List Document.Item))
  | describe (title : String) (d : Ref) (weights : Option Weights)
  | report (op : Connective) (a b : Ref) (weights : Option Weights)
  | shown (r : Ref)
  | message (fault : Fault)
  | equals (a : Ref) (b : Reference)
  | sameDigest (a b : Ref)
  | precedes (a b : Ref)
  | sortVertices (rs : List Ref)
  | edgeSide (d : Ref) (source target : Reference)
  | find (d : Ref) (v : Int)
  | nodes (d : Ref)
  | isTerminal (r : Ref)
  | value (r : Ref)
  | holds (r : Ref) (expected : Bool)
  | label (r parent : Ref)
  | parents (r : Ref)

namespace Inquiry

def Answer : Inquiry → Type
  | successors _ | along .. | sort _ | sortVertices _ | nodes _ | parents _ => List Ref
  | terminalAlong .. | find .. => Option Ref
  | combine .. | evaluate .. | equals .. | sameDigest .. | precedes .. | edgeSide .. => Bool
  | isTerminal _ | value _ | holds .. => Bool
  | compare .. => Ordering
  | edges _ => Dependencies
  | layers _ => List (List Int)
  | numbering _ => List (Int × Int)
  | probability .. => Rat
  | logProbability .. => Numeral.Binary64
  | modelCount _ => Int
  | lineText .. | write .. => Text
  | describe .. | report .. => List String
  | shown _ | message _ => Option String
  | label .. => Option Label

def answer (s : Store) : (q : Inquiry) → Except Fault q.Answer
  | successors r => .ok (s.successors r)
  | along budget side r => .ok (s.walkWithin budget side r)
  | terminalAlong side r => .ok (s.terminalAlong side r)
  | combine op a b => s.combine op a b
  | compare a b => s.compareDiagrams a b
  | sort ds => s.sortDiagrams ds
  | evaluate d assignment => s.evaluate d assignment
  | edges d => s.edges d
  | layers d => s.layers d
  | numbering d => s.numbering d
  | probability d weights => s.probability d weights
  | logProbability d weights => s.logProbability d weights
  | modelCount d => s.modelCount d
  | lineText numbers r => Document.lineText s numbers r
  | write d order => Document.write s d order
  | describe title d weights => Report.describe s title d weights
  | report op a b weights => Report.compare s op a b weights
  | shown r => s.show? r
  | message fault => fault.wording s
  | equals a b => .ok (s.equals a b)
  | sameDigest a b => .ok (s.sameDigest a b)
  | precedes a b => .ok (s.precedes a b)
  | sortVertices rs => s.sortVertices rs
  | edgeSide d source target => Diagram.edgeSide s d source target
  | find d v => s.find d v
  | nodes d => s.nodes d
  | isTerminal r => .ok (s.isTerminal r)
  | value r => s.value r
  | holds r expected => s.holds r expected
  | label r parent => .ok (s.label? r parent)
  | parents r => .ok (s.parents r)

/-- The answer as it is found by asking for one branch at a time. No branch is asked for where
kinds, parents and stored references are enough. -/
def read : (q : Inquiry) → Edit q.Answer
  | successors r => Guarded.successors r
  | along budget side r => Guarded.walkWithin budget side r
  | terminalAlong side r => Guarded.terminalAlong side r
  | combine op a b => Guarded.combine op a b
  | compare a b => Guarded.compareDiagrams a b
  | sort ds => Guarded.sortDiagrams ds
  | evaluate d assignment => Guarded.evaluate d assignment
  | edges d => Guarded.edges d
  | layers d => Guarded.layers d
  | numbering d => Guarded.numbering d
  | probability d weights => Guarded.probability d weights
  | logProbability d weights => Guarded.logProbability d weights
  | modelCount d => Guarded.modelCount d
  | lineText numbers r => Guarded.lineText numbers r
  | write d order => Guarded.write d order
  | describe title d weights => Guarded.describe title d weights
  | report op a b weights => Guarded.compareReport op a b weights
  | q => observe fun s => q.answer s

theorem read_tells {s : Store} (h : s.Deciding) (q : Inquiry) : q.read.Tells s (q.answer s) := by
  cases q with
  | successors r => exact Guarded.successors_tells s r
  | along budget side r => exact Guarded.walkWithin_tells s budget side r
  | terminalAlong side r => exact Guarded.terminalAlong_tells s side r
  | combine op a b => exact Guarded.combine_tells s op a b
  | compare a b => exact Guarded.compareDiagrams_tells s a b
  | sort ds => exact Guarded.sortDiagrams_tells s ds
  | evaluate d assignment => exact Guarded.evaluate_tells s d assignment
  | edges d => exact Guarded.edges_tells s d
  | layers d => exact Guarded.layers_tells s d
  | numbering d => exact Guarded.numbering_tells s d
  | probability d weights => exact Guarded.probability_tells h d weights
  | logProbability d weights => exact Guarded.logProbability_tells h d weights
  | modelCount d => exact Guarded.modelCount_tells h d
  | lineText numbers r => exact Guarded.lineText_tells s numbers r
  | write d order => exact Guarded.write_tells s d order
  | describe title d weights => exact Guarded.describe_tells h title d weights
  | report op a b weights => exact Guarded.compareReport_tells h op a b weights
  | _ =>
    unfold read
    exact tells_observe _

end Inquiry

/-- Something that is done with vertices, diagrams, cursors and files. -/
inductive Deed
  | operation (o : Operation)
  | cursor (current : Option Ref)
  | visit (c : Cursor) (r : Ref)
  | walk (c : Cursor) (budget : Option Nat) (start : Ref)
  | parse (bytes : Text.Bytes) (file : String)
  | report (fetch : String → Except Fault Text.Bytes) (r : CommandLine.Request)
  | ask (q : Inquiry)

namespace Deed

def after (s : Store) : Deed → Store
  | operation o => o.after s
  | cursor current => Edit.after (Cursor.start current) s
  | visit c r => Edit.after (c.visit r) s
  | walk c budget start => Edit.after (c.walk budget start) s
  | parse bytes file => Edit.after (Document.parse bytes file) s
  | report fetch r => Edit.after (CommandLine.report fetch r) s
  | ask _ => s

/-- The store after a deed that asks for one branch at a time. -/
def read (s : Store) : Deed → Store
  | operation (.call d (.setEdge source target selector)) =>
    Edit.after (Guarded.setEdge d source target selector) s
  | operation (.call d .validate) => Edit.after (Guarded.validate d) s
  | walk c budget start => Edit.after (Guarded.walk c budget start) s
  | parse bytes file => Edit.after (Guarded.parse bytes file) s
  | report fetch r => Edit.after (Guarded.report fetch r) s
  | ask q => Edit.after q.read s
  | x => x.after s

/-- A caller asks a terminal for a branch. -/
def AsksTerminal (s : Store) : Deed → Prop
  | operation (.readBranch r _) => s.isTerminal r = true
  | _ => False

/-- What a deed adds to the log. -/
def logged (s : Store) (x : Deed) : List String := if s.warned then [] else (x.read s).warnings

variable {s : Store}

theorem read_eq (h : s.Deciding) (x : Deed) : x.read s = x.after s := by
  cases x with
  | operation o =>
    cases o with
    | call d c =>
      cases c with
      | setEdge source target selector =>
        exact congrArg (Edit.after · s) (Guarded.setEdge_eq d source target selector)
      | validate => exact congrArg (Edit.after · s) (Guarded.validate_eq d)
      | _ => rfl
    | _ => rfl
  | walk c budget start => exact congrArg (Edit.after · s) (Guarded.walk_eq c budget start)
  | parse bytes file => exact congrArg (Edit.after · s) (Guarded.parse_eq bytes file)
  | report fetch r =>
    change Edit.after _ s = Edit.after _ s
    unfold Edit.after
    rw [Guarded.report_eq h]
  | ask q => exact (q.read_tells h).after
  | _ => rfl

end Deed

theorem Steady.deed {invariant : Store → Prop} {s : Store} (h : Steady invariant)
    (htrails : ∀ {s : Store} (trails), invariant s → invariant { s with trails }) (hs : invariant s)
    (x : Deed) (hother : ∀ r selector, x ≠ .operation (.readBranch r selector)) :
    invariant (x.after s) := by
  cases x with
  | operation o => exact h.after hs o fun r selector ho => hother r selector (congrArg _ ho)
  | cursor current => exact htrails _ hs
  | visit c r =>
    change invariant (Edit.after (if r ∈ s.visited c then _ else _) s)
    split
    · exact hs
    · exact htrails _ hs
  | walk c budget start => exact htrails _ hs
  | parse bytes file => exact h.parse bytes file s hs
  | report fetch r => exact h.report fetch r s hs
  | ask q => exact hs

namespace Store

variable {s : Store}

theorem Deciding.deed (h : s.Deciding) (x : Deed) : (x.after s).Deciding := by
  cases x with
  | operation o => exact Deciding.lasting.after h o
  | _ => exact Deciding.lasting.deed (fun _ hs => hs) h _ fun _ _ hx => by cases hx

def afterDeeds (s : Store) (xs : List Deed) : Store := xs.foldl Deed.read s

def log : Store → List Deed → List String
  | _, [] => []
  | s, x :: xs => x.logged s ++ log (x.read s) xs

theorem Deciding.afterDeeds (h : s.Deciding) (xs : List Deed) : (s.afterDeeds xs).Deciding := by
  induction xs generalizing s with
  | nil => exact h
  | cons x xs ih => exact ih (x.read_eq h ▸ h.deed x)

theorem warned_read_iff (h : s.Deciding) (x : Deed) :
    (x.read s).warned = true ↔ s.warned = true ∨ x.AsksTerminal s := by
  have hkeeps : (∀ r selector, x ≠ .operation (.readBranch r selector)) →
      (x.read s).warned = s.warned :=
    fun hother => x.read_eq h ▸ (steady_warned s.warned).deed (fun _ hs => hs) rfl x hother
  cases x with
  | operation o =>
    cases o with
    | readBranch r selector =>
      change (Edit.after (readBranch r selector) s).warned = true ↔
        s.warned = true ∨ s.isTerminal r = true
      rw [Edit.after, readBranch_run]
      cases s.isTerminal r <;> simp
    | _ => simp [hkeeps, Deed.AsksTerminal]
  | _ => simp [hkeeps, Deed.AsksTerminal]

theorem warned_afterDeeds_iff (h : s.Deciding) (xs : List Deed) : (s.afterDeeds xs).warned = true ↔
    s.warned = true ∨ ∃ before x rest, xs = before ++ x :: rest ∧
    x.AsksTerminal (s.afterDeeds before) := by
  induction xs generalizing s with
  | nil => simp [afterDeeds]
  | cons x xs ih =>
    have hx : (x.read s).Deciding := h.afterDeeds [x]
    change ((x.read s).afterDeeds xs).warned = true ↔ _
    rw [ih hx, warned_read_iff h, or_assoc]
    refine or_congr_right ⟨?_, ?_⟩
    · rintro (hask | ⟨before, y, rest, rfl, hask⟩)
      · exact ⟨[], x, xs, rfl, hask⟩
      · exact ⟨x :: before, y, rest, rfl, hask⟩
    · rintro ⟨_ | ⟨z, before⟩, y, rest, heq, hask⟩
      · obtain ⟨rfl, rfl⟩ := List.cons.inj heq
        exact .inl hask
      · obtain ⟨rfl, rfl⟩ := List.cons.inj heq
        exact .inr ⟨before, y, rest, rfl, hask⟩

theorem log_eq (h : s.Deciding) (xs : List Deed) :
    s.log xs = if s.warned then [] else (s.afterDeeds xs).warnings := by
  induction xs generalizing s with
  | nil =>
    change [] = if s.warned then [] else s.warnings
    unfold warnings
    cases s.warned <;> rfl
  | cons x xs ih =>
    have hx : (x.read s).Deciding := h.afterDeeds [x]
    have hafter : s.afterDeeds (x :: xs) = (x.read s).afterDeeds xs := rfl
    rw [log, ih hx, Deed.logged, hafter]
    cases hwarned : s.warned with
    | true =>
      have hx : (x.read s).warned = true := (warned_read_iff h x).mpr (.inl hwarned)
      simp [hx]
    | false =>
      cases hread : (x.read s).warned with
      | true =>
        have hlast : ((x.read s).afterDeeds xs).warned = true :=
          (warned_afterDeeds_iff hx xs).mpr (.inl hread)
        simp [warnings, hread, hlast]
      | false => simp [warnings, hread]

end Store

/-- Over every run of any deeds from the empty store, the warning is given once at most, and it is
given if and only if a caller has asked a terminal for a branch. No other deed adds to the log,
whatever store it finds, although each asks for its branches one at a time. It leads to the store,
and every question to the answer, that is found with the whole store in view. -/
theorem terminal_warning_once (xs : List Deed) :
    let s := Store.afterDeeds {} xs
    (Store.log {} xs).length ≤ 1 ∧ Store.log {} xs = s.warnings ∧
    (Store.log {} xs = ["A terminal node has no branches"] ↔
      ∃ before x rest, xs = before ++ x :: rest ∧ x.AsksTerminal (Store.afterDeeds {} before)) ∧
    (∀ x : Deed, x.AsksTerminal s ∨ x.logged s = [] ∧ (x.read s).warned = s.warned) ∧
    (∀ x : Deed, x.read s = x.after s) ∧ ∀ q : Inquiry, q.read.Tells s (q.answer s) := by
  intro s
  have hempty : Store.Deciding {} := fun d g v r hg => by cases hg
  have h : s.Deciding := hempty.afterDeeds xs
  have hlog : Store.log {} xs = s.warnings := Store.log_eq hempty xs
  refine ⟨?_, hlog, ?_, fun x => ?_, fun x => x.read_eq h, fun q => q.read_tells h⟩
  · rw [hlog, Store.warnings]
    split <;> decide
  · have hwarned := Store.warned_afterDeeds_iff hempty xs
    simp only [Bool.false_eq_true, false_or] at hwarned
    rw [hlog, ← hwarned, Store.warnings]
    change (if s.warned then _ else _) = _ ↔ s.warned = true
    cases s.warned <;> simp
  · by_cases hask : x.AsksTerminal s
    · exact .inl hask
    · have hsame : (x.read s).warned = s.warned := by
        rw [Bool.eq_iff_iff, Store.warned_read_iff h, or_iff_left hask]
      refine .inr ⟨?_, hsame⟩
      rw [Deed.logged, Store.warnings, hsame]
      cases s.warned <;> rfl

/-- The terminal of a new diagram is asked twice, between questions that go past it. -/
example :
    Store.log {}
      [.operation .diagram, .ask (.successors 1), .operation (.readBranch 0 (.flag true)),
    .operation (.readBranch 1 (.flag true)), .ask (.along none true 1),
    .operation (.readBranch 2 (.label .lo))] = ["A terminal node has no branches"] := by
  decide +kernel

end DecisionDiagram
