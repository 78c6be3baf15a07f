import DecisionDiagram.Document.Write
import DecisionDiagram.Proofs.EvaluationOutcome
import DecisionDiagram.Proofs.GuardedWalks
import DecisionDiagram.Proofs.SortTells
import DecisionDiagram.Report
/-! Questions that are answered by reading one branch at a time: comparisons, evaluations, layers,
probabilities and documents. What they ask for a branch is no terminal, and they come to the answers
that look at the whole store. -/
namespace DecisionDiagram

variable {s : Store} {a b d r : Ref} {v : Int} {side : Bool}

namespace Guarded

def terminalAlong (side : Bool) (r : Ref) : Edit (Option Ref) := do
  let met ← walkWithin none side r
  return met.find? (← get).isTerminal

def outcome (side : Bool) (d root : Ref) : Edit Bool := do
  match ← terminalAlong side root with
  | some terminal => observe (·.value terminal)
  | none => throw ((← get).raise (.lostWalk side d))

def combine (op : Connective) (a b : Ref) : Edit Bool := do
  let (first, second) ← observe (·.validatedPair a b)
  let upper := op.apply (← outcome true a first) (← outcome true b second)
  let lower := op.apply (← outcome false a first) (← outcome false b second)
  return op.apply upper lower

def compareDiagrams (a b : Ref) : Edit Ordering := do
  if ← combine .and a b then return .eq
  else return compare (← observe (·.registry a)).size (← observe (·.registry b)).size

/-- The diagrams are compared one pair at a time, and which pairs are depends on the answers. -/
def sortDiagrams (ds : List Ref) : Edit (List Ref) :=
  Order.sort (fun a b => return (← compareDiagrams a b) == .lt) ds

def follow (assignment : Assignment) : Nat → List Ref → Ref → Edit Bool
  | 0, _, r => throw (.endlessPath r)
  | n + 1, passed, r => do
    if r ∈ passed then throw (.endlessPath r)
    else if (← get).isTerminal r then observe (·.value r)
    else
      match (← get).var? r with
      | none => throw .notOffered
      | some v =>
        match assignment v with
        | none => throw (.missingVariable v)
        | some side =>
          match ← readBranch r (.flag side) with
          | none => throw ((← get).raise (.missingBranch r))
          | some q => follow assignment n (r :: passed) q

def evaluate (d : Ref) (assignment : Assignment) : Edit Bool := do
  let root ← observe (·.validatedRoot d)
  follow assignment ((← get).size + 1) [] root

def enterEdges (deps : Dependencies) (r : Ref) : Edit Dependencies := do
  if (← get).isTerminal r then return deps
  else
    let children ← (← successors r).mapM fun c => observe (·.requireVariable c)
    return upsert (← observe (·.requireVariable r)) (ascending children) deps

def edges (d : Ref) : Edit Dependencies := do
  let pass ← depthFirst none [] (← observe (·.validatedRoot d))
  let deps ← pass.met.foldlM enterEdges []
  match pass.cycle with
  | some (source, target) => throw ((← get).raise (.cyclicPath source target))
  | none => return deps

def layers (d : Ref) : Edit (List (List Int)) := do
  match (← edges d).layers? with
  | some layers => return layers
  | none => throw .circularVariables

def numbering (d : Ref) : Edit (List (Int × Int)) := do
  return (← layers d).flatten.foldl Store.enterNumber [(falseVariable, 0), (trueVariable, 1)]

/-- What is known at the end of a branch of the node for a variable. The node is not asked whether
it is a terminal. -/
def branchEntry {α : Type} (d : Ref) (known : List (Int × α)) (v : Int) (side : Bool) : Edit α := do
  match (← get).vertexOf? d v with
  | none => throw .notOffered
  | some r =>
    match ← readBranch r (.flag side) with
    | none => throw .notOffered
    | some q =>
      let child ← observe (·.requireVariable q)
      match known.lookup child with
      | some a => return a
      | none => throw (.missingVariable child)

def enterProbability (d : Ref) (weights : Weights) (known : List (Int × Rat)) (v : Int) :
    Edit (List (Int × Rat)) := do
  if (known.lookup v).isSome then return known
  else
    let w ← observe fun _ => (weights.of v).exact
    let hi ← branchEntry d known v true
    let lo ← branchEntry d known v false
    return (v, w * hi + (1 - w) * lo) :: known

def enterLogProbability (d : Ref) (weights : Weights) (known : List (Int × Float)) (v : Int) :
    Edit (List (Int × Float)) := do
  if (known.lookup v).isSome then return known
  else
    let w := (← observe fun _ => (weights.of v).approximate).toFloat
    let lo ← branchEntry d known v false
    let hi ← branchEntry d known v true
    return (v, logSum ((1.0 - w).log + lo) (w.log + hi)) :: known

def foldLayers {α : Type} (d : Ref) (enter : List (Int × α) → Int → Edit (List (Int × α)))
    (terminals : List (Int × α)) : Edit α := do
  let known ← (← layers d).flatten.foldlM enter terminals
  let root ← observe (·.validatedRoot d)
  let v ← observe (·.requireVariable root)
  match known.lookup v with
  | some a => return a
  | none => throw (.missingVariable v)

def probability (d : Ref) (weights : Weights) : Edit Rat :=
  foldLayers d (enterProbability d weights) [(trueVariable, 1), (falseVariable, 0)]

def logProbability (d : Ref) (weights : Weights) : Edit Numeral.Binary64 := do
  let x ← foldLayers d (enterLogProbability d weights)
    [(trueVariable, 0.0), (falseVariable, -(1.0 / 0.0))]
  return .ofFloat x

def modelCount (d : Ref) : Edit Int := do
  let tested := (← layers d).flatten.filter (!isReserved ·)
  let q ← probability d []
  return (q.num * Numeral.powTwo tested.length).tdiv q.den

def childNumber (numbers : List (Int × Int)) (side : Bool) (r : Ref) : Edit Int := do
  match ← readBranch r (.flag side) with
  | none => throw .notOffered
  | some q =>
    let v ← observe (·.requireVariable q)
    observe fun _ => Document.lookupNumber numbers v

def lineText (numbers : List (Int × Int)) (r : Ref) : Edit Text := do
  let v ← observe (·.requireVariable r)
  let number ← observe fun _ => Document.lookupNumber numbers v
  match (← get).terminalValue? r with
  | some value => return Document.constantText number value
  | none =>
    let lo ← childNumber numbers false r
    let hi ← childNumber numbers true r
    return Document.testText number (← observe fun _ => Numeral.Integer.written v) lo hi

def write (d : Ref) (order : Option (List Document.Item)) : Edit Text := do
  let numbers ← numbering d
  let words ← observe fun _ => Document.orderWords (order.getD (Document.defaultOrder numbers))
  let root ← observe (·.validatedRoot d)
  let v ← observe (·.requireVariable root)
  let number ← observe fun _ => Document.lookupNumber numbers v
  let lines ← numbers.mapM fun (v, _) => do
    match (← get).vertexOf? d v with
    | some r => lineText numbers r
    | none => throw .notOffered
  return Document.headingText words numbers.length number ++ lines.flatten

def describe (label : String) (d : Ref) (weights : Option Weights) : Edit (List String) := do
  let shown := label ++ ": " ++ (← observe (·.show? d)).getD ""
  let count ← modelCount d
  let models := label ++ " models: " ++ (← observe fun _ => showInt count)
  match weights with
  | none => return [shown, models]
  | some w =>
    return [shown, models,
      label ++ " probability: " ++ (Numeral.fraction (← probability d w)).toString]

def compareReport (op : Connective) (a b : Ref) (weights : Option Weights) :
    Edit (List String) := do
  let result ← combine op a b
  let ordering ← compareDiagrams a b
  let first ← describe "First obdd" a weights
  let second ← describe "Second obdd" b weights
  return ("Result of " ++ op.name ++ " comparison: " ++ showBool result)
    :: ("Ordering: " ++ Report.orderingText ordering) :: first ++ second

def report (fetch : String → Except Fault Text.Bytes) (r : CommandLine.Request) :
    Edit (List String) := do
  if r.logLevel = .nothing then observe fun _ => .error .nameNotGiven
  let weights ← observe fun _ => CommandLine.readWeights fetch r.weights
  let connective ← observe fun _ => r.connective.elim (.error .nameNotGiven) .ok
  let (first, bytes) ← observe fun _ => r.first.file fetch
  let (_, a) ← parse bytes first
  let (second, bytes) ← observe fun _ => r.second.file fetch
  let (_, b) ← parse bytes second
  compareReport connective a b weights

theorem terminalAlong_tells (s : Store) (side : Bool) (r : Ref) :
    (terminalAlong side r).Tells s (.ok (s.terminalAlong side r)) :=
  tells_bind_ok (walkWithin_tells s none side r) (tells_bind_ok tells_get (tells_pure _))

theorem outcome_tells (s : Store) (side : Bool) (d root : Ref) :
    (outcome side d root).Tells s (s.outcome side d root) := by
  refine tells_bind_ok (terminalAlong_tells s side root) ?_
  unfold Store.outcome
  cases s.terminalAlong side root with
  | some terminal => exact tells_observe _
  | none => exact tells_bind_ok tells_get (tells_throw _)

theorem combine_tells (s : Store) (op : Connective) (a b : Ref) :
    (combine op a b).Tells s (s.combine op a b) :=
  tells_bind (tells_observe _) fun _ _ =>
    tells_bind (outcome_tells s true a _) fun _ _ =>
      tells_bind (outcome_tells s true b _) fun _ _ =>
        tells_bind (outcome_tells s false a _) fun _ _ =>
          tells_bind (outcome_tells s false b _) fun _ _ => tells_pure _

theorem compareDiagrams_tells (s : Store) (a b : Ref) :
    (compareDiagrams a b).Tells s (s.compareDiagrams a b) := by
  refine tells_bind (combine_tells s .and a b) fun same _ => ?_
  cases same with
  | true => exact tells_pure _
  | false =>
    exact tells_bind (tells_observe _) fun _ _ => tells_bind (tells_observe _) fun _ _ =>
      tells_pure _

theorem sortDiagrams_tells (s : Store) (ds : List Ref) :
    (sortDiagrams ds).Tells s (s.sortDiagrams ds) :=
  Order.tells_sort (fun a b => (compareDiagrams_tells s a b).map) ds

theorem follow_tells {assignment : Assignment} {n : Nat} {passed : List Ref}
    (hn : s.unseen passed < n) :
    (follow assignment n passed r).Tells s (s.follow assignment passed r) := by
  -- `n` exceeds the number of vertices not passed yet, and every round passes one of them.
  induction n generalizing passed r with
  | zero => exact absurd hn (Nat.not_lt_zero _)
  | succ n ih =>
    rw [Store.follow_eq, follow]
    by_cases hold : r ∈ passed
    · rw [if_pos hold, if_pos hold]
      exact tells_throw _
    rw [if_neg hold, if_neg hold]
    refine tells_bind_ok tells_get ?_
    cases hterm : s.isTerminal r with
    | true => exact tells_observe _
    | false =>
      simp only [Bool.false_eq_true, ↓reduceIte]
      refine tells_bind_ok tells_get ?_
      cases s.var? r with
      | none => exact tells_throw _
      | some v =>
        rw [Option.elim_some]
        dsimp only
        cases assignment v with
        | none => exact tells_throw _
        | some side =>
          refine tells_bind_readBranch hterm ?_
          rw [Option.elim_some]
          cases hq : s.branch side r with
          | none => exact tells_bind_ok tells_get (tells_throw _)
          | some q =>
            have hr : r < s.size :=
              Store.lt_size_of_next ((Store.next_of_not_isTerminal hterm).trans hq)
            have hseen :=
              Store.unseen_lt (fun _ hx => List.mem_cons_of_mem r hx) hr hold List.mem_cons_self
            exact ih (by omega)

theorem evaluate_tells (s : Store) (d : Ref) (assignment : Assignment) :
    (evaluate d assignment).Tells s (s.evaluate d assignment) := by
  refine tells_bind (tells_observe _) fun root _ =>
    tells_bind_ok tells_get (follow_tells (Nat.lt_succ_of_le ?_))
  exact List.countP_le_length.trans_eq List.length_range

theorem enterEdges_tells (s : Store) (deps : Dependencies) (r : Ref) :
    (enterEdges deps r).Tells s (s.enterEdges deps r) := by
  refine tells_bind_ok tells_get ?_
  unfold Store.enterEdges
  split
  · exact tells_pure _
  · exact tells_bind_ok (successors_tells s r)
        (tells_bind (tells_mapM fun _ _ => tells_observe _) fun _ _ =>
      tells_bind (tells_observe _) fun _ _ => tells_pure _)

theorem edges_tells (s : Store) (d : Ref) : (edges d).Tells s (s.edges d) := by
  refine tells_bind (tells_observe _) fun root _ =>
    tells_bind_ok (depthFirst_tells s none [] root) ?_
  refine tells_bind (tells_foldlM (motive := fun _ => True) trivial (fun _ _ _ _ _ _ => trivial)
    fun deps r _ _ => enterEdges_tells s deps r) fun deps _ => ?_
  cases (s.depthFirst none [] root).cycle with
  | some edge => exact tells_bind_ok tells_get (tells_throw _)
  | none => exact tells_pure _

theorem layers_tells (s : Store) (d : Ref) : (layers d).Tells s (s.layers d) := by
  refine tells_bind (edges_tells s d) fun deps _ => ?_
  cases deps.layers? with
  | some layers => exact tells_pure _
  | none => exact tells_throw _

theorem numbering_tells (s : Store) (d : Ref) : (numbering d).Tells s (s.numbering d) :=
  tells_bind (layers_tells s d) fun _ _ => tells_pure _

theorem branchEntry_tells {α : Type} (h : s.Deciding) (hfree : isReserved v = false) (d : Ref)
    (known : List (Int × α)) (side : Bool) :
    (branchEntry d known v side).Tells s (s.branchEntry d known v side) := by
  refine tells_bind_ok tells_get ?_
  unfold Store.branchEntry Store.branchVariable
  cases hr : s.vertexOf? d v with
  | none => exact tells_throw _
  | some r =>
    refine tells_bind_readBranch (h.isTerminal_of_vertexOf? hfree hr) ?_
    rw [Option.bind_some]
    cases s.branch side r with
    | none => exact tells_throw _
    | some q =>
      refine tells_bind (tells_observe (·.requireVariable q)) fun child _ => ?_
      cases known.lookup child with
      | some a => exact tells_pure _
      | none => exact tells_throw _

def KnowsTerminals {α : Type} (known : List (Int × α)) : Prop :=
  ∀ v, isReserved v = true → (known.lookup v).isSome

theorem KnowsTerminals.cons {α : Type} {known : List (Int × α)} (h : KnowsTerminals known) (v : Int)
    (a : α) : KnowsTerminals ((v, a) :: known) := by
  intro w hw
  rw [lookup_cons_eq_ite]
  split
  · rfl
  · exact h w hw

theorem KnowsTerminals.terminals {α : Type} (yes no : α) :
    KnowsTerminals [(trueVariable, yes), (falseVariable, no)] := by
  intro v hv
  simp only [isReserved, Bool.or_eq_true, beq_iff_eq] at hv
  rcases hv with rfl | rfl <;> rfl

theorem KnowsTerminals.isReserved_eq {α : Type} {known : List (Int × α)} (h : KnowsTerminals known)
    (hnew : ¬ (known.lookup v).isSome) : isReserved v = false :=
  Bool.eq_false_iff.mpr fun hv => hnew (h v hv)

theorem KnowsTerminals.enterProbability {weights : Weights} {known known' : List (Int × Rat)}
    (h : KnowsTerminals known) (hrun : s.enterProbability d weights known v = .ok known') :
    KnowsTerminals known' := by
  unfold Store.enterProbability at hrun
  split at hrun
  · cases hrun
    exact h
  · obtain ⟨w, -, hrun⟩ := Order.exists_of_bind_eq_ok hrun
    obtain ⟨hi, -, hrun⟩ := Order.exists_of_bind_eq_ok hrun
    obtain ⟨lo, -, hrun⟩ := Order.exists_of_bind_eq_ok hrun
    cases hrun
    exact h.cons v _

theorem KnowsTerminals.enterLogProbability {weights : Weights} {known known' : List (Int × Float)}
    (h : KnowsTerminals known) (hrun : s.enterLogProbability d weights known v = .ok known') :
    KnowsTerminals known' := by
  unfold Store.enterLogProbability at hrun
  split at hrun
  · cases hrun
    exact h
  · obtain ⟨w, -, hrun⟩ := Order.exists_of_bind_eq_ok hrun
    obtain ⟨lo, -, hrun⟩ := Order.exists_of_bind_eq_ok hrun
    obtain ⟨hi, -, hrun⟩ := Order.exists_of_bind_eq_ok hrun
    cases hrun
    exact h.cons v _

theorem enterProbability_tells (h : s.Deciding) (d : Ref) (weights : Weights)
    {known : List (Int × Rat)} (hknown : KnowsTerminals known) (v : Int) :
    (enterProbability d weights known v).Tells s (s.enterProbability d weights known v) := by
  unfold enterProbability Store.enterProbability
  split
  · exact tells_pure _
  · have hfree := hknown.isReserved_eq ‹_›
    exact tells_bind (tells_observe _) fun _ _ =>
        tells_bind (branchEntry_tells h hfree d known true) fun _ _ =>
      tells_bind (branchEntry_tells h hfree d known false) fun _ _ => tells_pure _

theorem enterLogProbability_tells (h : s.Deciding) (d : Ref) (weights : Weights)
    {known : List (Int × Float)} (hknown : KnowsTerminals known) (v : Int) :
    (enterLogProbability d weights known v).Tells s (s.enterLogProbability d weights known v) := by
  unfold enterLogProbability Store.enterLogProbability
  split
  · exact tells_pure _
  · have hfree := hknown.isReserved_eq ‹_›
    exact tells_bind (tells_observe _) fun _ _ =>
        tells_bind (branchEntry_tells h hfree d known false) fun _ _ =>
      tells_bind (branchEntry_tells h hfree d known true) fun _ _ => tells_pure _

theorem foldLayers_tells {α : Type} {d : Ref} {enter : List (Int × α) → Int → Edit (List (Int × α))}
    {next : List (Int × α) → Int → Except Fault (List (Int × α))} {terminals : List (Int × α)}
    (hterminals : KnowsTerminals terminals)
    (hnext : ∀ known v known', KnowsTerminals known → next known v = .ok known' →
      KnowsTerminals known')
    (henter : ∀ known v, KnowsTerminals known → (enter known v).Tells s (next known v)) :
    (foldLayers d enter terminals).Tells s (s.foldLayers d next terminals) := by
  refine tells_bind (layers_tells s d) fun layers _ => ?_
  refine tells_bind (tells_foldlM hterminals (fun known v known' _ => hnext known v known')
    fun known v _ => henter known v) fun known _ => ?_
  refine tells_bind (tells_observe _) fun root _ => tells_bind (tells_observe _) fun v _ => ?_
  cases known.lookup v with
  | some a => exact tells_pure _
  | none => exact tells_throw _

theorem probability_tells (h : s.Deciding) (d : Ref) (weights : Weights) :
    (probability d weights).Tells s (s.probability d weights) :=
  foldLayers_tells (.terminals 1 0) (fun _ _ _ => .enterProbability) fun _ v hknown =>
    enterProbability_tells h d weights hknown v

theorem logProbability_tells (h : s.Deciding) (d : Ref) (weights : Weights) :
    (logProbability d weights).Tells s (s.logProbability d weights) :=
  tells_bind (foldLayers_tells (.terminals _ _) (fun _ _ _ => .enterLogProbability)
      fun _ v hknown =>
    enterLogProbability_tells h d weights hknown v) fun _ _ => tells_pure _

theorem modelCount_tells (h : s.Deciding) (d : Ref) : (modelCount d).Tells s (s.modelCount d) :=
  tells_bind (layers_tells s d) fun _ _ => tells_bind (probability_tells h d []) fun _ _ =>
    tells_pure _

theorem childNumber_eq (s : Store) (numbers : List (Int × Int)) (side : Bool) (r : Ref) :
    Document.childNumber s numbers side r = (s.branch side r).elim (.error .notOffered) fun q =>
      s.requireVariable q >>= Document.lookupNumber numbers := by
  unfold Document.childNumber Store.requireVariable
  cases s.branch side r with
  | none => rfl
  | some q =>
    rw [Option.bind_some, Option.elim_some]
    cases s.var? q <;> rfl

theorem childNumber_tells (hterm : s.isTerminal r = false) (numbers : List (Int × Int))
    (side : Bool) :
    (childNumber numbers side r).Tells s (Document.childNumber s numbers side r) := by
  rw [childNumber_eq]
  refine tells_bind_readBranch hterm ?_
  cases s.branch side r with
  | none => exact tells_throw _
  | some q => exact tells_bind (tells_observe _) fun _ _ => tells_observe _

theorem lineText_tells (s : Store) (numbers : List (Int × Int)) (r : Ref) :
    (lineText numbers r).Tells s (Document.lineText s numbers r) := by
  refine tells_bind (tells_observe _) fun v _ => tells_bind (tells_observe _) fun number _ =>
    tells_bind_ok tells_get ?_
  cases hvalue : s.terminalValue? r with
  | some value => exact tells_pure _
  | none =>
    have hterm : s.isTerminal r = false := by rw [Store.isTerminal_eq_isSome, hvalue]; rfl
    exact tells_bind (childNumber_tells hterm numbers false) fun _ _ =>
      tells_bind (childNumber_tells hterm numbers true) fun _ _ =>
        tells_bind (tells_observe _) fun _ _ => tells_pure _

theorem write_tells (s : Store) (d : Ref) (order : Option (List Document.Item)) :
    (write d order).Tells s (Document.write s d order) := by
  refine tells_bind (numbering_tells s d) fun numbers _ =>
      tells_bind (tells_observe _) fun words _ =>
    tells_bind (tells_observe _) fun root _ => tells_bind (tells_observe _) fun v _ =>
        tells_bind (tells_observe _) fun number _ =>
      tells_bind (tells_mapM fun (v, _) _ => ?_) fun _ _ => tells_pure _
  refine tells_bind_ok tells_get ?_
  dsimp only
  cases s.vertexOf? d v with
  | some r => exact lineText_tells s numbers r
  | none => exact tells_throw _

theorem describe_tells (h : s.Deciding) (label : String) (d : Ref) (weights : Option Weights) :
    (describe label d weights).Tells s (Report.describe s label d weights) := by
  refine tells_bind (tells_observe _) fun shown _ => ?_
  refine tells_bind (modelCount_tells h d) fun count _ => tells_bind (tells_observe _) fun _ _ => ?_
  cases weights with
  | none => exact tells_pure _
  | some w => exact tells_bind (probability_tells h d w) fun _ _ => tells_pure _

theorem compareReport_tells (h : s.Deciding) (op : Connective) (a b : Ref)
    (weights : Option Weights) :
    (compareReport op a b weights).Tells s (Report.compare s op a b weights) :=
  tells_bind (combine_tells s op a b) fun _ _ => tells_bind (compareDiagrams_tells s a b) fun _ _ =>
    tells_bind (describe_tells h _ a weights) fun _ _ =>
      tells_bind (describe_tells h _ b weights) fun _ _ => tells_pure _

theorem report_eq (h : s.Deciding) (fetch : String → Except Fault Text.Bytes)
    (r : CommandLine.Request) : report fetch r s = CommandLine.report fetch r s := by
  have hparse : ∀ bytes file, (Document.parse bytes file).Preserves Store.Deciding :=
    Store.Deciding.lasting.parse
  unfold report CommandLine.report
  simp only [parse_eq]
  split
  · exact bind_congr_run rfl fun _ _ hrun => by cases hrun
  · exact bind_congr_preserves preserves_observe h fun weights s hs =>
      bind_congr_preserves preserves_observe hs
      fun op s hs => bind_congr_preserves preserves_observe hs fun _ s hs =>
        bind_congr_preserves (hparse _ _) hs
        fun first s hs => bind_congr_preserves preserves_observe hs fun _ s hs =>
          bind_congr_preserves (hparse _ _) hs
          fun second s hs => (compareReport_tells hs op first.2 second.2 weights).trans
            (tells_observe fun s => Report.compare s op first.2 second.2 weights).symm

end Guarded

end DecisionDiagram
