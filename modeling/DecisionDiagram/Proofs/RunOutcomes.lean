import DecisionDiagram.Proofs.BuildFrame
import DecisionDiagram.Proofs.CircularLines
import DecisionDiagram.Proofs.DiagramRanking
import DecisionDiagram.Proofs.FaultMessages
import DecisionDiagram.Proofs.UsableDiagrams
/-! What a run of the program comes to. It prints the whole report on both files, or one message and
nothing else; only a line that names itself and an infinite weight make it end without a word. -/
namespace DecisionDiagram
open Numeral

namespace Report

/-- Everything that a report says of a diagram: how it is shown, the number of its models and, if
there are weights, its probability. -/
inductive Describes (s : Store) (label : String) (d : Ref) : Option Weights → List String → Prop
  | plain {shown count : String} {n : Int} (shows : s.show? d = .ok (some shown))
      (models : s.modelCount d = .ok n)
    (counts : showInt n = .ok count) :
    Describes s label d none [label ++ ": " ++ shown, label ++ " models: " ++ count]
  | weighted {shown count : String} {n : Int} {weights : Weights} {q : Rat}
      (shows : s.show? d = .ok (some shown))
    (models : s.modelCount d = .ok n) (counts : showInt n = .ok count)
      (chance : s.probability d weights = .ok q) :
    Describes s label d (some weights) [label ++ ": " ++ shown, label ++ " models: " ++ count,
      label ++ " probability: " ++ (fraction q).toString]

inductive Complete (s : Store) (op : Connective) (a b : Ref) (weights : Option Weights) :
  List String → Prop
  | intro {result : Bool} {ordering : Ordering} {first second : List String}
      (combines : s.combine op a b = .ok result)
    (compares : s.compareDiagrams a b = .ok ordering)
      (describesFirst : Describes s "First obdd" a weights first)
    (describesSecond : Describes s "Second obdd" b weights second) :
    Complete s op a b weights (("Result of " ++ op.name ++ " comparison: " ++ showBool result)
      :: ("Ordering: " ++ orderingText ordering) :: first ++ second)

section

variable {s : Store} {label : String} {a b d first second root yes no yes' no' : Ref}
variable {g g' : Registry}
variable {weights : Option Weights}

theorem describe_cases (h : Rooted s d g yes no root) (label : String) (weights : Option Weights) :
    (∃ lines, describe s label d weights = .ok lines ∧ Describes s label d weights lines) ∨
      ∃ e, describe s label d weights = .error e ∧ (e = .longNumber ∨
        ∃ w v, weights = some w ∧ v ∈ s.tested root ∧ (w.of v).exact = .error e) := by
  have hterm := h.wired.isTerminal_of_mem_nodes h.mem_nodes
  obtain ⟨n, hn⟩ := h.charted.exists_modelCount hterm
  unfold describe
  rcases (s.shows_showRegistry g).ok_or_long with ⟨shown, hshown⟩ | hlong
  swap
  · rw [h.wired.show_diagram, hlong]
    exact .inr ⟨_, rfl, .inl rfl⟩
  have hshow : s.show? d = .ok (some shown) := by
    rw [h.wired.show_diagram, hshown]
    rfl
  rw [hshow, ok_bind, hn, ok_bind]
  rcases (Shows.showInt n).ok_or_long with ⟨count, hcount⟩ | hlong
  · rw [hcount, ok_bind]
    cases weights with
    | none => exact .inl ⟨_, rfl, .plain hshow hn hcount⟩
    | some w =>
      dsimp only
      rcases h.charted.probability_cases hterm w with ⟨q, hq⟩ | ⟨e, he, v, hv, hexact⟩
      · rw [hq]
        exact .inl ⟨_, rfl, .weighted hshow hn hcount hq⟩
      · rw [he]
        exact .inr ⟨e, rfl, .inr ⟨w, v, rfl, hv, hexact⟩⟩
  · rw [hlong]
    exact .inr ⟨_, rfl, .inl rfl⟩

theorem compare_cases (ha : Rooted s a g yes no first) (hb : Rooted s b g' yes' no' second)
    (op : Connective) (weights : Option Weights) :
    (∃ lines, compare s op a b weights = .ok lines ∧ Complete s op a b weights lines) ∨
      ∃ e, compare s op a b weights = .error e ∧ (e = .longNumber ∨
        ∃ w v, weights = some w ∧ (v ∈ s.tested first ∨ v ∈ s.tested second) ∧
        (w.of v).exact = .error e) := by
  unfold compare
  rw [ha.combine_eq hb, ok_bind, ha.compareDiagrams_eq hb, ok_bind]
  rcases describe_cases ha "First obdd"
    weights with ⟨firstLines, hfirst, hfirstDescribes⟩ | ⟨e, he, hcause⟩
  · rw [hfirst, ok_bind]
    rcases describe_cases hb "Second obdd"
      weights with ⟨secondLines, hsecond, hsecondDescribes⟩ | ⟨e, he, hcause⟩
    · rw [hsecond]
      exact .inl ⟨_, rfl, .intro (ha.combine_eq hb op) (ha.compareDiagrams_eq hb) hfirstDescribes
        hsecondDescribes⟩
    · rw [he]
      exact .inr ⟨e, rfl, hcause.imp_right fun ⟨w, v, hw, hv, hexact⟩ =>
        ⟨w, v, hw, .inr hv, hexact⟩⟩
  · rw [he]
    exact .inr ⟨e, rfl, hcause.imp_right fun ⟨w, v, hw, hv, hexact⟩ => ⟨w, v, hw, .inl hv, hexact⟩⟩

end

end Report

namespace Document

def Tests (bytes : Text.Bytes) (v : Int) : Prop :=
  ∃ document root id lo hi, ofBytes bytes = .ok document ∧
  document.root = some root ∧ Below document.lines root id ∧
    document.lines.lookup id = some (.test v lo hi)

theorem rooted_of_parse {bytes : Text.Bytes} {file : String} {order : List Text} {s s' : Store}
    {d : Ref} (hrun : parse bytes file s = .ok (order, d) s') :
    (∃ g yes no root, Rooted s' d g yes no root ∧ ∀ v, (g.find? v).isSome → Tests bytes v) ∧
      s.SameBelow s.size s' := by
  obtain ⟨document, n, hread, hroot, -, hbuild⟩ := build_of_parse hrun
  obtain ⟨g, yes, no, root, built, hstands⟩ := stands_of_build hbuild
  refine ⟨⟨g, yes, no, root, hstands.rooted, fun v hv => ?_⟩, sameBelow_of_build hbuild⟩
  obtain ⟨id, lo, hi, hbelow, hrule⟩ := hstands.isSome_find?_iff.mp hv
  exact ⟨document, n, id, lo, hi, hread, hroot, hbelow, hrule⟩

end Document

namespace CommandLine

variable {folder : Folder} {first second weights : String} {op : Connective}

def answer? (folder : Folder) (arguments : List String) : Option Outcome :=
  match readArguments arguments with
  | .request r => some (run folder.read r)
  | _ => none

inductive Weighing (folder : Folder) : String → Option Weights → Prop
  | none : Weighing folder "" none
  | table {path : String} {bytes : Text.Bytes} {table : WeightTable.Table} (named : path ≠ "")
    (fetch : folder.read path = .ok bytes) (reads : WeightTable.ofBytes path bytes = .ok table) :
    Weighing folder path (some (WeightTable.toWeights table))

/-- A run that prints a complete report on the diagrams in two files. -/
inductive Reports (folder : Folder) (op : Connective) (first second weights : String) :
  List String → Prop
  | intro {bytes bytes' : Text.Bytes} {order order' : List Text} {w : Option Weights} {a b : Ref}
      {s s' : Store}
    {lines : List String} (weighs : Weighing folder weights w)
    (fetchFirst : folder.read first = .ok bytes)
      (parseFirst : Document.parse bytes first {} = .ok (order, a) s)
    (fetchSecond : folder.read second = .ok bytes')
      (parseSecond : Document.parse bytes' second s = .ok (order', b) s')
    (complete : Report.Complete s' op a b w lines) : Reports folder op first second weights lines

/-- The two faults that the program has no words for: in one of the files a line below the root line
names itself, or there is a line for a variable with an infinite weight. -/
inductive Unworded (folder : Folder) (first second weights : String) : Fault → Prop
  | itself {path : String} {bytes : Text.Bytes} {a : Int} (named : path = first ∨ path = second)
    (fetch : folder.read path = .ok bytes) (naming : Document.SelfNaming bytes a) :
    Unworded folder first second weights (.missingLine a)
  | infinite {path : String} {bytes bytes' : Text.Bytes} {table : WeightTable.Table} {v : Int}
      {negative : Bool}
    (fetchWeights : folder.read weights = .ok bytes)
      (reads : WeightTable.ofBytes weights bytes = .ok table)
    (entry : table.lookup v = some (.infinite negative)) (named : path = first ∨ path = second)
    (fetch : folder.read path = .ok bytes') (tests : Document.Tests bytes' v) :
    Unworded folder first second weights .weightInfinite

theorem file_text {fetch : String → Except Fault Text.Bytes} {path : String} {bytes : Text.Bytes}
    (h : fetch path = .ok bytes) : (Given.text path).file fetch = .ok (path, bytes) := by
  rw [Given.file, h]
  rfl

theorem file_text_error {fetch : String → Except Fault Text.Bytes} {path : String} {e : Fault}
    (h : fetch path = .error e) : (Given.text path).file fetch = .error e := by
  rw [Given.file, h]
  rfl

theorem readWeights_cases (folder : Folder) (weights : String) :
    (∃ w, readWeights folder.read (.text weights) = .ok w ∧ Weighing folder weights w) ∨
      ∃ e, readWeights folder.read (.text weights) = .error e ∧ ∀ s, e.Told s := by
  unfold readWeights
  by_cases hnone : weights = ""
  · subst hnone
    exact .inl ⟨none, rfl, .none⟩
  · rw [if_neg (by simpa using hnone)]
    cases hfetch : folder.read weights with
    | error e =>
      rw [file_text_error hfetch]
      exact .inr ⟨e, rfl, fun s => told_of_fetch hfetch⟩
    | ok bytes =>
      rw [file_text hfetch, ok_bind]
      dsimp only
      cases hread : WeightTable.ofBytes weights bytes with
      | error e => exact .inr ⟨e, rfl, fun s => WeightTable.told_of_ofBytes hread⟩
      | ok table => exact .inl ⟨_, rfl, .table hnone hfetch hread⟩

def Ends (folder : Folder) (op : Connective) (first second weights : String) :
    EStateM.Result Fault Store (List String) → Prop
  | .ok lines _ => Reports folder op first second weights lines
  | .error e s => e.Told s ∨ Unworded folder first second weights e

theorem ends_of_file {path : String} {s : Store} {f : String × Text.Bytes → Edit (List String)}
    (h : ∀ bytes, folder.read path = .ok bytes →
      Ends folder op first second weights (f (path, bytes) s)) :
    Ends folder op first second weights
      ((observe (fun _ => (Given.text path).file folder.read) >>= f) s) := by
  cases hfetch : folder.read path with
  | error e =>
    rw [bind_of_error (observe_of_error (file_text_error hfetch))]
    exact .inl (told_of_fetch hfetch)
  | ok bytes =>
    rw [bind_of_ok (observe_of_ok (file_text hfetch))]
    exact h bytes hfetch

theorem ends_of_parse {path : String} {bytes : Text.Bytes} {s : Store}
    {f : List Text × Ref → Edit (List String)} (named : path = first ∨ path = second)
    (hfetch : folder.read path = .ok bytes)
    (h : ∀ order d s', Document.parse bytes path s = .ok (order, d) s' →
      Ends folder op first second weights (f (order, d) s')) :
    Ends folder op first second weights ((Document.parse bytes path >>= f) s) := by
  cases hparse : Document.parse bytes path s with
  | error e s' =>
    rw [bind_of_error hparse]
    exact (Document.told_of_parse hparse).imp_right fun ⟨_, naming, he⟩ =>
      he ▸ .itself named hfetch naming
  | ok parsed s' =>
    rw [bind_of_ok hparse]
    exact h parsed.1 parsed.2 s' hparse

theorem Weighing.told_of_exact {w : Weights} {v : Int} {e : Fault} {s : Store} {path : String}
    {bytes : Text.Bytes} (h : Weighing folder weights (some w)) (he : (w.of v).exact = .error e)
    (named : path = first ∨ path = second) (fetch : folder.read path = .ok bytes)
    (tests : Document.Tests bytes v) : e.Told s ∨ Unworded folder first second weights e := by
  cases h with
  | table _ fetchWeights reads =>
    refine (WeightTable.told_of_exact he).imp_right ?_
    rintro ⟨rfl, _, entry⟩
    exact .infinite fetchWeights reads entry named fetch tests

section

variable {w : Option Weights} {bytes bytes' : Text.Bytes} {order order' : List Text} {a b : Ref}
variable {s s' : Store}

theorem report_of_readWeights (hw : readWeights folder.read (.text weights) = .ok w) :
    report folder.read ⟨.text first, .text second, some op, .text weights, .text ""⟩ {} =
      (observe (fun _ => (Given.text first).file folder.read) >>= fun named =>
        Document.parse named.2 named.1 >>=
        fun parsed => observe (fun _ => (Given.text second).file folder.read) >>= fun named' =>
        Document.parse named'.2 named'.1 >>= fun parsed' =>
        observe fun s => Report.compare s op parsed.2 parsed'.2 w) {} := by
  have hop (s : Store) : observe (fun _ => .ok op) s = .ok op s := rfl
  unfold report
  dsimp only [Option.elim]
  rw [if_neg nofun, bind_of_ok (observe_of_ok hw), bind_of_ok (hop _)]

theorem report_of_parse (hw : readWeights folder.read (.text weights) = .ok w)
    (hfirst : folder.read first = .ok bytes)
    (hparse : Document.parse bytes first {} = .ok (order, a) s)
    (hsecond : folder.read second = .ok bytes')
    (hparse' : Document.parse bytes' second s = .ok (order', b) s') :
    report folder.read ⟨.text first, .text second, some op, .text weights, .text ""⟩ {} =
      observe (fun s => Report.compare s op a b w) s' := by
  rw [report_of_readWeights hw, bind_of_ok (observe_of_ok (file_text hfirst)), bind_of_ok hparse,
    bind_of_ok (observe_of_ok (file_text hsecond)), bind_of_ok hparse']

end

theorem report_ends (folder : Folder) (op : Connective) (first second weights : String) :
    Ends folder op first second weights
      (report folder.read ⟨.text first, .text second, some op, .text weights, .text ""⟩ {}) := by
  rcases readWeights_cases folder weights with ⟨w, hw, weighs⟩ | ⟨e, he, htold⟩
  swap
  · unfold report
    dsimp only
    rw [if_neg nofun, bind_of_error (observe_of_error he)]
    exact .inl (htold _)
  rw [report_of_readWeights hw]
  refine ends_of_file fun bytes hfirst => ends_of_parse (.inl rfl) hfirst fun order a s hparse => ?_
  refine ends_of_file fun bytes' hsecond =>
    ends_of_parse (.inr rfl) hsecond fun order' b s' hparse' => ?_
  obtain ⟨⟨g, yes, no, root, ha, htests⟩, -⟩ := Document.rooted_of_parse hparse
  obtain ⟨⟨g', yes', no', root', hb, htests'⟩, hsame⟩ := Document.rooted_of_parse hparse'
  have ha' := ha.beside hsame
  rcases Report.compare_cases ha' hb op w with ⟨lines, hlines, complete⟩ | ⟨e, he, hcause⟩
  · rw [observe_of_ok hlines]
    exact .intro weighs hfirst hparse hsecond hparse' complete
  · rw [observe_of_error he]
    rcases hcause with rfl | ⟨w, v, rfl, hv | hv, hexact⟩
    · exact .inl ⟨rfl, _, rfl⟩
    · exact weighs.told_of_exact hexact (.inl rfl) hfirst
        (htests v (ha'.isSome_find?_of_mem_tested hv))
    · exact weighs.told_of_exact hexact (.inr rfl) hsecond
        (htests' v (hb.isSome_find?_of_mem_tested hv))

/-- Whatever the files hold, a run with the names of two files, a connective and perhaps the name of
a weight file prints the complete report and nothing else, or nothing but the message of the fault
that it met. No fault is left without a word but for those of a line that names itself and of an
infinite weight. -/
theorem answer_cases {arguments : List String}
    (hread : readArguments arguments = .request
      ⟨.text first, .text second, some op, .text weights, .text ""⟩) :
    (∃ lines, Reports folder op first second weights lines ∧
      answer? folder arguments = some (.printed 0 (String.join (lines.map (· ++ "\n"))) "")) ∨
    (∃ e s message, report folder.read ⟨.text first, .text second, some op, .text weights, .text ""⟩
      {} = .error e s ∧
      e.message? s = some message ∧
      answer? folder arguments = some (.printed 1 "" ("Error: " ++ message ++ "\n"))) ∨
    ∃ e, Unworded folder first second weights e ∧ answer? folder arguments = some (.escaped e) := by
  have hends := report_ends folder op first second weights
  rw [answer?, hread]
  unfold run
  dsimp only
  rw [EStateM.run]
  generalize report folder.read _ {} = outcome at hends ⊢
  cases outcome with
  | ok lines s => exact .inl ⟨lines, hends, rfl⟩
  | error e s =>
    rcases hends with ⟨hreported, message, hmessage⟩ | unworded
    · refine .inr (.inl ⟨e, s, message, rfl, hmessage, ?_⟩)
      dsimp only
      rw [if_pos hreported, hmessage]
      rfl
    · have hsilent : isReported e = false := by cases unworded <;> rfl
      refine .inr (.inr ⟨e, unworded, ?_⟩)
      dsimp only
      rw [if_neg (by simp [hsilent])]

def comparison (first second : String) (op : Connective) (weights : String) : List String :=
  ["--first_file", first, "--second_file", second, "--operator", op.name, "--weights_file", weights]

theorem classify_of_head {argument : String} (h : argument.toList.head? ≠ some '-') :
    classify argument = .value argument := by
  unfold classify
  split <;> simp_all

theorem ne_dashes_of_head {argument : String} (h : argument.toList.head? ≠ some '-') :
    argument ≠ "--" := by
  rintro rfl
  exact h rfl

theorem readArguments_comparison (op : Connective) (hfirst : first.toList.head? ≠ some '-')
    (hsecond : second.toList.head? ≠ some '-') (hweights : weights.toList.head? ≠ some '-') :
    readArguments (comparison first second op weights) =
      .request ⟨.text first, .text second, some op, .text weights, .text ""⟩ := by
  have hname : op.name.toList.head? ≠ some '-' := by cases op <;> decide
  have hwords : classifyAll (comparison first second op weights) = [.flag .first none, .value first,
      .flag .second none, .value second, .flag .connective none, .value op.name,
        .flag .weights none,
      .value weights] := by
    have h₁ : classify "--first_file" = .flag .first none := by decide +kernel
    have h₂ : classify "--second_file" = .flag .second none := by decide +kernel
    have h₃ : classify "--operator" = .flag .connective none := by decide +kernel
    have h₄ : classify "--weights_file" = .flag .weights none := by decide +kernel
    simp [comparison, classifyAll, h₁, h₂, h₃, h₄, classify_of_head, ne_dashes_of_head, hfirst,
      hsecond, hweights, hname]
  rw [readArguments, hwords]
  simp [take, Options.put, Connective.ofName?_name, Options.finish]

def loneText : Text := "0:\tF 0\n1:\tT 0\n2:\t1 0 1 0\n".toList

def loneLines : Document.Lines := [(0, .constant false), (1, .constant true), (2, .test 1 0 1)]

def smallFolder : Folder :=
  .ofList [("lone", Text.encode loneText), ("self", Text.encode Document.selfText),
  ("weights", Text.encode "1,inf\n".toList)]

theorem report_lone {weights : String} {w : Option Weights}
    (hw : readWeights smallFolder.read (.text weights) = .ok w) : ∃ s,
      report smallFolder.read ⟨.text "lone", .text "lone", some .xor, .text weights, .text ""⟩ {} =
        observe (fun s => Report.compare s .xor 0 4 w) s ∧
      (∃ shown, s.show? 0 = .ok shown) ∧ (∃ shown, s.show? 4 = .ok shown) ∧
      s.combine .xor 0 4 = .ok false ∧
      s.compareDiagrams 0 4 = .ok .eq ∧ s.modelCount 0 = .ok 1 ∧ s.modelCount 4 = .ok 1 ∧
      s.probability 0 [(1, .binary (.infinite false))] = .error .weightInfinite := by
  have hfetch : smallFolder.read "lone" = .ok (Text.encode loneText) := by rfl
  have hread : Document.ofBytes (Text.encode loneText) = .ok ⟨[], some 2, loneLines⟩ := by
    rw [Document.ofBytes_encode]
    decide +kernel
  obtain ⟨s, s', hbuild, hbuild', hfirst, hsecond, hfacts⟩ :
    ∃ s s', Document.build loneLines 2 {} = .ok 0 s ∧
      Document.build loneLines 2 s = .ok 4 s' ∧ s'.integers 0 = [1] ∧ s'.integers 4 = [1] ∧
        s'.combine .xor 0 4 = .ok false ∧
      s'.compareDiagrams 0 4 = .ok .eq ∧ s'.modelCount 0 = .ok 1 ∧ s'.modelCount 4 = .ok 1 ∧
      s'.probability 0 [(1, .binary (.infinite false))] = .error .weightInfinite :=
    ⟨_, _, by cbv, by cbv, by cbv, by cbv, by cbv, by cbv, by cbv, by cbv, by cbv⟩
  have hone : ∀ i ∈ [1], Integer.Short i := by simpa using Integer.short_of_small (by decide)
  have hparse : Document.parse (Text.encode loneText) "lone" {} = .ok ([], 0) s := by
    rw [Document.parse_of_read hread rfl, bind_of_ok hbuild]
    rfl
  have hparse' : Document.parse (Text.encode loneText) "lone" s = .ok ([], 4) s' := by
    rw [Document.parse_of_read hread rfl, bind_of_ok hbuild']
    rfl
  exact ⟨s', report_of_parse hw hfetch hparse hfetch hparse',
    (s'.shows_show? 0).exists_ok (hfirst ▸ hone),
    (s'.shows_show? 4).exists_ok (hsecond ▸ hone), hfacts⟩

theorem exists_showInt_one : ∃ count, showInt 1 = .ok count :=
  (Shows.showInt 1).exists_ok (by simpa using Integer.short_of_small (by decide))

theorem answer_cases_lone : readArguments (comparison "lone" "lone" .xor "") =
      .request ⟨.text "lone", .text "lone", some .xor, .text "", .text ""⟩ ∧
    ∃ lines, Reports smallFolder .xor "lone" "lone" "" lines ∧
      answer? smallFolder (comparison "lone" "lone" .xor "") = some
        (.printed 0 (String.join (lines.map (· ++ "\n"))) "") := by
  have hname : "lone".toList.head? ≠ some '-' := by decide
  have hread :=
    readArguments_comparison .xor hname hname (show "".toList.head? ≠ some '-' by decide)
  have hnone : readWeights smallFolder.read (.text "") = .ok none := rfl
  obtain ⟨s, hreport, ⟨first, hshown⟩, ⟨second, hshown'⟩, hcombine, hcompare, hfirst, hsecond, -⟩ :=
    report_lone hnone
  obtain ⟨one, hone⟩ := exists_showInt_one
  obtain ⟨lines, hlines⟩ : ∃ lines, Report.compare s .xor 0 4 none = .ok lines := by
    simp only [Report.compare, Report.describe, hshown, hshown', hcombine, hcompare, hfirst,
      hsecond, hone, ok_bind]
    exact ⟨_, rfl⟩
  rw [observe_of_ok hlines] at hreport
  refine ⟨hread, ?_⟩
  rcases answer_cases hread with hreports | ⟨e, s, _, herror, -⟩ | ⟨e, -, hescaped⟩
  · exact hreports
  · cases hreport.symm.trans herror
  · rw [answer?, hread] at hescaped
    simp only [run, EStateM.run, hreport] at hescaped
    cases hescaped

/-- Neither a line that names itself nor an infinite weight is told: these runs print nothing at
all. -/
theorem answer_smallFolder : readArguments (comparison "self" "self" .xor "") =
      .request ⟨.text "self", .text "self", some .xor, .text "", .text ""⟩ ∧
    answer? smallFolder (comparison "self" "self" .xor "") = some (.escaped (.missingLine 2)) ∧
    readArguments (comparison "lone" "lone" .xor "weights") =
      .request ⟨.text "lone", .text "lone", some .xor, .text "weights", .text ""⟩ ∧
    answer? smallFolder (comparison "lone" "lone" .xor "weights") = some
      (.escaped .weightInfinite) := by
  have hread (file weights : String) (hfile : file.toList.head? ≠ some '-')
    (hweights : weights.toList.head? ≠ some '-') :=
      readArguments_comparison .xor hfile hfile hweights
  have hself := hread "self" "" (by decide) (by decide)
  have hlone := hread "lone" "weights" (by decide) (by decide)
  refine ⟨hself, ?_, hlone, ?_⟩
  · have hnone : readWeights smallFolder.read (.text "") = .ok none := rfl
    obtain ⟨s, hbuild⟩ := Document.build_selfLines
    have hparse := Document.parse_of_build_error Document.ofBytes_selfText rfl hbuild "self"
    have hreport :
        report smallFolder.read ⟨.text "self", .text "self", some .xor, .text "", .text ""⟩ {} =
          .error (.missingLine 2) s := by
      have hfetch : smallFolder.read "self" = .ok (Text.encode Document.selfText) := by rfl
      rw [report_of_readWeights hnone, bind_of_ok (observe_of_ok (file_text hfetch)),
        bind_of_error hparse]
    rw [answer?, hself]
    simp only [run, EStateM.run, hreport]
    rfl
  · have hw : readWeights smallFolder.read (.text "weights") = .ok
        (some [(1, .binary (.infinite false))]) := by
      decide +kernel
    obtain ⟨s, hreport, ⟨first, hshown⟩, -, hcombine, hcompare, hfirst, -, hinfinite⟩ :=
      report_lone hw
    obtain ⟨one, hone⟩ := exists_showInt_one
    have herror : Report.compare s .xor 0 4 (some [(1, .binary (.infinite false))]) = .error
        .weightInfinite := by
      simp only [Report.compare, Report.describe, hshown, hcombine, hcompare, hfirst, hinfinite,
        hone, ok_bind]
      rfl
    rw [observe_of_error herror] at hreport
    rw [answer?, hlone]
    simp only [run, EStateM.run, hreport]
    rfl

end CommandLine

end DecisionDiagram
