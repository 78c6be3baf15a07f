import DecisionDiagram.Order.Search
import DecisionDiagram.Proofs.MatchingLines
/-! A file that is parsed and written again takes a canonical form. Which text that is depends on
what the lines below the root line say of one another, and on nothing else in the file. -/
namespace DecisionDiagram.Document
open Numeral

inductive Saying
  | root (number : Text)
  | node (words : List Text)
deriving DecidableEq, Repr

def saying? (line : Text) : Option Saying :=
  match (Text.words line).getLast? with
  | none => none
  | some last =>
    if orderHeading.isPrefixOf line || sizeHeading.isPrefixOf line then none
    else if rootHeading.isPrefixOf line then some (.root last)
    else some (.node (Text.words line))

def sayings (t : Text) : List Saying := (Text.lines (Text.unifyLineEnds t)).filterMap saying?

namespace Draft

def bare (draft : Draft) : Draft := { draft with document := { draft.document with order := [] } }

def take? (draft : Draft) : Saying → Option Draft
  | .root number => (Integer.read? number).map fun root =>
      { draft with document := { draft.document with root := some root } }
  | .node words => (readLine words).toOption.map fun line =>
      ⟨{ draft.document with lines := upsert line.id line.rule draft.document.lines }, some line.id⟩

theorem bare_of_enter {draft draft' : Draft} {line : Text} (h : draft.enter line = .ok draft') :
    (saying? line).elim (some draft.bare) draft.bare.take? = some draft'.bare := by
  unfold enter at h
  unfold saying?
  -- The headings are tried in the order of `enter`; a line with none of them is a node line.
  cases hlast : (Text.words line).getLast? with
  | none =>
    simp only [hlast] at h ⊢
    cases h
    rfl
  | some last =>
    cases horder : orderHeading.isPrefixOf line with
    | true =>
      simp only [hlast, horder, ↓reduceIte, Bool.true_or] at h ⊢
      cases h
      rfl
    | false =>
      cases hsize : sizeHeading.isPrefixOf line with
      | true =>
        simp only [hlast, horder, hsize, Bool.false_eq_true, ↓reduceIte, Bool.or_true] at h ⊢
        cases h
        rfl
      | false =>
        cases hroot : rootHeading.isPrefixOf line with
        | true =>
          simp only [hlast, horder, hsize, hroot, Bool.false_eq_true, ↓reduceIte,
            Bool.or_false] at h ⊢
          cases hread : Integer.read? last with
          | none => simp [hread] at h
          | some root =>
            simp only [hread] at h
            cases h
            simp [take?, hread, bare]
        | false =>
          simp only [hlast, horder, hsize, hroot, Bool.false_eq_true, ↓reduceIte,
            Bool.or_false] at h ⊢
          obtain ⟨⟨id, rule⟩, hline, hentered⟩ := Order.exists_of_bind_eq_ok h
          cases hentered
          simp [take?, hline, bare, Except.toOption]

theorem bare_of_foldlM {ls : List Text} {draft draft' : Draft}
    (h : ls.foldlM enter draft = .ok draft') :
    (ls.filterMap saying?).foldlM take? draft.bare = some draft'.bare := by
  induction ls generalizing draft with
  | nil =>
    cases h
    rfl
  | cons line ls ih =>
    rw [List.foldlM_cons] at h
    obtain ⟨next, hnext, hrest⟩ := Order.exists_of_bind_eq_ok h
    have hstep := bare_of_enter hnext
    rw [List.filterMap_cons]
    cases hsaying : saying? line with
    | none =>
      rw [hsaying] at hstep
      rw [Option.some.inj hstep]
      exact ih hrest
    | some saying =>
      rw [hsaying, Option.elim_some] at hstep
      rw [List.foldlM_cons, hstep]
      exact ih hrest

end Draft

theorem root_and_lines_of_sayings_eq {t t' : Text} {document document' : Document}
    (hread : ofText t = .ok document) (hread' : ofText t' = .ok document')
    (h : sayings t = sayings t') :
    document.root = document'.root ∧ document.lines = document'.lines := by
  obtain ⟨draft, hdraft, hfinish⟩ := Order.exists_of_bind_eq_ok hread
  obtain ⟨draft', hdraft', hfinish'⟩ := Order.exists_of_bind_eq_ok hread'
  have hbare : draft.bare = draft'.bare := by
    have htake := Draft.bare_of_foldlM hdraft
    rw [← sayings, h, sayings, Draft.bare_of_foldlM hdraft'] at htake
    exact (Option.some.inj htake).symm
  cases hfinish
  cases hfinish'
  have hroot : draft.document.root = draft'.document.root := congrArg (·.document.root) hbare
  have hlast : draft.last = draft'.last := congrArg (·.last) hbare
  exact ⟨by rw [Draft.finish, Draft.finish, hroot, hlast], congrArg (·.document.lines) hbare⟩

theorem ofText_of_ofBytes {bytes : Text.Bytes} {document : Document}
    (h : ofBytes bytes = .ok document) : ofText (Text.deliver bytes).text = .ok document := by
  obtain ⟨read, hread, hflaw⟩ := Order.exists_of_bind_eq_ok h
  split at hflaw
  · cases hflaw
  · cases hflaw
    exact hread

theorem matching_self (lines : Lines) (n : Int) : Matching (· = ·) lines lines n n := by
  refine ⟨rfl, ?_⟩
  rintro a _ rule rule' rfl hrule hrule'
  exact Option.some.inj (hrule.symm.trans hrule') ▸ rule.matches_eq

/-- Writing what was parsed gives a canonical form. Two files come to one text, byte for byte, if
and only if their diagrams agree variable by variable; and that is so if and only if their lines
match from the root lines on, whatever numbers the lines have, in whatever order they stand, and
whatever other lines there are. Headings other than that of the root, blank lines and the blanks
between words do not matter either. -/
theorem write_of_parse {bytes bytes' : Text.Bytes} {file file' : String} {order order' : List Text}
    {before before' s s' : Store} {d d' : Ref} (hrun : parse bytes file before = .ok (order, d) s)
    (hrun' : parse bytes' file' before' = .ok (order', d') s') :
    ∃ root root' t t' document document' n n', s.validatedRoot d = .ok root ∧
    s'.validatedRoot d' = .ok root' ∧
      write s d none = .ok t ∧ write s' d' none = .ok t' ∧ ofBytes bytes = .ok document ∧
      document.root = some n ∧
      ofBytes bytes' = .ok document' ∧ document'.root = some n' ∧
      (Text.encode t = Text.encode t' ↔ Agree s d root s' d' root') ∧
      (Text.encode t = Text.encode t' ↔ ∃ R, Matching R document.lines document'.lines n n') ∧
      (sayings (Text.deliver bytes).text = sayings (Text.deliver bytes').text →
        Text.encode t = Text.encode t') := by
  obtain ⟨document, n, g, yes, no, root, built, hread, hroot, h⟩ := stands_of_parse hrun
  obtain ⟨document', n', g', yes', no', root', built', hread', hroot', h'⟩ := stands_of_parse hrun'
  obtain ⟨t, t', hwrite, hwrite', hiff⟩ :=
    h.rooted.write_eq_iff h'.rooted (h.short (short_of_ofBytes hread).1)
      (h'.short (short_of_ofBytes hread').1)
  have hagree : Text.encode t = Text.encode t' ↔ Agree s d root s' d' root' :=
    Text.encode_injective.eq_iff.trans hiff
  have hmatching : Agree s d root s' d' root' ↔
      ∃ R, Matching R document.lines document'.lines n n' :=
    ⟨fun same => ⟨_, h.matching_of_agree h' same⟩, fun ⟨R, hmatch⟩ => h.agree_of_matching h' hmatch⟩
  refine ⟨root, root', t, t', document, document', n, n', h.rooted.validatedRoot,
    h'.rooted.validatedRoot, hwrite,
    hwrite', hread, hroot, hread', hroot', hagree, hagree.trans hmatching, fun hsayings => ?_⟩
  obtain ⟨hsame, hlines⟩ :=
    root_and_lines_of_sayings_eq (ofText_of_ofBytes hread) (ofText_of_ofBytes hread') hsayings
  obtain rfl : n = n' := Option.some.inj (hroot.symm.trans (hsame.trans hroot'))
  exact (hagree.trans hmatching).mpr ⟨(· = ·), hlines ▸ matching_self document.lines n⟩

def tidyText : Text := "0:\tF 0\n1:\tT 0\n2:\t2 0 1 0\n3:\t1 0 2 0\n".toList

def tidyLines : Lines :=
  [(0, .constant false), (1, .constant true), (2, .test 2 0 1), (3, .test 1 0 2)]

/-- The same conjunction under other numbers, between a blank line, headings, and lines that the
root does not reach. -/
def looseText : Text :=
  ("Variable order: x\n9:\tT 0\n4:\t1 6 8 0\n\n6: F 0\n5:\tT 0\n7:\t3 6 5 0\n" ++
    "8:  2 6 9 0\nRoot node: 4\n").toList

def looseLines : Lines :=
  [(9, .constant true), (4, .test 1 6 8), (6, .constant false), (5, .constant true),
  (7, .test 3 6 5), (8, .test 2 6 9)]

theorem matching_tidyLines :
    Matching (fun a b => (a, b) ∈ [(3, 4), (2, 8), (0, 6), (1, 9)]) tidyLines looseLines 3 4 := by
  refine ⟨by decide, fun {a b rule rule'} hab hrule hrule' => ?_⟩
  simp only [List.mem_cons, Prod.mk.injEq, List.not_mem_nil, or_false] at hab
  rcases hab with ⟨rfl, rfl⟩ | ⟨rfl, rfl⟩ | ⟨rfl, rfl⟩ | ⟨rfl, rfl⟩ <;> cases hrule <;> cases hrule'
  · exact .test 1 (by decide) (by decide)
  · exact .test 2 (by decide) (by decide)
  · exact .constant false
  · exact .constant true

theorem write_of_parse_tidyText : ∃ s s' t, parse (Text.encode tidyText) "tidy" {} = .ok ([], 0) s ∧
    parse (Text.encode looseText) "loose" {} = .ok ([['x']], 0) s' ∧ write s 0 none = .ok t ∧
    write s' 0 none = .ok t := by
  have htidy : ofText tidyText = .ok ⟨[], some 3, tidyLines⟩ := by decide +kernel
  have hloose : ofText looseText = .ok ⟨[['x']], some 4, looseLines⟩ := by decide +kernel
  obtain ⟨s, hbuild⟩ : ∃ s, build tidyLines 3 {} = .ok 0 s := ⟨_, by cbv⟩
  obtain ⟨s', hbuild'⟩ : ∃ s', build looseLines 4 {} = .ok 0 s' := ⟨_, by cbv⟩
  have hparse := parse_encode htidy hbuild "tidy"
  have hparse' := parse_encode hloose hbuild' "loose"
  obtain ⟨_, _, t, t', document, document', n, n', -, -, hwrite, hwrite', hread, hroot, hread',
    hroot', -, hmatching, -⟩ := write_of_parse hparse hparse'
  obtain rfl := Except.ok.inj (htidy.symm.trans ((ofBytes_encode tidyText).symm.trans hread))
  obtain rfl := Except.ok.inj (hloose.symm.trans ((ofBytes_encode looseText).symm.trans hread'))
  obtain rfl := Option.some.inj hroot
  obtain rfl := Option.some.inj hroot'
  obtain rfl := Text.encode_injective (hmatching.mpr ⟨_, matching_tidyLines⟩)
  exact ⟨s, s', t, hparse, hparse', hwrite, hwrite'⟩

end DecisionDiagram.Document
