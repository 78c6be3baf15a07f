import DecisionDiagram.Proofs.IsomorphicDiagrams
import DecisionDiagram.Proofs.LayeredProbability
import DecisionDiagram.Proofs.VariableOrder
/-! What a validated diagram is written as: a node line for each vertex below the root, under
numbers that count the variables from zero on. -/
namespace DecisionDiagram
open Numeral

/-- Different variables under the numbers 0, 1, 2 and so on. -/
structure Numbered (numbers : List (Int × Int)) : Prop where
  nodup : (numbers.map (·.1)).Nodup
  counted : numbers.map (·.2) = (List.range numbers.length).map Int.ofNat

namespace Numbered

variable {numbers : List (Int × Int)} {v w n : Int}

theorem nodup_numbers (h : Numbered numbers) : (numbers.map (·.2)).Nodup := by
  rw [h.counted]
  exact List.nodup_range.map fun _ _ => Int.ofNat.inj

theorem lookup_iff (h : Numbered numbers) : numbers.lookup v = some n ↔ (v, n) ∈ numbers :=
  lookup_eq_some_iff_mem h.nodup

theorem inj (h : Numbered numbers) (hv : (v, n) ∈ numbers) (hw : (w, n) ∈ numbers) : v = w :=
  congrArg Prod.fst (List.inj_on_of_nodup_map h.nodup_numbers hv hw rfl)

theorem bounds (h : Numbered numbers) (hv : (v, n) ∈ numbers) : 0 ≤ n ∧ n < numbers.length := by
  have hn : n ∈ (List.range numbers.length).map Int.ofNat :=
    h.counted ▸ List.mem_map.mpr ⟨_, hv, rfl⟩
  obtain ⟨k, hk, rfl⟩ := List.mem_map.mp hn
  exact ⟨Int.natCast_nonneg k, Int.ofNat_lt.mpr (List.mem_range.mp hk)⟩

theorem enter (h : Numbered numbers) (v : Int) : Numbered (Store.enterNumber numbers v) := by
  unfold Store.enterNumber
  split
  · exact h
  · rename_i hnone
    have hnew : v ∉ numbers.map (·.1) := by
      intro hmem
      obtain ⟨⟨w, n⟩, he, rfl⟩ := List.mem_map.mp hmem
      exact hnone (by simp [h.lookup_iff.mpr he])
    refine ⟨?_, ?_⟩
    · rw [List.map_append]
      exact List.nodup_append.mpr ⟨h.nodup, by simp, by rintro a ha b hb rfl; simp_all⟩
    · rw [List.map_append, h.counted, List.length_append, List.length_singleton, List.range_succ,
        List.map_append]
      rfl

theorem mem_enter :
    w ∈ (Store.enterNumber numbers v).map (·.1) ↔ w ∈ numbers.map (·.1) ∨ w = v := by
  unfold Store.enterNumber
  split
  · rename_i hsome
    obtain ⟨n, hn⟩ := Option.isSome_iff_exists.mp hsome
    constructor
    · exact .inl
    · rintro (hw | rfl)
      · exact hw
      · obtain ⟨l, l', rfl, -⟩ := List.lookup_eq_some_iff.mp hn
        simp
  · simp

theorem foldl_enter (h : Numbered numbers) (l : List Int) :
    Numbered (l.foldl Store.enterNumber numbers) ∧
    ∀ w, w ∈ (l.foldl Store.enterNumber numbers).map (·.1) ↔ w ∈ numbers.map (·.1) ∨ w ∈ l := by
  induction l generalizing numbers with
  | nil => simp [h]
  | cons v l ih =>
    obtain ⟨hnumbered, hmem⟩ := ih (h.enter v)
    refine ⟨hnumbered, fun w => ?_⟩
    rw [List.foldl_cons, hmem, mem_enter, List.mem_cons, or_assoc]

end Numbered

def Store.Covers (s : Store) (root : Ref) (numbers : List (Int × Int)) : Prop :=
  ∀ v, v ∈ numbers.map (·.1) ↔ isReserved v = true ∨ ∃ r, s.Reaches root r ∧ s.var? r = some v

theorem Charted.exists_numbers {s : Store} {d root : Ref} {g : Registry} (h : Charted s d g root)
    (hroot : s.isTerminal root = false) :
    ∃ numbers, Numbered numbers ∧ s.numbering d = .ok numbers ∧ s.Covers root numbers := by
  obtain ⟨layers, hlayers, -, hmem⟩ := h.exists_layers hroot
  have hstart : Numbered [(falseVariable, 0), (trueVariable, 1)] := ⟨by decide, by decide⟩
  obtain ⟨hnumbered, hkeys⟩ := hstart.foldl_enter layers.flatten
  refine ⟨_, hnumbered, by rw [Store.numbering, hlayers]; rfl, fun v => ?_⟩
  rw [hkeys, hmem]
  simp [isReserved, or_comm]

/-- The numbers under which the vertices below the root are written. -/
structure Numbering (s : Store) (d root : Ref) (numbers : List (Int × Int)) :
    Prop extends Numbered numbers where
  eq : s.numbering d = .ok numbers
  mem : ∀ v, v ∈ numbers.map (·.1) ↔ isReserved v = true ∨ v ∈ s.tested root

theorem Numbering.exists_number {s : Store} {d root : Ref} {numbers : List (Int × Int)}
    (h : Numbering s d root numbers) {v : Int} (hv : isReserved v = true ∨ v ∈ s.tested root) :
    ∃ n, numbers.lookup v = some n := by
  obtain ⟨⟨w, n⟩, he, rfl⟩ := List.mem_map.mp ((h.mem v).mpr hv)
  exact ⟨n, h.lookup_iff.mpr he⟩

theorem Numbering.cases {s : Store} {d root : Ref} {numbers : List (Int × Int)}
    (h : Numbering s d root numbers) {v n : Int} (hv : (v, n) ∈ numbers) :
    v = trueVariable ∨ v = falseVariable ∨ v ∈ s.tested root := by
  have hmem := (h.mem v).mp (List.mem_map.mpr ⟨_, hv, rfl⟩)
  simpa [isReserved, or_assoc] using hmem

namespace Store

def branchNumber (s : Store) (d : Ref) (numbers : List (Int × Int)) (v : Int) (side : Bool) : Int :=
  ((s.branchVariable d v side).toOption.bind fun u => numbers.lookup u).getD 0

def ruleOf (s : Store) (d : Ref) (numbers : List (Int × Int)) (v : Int) : Document.Rule :=
  if v = trueVariable then .constant true
  else if v = falseVariable then .constant false
  else .test v (s.branchNumber d numbers v false) (s.branchNumber d numbers v true)

def entries (s : Store) (d : Ref) (numbers : List (Int × Int)) : List (Int × Document.Rule) :=
  numbers.map fun e => (e.2, s.ruleOf d numbers e.1)

end Store

def Document.writtenRule (id : Int) : Document.Rule → Except Fault Text
  | .constant value => .ok (constantText id value)
  | .test v lo hi => (Integer.written v).map fun tested => testText id tested lo hi

theorem Document.writtenRule_of_short {id : Int} {rule : Document.Rule}
    (h : ∀ v lo hi, rule = .test v lo hi → Integer.Short v) :
    writtenRule id rule = .ok (ruleText id rule) := by
  cases rule with
  | constant value => rfl
  | test v lo hi =>
    rw [writtenRule, Integer.written_of_short (h v lo hi rfl)]
    rfl

namespace Rooted

variable {s : Store} {d : Ref} {g : Registry} {yes no root r : Ref} {v u n : Int} {side : Bool}
variable {numbers : List (Int × Int)}

theorem exists_numbering (h : Rooted s d g yes no root) :
    ∃ numbers, Numbering s d root numbers := by
  obtain ⟨numbers, hnumbered, heq, hcovers⟩ :=
    h.charted.exists_numbers (h.wired.isTerminal_of_mem_nodes h.mem_nodes)
  refine ⟨numbers, hnumbered, heq, fun v => ?_⟩
  rw [hcovers v]
  constructor
  · rintro (hv | ⟨r, hr, hv⟩)
    · exact .inl hv
    · rcases h.var?_cases hr hv with ⟨rfl, -⟩ | ⟨rfl, -⟩ | ⟨hv, -⟩
      · exact .inl rfl
      · exact .inl rfl
      · exact .inr hv
  · rintro (hv | hv)
    · exact .inl hv
    · obtain ⟨r, -, -, hr, hfind, -⟩ := h.exists_node hv
      exact .inr ⟨r, hr, h.wired.var?_of_find? hfind⟩

theorem branchNumber_eq (h : Rooted s d g yes no root) (hu : s.Branches d v side u)
    (hn : numbers.lookup u = some n) : s.branchNumber d numbers v side = n := by
  rw [Store.branchNumber, h.branchVariable_of_branches hu]
  exact congrArg (·.getD 0) hn

theorem ruleOf_of_mem_tested (h : Rooted s d g yes no root) (hv : v ∈ s.tested root) :
    s.ruleOf d numbers v = .test v (s.branchNumber d numbers v false)
      (s.branchNumber d numbers v true) := by
  have hreserved := h.isReserved_of_mem_tested hv
  simp only [isReserved, Bool.or_eq_false_iff, beq_eq_false_iff_ne] at hreserved
  rw [Store.ruleOf, if_neg hreserved.1, if_neg hreserved.2]

theorem childNumber_eq (h : Rooted s d g yes no root) (hnumbers : Numbering s d root numbers)
    (hv : v ∈ s.tested root) (hr : s.vertexOf? d v = some r) (side : Bool) :
    Document.childNumber s numbers side r = .ok (s.branchNumber d numbers v side) := by
  obtain ⟨u, hu⟩ := h.exists_branches hv side
  obtain ⟨n, hn⟩ := hnumbers.exists_number (h.mem_of_branches hv hu)
  rw [h.branchNumber_eq hu hn]
  obtain ⟨r', q, hr', hq, hqu⟩ := hu
  obtain rfl := Option.some.inj (hr.symm.trans hr')
  unfold Document.childNumber Document.lookupNumber
  rw [hq, Option.bind_some, (h.wired.vertexOf?_eq_some_iff.mp hqu).2]
  simp only [hn]

theorem lineText_of_number (h : Rooted s d g yes no root) (hr : s.vertexOf? d v = some r)
    (hn : numbers.lookup v = some n) : Document.lineText s numbers r =
      match s.terminalValue? r with
      | some value => .ok (Document.constantText n value)
      | none => do
        let lo ← Document.childNumber s numbers false r
        let hi ← Document.childNumber s numbers true r
        return Document.testText n (← Integer.written v) lo hi := by
  have hvar := Store.requireVariable_of_var? (h.wired.vertexOf?_eq_some_iff.mp hr).2
  have hlookup : Document.lookupNumber numbers v = .ok n := by rw [Document.lookupNumber, hn]
  rw [Document.lineText, hvar, ok_bind, hlookup, ok_bind]
  rfl

theorem lineText_eq (h : Rooted s d g yes no root) (hnumbers : Numbering s d root numbers)
    (hv : (v, n) ∈ numbers) : ∃ r, s.vertexOf? d v = some r ∧
      Document.lineText s numbers r = Document.writtenRule n (s.ruleOf d numbers v) := by
  have hn := hnumbers.lookup_iff.mpr hv
  rcases hnumbers.cases hv with rfl | rfl | hmem
  · have hvertex := h.wired.vertexOf?_yes
    have hvalue : s.terminalValue? yes = some true := by
      rw [Store.terminalValue?_eq_body, h.wired.yesBody]
      rfl
    exact ⟨yes, hvertex, by rw [h.lineText_of_number hvertex hn, hvalue]; rfl⟩
  · have hvertex := h.wired.vertexOf?_no
    have hvalue : s.terminalValue? no = some false := by
      rw [Store.terminalValue?_eq_body, h.wired.noBody]
      rfl
    exact ⟨no, hvertex, by rw [h.lineText_of_number hvertex hn, hvalue]; rfl⟩
  · obtain ⟨r, hi, lo, -, hfind, hbody, -⟩ := h.exists_node hmem
    have hvertex := h.wired.vertexOf?_of_find? hfind
    have hvalue : s.terminalValue? r = none := by
      rw [Store.terminalValue?_eq_body, hbody]
      rfl
    refine ⟨r, hvertex, ?_⟩
    rw [h.lineText_of_number hvertex hn, hvalue, h.ruleOf_of_mem_tested hmem]
    simp only [h.childNumber_eq hnumbers hmem hvertex]
    rfl

/-- What a validated diagram is written as, and how that may fail: the order or a variable cannot be
shown. -/
theorem write_eq (h : Rooted s d g yes no root) (hnumbers : Numbering s d root numbers)
    (hroot : s.var? root = some v) (hn : numbers.lookup v = some n)
    (order : Option (List Document.Item)) : Document.write s d order = do
      let ws ← Document.orderWords (order.getD (Document.defaultOrder numbers))
      let lines ← (s.entries d numbers).mapM fun e => Document.writtenRule e.1 e.2
      return Document.headingText ws numbers.length n ++ lines.flatten := by
  have hnumber : Document.lookupNumber numbers v = .ok n := by rw [Document.lookupNumber, hn]
  unfold Document.write
  rw [hnumbers.eq, h.validatedRoot]
  simp only [ok_bind, Store.requireVariable_of_var? hroot, hnumber, Store.entries, List.mapM_map]
  rw [mapM_congr (k := fun e => Document.writtenRule e.2 (s.ruleOf d numbers e.1))]
  · rfl
  · intro e he
    obtain ⟨r, hr, hline⟩ := h.lineText_eq hnumbers he
    simp only [hr, hline]

theorem write_of_short (h : Rooted s d g yes no root) (hnumbers : Numbering s d root numbers)
    (hroot : s.var? root = some v) (hn : numbers.lookup v = some n)
    {order : Option (List Document.Item)} {ws : List Text}
    (horder : Document.orderWords (order.getD (Document.defaultOrder numbers)) = .ok ws)
    (hshort : ∀ v ∈ s.tested root, Integer.Short v) : Document.write s d order = .ok
      (Document.headingText ws numbers.length n ++
        (s.entries d numbers).flatMap fun e => Document.ruleText e.1 e.2) := by
  rw [h.write_eq hnumbers hroot hn, horder, ok_bind, mapM_eq_ok, ok_bind, ← List.flatMap_def]
  · rfl
  · intro e he
    obtain ⟨⟨w, m⟩, hm, rfl⟩ := List.mem_map.mp he
    refine Document.writtenRule_of_short fun u lo hi hrule => ?_
    rcases hnumbers.cases hm with rfl | rfl | htested
    · cases hrule
    · cases hrule
    · rw [h.ruleOf_of_mem_tested htested] at hrule
      cases hrule
      exact hshort w htested

end Rooted

theorem defaultOrder_eq {s : Store} {d root : Ref} {g : Registry} {yes no : Ref}
    {numbers : List (Int × Int)} (h : Rooted s d g yes no root)
    (hnumbers : Numbering s d root numbers) :
    Document.defaultOrder numbers = (ascending (s.testedVariables root).toList).map .number := by
  unfold Document.defaultOrder
  congr 1
  refine ascending_congr fun v => ?_
  rw [List.mem_filter, hnumbers.mem, Finset.mem_toList, Store.mem_testedVariables,
    Bool.not_eq_true']
  constructor
  · rintro ⟨hv | hv, hfree⟩
    · simp [hv] at hfree
    · exact hv
  · intro hv
    exact ⟨.inr hv, h.isReserved_of_mem_tested hv⟩

theorem orderWords_default {s : Store} {d root : Ref} {g : Registry} {yes no : Ref}
    {numbers : List (Int × Int)} (h : Rooted s d g yes no root)
    (hnumbers : Numbering s d root numbers) (hshort : ∀ v ∈ s.tested root, Integer.Short v) :
    Document.orderWords (Document.defaultOrder numbers) =
      .ok ((ascending (s.testedVariables root).toList).map Integer.render) := by
  rw [defaultOrder_eq h hnumbers, Document.orderWords_of_plain, List.map_map]
  · exact congrArg Except.ok (List.map_congr_left fun v _ => Document.Item.word_number v)
  · intro item hitem
    obtain ⟨v, hv, rfl⟩ := List.mem_map.mp hitem
    exact hshort v (Store.mem_testedVariables.mp (by simpa [mem_ascending] using hv))

theorem Rooted.write_default {s : Store} {d root : Ref} {g : Registry} {yes no : Ref}
    {numbers : List (Int × Int)} {v n : Int} (h : Rooted s d g yes no root)
    (hnumbers : Numbering s d root numbers) (hroot : s.var? root = some v)
    (hn : numbers.lookup v = some n) (hshort : ∀ v ∈ s.tested root, Integer.Short v) :
    Document.write s d none = .ok
      (Document.headingText ((ascending (s.testedVariables root).toList).map Integer.render)
        numbers.length n ++ (s.entries d numbers).flatMap fun e => Document.ruleText e.1 e.2) :=
  h.write_of_short hnumbers hroot hn (orderWords_default h hnumbers hshort) hshort

namespace Alike

variable {s s' : Store} {d d' root root' : Ref} {g g' : Registry} {yes no yes' no' : Ref}
variable {numbers : List (Int × Int)}

theorem numbering_eq (same : Alike s d root s' d' root') (h : Rooted s d g yes no root)
    (h' : Rooted s' d' g' yes' no' root') (hnumbers : Numbering s d root numbers) :
    Numbering s' d' root' numbers := by
  refine ⟨hnumbers.toNumbered, ?_, ?_⟩
  · rw [← hnumbers.eq, Store.numbering, same.layers_eq h h']
    rfl
  · rw [same.tested]
    exact hnumbers.mem

theorem entries_eq (same : Alike s d root s' d' root') (h : Rooted s d g yes no root)
    (h' : Rooted s' d' g' yes' no' root') (hnumbers : Numbering s d root numbers) :
    s'.entries d' numbers = s.entries d numbers := by
  refine List.map_congr_left fun ⟨v, n⟩ he => ?_
  rcases hnumbers.cases he with rfl | rfl | hv
  · rfl
  · rfl
  · obtain ⟨r, -, -, hr, hfind, -⟩ := h.exists_node hv
    unfold Store.ruleOf Store.branchNumber
    simp only [same.branchVariable_eq h h' hr (h.wired.var?_of_find? hfind)]

/-- Diagrams that are alike are written in the same way, or fail in the same way. -/
theorem write_eq (same : Alike s d root s' d' root') (h : Rooted s d g yes no root)
    (h' : Rooted s' d' g' yes' no' root') (order : Option (List Document.Item)) :
    Document.write s' d' order = Document.write s d order := by
  obtain ⟨numbers, hnumbers⟩ := h.exists_numbering
  obtain ⟨v, hv, htested⟩ := h.exists_rootVariable
  obtain ⟨n, hn⟩ := hnumbers.exists_number (.inr htested)
  rw [h'.write_eq (same.numbering_eq h h' hnumbers) (same.top.trans hv) hn,
    h.write_eq hnumbers hv hn, same.entries_eq h h' hnumbers]

end Alike

end DecisionDiagram
