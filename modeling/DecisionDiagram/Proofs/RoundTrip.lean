import DecisionDiagram.Proofs.BuildDecides
import DecisionDiagram.Proofs.Utf8RoundTrip
import DecisionDiagram.Proofs.WrittenDocument
import Mathlib
/-! A diagram that is written and read again comes back: the lines that are written are sensible,
and what is built from them is alike. -/
namespace DecisionDiagram
open Relation Numeral

namespace Numbering

variable {s : Store} {d : Ref} {g : Registry} {yes no root : Ref} {v u n m : Int} {side : Bool}
variable {numbers : List (Int × Int)} {rule : Document.Rule}

theorem nodup_entries (h : Numbering s d root numbers) :
    ((s.entries d numbers).map (·.1)).Nodup := by
  have hkeys : (s.entries d numbers).map (·.1) = numbers.map (·.2) := by
    rw [Store.entries, List.map_map]
    rfl
  rw [hkeys]
  exact h.nodup_numbers

theorem lookup_entries_iff (h : Numbering s d root numbers) :
    (s.entries d numbers).lookup n = some rule ↔
    ∃ v, (v, n) ∈ numbers ∧ rule = s.ruleOf d numbers v := by
  rw [lookup_eq_some_iff_mem h.nodup_entries, Store.entries, List.mem_map]
  constructor
  · rintro ⟨⟨v, n⟩, he, heq⟩
    obtain ⟨rfl, rfl⟩ := Prod.ext_iff.mp heq
    exact ⟨v, he, rfl⟩
  · rintro ⟨v, he, rfl⟩
    exact ⟨(v, n), he, rfl⟩

end Numbering

namespace Rooted

variable {s : Store} {d : Ref} {g : Registry} {yes no root r : Ref} {v u n m : Int} {side : Bool}
variable {numbers : List (Int × Int)}

theorem branchNumber_mem (h : Rooted s d g yes no root) (hnumbers : Numbering s d root numbers)
    (hv : v ∈ s.tested root) (side : Bool) :
    ∃ u, s.Branches d v side u ∧ (u, s.branchNumber d numbers v side) ∈ numbers := by
  obtain ⟨u, hu⟩ := h.exists_branches hv side
  obtain ⟨m, hm⟩ := hnumbers.exists_number (h.mem_of_branches hv hu)
  exact ⟨u, hu, h.branchNumber_eq hu hm ▸ hnumbers.lookup_iff.mp hm⟩

theorem lookup_entries_test (h : Rooted s d g yes no root) (hnumbers : Numbering s d root numbers)
    (hv : v ∈ s.tested root) (hn : (v, n) ∈ numbers) : (s.entries d numbers).lookup n =
      some (.test v (s.branchNumber d numbers v false) (s.branchNumber d numbers v true)) :=
  hnumbers.lookup_entries_iff.mpr ⟨v, hn, (h.ruleOf_of_mem_tested hv).symm⟩

theorem eq_of_lookup_entries (h : Rooted s d g yes no root) (hnumbers : Numbering s d root numbers)
    {lo hi : Int} (hn : (s.entries d numbers).lookup n = some (.test v lo hi)) :
    (v, n) ∈ numbers ∧ v ∈ s.tested root ∧
      lo = s.branchNumber d numbers v false ∧ hi = s.branchNumber d numbers v true := by
  obtain ⟨w, hw, hrule⟩ := hnumbers.lookup_entries_iff.mp hn
  rcases hnumbers.cases hw with rfl | rfl | htested
  · cases hrule
  · cases hrule
  · rw [h.ruleOf_of_mem_tested htested] at hrule
    obtain ⟨rfl, rfl, rfl⟩ := Document.Rule.test.inj hrule
    exact ⟨hw, htested, rfl, rfl⟩

theorem lookup_entries_terminal (h : Rooted s d g yes no root)
    (hnumbers : Numbering s d root numbers) (value : Bool) :
    (s.entries d numbers).lookup n = some (.constant value) ↔
      (if value then trueVariable else falseVariable, n) ∈ numbers := by
  rw [hnumbers.lookup_entries_iff]
  constructor
  · rintro ⟨w, hw, hrule⟩
    rcases hnumbers.cases hw with rfl | rfl | htested
    · obtain rfl := Document.Rule.constant.inj hrule
      exact hw
    · obtain rfl := Document.Rule.constant.inj hrule
      exact hw
    · rw [h.ruleOf_of_mem_tested htested] at hrule
      cases hrule
  · intro hn
    refine ⟨_, hn, ?_⟩
    cases value <;> rfl

theorem child_iff (h : Rooted s d g yes no root) (hnumbers : Numbering s d root numbers) :
    Document.Child (s.entries d numbers) n m ↔ ∃ v u side, (v, n) ∈ numbers ∧ (u, m) ∈ numbers ∧
      v ∈ s.tested root ∧ s.Branches d v side u := by
  rw [Document.child_iff]
  constructor
  · rintro ⟨v, lo, hi, hn, hm⟩
    obtain ⟨hv, htested, rfl, rfl⟩ := h.eq_of_lookup_entries hnumbers hn
    rcases hm with rfl | rfl
    · obtain ⟨u, hu, hnumber⟩ := h.branchNumber_mem hnumbers htested false
      exact ⟨v, u, false, hv, hnumber, htested, hu⟩
    · obtain ⟨u, hu, hnumber⟩ := h.branchNumber_mem hnumbers htested true
      exact ⟨v, u, true, hv, hnumber, htested, hu⟩
  · rintro ⟨v, u, side, hv, hm, htested, hu⟩
    refine ⟨v, _, _, h.lookup_entries_test hnumbers htested hv, ?_⟩
    have hnumber := h.branchNumber_eq hu (hnumbers.lookup_iff.mpr hm)
    cases side
    · exact .inl hnumber.symm
    · exact .inr hnumber.symm

theorem transGen_over (h : Rooted s d g yes no root) (hnumbers : Numbering s d root numbers)
    (hway : TransGen (Document.Child (s.entries d numbers)) n m) :
    ∃ v u, (v, n) ∈ numbers ∧ (u, m) ∈ numbers ∧ TransGen (s.Over root) v u := by
  induction hway with
  | single hchild =>
    obtain ⟨v, u, side, hv, hu, htested, hbranch⟩ := (h.child_iff hnumbers).mp hchild
    exact ⟨v, u, hv, hu, .single (h.over_of_branches htested hbranch)⟩
  | tail _ hchild ih =>
    obtain ⟨v, w, hv, hw, hover⟩ := ih
    obtain ⟨w', u, side, hw', hu, htested, hbranch⟩ := (h.child_iff hnumbers).mp hchild
    obtain rfl := hnumbers.inj hw hw'
    exact ⟨v, u, hv, hu, hover.tail (h.over_of_branches htested hbranch)⟩

/-- The lines that are written make sense. -/
theorem sensible_entries (h : Rooted s d g yes no root) (hnumbers : Numbering s d root numbers)
    (hv : v ∈ s.tested root) (hn : (v, n) ∈ numbers) :
    Document.Sensible (s.entries d numbers) n where
  defined := by
    intro a ha
    have hnumber : ∃ u, (u, a) ∈ numbers := by
      rcases ReflTransGen.cases_tail ha with rfl | ⟨b, -, hba⟩
      · exact ⟨v, hn⟩
      · obtain ⟨_, u, _, _, hu, -⟩ := (h.child_iff hnumbers).mp hba
        exact ⟨u, hu⟩
    obtain ⟨u, hu⟩ := hnumber
    simp [hnumbers.lookup_entries_iff.mpr ⟨u, hu, rfl⟩]
  acyclic := by
    intro a _ hloop
    obtain ⟨w, u, hw, hu, hover⟩ := h.transGen_over hnumbers hloop
    obtain rfl := hnumbers.inj hw hu
    exact h.charted.not_over_self ⟨w, hover⟩
  rootTest := ⟨v, _, _, h.lookup_entries_test hnumbers hv hn⟩
  distinct := by
    intro a b u lo hi lo' hi' _ _ ha hb
    have ha' := (h.eq_of_lookup_entries hnumbers ha).1
    have hb' := (h.eq_of_lookup_entries hnumbers hb).1
    exact Option.some.inj ((hnumbers.lookup_iff.mpr ha').symm.trans (hnumbers.lookup_iff.mpr hb'))
  unreserved := by
    intro a u lo hi _ ha
    exact h.isReserved_of_mem_tested (h.eq_of_lookup_entries hnumbers ha).2.1
  branches := by
    intro a u lo hi _ ha
    obtain ⟨-, htested, rfl, rfl⟩ := h.eq_of_lookup_entries hnumbers ha
    obtain ⟨x, hx, hxn⟩ := h.branchNumber_mem hnumbers htested true
    obtain ⟨y, hy, hyn⟩ := h.branchNumber_mem hnumbers htested false
    have hne := h.branches_ne htested hx hy
    refine ⟨fun heq => hne (hnumbers.inj hxn (heq ▸ hyn)), fun value ⟨hlo, hhi⟩ => hne ?_⟩
    rw [h.lookup_entries_terminal hnumbers] at hlo hhi
    exact (hnumbers.inj hxn hhi).trans (hnumbers.inj hyn hlo).symm

theorem below_of_reaches (h : Rooted s d g yes no root) (hnumbers : Numbering s d root numbers)
    (htop : s.var? root = some v) (hn : (v, n) ∈ numbers) (hr : s.Reaches root r)
    (hu : s.var? r = some u) (hm : (u, m) ∈ numbers) :
    Document.Below (s.entries d numbers) n m := by
  induction hr generalizing u m with
  | refl =>
    obtain rfl := Option.some.inj (htop.symm.trans hu)
    obtain rfl :=
      Option.some.inj ((hnumbers.lookup_iff.mpr hn).symm.trans (hnumbers.lookup_iff.mpr hm))
    exact .refl
  | tail hp hlead ih =>
    rename_i p q
    have hnode :=
      (h.wired.mem_nodes_iff_of_member (h.reaches_member hp)).mpr (Store.isTerminal_of_leads hlead)
    obtain ⟨w, hi, lo, hw, hbody, -⟩ := h.wired.exists_body hnode
    have htested := h.mem_tested hp hw
    obtain ⟨a, ha⟩ := hnumbers.exists_number (.inr htested)
    have hwa := hnumbers.lookup_iff.mp ha
    refine (ih (h.wired.var?_of_find? hw) hwa).tail ((h.child_iff hnumbers).mpr ?_)
    rw [Store.Leads, Store.successors_of_body hbody, List.mem_pair] at hlead
    rcases hlead with rfl | rfl
    · exact ⟨w, u, true, hwa, hm, htested, (h.branches_iff hp hw hbody).mpr hu⟩
    · exact ⟨w, u, false, hwa, hm, htested, (h.branches_iff hp hw hbody).mpr hu⟩

end Rooted

namespace Document.Stands

section Lines

variable {lines : Lines} {n id : Int} {s : Store} {d : Ref} {g : Registry} {yes no top q : Ref}
variable {built : List (Int × Ref)}

theorem reaches (h : Stands lines n s d g yes no top built) (hbelow : Below lines n id)
    (hid : built.lookup id = some q) : s.Reaches top q := by
  induction hbelow generalizing q with
  | refl =>
    obtain rfl := Option.some.inj (h.top.symm.trans hid)
    exact .refl
  | tail hp hchild ih =>
    obtain ⟨p, hpBuilt⟩ := Option.isSome_iff_exists.mp ((h.keys _).mpr hp)
    obtain ⟨v, lo, hi, hrule, hside⟩ := Document.child_iff.mp hchild
    obtain ⟨-, hiRef, loRef, hhi, hlo, hbody⟩ := h.test hpBuilt hrule
    rcases hside with rfl | rfl
    · obtain rfl := Option.some.inj (hlo.symm.trans hid)
      exact (ih hpBuilt).tail (Store.leads_of_body hbody false)
    · obtain rfl := Option.some.inj (hhi.symm.trans hid)
      exact (ih hpBuilt).tail (Store.leads_of_body hbody true)

end Lines

section Entries

variable {s s' : Store} {d d' root top q : Ref} {g g' : Registry} {yes no yes' no' : Ref}
variable {v u n m : Int}
variable {numbers : List (Int × Int)} {built : List (Int × Ref)}

theorem var?_built (hstands : Stands (s.entries d numbers) n s' d' g' yes' no' top built)
    (h : Rooted s d g yes no root) (hnumbers : Numbering s d root numbers)
    (hm : built.lookup m = some q) (hu : (u, m) ∈ numbers) : s'.var? q = some u := by
  have hw := hstands.rooted.wired
  rcases hnumbers.cases hu with rfl | rfl | htested
  · obtain rfl := hstands.constant hm ((h.lookup_entries_terminal hnumbers true).mpr hu)
    exact hw.var?_yes
  · obtain rfl := hstands.constant hm ((h.lookup_entries_terminal hnumbers false).mpr hu)
    exact hw.var?_no
  · exact hw.var?_of_find? (hstands.test hm (h.lookup_entries_test hnumbers htested hu)).1

theorem exists_built (hstands : Stands (s.entries d numbers) n s' d' g' yes' no' top built)
    (h : Rooted s d g yes no root) (hnumbers : Numbering s d root numbers)
    (hroot : s.var? root = some v) (hn : (v, n) ∈ numbers) (hu : u ∈ s.tested root) :
    ∃ q hi lo, s'.Reaches top q ∧ g'.find? u = some q ∧
      s'.body? q = some (decisionBody u hi lo) ∧
      built.lookup (s.branchNumber d numbers u true) = some hi ∧
      built.lookup (s.branchNumber d numbers u false) = some lo := by
  obtain ⟨m, hm⟩ := hnumbers.exists_number (.inr hu)
  have hum := hnumbers.lookup_iff.mp hm
  obtain ⟨r, -, -, hr, hfind, -⟩ := h.exists_node hu
  have hbelow := h.below_of_reaches hnumbers hroot hn hr (h.wired.var?_of_find? hfind) hum
  obtain ⟨q, hq⟩ := Option.isSome_iff_exists.mp ((hstands.keys m).mpr hbelow)
  obtain ⟨hfind', hi, lo, hhi, hlo, hbody⟩ :=
    hstands.test hq (h.lookup_entries_test hnumbers hu hum)
  exact ⟨q, hi, lo, hstands.reaches hbelow hq, hfind', hbody, hhi, hlo⟩

theorem isSome_find?_iff_tested
    (hstands : Stands (s.entries d numbers) n s' d' g' yes' no' top built)
    (h : Rooted s d g yes no root) (hnumbers : Numbering s d root numbers)
    (hroot : s.var? root = some v) (hn : (v, n) ∈ numbers) :
    (g'.find? u).isSome ↔ u ∈ s.tested root := by
  constructor
  · intro hu
    obtain ⟨q, hq⟩ := Option.isSome_iff_exists.mp hu
    obtain ⟨id, lo, hi, -, hrule⟩ := hstands.table hq
    exact (h.eq_of_lookup_entries hnumbers hrule).2.1
  · intro hu
    obtain ⟨q, _, _, -, hq, -⟩ := hstands.exists_built h hnumbers hroot hn hu
    simp [hq]

theorem alike (hstands : Stands (s.entries d numbers) n s' d' g' yes' no' top built)
    (h : Rooted s d g yes no root) (hnumbers : Numbering s d root numbers)
    (hroot : s.var? root = some v) (hn : (v, n) ∈ numbers) : Alike s d root s' d' top where
  top := by rw [hstands.var?_built h hnumbers hstands.top hn, hroot]
  tested := by
    ext u
    constructor
    · intro hu
      exact (hstands.isSome_find?_iff_tested h hnumbers hroot hn).mp
        (hstands.rooted.isSome_find?_of_mem_tested hu)
    · intro hu
      obtain ⟨q, hi, lo, hq, hfind, -⟩ := hstands.exists_built h hnumbers hroot hn hu
      exact hstands.rooted.mem_tested hq hfind
  branches := by
    intro u hu side
    obtain ⟨q, hi, lo, hq, hfind, hbody, hhi, hlo⟩ := hstands.exists_built h hnumbers hroot hn hu
    obtain ⟨w, hw, hwn⟩ := h.branchNumber_mem hnumbers hu side
    refine ⟨w, hw, (hstands.rooted.branches_iff hq hfind hbody).mpr ?_⟩
    cases side
    · exact hstands.var?_built h hnumbers hlo hwn
    · exact hstands.var?_built h hnumbers hhi hwn

end Entries

end Document.Stands

section RoundTrip

variable {s : Store} {d root : Ref} {g : Registry} {yes no : Ref} {n : Int}
variable {numbers : List (Int × Int)}

theorem Numbering.length_eq (hnumbers : Numbering s d root numbers) (h : Rooted s d g yes no root) :
    numbers.length = (s.testedVariables root).card + 2 := by
  have hreserved : ∀ v, isReserved v = true → v ∉ s.testedVariables root := by
    intro v hv hmem
    rw [Store.mem_testedVariables] at hmem
    simp [h.isReserved_of_mem_tested hmem] at hv
  have hkeys : (numbers.map (·.1)).toFinset =
      insert trueVariable (insert falseVariable (s.testedVariables root)) := by
    ext v
    rw [List.mem_toFinset, hnumbers.mem]
    simp [isReserved, or_assoc, Store.mem_testedVariables]
  rw [← List.length_map (f := (·.1)), ← List.toFinset_card_of_nodup hnumbers.nodup, hkeys]
  rw [Finset.card_insert_of_notMem, Finset.card_insert_of_notMem]
  · exact hreserved _ rfl
  · simp [hreserved, isReserved, trueVariable, falseVariable]

theorem Numbering.short (hnumbers : Numbering s d root numbers)
    (hsize : numbers.length ≤ 10 ^ digitLimit) {v : Int} (hn : (v, n) ∈ numbers) :
    Integer.Short n := by
  obtain ⟨hnonneg, hless⟩ := hnumbers.bounds hn
  unfold Integer.Short
  omega

theorem Numbering.short_entries (hnumbers : Numbering s d root numbers)
    (h : Rooted s d g yes no root) (hvariables : ∀ v ∈ s.tested root, Integer.Short v)
    (hsize : numbers.length ≤ 10 ^ digitLimit) :
    ∀ e ∈ s.entries d numbers, Integer.Short e.1 ∧ e.2.Short := by
  intro e he
  obtain ⟨⟨v, n⟩, hn, rfl⟩ := List.mem_map.mp he
  refine ⟨hnumbers.short hsize hn, ?_⟩
  rcases hnumbers.cases hn with rfl | rfl | htested
  · trivial
  · trivial
  · obtain ⟨_, -, hhi⟩ := h.branchNumber_mem hnumbers htested true
    obtain ⟨_, -, hlo⟩ := h.branchNumber_mem hnumbers htested false
    rw [h.ruleOf_of_mem_tested htested]
    exact ⟨hvariables v htested, hnumbers.short hsize hlo, hnumbers.short hsize hhi⟩

end RoundTrip

namespace Document

theorem ofBytes_encode (t : Text) : ofBytes (Text.encode t) = ofText t := by
  rw [ofBytes, Text.deliver_encode]
  cases ofText t <;> rfl

theorem parse_encode {t : Text} {order : List Text} {lines : Lines} {root : Int}
    {before after : Store} {d : Ref} (hread : ofText t = .ok ⟨order, some root, lines⟩)
    (hbuild : build lines root before = .ok d after) (file : String) :
    parse (Text.encode t) file before = .ok (order, d) after := by
  rw [parse_of_read ((ofBytes_encode t).trans hread) rfl, bind_of_ok hbuild]
  rfl

end Document

end DecisionDiagram
