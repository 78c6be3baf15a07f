import DecisionDiagram.Proofs.LayerHeights
import DecisionDiagram.Proofs.MissingRootLine
import DecisionDiagram.Proofs.RoundTrip
/-! The numbers of a document rise from the terminals to the root. They follow the layers, so that
the root comes last and alone: its number is the highest one, and a document that is read without
its root line has the same root. -/
namespace DecisionDiagram
open Relation Numeral

namespace Dependencies

variable {R : Int → Int → Prop} {done order : List Int} {v u : Int} {i : Nat}

theorem InOrder.earlier (h : InOrder R done order) (hv : order[i]? = some v) (hvu : R v u) :
    u ∈ done ∨ ∃ j < i, order[j]? = some u := by
  induction order generalizing done i with
  | nil => simp at hv
  | cons w order ih =>
    obtain ⟨-, hneeds, hrest⟩ := h
    cases i with
    | zero =>
      obtain rfl : w = v := by simpa using hv
      exact .inl (hneeds u hvu)
    | succ i =>
      rcases ih hrest hv with hdone | ⟨j, hj, hu⟩
      · rcases List.mem_append.mp hdone with hdone | hlast
        · exact .inl hdone
        · exact .inr ⟨0, i.succ_pos, by simpa using (List.mem_singleton.mp hlast).symm⟩
      · exact .inr ⟨j + 1, Nat.succ_lt_succ hj, hu⟩

end Dependencies

namespace Numbered

variable {numbers : List (Int × Int)} {l : List Int} {v n : Int}

theorem keys_foldl_enter (h : (numbers.map (·.1) ++ l).Nodup) :
    (l.foldl Store.enterNumber numbers).map (·.1) = numbers.map (·.1) ++ l := by
  induction l generalizing numbers with
  | nil => simp
  | cons v l ih =>
    have hnew : v ∉ numbers.map (·.1) :=
      fun hmem => (List.nodup_append.mp h).2.2 _ hmem _ List.mem_cons_self rfl
    have hnone : (numbers.lookup v).isSome = false :=
      Bool.eq_false_iff.mpr fun hsome => hnew (isSome_lookup_iff.mp hsome)
    have hstep : Store.enterNumber numbers v = numbers ++ [(v, (numbers.length : Int))] := by
      rw [Store.enterNumber, hnone, if_neg Bool.false_ne_true]
    rw [List.foldl_cons, hstep, ih (by simpa using h), List.map_append, List.append_assoc]
    rfl

theorem number_eq (h : Numbered numbers) {e : Int × Int} {i : Nat} (he : numbers[i]? = some e) :
    e.2 = i := by
  have hi : i < numbers.length := (List.getElem?_eq_some_iff.mp he).1
  have hcount := congrArg (·[i]?) h.counted
  simp only [List.getElem?_map, he, List.getElem?_range hi, Option.map_some,
    Option.some.injEq] at hcount
  exact hcount

theorem lookup_iff_getElem? (h : Numbered numbers) :
    numbers.lookup v = some n ↔ ∃ i : Nat, n = i ∧ (numbers.map (·.1))[i]? = some v := by
  rw [h.lookup_iff, List.mem_iff_getElem?]
  constructor
  · rintro ⟨i, hi⟩
    exact ⟨i, h.number_eq hi, by rw [List.getElem?_map, hi]; rfl⟩
  · rintro ⟨i, rfl, hi⟩
    rw [List.getElem?_map] at hi
    obtain ⟨e, he, rfl⟩ := Option.map_eq_some_iff.mp hi
    exact ⟨i, he.trans (congrArg some (Prod.ext rfl (h.number_eq he)))⟩

theorem exists_lookup_iff (h : Numbered numbers) :
    (∃ v, numbers.lookup v = some n) ↔ 0 ≤ n ∧ n < numbers.length := by
  constructor
  · rintro ⟨v, hv⟩
    exact h.bounds (h.lookup_iff.mp hv)
  · rintro ⟨hnonneg, hlt⟩
    obtain ⟨i, rfl⟩ := Int.eq_ofNat_of_zero_le hnonneg
    have hi : i < (numbers.map (·.1)).length := by rw [List.length_map]; omega
    exact ⟨_, h.lookup_iff_getElem?.mpr ⟨i, rfl, List.getElem?_eq_getElem hi⟩⟩

end Numbered

section Numbering

variable {s : Store} {d root : Ref} {g : Registry} {yes no : Ref} {numbers : List (Int × Int)}
variable {layers : List (List Int)} {v u n m : Int}

theorem Numbering.keys_eq (hnumbers : Numbering s d root numbers) (h : Rooted s d g yes no root)
    (hlayers : s.layers d = .ok layers) (hstacked : s.Stacked root layers) :
    numbers.map (·.1) = layers.flatten := by
  obtain ⟨rest, rfl⟩ : ∃ rest, layers = [falseVariable, trueVariable] :: rest := by
    have hfirst := h.head?_layers hstacked
    cases layers with
    | nil => cases hfirst
    | cons layer rest => exact ⟨rest, by rw [Option.some.inj hfirst]⟩
  have hfold :
      numbers = rest.flatten.foldl Store.enterNumber [(falseVariable, 0), (trueVariable, 1)] := by
    have hrun := hnumbers.eq
    rw [Store.numbering, hlayers] at hrun
    exact (Except.ok.inj hrun).symm
  rw [hfold, Numbered.keys_foldl_enter]
  · rfl
  · exact (Dependencies.nodup_of_inOrder hstacked.inOrder).1

theorem Numbering.lt_of_over (hnumbers : Numbering s d root numbers)
    (hkeys : numbers.map (·.1) = layers.flatten) (hstacked : s.Stacked root layers)
    (hover : s.Over root v u) (hn : numbers.lookup v = some n) (hm : numbers.lookup u = some m) :
    m < n := by
  obtain ⟨i, rfl, hi⟩ := hnumbers.lookup_iff_getElem?.mp hn
  rw [hkeys] at hi
  rcases hstacked.inOrder.earlier hi hover with hdone | ⟨j, hj, hu⟩
  · cases hdone
  · obtain rfl : m = j := by
      have hlookup := hnumbers.lookup_iff_getElem?.mpr ⟨j, rfl, hkeys ▸ hu⟩
      exact Option.some.inj (hm.symm.trans hlookup)
    omega

theorem Numbering.lookup_root (hnumbers : Numbering s d root numbers) (h : Rooted s d g yes no root)
    (hkeys : numbers.map (·.1) = layers.flatten) (hstacked : s.Stacked root layers)
    (hv : s.var? root = some v) : numbers.lookup v = some ((s.testedVariables root).card + 1) := by
  obtain ⟨lower, rfl⟩ := List.getLast?_eq_some_iff.mp (h.charted.getLast?_layers hstacked hv)
  have hconcat : numbers.map (·.1) = lower.flatten ++ [v] := hkeys.trans (by simp)
  have hlength : lower.flatten.length = (s.testedVariables root).card + 1 := by
    have hall := congrArg List.length hconcat
    rw [List.length_map, hnumbers.length_eq h, List.length_append] at hall
    exact (Nat.succ.inj hall).symm
  refine hnumbers.lookup_iff_getElem?.mpr ⟨_, Int.natCast_succ _, ?_⟩
  rw [hconcat, ← hlength, List.getElem?_concat_length]

end Numbering

section Rising

variable {s : Store} {d root : Ref} {g : Registry} {yes no : Ref} {numbers : List (Int × Int)}
variable {v n : Int}

theorem Numbering.getLast?_entries (hnumbers : Numbering s d root numbers)
    (h : Rooted s d g yes no root) :
    (s.entries d numbers).getLast?.map (·.1) = some
      (((s.testedVariables root).card : Int) + 1) := by
  have hlength := hnumbers.length_eq h
  have hlt : (s.testedVariables root).card + 1 < numbers.length := by omega
  have hnumber := hnumbers.number_eq (List.getElem?_eq_getElem hlt)
  rw [Store.entries, List.getLast?_map, List.getLast?_eq_getElem?, hlength,
    Nat.add_sub_assoc (by omega), List.getElem?_eq_getElem hlt]
  exact congrArg some hnumber

theorem Numbering.parse_rootless (hnumbers : Numbering s d root numbers)
    (h : Rooted s d g yes no root) (hv : s.var? root = some v) (htested : v ∈ s.tested root)
    (hn : numbers.lookup v = some (((s.testedVariables root).card : Int) + 1))
    (hvariables : ∀ u ∈ s.tested root, Integer.Short u)
    (hsize : (s.testedVariables root).card + 2 ≤ 10 ^ digitLimit)
    (order : Option (List Document.Item))
    (horder : ∀ items ∈ order, (∀ item ∈ items, item.Plain) ∧
      Document.Rootless (Document.orderHeading ++ (items.map (·.word)).flatMap (' ' :: ·))) :
    ∃ before after, Document.write s d order =
        .ok (before ++ Document.rootText ((s.testedVariables root).card + 1) ++ after) ∧
      before.getLast? = some '\n' ∧ Document.Rootless (before ++ after) ∧
      (∀ file store, Document.parse (Text.encode (before ++ after)) file store = Document.parse
        (Text.encode (before ++ Document.rootText ((s.testedVariables root).card + 1) ++ after))
          file store) ∧
      ((∀ items ∈ order, ∀ item ∈ items, Text.Inline item.word) → ∀ file store, ∃ read store',
        Document.parse (Text.encode (before ++ after)) file store = .ok read store') := by
  have hlength : numbers.length ≤ 10 ^ digitLimit := hnumbers.length_eq h ▸ hsize
  have hmem := hnumbers.lookup_iff.mp hn
  have hshort := hnumbers.short hlength hmem
  have hentries := hnumbers.short_entries h hvariables hlength
  have hdefault := orderWords_default h hnumbers hvariables
  have hdefaultInline : ∀ w ∈ (ascending (s.testedVariables root).toList).map Integer.render,
      Text.Inline w := by
    intro w hw
    obtain ⟨i, -, rfl⟩ := List.mem_map.mp hw
    exact Text.inline_render i
  obtain ⟨ws, hws, hrootless, hwords⟩ :
      ∃ ws, Document.orderWords (order.getD (Document.defaultOrder numbers)) = .ok ws ∧
        Document.Rootless (Document.orderHeading ++ ws.flatMap (' ' :: ·)) ∧
        ((∀ items ∈ order, ∀ item ∈ items, Text.Inline item.word) → ∀ w ∈ ws, Text.Inline w) := by
    cases order with
    | none =>
      exact ⟨_, hdefault, Document.rootless_of_inline hdefaultInline, fun _ => hdefaultInline⟩
    | some items =>
      obtain ⟨hplain, hrootless⟩ := horder items rfl
      refine ⟨_, Document.orderWords_of_plain hplain, hrootless, fun hinline => ?_⟩
      simpa using hinline items rfl
  -- The last node line stands for the root, which is what a document without the line takes.
  have hlast := hnumbers.getLast?_entries h
  have hsame := Document.ofText_topText hrootless numbers.length hentries hlast hshort
  have hwrite := h.write_of_short hnumbers hv hn hws hvariables
  rw [Document.headingText_eq_append] at hwrite
  have hwithout := Document.rootless_topText hrootless numbers.length (s.entries d numbers)
  refine ⟨_, _, hwrite, Document.getLast?_topText _ _, hwithout, fun file store => ?_,
    fun hinline file store => ?_⟩
  · unfold Document.parse
    rw [Document.ofBytes_encode, Document.ofBytes_encode, hsame]
  · have hread :=
      Document.ofText_inline (hwords hinline) numbers.length hshort hnumbers.nodup_entries hentries
    obtain ⟨d', s', -, -, -, -, -, hbuild, -⟩ :=
      Document.build_of_sensible (h.sensible_entries hnumbers htested hmem) store
    rw [Document.headingText_eq_append, ← hsame] at hread
    exact ⟨_, s', Document.parse_encode hread hbuild file⟩

end Rising

/-- The numbers of a validated diagram are a bijection from the terminals and the variables below
the root to the numbers from 0 on. They rise along every branch from its end to its start, and the
highest one is that of the root. So the root line of its document can be left out, under any order
that can be written and does not bring a root line of its own: then there is none, but the same is
parsed, and that is a diagram if the texts of the order have no line ends. The variables and the
numbers of the lines have to be short enough to be read. -/
theorem numbers_rise {s : Store} {d root : Ref} {g : Registry} (past : History (ownCalls d) d s)
    (hg : s.registry? d = some g) (hroot : g.root = some root) :
    ∃ numbers v, s.numbering d = .ok numbers ∧ s.var? root = some v ∧
    numbers.lookup v = some ((s.testedVariables root).card + 1) ∧
    (∀ u, (∃ n, numbers.lookup u = some n) ↔ isReserved u = true ∨ u ∈ s.tested root) ∧
    (∀ u w n, numbers.lookup u = some n → numbers.lookup w = some n → u = w) ∧
    (∀ n, (∃ u, numbers.lookup u = some n) ↔ 0 ≤ n ∧ n ≤ (s.testedVariables root).card + 1) ∧
    (∀ u w n m, s.Over root u w → numbers.lookup u = some n → numbers.lookup w = some m → m < n) ∧
    ((∀ u ∈ s.tested root, u.natAbs < 10 ^ digitLimit) →
      (s.testedVariables root).card + 2 ≤ 10 ^ digitLimit →
      ∀ order : Option (List Document.Item),
        (∀ items ∈ order, (∀ item ∈ items, item.Plain) ∧
          Document.Rootless (Document.orderHeading ++ (items.map (·.word)).flatMap (' ' :: ·))) →
        ∃ before after, Document.write s d order = .ok
          (before ++ Document.rootText ((s.testedVariables root).card + 1) ++ after) ∧
        before.getLast? = some '\n' ∧ Document.Rootless (before ++ after) ∧
        (∀ file store, Document.parse (Text.encode (before ++ after)) file store =
          Document.parse (Text.encode
              (before ++ Document.rootText ((s.testedVariables root).card + 1) ++ after))
            file store) ∧
        ((∀ items ∈ order, ∀ item ∈ items, Text.Inline item.word) → ∀ file store, ∃ read store',
          Document.parse (Text.encode (before ++ after)) file store = .ok read store')) := by
  obtain ⟨yes, no, h⟩ := Rooted.of_history past hg hroot
  obtain ⟨numbers, hnumbers⟩ := h.exists_numbering
  obtain ⟨layers, hlayers, hstacked⟩ :=
    h.charted.exists_stacked (h.wired.isTerminal_of_mem_nodes h.mem_nodes)
  obtain ⟨v, hv, htested⟩ := h.exists_rootVariable
  have hkeys := hnumbers.keys_eq h hlayers hstacked
  have hn := hnumbers.lookup_root h hkeys hstacked hv
  refine ⟨numbers, v, hnumbers.eq, hv, hn, fun u => ?_, fun u w n hu hw => ?_, fun n => ?_,
    fun u w n m => hnumbers.lt_of_over hkeys hstacked, fun hvariables hsize order =>
      hnumbers.parse_rootless h hv htested hn hvariables hsize order⟩
  · rw [← hnumbers.mem, ← isSome_lookup_iff, Option.isSome_iff_exists]
  · exact hnumbers.inj (hnumbers.lookup_iff.mp hu) (hnumbers.lookup_iff.mp hw)
  · have hlength := hnumbers.length_eq h
    rw [hnumbers.exists_lookup_iff]
    omega

theorem numbers_rise_implication : ∃ numbers before after, implication.numbering 0 = .ok numbers ∧
    numbers.lookup 1 = some 3 ∧ (∀ m, numbers.lookup 2 = some m → m < 3) ∧
    Document.write implication 0 none = .ok (before ++ Document.rootText 3 ++ after) ∧
    ∀ file store, ∃ read store', Document.parse (Text.encode (before ++ after)) file store = .ok
      read store' := by
  have hlead : implication.Leads 4 3 := (by decide : 3 ∈ implication.successors 4)
  have hcard : (implication.testedVariables 4).card = 2 := by rw [implication_testedVariables]; rfl
  have hlimit : 4 ≤ 10 ^ digitLimit := by decide +kernel
  have hvariables : ∀ u ∈ implication.tested 4, u.natAbs < 10 ^ digitLimit := by
    intro u hu
    have hcases : u = 1 ∨ u = 2 := by
      rwa [← Store.mem_testedVariables, implication_testedVariables, Finset.mem_insert,
        Finset.mem_singleton] at hu
    rcases hcases with rfl | rfl <;> exact Integer.short_of_small (by decide)
  obtain ⟨numbers, v, hnumbering, hv, htop, -, -, -, hrise, hdocument⟩ :=
    numbers_rise implication_settled.1 implication_registry? rfl
  obtain rfl : v = 1 := Option.some.inj (hv.symm.trans rfl)
  rw [hcard] at htop hdocument
  obtain ⟨before, after, hwrite, -, -, -, hparse⟩ := hdocument hvariables hlimit none nofun
  exact ⟨numbers, before, after, hnumbering, htop, fun m =>
    hrise 1 2 3 m ⟨4, 3, .refl, hlead, rfl, rfl⟩ htop, hwrite, hparse nofun⟩

end DecisionDiagram
