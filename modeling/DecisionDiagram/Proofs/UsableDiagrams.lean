import DecisionDiagram.Proofs.EvaluationSteps
import DecisionDiagram.Proofs.SettledDiagrams
import DecisionDiagram.Proofs.TableInvariant
import DecisionDiagram.Proofs.WrittenDocument
import Mathlib
/-! What a validated diagram can be asked without a fault. Walks go wherever branches lead, but
probabilities and documents look vertices up by variable; so the table has to account for everything
below the root, and it does if no vertex of another diagram was handed over. -/
namespace DecisionDiagram
open Numeral

/-- Something is entered for the variables in `done` and for the reserved ones. -/
structure Entered (done : List Int) (known : List (Int × Rat)) : Prop where
  done : ∀ v ∈ done, (known.lookup v).isSome
  reserved : ∀ v, isReserved v = true → (known.lookup v).isSome

namespace Entered

variable {done : List Int} {known : List (Int × Rat)} {v : Int}

theorem stay (h : Entered done known) (hv : (known.lookup v).isSome) :
    Entered (done ++ [v]) known := by
  refine ⟨fun u hu => ?_, h.reserved⟩
  rcases List.mem_append.mp hu with hu | hu
  · exact h.done u hu
  · exact List.mem_singleton.mp hu ▸ hv

theorem cons (h : Entered done known) (q : Rat) : Entered (done ++ [v]) ((v, q) :: known) := by
  have hlookup : ∀ u, u = v ∨ (known.lookup u).isSome → (((v, q) :: known).lookup u).isSome := by
    intro u hu
    rw [lookup_cons_eq_ite]
    split <;> simp_all
  refine ⟨fun u hu => hlookup u ?_, fun u hu => hlookup u (.inr (h.reserved u hu))⟩
  rcases List.mem_append.mp hu with hu | hu
  · exact .inr (h.done u hu)
  · exact .inl (List.mem_singleton.mp hu)

end Entered

theorem exists_of_mapM {ε α β γ : Type} {f : α → Except ε β} {k : List β → γ} {l : List α}
    (h : ∀ a ∈ l, ∃ b, f a = .ok b) : ∃ c, (do return k (← l.mapM f)) = Except.ok c := by
  have hlist : ∃ bs, l.mapM f = .ok bs := by
    induction l with
    | nil => exact ⟨[], rfl⟩
    | cons a l ih =>
      obtain ⟨⟨b, hb⟩, hrest⟩ := List.forall_mem_cons.mp h
      obtain ⟨bs, hbs⟩ := ih hrest
      exact ⟨b :: bs, by rw [List.mapM_cons, hb, ok_bind, hbs]; rfl⟩
  obtain ⟨bs, hbs⟩ := hlist
  exact ⟨k bs, by rw [hbs]; rfl⟩

namespace Charted

variable {s : Store} {d root r : Ref} {g : Registry} {v : Int} {weights : Weights} {done : List Int}
variable {known : List (Int × Rat)} {numbers : List (Int × Int)}

theorem exists_branchEntry (h : Charted s d g root) (hr : s.Reaches root r) (hv : s.var? r = some v)
    (hfree : isReserved v = false) (hover : ∀ u, s.Over root v u → (known.lookup u).isSome)
    (side : Bool) : ∃ q, s.branchEntry d known v side = .ok q := by
  have hterm : s.isTerminal r = false := (h.isReserved_eq hr hv).symm.trans hfree
  have hvertex := h.vertexOf?_of_find? (h.find?_of_var? hr hv hfree) hfree
  obtain ⟨w, hi, lo, -, -, hbody⟩ := h.exists_body hr hterm
  have hbranch := Store.branch_of_body hbody side
  have hlead := Store.leads_of_body hbody side
  obtain ⟨u, hu, -⟩ := h.exists_var (hr.tail hlead)
  obtain ⟨q, hq⟩ := Option.isSome_iff_exists.mp (hover u ⟨r, _, hr, hlead, hv, hu⟩)
  refine ⟨q, ?_⟩
  unfold Store.branchEntry Store.branchVariable
  rw [hvertex, Option.bind_some, hbranch, Option.bind_some, hu, ok_bind, hq]
  rfl

theorem enterProbability_cases (h : Charted s d g root) (weights : Weights)
    (hentered : Entered done known) (hr : s.Reaches root r) (hv : s.var? r = some v)
    (hover : ∀ u, s.Over root v u → u ∈ done) :
    (∃ known', s.enterProbability d weights known v = .ok known' ∧ Entered (done ++ [v]) known') ∨
      ∃ e, s.enterProbability d weights known v = .error e ∧
      ∃ u ∈ s.tested root, (weights.of u).exact = .error e := by
  cases hknown : (known.lookup v).isSome with
  | true => exact .inl ⟨known, Store.enterProbability_of_known hknown, hentered.stay hknown⟩
  | false =>
    have hfree : isReserved v = false := by
      rw [Bool.eq_false_iff]
      intro hreserved
      simp [hentered.reserved v hreserved] at hknown
    have hbelow := h.exists_branchEntry hr hv hfree fun u hu => hentered.done u (hover u hu)
    have hterm : s.isTerminal r = false := (h.isReserved_eq hr hv).symm.trans hfree
    cases hw : (weights.of v).exact with
    | error e =>
      refine .inr ⟨e, ?_, v, ⟨r, hr, (h.tests_iff hr).mpr ⟨hterm, hv⟩⟩, hw⟩
      rw [Store.enterProbability, hknown, if_neg Bool.false_ne_true, hw]
      rfl
    | ok w =>
      obtain ⟨hi, hhi⟩ := hbelow true
      obtain ⟨lo, hlo⟩ := hbelow false
      exact .inl ⟨_, Store.enterProbability_of_new hknown hw hhi hlo, hentered.cons _⟩

theorem probability_cases (h : Charted s d g root) (hroot : s.isTerminal root = false)
    (weights : Weights) : (∃ q, s.probability d weights = .ok q) ∨
      ∃ e, s.probability d weights = .error e ∧
      ∃ v ∈ s.tested root, (weights.of v).exact = .error e := by
  obtain ⟨layers, hlayers, horder, hmem⟩ := h.exists_layers hroot
  have hterminals : Entered [] [(trueVariable, 1), (falseVariable, 0)] := by
    refine ⟨by simp, fun v hv => ?_⟩
    rw [isReserved, Bool.or_eq_true, beq_iff_eq, beq_iff_eq] at hv
    rcases hv with rfl | rfl <;> rfl
  rcases Dependencies.foldlM_cases_of_inOrder (fun done known v hv hentered hover =>
      ((hmem v).mp hv).elim fun r hr => h.enterProbability_cases weights hentered hr.1 hr.2 hover)
      horder hterminals with ⟨known, hrun, hentered⟩ | ⟨e, hrun, hraised⟩
  · obtain ⟨v, hv, -⟩ := h.exists_var .refl
    obtain ⟨q, hq⟩ := Option.isSome_iff_exists.mp (hentered.done v ((hmem v).mpr ⟨root, .refl, hv⟩))
    exact .inl ⟨q, Store.foldLayers_eq hlayers hrun h.validatedRoot hv hq⟩
  · refine .inr ⟨e, ?_, hraised⟩
    rw [Store.probability, Store.foldLayers, hlayers, ok_bind, hrun]
    rfl

theorem exists_probability (h : Charted s d g root) (hroot : s.isTerminal root = false)
    (hweights : ∀ v ∈ s.tested root, ∃ w, (weights.of v).exact = .ok w) :
    ∃ q, s.probability d weights = .ok q := by
  rcases h.probability_cases hroot weights with hq | ⟨e, -, v, hv, he⟩
  · exact hq
  · obtain ⟨w, hw⟩ := hweights v hv
    cases he.symm.trans hw

theorem exists_modelCount (h : Charted s d g root) (hroot : s.isTerminal root = false) :
    ∃ n, s.modelCount d = .ok n := by
  obtain ⟨layers, hlayers, -⟩ := h.exists_layers hroot
  have hhalf : ∀ v ∈ s.tested root, ∃ w, (Weights.of [] v).exact = .ok w := fun v _ => ⟨1 / 2, rfl⟩
  obtain ⟨q, hq⟩ := h.exists_probability hroot hhalf
  exact ⟨_, by unfold Store.modelCount; rw [hlayers, ok_bind, hq]; rfl⟩

theorem exists_lookupNumber (h : Charted s d g root) (hcovers : s.Covers root numbers)
    (hr : s.Reaches root r ∨ s.Reserved r) :
    ∃ v n, s.var? r = some v ∧ Document.lookupNumber numbers v = .ok n := by
  have hlookup : ∀ v ∈ numbers.map (·.1), ∃ n, Document.lookupNumber numbers v = .ok n := by
    intro v hv
    obtain ⟨e, he, rfl⟩ := List.mem_map.mp hv
    obtain ⟨n, hn⟩ :=
      Option.isSome_iff_exists.mp (List.lookup_isSome_iff.mpr ⟨e, he, beq_self_eq_true e.1⟩)
    exact ⟨n, by rw [Document.lookupNumber, hn]⟩
  rcases hr with hr | hr
  · obtain ⟨v, hv, -⟩ := h.exists_var hr
    obtain ⟨n, hn⟩ := hlookup v ((hcovers v).mpr (.inr ⟨r, hr, hv⟩))
    exact ⟨v, n, hv, hn⟩
  · obtain ⟨v, hv, hreserved⟩ := hr.exists_var
    obtain ⟨n, hn⟩ := hlookup v ((hcovers v).mpr (.inl hreserved))
    exact ⟨v, n, hv, hn⟩

theorem exists_childNumber (h : Charted s d g root) (hcovers : s.Covers root numbers)
    (hr : s.Reaches root r) (hterm : s.isTerminal r = false) (side : Bool) :
    ∃ n, Document.childNumber s numbers side r = .ok n := by
  obtain ⟨v, hi, lo, -, -, hbody⟩ := h.exists_body hr hterm
  obtain ⟨u, n, hu, hn⟩ :=
    h.exists_lookupNumber hcovers (.inl (hr.tail (Store.leads_of_body hbody side)))
  refine ⟨n, ?_⟩
  rw [Document.childNumber, Store.branch_of_body hbody side, Option.bind_some, hu]
  exact hn

theorem exists_lineText (h : Charted s d g root) (hcovers : s.Covers root numbers)
    (hshort : ∀ v ∈ s.tested root, Integer.Short v) (hr : s.Reaches root r ∨ s.Reserved r) :
    ∃ text, Document.lineText s numbers r = .ok text := by
  obtain ⟨v, n, hv, hn⟩ := h.exists_lookupNumber hcovers hr
  unfold Document.lineText
  rw [Store.requireVariable_of_var? hv, ok_bind, hn, ok_bind]
  cases hvalue : s.terminalValue? r with
  | some value => exact ⟨_, rfl⟩
  | none =>
    have hterm :
      s.isTerminal r = false := by rw [Store.isTerminal_eq_isSome, hvalue, Option.isSome_none]
    have hreach : s.Reaches root r :=
      hr.resolve_right fun hreserved => by simp [hreserved.isTerminal] at hterm
    obtain ⟨lo, hlo⟩ := h.exists_childNumber hcovers hreach hterm false
    obtain ⟨hi, hhi⟩ := h.exists_childNumber hcovers hreach hterm true
    have hwritten :=
      Integer.written_of_short (hshort v ⟨r, hreach, (h.tests_iff hreach).mpr ⟨hterm, hv⟩⟩)
    exact ⟨Document.testText n (Integer.render v) lo
      hi, by rw [hlo, ok_bind, hhi, ok_bind, hwritten]; rfl⟩

theorem exists_numbered (h : Charted s d g root)
    (hsides : ∀ side, ∃ q, s.branch side d = some q ∧ (s.Reaches root q ∨ s.Reserved q))
    (hv : isReserved v = true ∨ ∃ r, s.Reaches root r ∧ s.var? r = some v) :
    ∃ r, s.vertexOf? d v = some r ∧ (s.Reaches root r ∨ s.Reserved r) := by
  by_cases hreserved : isReserved v = true
  · have hside : ∃ side, s.vertexOf? d v = s.branch side d := by
      rw [isReserved, Bool.or_eq_true, beq_iff_eq, beq_iff_eq] at hreserved
      rcases hreserved with rfl | rfl
      · exact ⟨true, rfl⟩
      · exact ⟨false, rfl⟩
    obtain ⟨side, hside⟩ := hside
    rw [hside]
    exact hsides side
  · obtain ⟨r, hr, hrv⟩ := hv.resolve_left hreserved
    rw [Bool.not_eq_true] at hreserved
    exact ⟨r, h.vertexOf?_of_find? (h.find?_of_var? hr hrv hreserved) hreserved, .inl hr⟩

theorem mem_tested_of_mem_defaultOrder (h : Charted s d g root) (hcovers : s.Covers root numbers)
    {item : Document.Item} (hitem : item ∈ Document.defaultOrder numbers) :
    ∃ v ∈ s.tested root, item = .number v := by
  obtain ⟨v, hv, rfl⟩ := List.mem_map.mp hitem
  obtain ⟨hkey, hfree⟩ := List.mem_filter.mp (mem_ascending.mp hv)
  rw [Bool.not_eq_true'] at hfree
  obtain ⟨r, hr, hvar⟩ := ((hcovers v).mp hkey).resolve_left (by simp [hfree])
  have hterm : s.isTerminal r = false := (h.isReserved_eq hr hvar).symm.trans hfree
  exact ⟨v, ⟨r, hr, (h.tests_iff hr).mpr ⟨hterm, hvar⟩⟩, rfl⟩

theorem exists_write (h : Charted s d g root) (hroot : s.isTerminal root = false)
    (hsides : ∀ side, ∃ q, s.branch side d = some q ∧ (s.Reaches root q ∨ s.Reserved q))
    (hshort : ∀ v ∈ s.tested root, Integer.Short v) {order : Option (List Document.Item)}
    (horder : ∀ items ∈ order, ∀ item ∈ items, item.Plain) :
    ∃ text, Document.write s d order = .ok text := by
  obtain ⟨numbers, -, hnumbering, hcovers⟩ := h.exists_numbers hroot
  obtain ⟨v, n, hv, hn⟩ := h.exists_lookupNumber hcovers (.inl .refl)
  have hplain : ∀ item ∈ order.getD (Document.defaultOrder numbers), item.Plain := by
    cases order with
    | some items => exact horder items rfl
    | none =>
      intro item hitem
      obtain ⟨u, hu, rfl⟩ := h.mem_tested_of_mem_defaultOrder hcovers hitem
      exact hshort u hu
  unfold Document.write
  rw [hnumbering, ok_bind, Document.orderWords_of_plain hplain, ok_bind, h.validatedRoot, ok_bind,
    Store.requireVariable_of_var? hv, ok_bind, hn, ok_bind]
  refine exists_of_mapM fun e he => ?_
  obtain ⟨r, hr, hplace⟩ := h.exists_numbered hsides ((hcovers e.1).mp (List.mem_map_of_mem he))
  simp only [hr]
  exact h.exists_lineText hcovers hshort hplace

end Charted

/-- Evaluations of all variables and comparisons with itself never fail. -/
def Store.Answers (s : Store) (d : Ref) : Prop :=
  (∀ σ, ∃ b, s.evaluate d (total σ) = .ok b) ∧ ∀ op, ∃ b, s.combine op d d = .ok b

theorem Store.Passable.answers {s : Store} {d root : Ref} (h : s.Passable root)
    (hroot : s.validatedRoot d = .ok root) : s.Answers d := by
  refine ⟨h.exists_evaluate hroot, fun op => ?_⟩
  obtain ⟨w, x, y, z, -, -, -, -, hcombine⟩ := Store.combine_eq_of_passable hroot hroot h h op
  exact ⟨_, hcombine⟩

theorem Tabled.charted {s : Store} {d root : Ref} {g : Registry} (h : Tabled s d g)
    (hroot : g.root = some root) (hground : s.Grounded root)
    (hbelow : ∀ q, s.Reaches root q → q ∈ g.nodes ∨ s.Reserved q) : Charted s d g root where
  registry? := h.registry?
  found := hroot
  grounded := hground
  charts := by
    intro q hq
    refine (hbelow q hq).imp_left fun hnode => ?_
    obtain ⟨v, hv⟩ := (Registry.mem_nodes_iff h.ascending).mp hnode
    obtain ⟨hfree, hi, lo, hbody⟩ := h.body_of_find? hv
    exact ⟨v, hi, lo, hv, hfree, hbody⟩

/-- What a diagram can be asked once it is validated, whatever was handed to its methods before.
Evaluations and comparisons with itself need two branches of every node below the root. Layers,
counts and probabilities need the table to account for everything below the root, and a document
needs a line for each of the two branches of the diagram too, and variables and an order that can be
shown. Both is so if no vertex of another diagram was handed over. -/
theorem validate_usable {s s' : Store} {d r : Ref} (past : History anyEdit d s)
    (hrun : Diagram.validate d s = .ok r s') : ∃ g, s'.registry? d = some g ∧ g.root = some r ∧
      ((∀ q, s'.Reaches r q → s'.isTerminal q = false →
        ∃ v hi lo, s'.body? q = some (decisionBody v hi lo)) →
        s'.Answers d) ∧
      ((∀ q, s'.Reaches r q → q ∈ g.nodes ∨ s'.Reserved q) →
        s'.Answers d ∧ (∃ layers, s'.layers d = .ok layers) ∧ (∃ n, s'.modelCount d = .ok n) ∧
        (∀ weights : Weights, (∀ v ∈ s'.tested r, ∃ w, (weights.of v).exact = .ok w) →
          ∃ q, s'.probability d weights = .ok q) ∧
        ((∀ side q, s'.branch side d = some q → s'.Reaches r q ∨ s'.Reserved q) →
          (∀ v ∈ s'.tested r, Integer.Short v) → ∀ order : Option (List Document.Item),
          (∀ items ∈ order, ∀ item ∈ items, item.Plain) →
          ∃ text, Document.write s' d order = .ok text)) ∧
      (History (ownEdit d) d s → (∀ q, s'.Reaches r q → q ∈ g.nodes ∨ s'.Reserved q) ∧
        ∀ side q, s'.branch side d = some q → s'.Reserved q) := by
  obtain ⟨g, h, hopen⟩ := Tabled.of_history past
  obtain ⟨hfind, rfl⟩ := h.validate_eq_ok hopen hrun
  obtain ⟨hr, hground⟩ := grounded_of_findRoot hfind
  have h' := h.setRoot r
  have hground' : (s.updateRegistry d (·.setRoot r)).Grounded r := by
    rwa [Store.Grounded, Store.leads_updateRegistry]
  have hroot := h'.validatedRoot rfl
  obtain ⟨v, hv⟩ := (Registry.mem_nodes_iff h'.ascending).mp hr
  have hterm := h'.isTerminal_of_find? hv
  refine ⟨g.setRoot r, h'.registry?, rfl, fun hpasses => ?_, fun hbelow => ?_, fun hown => ?_⟩
  · exact Store.Passable.answers ⟨hground', hpasses⟩ hroot
  · have hcharted := h'.charted rfl hground' hbelow
    obtain ⟨layers, hlayers, -⟩ := hcharted.exists_layers hterm
    refine ⟨hcharted.passable.answers hroot, ⟨layers, hlayers⟩, hcharted.exists_modelCount hterm,
      fun weights => hcharted.exists_probability hterm, fun hsides hshort order horder =>
        hcharted.exists_write hterm (fun side => ?_) hshort horder⟩
    obtain ⟨q, hq⟩ := Option.isSome_iff_exists.mp (h'.sides side)
    exact ⟨q, hq, hsides side q hq⟩
  · -- Where nothing was borrowed the diagram is sound, and its root reaches its own vertices only.
    obtain ⟨g', yes, no, hsound⟩ := Sound.of_history (hown.mono fun _ _ hc => hc.2)
    obtain rfl := Option.some.inj (hsound.wired.registry?.symm.trans h.registry?)
    have hrooted : Rooted _ d _ yes no r := (hsound.of_effect (.rooted hfind)).rooted rfl
    refine ⟨fun q hq => ?_, fun side q hq => ?_⟩
    · rcases hrooted.reaches_member hq with rfl | rfl | hnode
      · exact .inr hrooted.wired.reserved_yes
      · exact .inr hrooted.wired.reserved_no
      · exact .inl hnode
    · cases side with
      | true =>
        exact Option.some.inj (hrooted.wired.branch_true.symm.trans hq) ▸ hrooted.wired.reserved_yes
      | false =>
        exact Option.some.inj (hrooted.wired.branch_false.symm.trans hq) ▸ hrooted.wired.reserved_no

/-- Beside a diagram with a single node another one, whose node for the variable 1 leads to a vertex
of the first. -/
def borrowing (r : Ref) : Store :=
  (Edit.after Diagram.create loneNode).afterCalls 4 [.addNode 1 .nothing .nothing,
    .setEdge (.variable 1) (.vertex r) (.flag true)]

theorem borrowing_history (r : Ref) : History anyEdit 4 (borrowing r) :=
  History.afterCalls ⟨loneNode, _, rfl, .refl⟩ (by simp [anyEdit, Call.Edits])

theorem validate_usable_borrowedTerminal : History anyEdit 4 (borrowing 1) ∧ ∃ s',
    Diagram.validate 4 (borrowing 1) = .ok 7 s' ∧ s'.Answers 4 ∧ (∃ n, s'.modelCount 4 = .ok n) ∧
      ∃ text, Document.write s' 4 none = .ok text := by
  have hrun : Diagram.validate 4 (borrowing 1) = .ok 7
    ((borrowing 1).updateRegistry 4 (·.setRoot 7)) := by cbv
  generalize hs' : (borrowing 1).updateRegistry 4 (·.setRoot 7) = s' at hrun
  obtain ⟨g, hg, -, -, htabled, -⟩ := validate_usable (borrowing_history 1) hrun
  obtain rfl : g = { table := [(1, 7)], root := some 7 } := by
    rw [← hs'] at hg
    exact (Option.some.inj hg).symm
  have hclosed : ∀ r ∈ [1, 6, 7], ∀ q ∈ s'.successors r, q ∈ [1, 6, 7] := by rw [← hs']; decide
  have hreserved : s'.Reserved 1 ∧ s'.Reserved 5 ∧ s'.Reserved 6 := by
    rw [← hs']
    exact ⟨⟨trueVariable, true, rfl, rfl⟩, ⟨trueVariable, true, rfl, rfl⟩,
      ⟨falseVariable, false, rfl, rfl⟩⟩
  obtain ⟨htrue, hyes, hno⟩ := hreserved
  have hbelow : ∀ q, s'.Reaches 7 q → q ∈ [7] ∨ s'.Reserved q := by
    intro q hq
    have hmem := Store.mem_of_reaches hclosed (by decide) hq
    simp only [List.mem_cons, List.not_mem_nil, or_false] at hmem
    rcases hmem with rfl | rfl | rfl
    · exact .inr htrue
    · exact .inr hno
    · exact .inl (by decide)
  have hsides : s'.branch true 4 = some 5 ∧ s'.branch false 4 = some 6 := by rw [← hs']; decide
  obtain ⟨hanswers, -, hcount, -, hwrite⟩ := htabled hbelow
  have hshort : ∀ v ∈ s'.tested 7, Integer.Short v := by
    rintro v ⟨q, hq, htests⟩
    have hvar : s'.var? q = some v := by
      rw [Store.Tests] at htests
      rw [Store.var?_eq_kind, htests]
      rfl
    rcases hbelow q hq with hnode | hreserved
    · obtain rfl := List.mem_singleton.mp hnode
      have hseven : s'.var? 7 = some 1 := by rw [← hs']; rfl
      obtain rfl := Option.some.inj (hseven.symm.trans hvar)
      exact Integer.short_of_small (by decide)
    · obtain ⟨w, hw, hfixed⟩ := hreserved.exists_var
      obtain rfl := Option.some.inj (hw.symm.trans hvar)
      rw [isReserved, Bool.or_eq_true, beq_iff_eq, beq_iff_eq] at hfixed
      rcases hfixed with rfl | rfl <;> exact Integer.short_of_small (by decide)
  refine ⟨borrowing_history 1, s', hrun, hanswers, hcount,
    hwrite (fun side q hq => .inr ?_) hshort none (by simp)⟩
  cases side with
  | true => exact Option.some.inj (hsides.1.symm.trans hq) ▸ hyes
  | false => exact Option.some.inj (hsides.2.symm.trans hq) ▸ hno

/-- With a node of the other diagram below its root, the diagram is validated, but its models are
not counted: it holds no node for the variable 5. -/
theorem validate_unusable_borrowedNode : History anyEdit 4 (borrowing 3) ∧ ∃ s',
    Diagram.validate 4 (borrowing 3) = .ok 7 s' ∧ s'.modelCount 4 = .error .notOffered := by
  refine ⟨borrowing_history 3, (borrowing 3).updateRegistry 4 (·.setRoot 7), ?_, ?_⟩
  · cbv
  · cbv

end DecisionDiagram
