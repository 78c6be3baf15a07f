import DecisionDiagram.Proofs.BranchVariables
import DecisionDiagram.Proofs.SettledDiagrams
import Mathlib.Data.List.GetD
import Mathlib.Order.Bounds.Basic
/-! Layers are heights. A layer holds the variables whose longest way down to a terminal has as many
branches as there are layers before it; so the terminals come first, and the root stands alone in
the end. -/
namespace DecisionDiagram
open Relation

namespace Dependencies

variable {rest : Dependencies} {R : Int → Int → Prop} {done : List Int} {layers : List (List Int)}
variable {v u : Int} {i : Nat}

/-- The items of a layer wait for nothing but what is done before, and each item of the next layer
waits for one of them. -/
def Tight (R : Int → Int → Prop) : List Int → List (List Int) → Prop
  | _, [] => True
  | done, layer :: layers => (∀ v ∈ layer, ∀ u, R v u → u ∈ done) ∧
      (∀ v ∈ layers.headD [], ∃ u ∈ layer, R v u) ∧ Tight R (done ++ layer) layers

theorem Tight.earlier (h : Tight R done layers) (hv : v ∈ layers.getD i []) (hvu : R v u) :
    u ∈ done ∨ ∃ j < i, u ∈ layers.getD j [] := by
  induction layers generalizing done i with
  | nil => simp at hv
  | cons layer layers ih =>
    obtain ⟨hfirst, -, hrest⟩ := h
    cases i with
    | zero => exact .inl (hfirst v hv u hvu)
    | succ i =>
      rcases ih hrest hv with hdone | ⟨j, hj, hu⟩
      · rcases List.mem_append.mp hdone with hdone | hlayer
        · exact .inl hdone
        · exact .inr ⟨0, i.succ_pos, hlayer⟩
      · exact .inr ⟨j + 1, Nat.succ_lt_succ hj, hu⟩

theorem Tight.previous (h : Tight R done layers) (hv : v ∈ layers.getD (i + 1) []) :
    ∃ u ∈ layers.getD i [], R v u := by
  induction layers generalizing done i with
  | nil => simp at hv
  | cons layer layers ih =>
    obtain ⟨-, hnext, hrest⟩ := h
    cases i with
    | zero =>
      cases layers with
      | nil => cases hv
      | cons next layers => exact hnext v hv
    | succ i => exact ih hrest hv

theorem Pending.mem_done_of_free (h : Pending R done rest) (hv : v ∈ rest.free) (hvu : R v u) :
    u ∈ done := by
  have hkey := mem_free.mp hv
  rcases h.waits v u (mem_keys.mpr ⟨[], hkey⟩) hvu with hdone | ⟨needs, hneeds, hu⟩
  · exact hdone
  · rw [entry_eq h.nodup hneeds hkey] at hu
    cases hu

theorem Pending.exists_needed (h : Pending R done rest) (hv : v ∈ rest.withoutFree.free) :
    ∃ u ∈ rest.free, R v u := by
  obtain ⟨before, hbefore, hne, hnone⟩ := mem_withoutFree.mp (mem_free.mp hv)
  obtain ⟨u, hu⟩ := List.exists_mem_of_ne_nil before hne
  refine ⟨u, ?_, (h.needed v before hbefore u hu).1⟩
  simpa using List.filter_eq_nil_iff.mp hnone.symm u hu

theorem Pending.tight (h : Pending R done rest) : Tight R done rest.peel.1 := by
  induction rest using Dependencies.peel.induct generalizing done with
  | case1 rest hnone =>
    rw [peel_of_stuck hnone]
    trivial
  | case2 rest hsome layers left hpeel ih =>
    rw [peel_of_free hsome]
    refine ⟨fun v hv u hvu => h.mem_done_of_free (mem_ascending.mp hv) hvu, fun v hv => ?_,
      ih h.step⟩
    by_cases hnext : rest.withoutFree.free = []
    · simp [peel_of_stuck hnext] at hv
    · rw [peel_of_free hnext, List.headD_cons, mem_ascending] at hv
      obtain ⟨u, hu, hvu⟩ := h.exists_needed hv
      exact ⟨u, mem_ascending.mpr hu, hvu⟩

theorem solid_of_mem_peel (rest : Dependencies) :
    ∀ layer ∈ rest.peel.1, layer ≠ [] ∧ layer.Pairwise (· < ·) := by
  induction rest using Dependencies.peel.induct with
  | case1 rest hnone => simp [peel_of_stuck hnone]
  | case2 rest hsome layers left hpeel ih =>
    rw [peel_of_free hsome]
    refine List.forall_mem_cons.mpr ⟨⟨fun hnil => hsome ?_, pairwise_ascending _⟩, ih⟩
    exact List.eq_nil_iff_forall_not_mem.mpr fun v hv => by simpa [hnil] using mem_ascending.mpr hv

theorem mem_flatten_iff : v ∈ layers.flatten ↔ ∃ i, v ∈ layers.getD i [] := by
  rw [List.mem_flatten]
  constructor
  · rintro ⟨layer, hlayer, hv⟩
    obtain ⟨i, hi, rfl⟩ := List.mem_iff_getElem.mp hlayer
    exact ⟨i, by rwa [List.getD_eq_getElem _ _ hi]⟩
  · rintro ⟨i, hv⟩
    by_cases hi : i < layers.length
    · exact ⟨_, List.getElem_mem hi, by rwa [List.getD_eq_getElem _ _ hi] at hv⟩
    · rw [List.getD_eq_default _ _ (Nat.le_of_not_lt hi)] at hv
      cases hv

end Dependencies

namespace Store

variable {s : Store} {r q t root : Ref} {n i j : Nat}

inductive Descends (s : Store) : Nat → Ref → Ref → Prop
  | refl {r : Ref} : Descends s 0 r r
  | head {n : Nat} {r q t : Ref} (hlead : s.Leads r q) (hrest : Descends s n q t) :
      Descends s (n + 1) r t

/-- The longest way down from `r` to a terminal has `i` branches. -/
def Height (s : Store) (r : Ref) (i : Nat) : Prop :=
  IsGreatest {n | ∃ t, s.isTerminal t = true ∧ s.Descends n r t} i

theorem Descends.of_reaches (hrq : s.Reaches r q) (hdown : s.Descends n q t) :
    ∃ m, n ≤ m ∧ s.Descends m r t := by
  induction hrq using ReflTransGen.head_induction_on with
  | refl => exact ⟨n, Nat.le_refl n, hdown⟩
  | head hlead _ ih =>
    obtain ⟨m, hm, hrest⟩ := ih
    exact ⟨m + 1, Nat.le_succ_of_le hm, .head hlead hrest⟩

theorem Height.unique (h : s.Height r i) (h' : s.Height r j) : i = j := IsGreatest.unique h h'

theorem Height.lt_of_reaches (h : s.Height r i) (h' : s.Height q j) (hrq : s.Reaches r q) :
    r = q ∨ j < i := by
  rcases ReflTransGen.cases_head hrq with heq | ⟨c, hlead, hcq⟩
  · exact .inl heq
  · obtain ⟨t, ht, hdown⟩ := h'.1
    obtain ⟨m, hm, hlong⟩ := hdown.of_reaches hcq
    exact .inr (Nat.lt_of_lt_of_le (Nat.lt_succ_of_le hm) (h.2 ⟨t, ht, .head hlead hlong⟩))

theorem height_zero_iff : s.Height r 0 ↔ s.isTerminal r = true := by
  constructor
  · rintro ⟨⟨t, ht, hdown⟩, -⟩
    cases hdown
    exact ht
  · intro hterm
    refine ⟨⟨r, hterm, .refl⟩, ?_⟩
    rintro n ⟨t, -, hdown⟩
    cases hdown with
    | refl => exact Nat.le_refl 0
    | head hlead => simp [isTerminal_of_leads hlead] at hterm

structure Stacked (s : Store) (root : Ref) (layers : List (List Int)) : Prop where
  tight : Dependencies.Tight (s.Over root) [] layers
  inOrder : Dependencies.InOrder (s.Over root) [] layers.flatten
  solid : ∀ layer ∈ layers, layer ≠ [] ∧ layer.Pairwise (· < ·)
  mem : ∀ v, v ∈ layers.flatten ↔ ∃ r, s.Reaches root r ∧ s.var? r = some v

end Store

namespace Charted

variable {s : Store} {d root r : Ref} {g : Registry} {layers : List (List Int)} {v u : Int}
variable {i : Nat}

theorem exists_stacked (h : Charted s d g root) (hroot : s.isTerminal root = false) :
    ∃ layers, s.layers d = .ok layers ∧ s.Stacked root layers := by
  obtain ⟨layers, hlayers, horder, hmem⟩ := h.exists_layers hroot
  have hpeel : (s.edgeList root).complete.peel = (layers, []) := by
    rw [← Dependencies.layers?_eq_some_iff]
    unfold Store.layers at hlayers
    rw [h.edges_eq, ok_bind] at hlayers
    split at hlayers
    · rename_i found hfound
      exact hfound.trans (congrArg some (Except.ok.inj hlayers))
    · cases hlayers
  have htight := (Dependencies.pending_complete h.nodup_edges).tight
  have hsolid := Dependencies.solid_of_mem_peel (s.edgeList root).complete
  have hover : (s.edgeList root).Needs = s.Over root := by
    funext v u
    exact propext h.needs_iff
  rw [hpeel, hover] at htight
  rw [hpeel] at hsolid
  exact ⟨layers, hlayers, htight, horder, hsolid, hmem⟩

theorem height_of_mem (h : Charted s d g root) (hlayers : s.Stacked root layers)
    (hr : s.Reaches root r) (hv : s.var? r = some v) (hi : v ∈ layers.getD i []) :
    s.Height r i := by
  induction i using Nat.strongRecOn generalizing r v with
  | ind i ih =>
    have hbelow : ∀ q, s.Leads r q → ∃ j < i, s.Height q j := by
      intro q hlead
      obtain ⟨u, hu, -⟩ := h.exists_var (hr.tail hlead)
      rcases hlayers.tight.earlier hi ⟨r, q, hr, hlead, hv, hu⟩ with hdone | ⟨j, hj, hu'⟩
      · cases hdone
      · exact ⟨j, hj, ih j hj (hr.tail hlead) hu hu'⟩
    -- The layer just before gives a walk of length `i`, all the layers before that none is longer.
    constructor
    · cases i with
      | zero =>
        refine ⟨r, ?_, .refl⟩
        cases hterm : s.isTerminal r with
        | true => rfl
        | false =>
          obtain ⟨w, hi, lo, -, -, hbody⟩ := h.exists_body hr hterm
          obtain ⟨j, hj, -⟩ := hbelow _ (Store.leads_of_body hbody true)
          cases hj
      | succ i =>
        obtain ⟨u, hu, r', q, hr', hlead, hv', hq⟩ := hlayers.tight.previous hi
        obtain rfl := h.eq_of_var? hr' hr hv' hv (Store.isTerminal_of_leads hlead)
        obtain ⟨⟨t, ht, hdown⟩, -⟩ := ih i i.lt_succ_self (hr.tail hlead) hq hu
        exact ⟨t, ht, .head hlead hdown⟩
    · rintro n ⟨t, ht, hdown⟩
      cases hdown with
      | refl => exact Nat.zero_le i
      | head hlead hrest =>
        obtain ⟨j, hj, hheight⟩ := hbelow _ hlead
        exact Nat.lt_of_le_of_lt (hheight.2 ⟨t, ht, hrest⟩) hj

theorem mem_layer_iff (h : Charted s d g root) (hlayers : s.Stacked root layers) :
    v ∈ layers.getD i [] ↔ ∃ r, s.Reaches root r ∧ s.var? r = some v ∧ s.Height r i := by
  constructor
  · intro hi
    obtain ⟨r, hr, hv⟩ := (hlayers.mem v).mp (Dependencies.mem_flatten_iff.mpr ⟨i, hi⟩)
    exact ⟨r, hr, hv, h.height_of_mem hlayers hr hv hi⟩
  · rintro ⟨r, hr, hv, hheight⟩
    obtain ⟨j, hj⟩ := Dependencies.mem_flatten_iff.mp ((hlayers.mem v).mpr ⟨r, hr, hv⟩)
    rwa [hheight.unique (h.height_of_mem hlayers hr hv hj)]

theorem getLast?_layers (h : Charted s d g root) (hlayers : s.Stacked root layers)
    (hv : s.var? root = some v) : layers.getLast? = some [v] := by
  obtain ⟨i, hi⟩ := Dependencies.mem_flatten_iff.mp ((hlayers.mem v).mpr ⟨root, .refl, hv⟩)
  have hroot : s.Height root i := h.height_of_mem hlayers .refl hv hi
  have hne : layers ≠ [] := by
    rintro rfl
    cases hi
  obtain ⟨hsome, hascending⟩ := hlayers.solid _ (List.getLast_mem hne)
  have hmem : ∀ w ∈ layers.getLast hne, w = v := by
    intro w hw
    rw [List.getLast_eq_getElem, ← List.getD_eq_getElem _ []] at hw
    obtain ⟨r, hr, hwr, hheight⟩ := (h.mem_layer_iff hlayers).mp hw
    rcases hroot.lt_of_reaches hheight hr with rfl | hlt
    · exact Option.some.inj (hwr.symm.trans hv)
    · rw [List.getD_eq_default _ _ (by omega)] at hi
      cases hi
  obtain ⟨w, hw⟩ := List.exists_mem_of_ne_nil _ hsome
  rw [List.getLast?_eq_some_getLast hne]
  refine congrArg some (hascending.eq_of_mem_iff (List.pairwise_singleton _ v) fun u => ?_)
  rw [List.mem_singleton]
  exact ⟨hmem u, fun hu => hu ▸ hmem w hw ▸ hw⟩

end Charted

namespace Rooted

variable {s : Store} {d : Ref} {g : Registry} {yes no root r : Ref} {layers : List (List Int)}
variable {v : Int}

theorem reaches_terminals (h : Rooted s d g yes no root) (hr : s.Reaches root r)
    (hterm : s.isTerminal r = false) : s.Reaches r yes ∧ s.Reaches r no := by
  have hground := h.grounded.of_reaches hr
  induction hground with
  | intro r _ ih =>
    obtain ⟨v, hi, lo, -, hbody, hne, hhi, hlo⟩ :=
      h.wired.exists_body ((h.wired.mem_nodes_iff_of_member (h.reaches_member hr)).mpr hterm)
    have hlead := Store.leads_of_body hbody
    have hnode : ∀ side : Bool, s.isTerminal (if side then hi else lo) = false → s.Reaches r yes ∧
        s.Reaches r no := by
      intro side hside
      obtain ⟨hyes, hno⟩ := ih _ (hlead side) (hr.tail (hlead side)) hside
      exact ⟨.head (hlead side) hyes, .head (hlead side) hno⟩
    cases hhiTerm : s.isTerminal hi with
    | false => exact hnode true hhiTerm
    | true =>
      cases hloTerm : s.isTerminal lo with
      | false => exact hnode false hloTerm
      | true =>
        rcases h.wired.terminal_cases hhi hhiTerm with rfl | rfl
        · obtain rfl := (h.wired.terminal_cases hlo hloTerm).resolve_left (Ne.symm hne)
          exact ⟨.single (hlead true), .single (hlead false)⟩
        · obtain rfl := (h.wired.terminal_cases hlo hloTerm).resolve_right (Ne.symm hne)
          exact ⟨.single (hlead false), .single (hlead true)⟩

theorem head?_layers (h : Rooted s d g yes no root) (hlayers : s.Stacked root layers) :
    layers.head? = some [falseVariable, trueVariable] := by
  obtain ⟨hyes, hno⟩ := h.reaches_terminals .refl (h.wired.isTerminal_of_mem_nodes h.mem_nodes)
  have hmem : ∀ v, v ∈ layers.getD 0 [] ↔ v ∈ [falseVariable, trueVariable] := by
    intro v
    rw [h.charted.mem_layer_iff hlayers]
    simp only [Store.height_zero_iff, List.mem_cons, List.not_mem_nil, or_false]
    constructor
    · rintro ⟨r, hr, hv, hterm⟩
      rcases h.var?_cases hr hv with ⟨rfl, -⟩ | ⟨rfl, -⟩ | ⟨-, hfind⟩
      · exact .inr rfl
      · exact .inl rfl
      · simp [h.wired.isTerminal_of_mem_nodes (h.wired.mem_nodes hfind)] at hterm
    · rintro (rfl | rfl)
      · exact ⟨no, hno, h.wired.var?_no, h.wired.isTerminal_no⟩
      · exact ⟨yes, hyes, h.wired.var?_yes, h.wired.isTerminal_yes⟩
  cases layers with
  | nil => simpa using (hmem trueVariable).mpr (by simp)
  | cons layer layers =>
    obtain ⟨-, hascending⟩ := hlayers.solid layer List.mem_cons_self
    exact congrArg some (hascending.eq_of_mem_iff (by decide) hmem)

end Rooted

/-- The layers of a validated diagram are the heights of what lies below its root: each holds the
variables whose longest way down to a terminal has as many branches as there are layers before it.
The first layer is that of the two terminals, which are always reached, and the last one that of the
root alone. Each variable stands in one layer, once, and every branch leads to an earlier layer. -/
theorem layers_heights {s : Store} {d root : Ref} {g : Registry} (past : History (ownCalls d) d s)
    (hg : s.registry? d = some g) (hroot : g.root = some root) :
    ∃ layers v, s.layers d = .ok layers ∧ s.var? root = some v ∧
    (∀ layer ∈ layers, layer ≠ []) ∧ layers.flatten.Nodup ∧
    (∀ u, u ∈ layers.flatten ↔ ∃ r, s.Reaches root r ∧ s.var? r = some u) ∧
    (∀ i u, u ∈ layers.getD i [] ↔ ∃ r, s.Reaches root r ∧ s.var? r = some u ∧ s.Height r i) ∧
    layers.head? = some [falseVariable, trueVariable] ∧ layers.getLast? = some [v] ∧
    ∀ i u w, u ∈ layers.getD i [] → s.Over root u w → ∃ j < i, w ∈ layers.getD j [] := by
  obtain ⟨yes, no, h⟩ := Rooted.of_history past hg hroot
  obtain ⟨layers, hlayers, hstacked⟩ :=
    h.charted.exists_stacked (h.wired.isTerminal_of_mem_nodes h.mem_nodes)
  obtain ⟨v, hv⟩ := h.wired.exists_var h.member
  refine ⟨layers, v, hlayers, hv, fun layer hlayer => (hstacked.solid layer hlayer).1,
    (Dependencies.nodup_of_inOrder hstacked.inOrder).1, hstacked.mem, fun i u =>
      h.charted.mem_layer_iff hstacked,
    h.head?_layers hstacked, h.charted.getLast?_layers hstacked hv, fun i u w hu hover => ?_⟩
  rcases hstacked.tight.earlier hu hover with hdone | hearlier
  · cases hdone
  · exact hearlier

theorem layers_heights_implication : ∃ layers, implication.layers 0 = .ok layers ∧
    layers.head? = some [falseVariable, trueVariable] ∧ layers.getLast? = some [1] ∧
    ∀ i, 1 ∈ layers.getD i [] → ∃ j < i, 2 ∈ layers.getD j [] := by
  obtain ⟨layers, v, hlayers, hv, -, -, -, -, hfirst, hlast, hbelow⟩ :=
    layers_heights implication_settled.1 (g := { table := [(1, 4), (2, 3)], root := some 4 }) rfl
      rfl
  obtain rfl : v = 1 := Option.some.inj (hv.symm.trans rfl)
  have hover : implication.Over 4 1 2 :=
    ⟨4, 3, .refl, (by decide : 3 ∈ implication.successors 4), rfl, rfl⟩
  exact ⟨layers, hlayers, hfirst, hlast, fun i hi => hbelow i 1 2 hi hover⟩

end DecisionDiagram
