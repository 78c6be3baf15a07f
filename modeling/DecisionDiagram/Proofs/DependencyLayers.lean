import DecisionDiagram.Layers
import DecisionDiagram.Proofs.RelationCycles
import Mathlib.Data.List.Sort
/-! Layers come in order: an item stands behind everything that it depends on. There are layers for
all items unless some of them wait for each other. -/
namespace DecisionDiagram
open Relation

theorem ascending_congr {l l' : List Int} (h : ∀ v, v ∈ l ↔ v ∈ l') : ascending l = ascending l' :=
  (pairwise_ascending l).eq_of_mem_iff (pairwise_ascending l') fun v => by
    rw [mem_ascending, mem_ascending, h]

namespace Dependencies

variable {deps deps' rest : Dependencies} {R : Int → Int → Prop} {done order items : List Int}
variable {v u : Int}

def keys (deps : Dependencies) : List Int := deps.map (·.1)

def Needs (deps : Dependencies) (v u : Int) : Prop := u ≠ v ∧ ∃ needs, (v, needs) ∈ deps ∧ u ∈ needs

/-- Each item is new, and what it depends on has been done before it. -/
def InOrder (R : Int → Int → Prop) : List Int → List Int → Prop
  | _, [] => True
  | done, v :: rest => v ∉ done ∧ (∀ u, R v u → u ∈ done) ∧ InOrder R (done ++ [v]) rest

/-- What is left to be done: `rest` holds the items that are not in `done`, with what they wait for.
-/
structure Pending (R : Int → Int → Prop) (done : List Int) (rest : Dependencies) : Prop where
  nodup : rest.keys.Nodup
  fresh : ∀ v ∈ rest.keys, v ∉ done
  waits : ∀ v u, v ∈ rest.keys → R v u → u ∈ done ∨ ∃ needs, (v, needs) ∈ rest ∧ u ∈ needs
  needed : ∀ v needs, (v, needs) ∈ rest → ∀ u ∈ needs, R v u ∧ u ∈ rest.keys

theorem mem_keys : v ∈ deps.keys ↔ ∃ needs, (v, needs) ∈ deps := by
  simp [keys]

theorem entry_eq (h : deps.keys.Nodup) {needs needs' : List Int} (hv : (v, needs) ∈ deps)
    (hv' : (v, needs') ∈ deps) : needs = needs' :=
  congrArg Prod.snd (List.inj_on_of_nodup_map h hv hv' rfl)

theorem mem_free : v ∈ deps.free ↔ (v, []) ∈ deps := by
  simp only [free, List.mem_map, List.mem_filter, List.isEmpty_iff]
  constructor
  · rintro ⟨⟨w, needs⟩, ⟨he, rfl⟩, rfl⟩
    exact he
  · intro hv
    exact ⟨(v, []), ⟨hv, rfl⟩, rfl⟩

theorem mem_withoutFree {needs : List Int} : (v, needs) ∈ deps.withoutFree ↔
    ∃ before, (v, before) ∈ deps ∧ before ≠ [] ∧ needs = before.filter (· ∉ deps.free) := by
  simp only [withoutFree, List.mem_map, List.mem_filter]
  constructor
  · rintro ⟨⟨w, before⟩, ⟨he, hne⟩, heq⟩
    obtain ⟨rfl, rfl⟩ := Prod.ext_iff.mp heq
    refine ⟨before, he, by simpa using hne, ?_⟩
    simp
  · rintro ⟨before, he, hne, rfl⟩
    refine ⟨(v, before), ⟨he, by simpa using hne⟩, ?_⟩
    simp

theorem mem_keys_withoutFree (h : deps.keys.Nodup) :
    v ∈ deps.withoutFree.keys ↔ v ∈ deps.keys ∧ v ∉ deps.free := by
  rw [mem_keys, mem_keys, mem_free]
  constructor
  · rintro ⟨needs, hneeds⟩
    obtain ⟨before, he, hne, -⟩ := mem_withoutFree.mp hneeds
    exact ⟨⟨before, he⟩, fun hnil => hne (entry_eq h he hnil)⟩
  · rintro ⟨⟨before, he⟩, hnone⟩
    refine ⟨_, mem_withoutFree.mpr ⟨before, he, ?_, rfl⟩⟩
    rintro rfl
    exact hnone he

theorem nodup_withoutFree (h : deps.keys.Nodup) : deps.withoutFree.keys.Nodup := by
  have hsub : deps.withoutFree.keys.Sublist deps.keys := by
    unfold keys withoutFree
    rw [List.map_map]
    exact List.filter_sublist.map _
  exact h.sublist hsub

theorem inOrder_append : InOrder R done (order ++ items) ↔
    InOrder R done order ∧ InOrder R (done ++ order) items := by
  induction order generalizing done with
  | nil => simp [InOrder]
  | cons v order ih => simp [InOrder, ih, and_assoc]

theorem inOrder_of_free (hnodup : items.Nodup) (hfresh : ∀ v ∈ items, v ∉ done)
    (hfree : ∀ v ∈ items, ∀ u, R v u → u ∈ done) : InOrder R done items := by
  induction items generalizing done with
  | nil => trivial
  | cons v items ih =>
    obtain ⟨hv, hrest⟩ := List.nodup_cons.mp hnodup
    refine ⟨hfresh v List.mem_cons_self, hfree v List.mem_cons_self, ih hrest ?_ ?_⟩
    · intro w hw hdone
      rcases List.mem_append.mp hdone with hdone | hdone
      · exact hfresh w (List.mem_cons_of_mem _ hw) hdone
      · exact hv (List.mem_singleton.mp hdone ▸ hw)
    · intro w hw u hwu
      exact List.mem_append_left _ (hfree w (List.mem_cons_of_mem _ hw) u hwu)

theorem peel_of_stuck (h : deps.free = []) : deps.peel = ([], deps) := by
  rw [peel, dif_pos h]

theorem peel_of_free (h : deps.free ≠ []) :
    deps.peel = (ascending deps.free :: deps.withoutFree.peel.1, deps.withoutFree.peel.2) := by
  rw [peel, dif_neg h]

namespace Pending

theorem inOrder_free (h : Pending R done rest) : InOrder R done (ascending rest.free) := by
  have hkey : ∀ v ∈ ascending rest.free, (v, []) ∈ rest :=
    fun v hv => mem_free.mp (mem_ascending.mp hv)
  refine inOrder_of_free ((pairwise_ascending _).imp fun hlt => Int.ne_of_lt hlt) ?_ ?_
  · exact fun v hv => h.fresh v (mem_keys.mpr ⟨[], hkey v hv⟩)
  · intro v hv u hvu
    rcases h.waits v u (mem_keys.mpr ⟨[], hkey v hv⟩) hvu with hdone | ⟨needs, hneeds, hu⟩
    · exact hdone
    · rw [entry_eq h.nodup hneeds (hkey v hv)] at hu
      simp at hu

theorem step (h : Pending R done rest) :
    Pending R (done ++ ascending rest.free) rest.withoutFree where
  nodup := nodup_withoutFree h.nodup
  fresh := by
    intro v hv hdone
    obtain ⟨hkey, hnot⟩ := (mem_keys_withoutFree h.nodup).mp hv
    rcases List.mem_append.mp hdone with hdone | hdone
    · exact h.fresh v hkey hdone
    · exact hnot (mem_ascending.mp hdone)
  waits := by
    intro v u hv hvu
    obtain ⟨hkey, hnot⟩ := (mem_keys_withoutFree h.nodup).mp hv
    rcases h.waits v u hkey hvu with hdone | ⟨needs, hneeds, hu⟩
    · exact .inl (List.mem_append_left _ hdone)
    · by_cases hfree : u ∈ rest.free
      · exact .inl (List.mem_append_right _ (mem_ascending.mpr hfree))
      · refine .inr ⟨_, mem_withoutFree.mpr ⟨needs, hneeds, List.ne_nil_of_mem hu, rfl⟩, ?_⟩
        simp [hu, hfree]
  needed := by
    intro v needs hneeds u hu
    obtain ⟨before, he, -, rfl⟩ := mem_withoutFree.mp hneeds
    simp only [List.mem_filter, decide_eq_true_eq] at hu
    obtain ⟨hvu, hkey⟩ := h.needed v before he u hu.1
    exact ⟨hvu, (mem_keys_withoutFree h.nodup).mpr ⟨hkey, hu.2⟩⟩

theorem peel (h : Pending R done rest) : InOrder R done rest.peel.1.flatten ∧
    Pending R (done ++ rest.peel.1.flatten) rest.peel.2 ∧ rest.peel.2.free = [] ∧
    ∀ v, v ∈ rest.peel.1.flatten ∨ v ∈ rest.peel.2.keys ↔ v ∈ rest.keys := by
  induction rest using Dependencies.peel.induct generalizing done with
  | case1 rest hnone =>
    rw [peel_of_stuck hnone]
    simp [InOrder, h, hnone]
  | case2 rest hsome layers left hpeel ih =>
    obtain ⟨horder, hleft, hfree, hmem⟩ := ih h.step
    rw [peel_of_free hsome]
    simp only [List.flatten_cons, inOrder_append, ← List.append_assoc]
    refine ⟨⟨h.inOrder_free, horder⟩, hleft, hfree, fun v => ?_⟩
    rw [List.mem_append, or_assoc, hmem v, mem_keys_withoutFree h.nodup, mem_ascending]
    constructor
    · rintro (hv | hv)
      · exact mem_keys.mpr ⟨[], mem_free.mp hv⟩
      · exact hv.1
    · intro hv
      by_cases hfree : v ∈ rest.free
      · exact .inl hfree
      · exact .inr ⟨hv, hfree⟩

theorem exists_loop (h : Pending R done rest) (hnone : rest.free = []) (hsome : rest ≠ []) :
    ∃ v, TransGen R v v := by
  have hnext : ∀ v ∈ {v | v ∈ rest.keys}, ∃ u ∈ {v | v ∈ rest.keys}, R v u := by
    intro v hv
    obtain ⟨needs, hneeds⟩ := mem_keys.mp hv
    cases needs with
    | nil =>
      have hfree := mem_free.mpr hneeds
      simp [hnone] at hfree
    | cons u needs =>
      obtain ⟨hvu, hu⟩ := h.needed v _ hneeds u List.mem_cons_self
      exact ⟨u, hu, hvu⟩
  obtain ⟨⟨v, needs⟩, hv⟩ := List.exists_mem_of_ne_nil _ hsome
  obtain ⟨w, -, hloop⟩ := Cycle.exists_transGen_self (List.finite_toSet rest.keys)
    ⟨v, mem_keys.mpr ⟨needs, hv⟩⟩ hnext
  exact ⟨w, hloop⟩

end Pending

theorem acc_of_inOrder (h : InOrder R done order) (hdone : ∀ v ∈ done, Acc (Function.swap R) v) :
    ∀ v ∈ order, Acc (Function.swap R) v := by
  induction order generalizing done with
  | nil => simp
  | cons v order ih =>
    obtain ⟨-, hneeds, hrest⟩ := h
    have hv : Acc (Function.swap R) v := .intro v fun u hvu => hdone u (hneeds u hvu)
    have hall : ∀ w ∈ done ++ [v], Acc (Function.swap R) w := by
      intro w hw
      rcases List.mem_append.mp hw with hw | hw
      · exact hdone w hw
      · exact List.mem_singleton.mp hw ▸ hv
    intro w hw
    rcases List.mem_cons.mp hw with rfl | hw
    · exact hv
    · exact ih hrest hall w hw

theorem nodup_of_inOrder (h : InOrder R done order) : order.Nodup ∧ ∀ v ∈ order, v ∉ done := by
  induction order generalizing done with
  | nil => simp
  | cons v order ih =>
    obtain ⟨hv, -, hrest⟩ := h
    obtain ⟨hnodup, hnew⟩ := ih hrest
    refine ⟨List.nodup_cons.mpr ⟨fun hmem => hnew v hmem (by simp), hnodup⟩, fun w hw => ?_⟩
    rcases List.mem_cons.mp hw with rfl | hw
    · exact hv
    · exact fun hdone => hnew w hw (List.mem_append_left _ hdone)

/-- A run in order keeps what is kept by steps that rely on all that an item depends on, or it is
ended by one of these steps. -/
theorem foldlM_cases_of_inOrder {ε α : Type} {f : α → Int → Except ε α} {kept : List Int → α → Prop}
    {raised : ε → Prop}
    (hstep : ∀ done a v, v ∈ order → kept done a → (∀ u, R v u → u ∈ done) →
      (∃ b, f a v = .ok b ∧ kept (done ++ [v]) b) ∨ ∃ e, f a v = .error e ∧ raised e)
    (h : InOrder R done order) {a : α} (ha : kept done a) :
    (∃ b, order.foldlM f a = .ok b ∧ kept (done ++ order) b) ∨
      ∃ e, order.foldlM f a = .error e ∧ raised e := by
  induction order generalizing done a with
  | nil => exact .inl ⟨a, rfl, by rwa [List.append_nil]⟩
  | cons v order ih =>
    obtain ⟨-, hneeds, hrest⟩ := h
    rw [List.foldlM_cons]
    rcases hstep done a v List.mem_cons_self ha hneeds with ⟨b, hb, hkept⟩ | ⟨e, he, hraised⟩
    · rw [hb]
      have hlater := ih (fun done a u hu => hstep done a u (List.mem_cons_of_mem _ hu)) hrest hkept
      rwa [List.append_assoc, List.singleton_append] at hlater
    · rw [he]
      exact .inr ⟨e, rfl, hraised⟩

theorem exists_foldlM_of_inOrder {ε α : Type} {f : α → Int → Except ε α}
    {kept : List Int → α → Prop}
    (hstep : ∀ done a v, v ∈ order → kept done a → (∀ u, R v u → u ∈ done) → ∃ b, f a v = .ok b ∧
      kept (done ++ [v]) b)
    (h : InOrder R done order) {a : α} (ha : kept done a) :
    ∃ b, order.foldlM f a = .ok b ∧ kept (done ++ order) b := by
  have hnever : ∀ done a v, v ∈ order → kept done a → (∀ u, R v u → u ∈ done) →
      (∃ b, f a v = .ok b ∧ kept (done ++ [v]) b) ∨ ∃ e, f a v = .error e ∧ False :=
    fun done a v hv hkept hneeds => .inl (hstep done a v hv hkept hneeds)
  rcases foldlM_cases_of_inOrder hnever h ha with hkept | ⟨e, -, hfalse⟩
  · exact hkept
  · exact hfalse.elim

def own (deps : Dependencies) : Dependencies := deps.map fun e => (e.1, e.2.filter (· ≠ e.1))

def others (deps : Dependencies) : List Int :=
  ascending ((deps.own.flatMap (·.2)).filter (!deps.own.keys.contains ·))

theorem complete_eq : deps.complete = deps.own ++ deps.others.map (·, []) := rfl

theorem keys_own : deps.own.keys = deps.keys := by
  unfold keys own
  rw [List.map_map]
  rfl

theorem keys_complete : deps.complete.keys = deps.keys ++ deps.others := by
  rw [complete_eq, keys, List.map_append, ← keys, keys_own, List.map_map]
  congr 1
  exact List.map_id _

theorem mem_own {needs : List Int} : (v, needs) ∈ deps.own ↔
    ∃ before, (v, before) ∈ deps ∧ needs = before.filter (· ≠ v) := by
  unfold own
  rw [List.mem_map]
  constructor
  · rintro ⟨⟨w, before⟩, he, heq⟩
    obtain ⟨rfl, rfl⟩ := Prod.ext_iff.mp heq
    exact ⟨before, he, rfl⟩
  · rintro ⟨before, he, rfl⟩
    exact ⟨(v, before), he, rfl⟩

theorem needs_iff_own : deps.Needs v u ↔ ∃ needs, (v, needs) ∈ deps.own ∧ u ∈ needs := by
  constructor
  · rintro ⟨hne, before, he, hu⟩
    exact ⟨_, mem_own.mpr ⟨before, he, rfl⟩, by simp [hu, hne]⟩
  · rintro ⟨needs, hneeds, hu⟩
    obtain ⟨before, he, rfl⟩ := mem_own.mp hneeds
    simp only [List.mem_filter, decide_eq_true_eq] at hu
    exact ⟨hu.2, before, he, hu.1⟩

theorem mem_others : v ∈ deps.others ↔ v ∉ deps.keys ∧ ∃ w, deps.Needs w v := by
  simp only [others, mem_ascending, List.mem_filter, List.mem_flatMap, Prod.exists,
    needs_iff_own, keys_own, Bool.not_eq_true', List.contains_eq_mem, decide_eq_false_iff_not]
  exact and_comm

theorem pending_complete (h : deps.keys.Nodup) : Pending deps.Needs [] deps.complete where
  nodup := by
    rw [keys_complete]
    refine List.nodup_append.mpr ⟨h, (pairwise_ascending _).imp fun hlt => Int.ne_of_lt hlt, ?_⟩
    rintro v hv u hu rfl
    exact (mem_others.mp hu).1 hv
  fresh := by simp
  waits := by
    intro v u _ hvu
    obtain ⟨needs, hneeds, hu⟩ := needs_iff_own.mp hvu
    exact .inr ⟨needs, List.mem_append_left _ hneeds, hu⟩
  needed := by
    intro v needs hneeds u hu
    rw [complete_eq, List.mem_append] at hneeds
    rcases hneeds with hneeds | hneeds
    · have hvu := needs_iff_own.mpr ⟨needs, hneeds, hu⟩
      refine ⟨hvu, ?_⟩
      rw [keys_complete, List.mem_append]
      by_cases hkey : u ∈ deps.keys
      · exact .inl hkey
      · exact .inr (mem_others.mpr ⟨hkey, v, hvu⟩)
    · obtain ⟨_, -, heq⟩ := List.mem_map.mp hneeds
      obtain ⟨rfl, rfl⟩ := Prod.ext_iff.mp heq
      simp at hu

theorem layers?_eq_some_iff {layers : List (List Int)} :
    deps.layers? = some layers ↔ deps.complete.peel = (layers, []) := by
  unfold layers?
  rcases deps.complete.peel with ⟨found, _ | ⟨e, left⟩⟩ <;> simp

theorem inOrder_of_layers? (h : deps.keys.Nodup) {layers : List (List Int)}
    (hlayers : deps.layers? = some layers) : InOrder deps.Needs [] layers.flatten ∧
      ∀ v, v ∈ layers.flatten ↔ v ∈ deps.keys ∨ ∃ w, deps.Needs w v := by
  obtain ⟨horder, -, -, hmem⟩ := (pending_complete h).peel
  rw [layers?_eq_some_iff.mp hlayers] at horder hmem
  refine ⟨horder, fun v => ?_⟩
  have hv := hmem v
  rw [keys_complete, List.mem_append, mem_others] at hv
  simp only [keys, List.map_nil, List.not_mem_nil, or_false] at hv
  rw [hv]
  by_cases hkey : v ∈ deps.map (·.1)
  · simp [keys, hkey]
  · simp [keys, hkey]

/-- There are layers unless some items wait for each other. -/
theorem exists_layers (h : deps.keys.Nodup) (hnone : ¬ ∃ v, TransGen deps.Needs v v) :
    ∃ layers, deps.layers? = some layers := by
  obtain ⟨-, hleft, hfree, -⟩ := (pending_complete h).peel
  refine ⟨deps.complete.peel.1, layers?_eq_some_iff.mpr (Prod.ext rfl ?_)⟩
  by_contra hsome
  exact hnone (hleft.exists_loop hfree hsome)

theorem perm_free (h : deps.Perm deps') : deps.free.Perm deps'.free :=
  (h.filter _).map _

theorem perm_withoutFree (h : deps.Perm deps') : deps.withoutFree.Perm deps'.withoutFree := by
  have hsame : ∀ v, deps.free.contains v = deps'.free.contains v := by
    intro v
    simp only [List.contains_eq_mem, (perm_free h).mem_iff]
  unfold withoutFree
  simp only [hsame]
  exact (h.filter _).map _

theorem perm_peel (h : deps.Perm deps') :
    deps.peel.1 = deps'.peel.1 ∧ deps.peel.2.Perm deps'.peel.2 := by
  induction deps using Dependencies.peel.induct generalizing deps' with
  | case1 deps hnone =>
    have hnone' : deps'.free = [] := List.perm_nil.mp (hnone ▸ (perm_free h).symm)
    rw [peel_of_stuck hnone, peel_of_stuck hnone']
    exact ⟨rfl, h⟩
  | case2 deps hsome layers left hpeel ih =>
    have hsome' : deps'.free ≠ [] := fun hnone => hsome (List.perm_nil.mp (hnone ▸ perm_free h))
    obtain ⟨hlayers, hleft⟩ := ih (perm_withoutFree h)
    rw [peel_of_free hsome, peel_of_free hsome']
    exact ⟨congrArg₂ _ (ascending_congr fun v => (perm_free h).mem_iff) hlayers, hleft⟩

theorem perm_complete (h : deps.Perm deps') : deps.complete.Perm deps'.complete := by
  have hown : deps.own.Perm deps'.own := h.map _
  have hkeys : ∀ v, v ∈ deps.own.keys ↔ v ∈ deps'.own.keys := fun v => (hown.map _).mem_iff
  have hothers : deps.others = deps'.others := by
    refine ascending_congr fun v => ?_
    simp only [List.mem_filter, List.contains_eq_mem, hkeys, (hown.flatMap_right _).mem_iff]
  rw [complete_eq, complete_eq, hothers]
  exact hown.append_right _

theorem layers?_congr (h : deps.Perm deps') : deps.layers? = deps'.layers? := by
  obtain ⟨hlayers, hleft⟩ := perm_peel (perm_complete h)
  refine Option.ext fun layers => ?_
  rw [layers?_eq_some_iff, layers?_eq_some_iff, Prod.ext_iff, Prod.ext_iff, hlayers]
  refine and_congr_right fun _ => ?_
  rw [← List.perm_nil, ← List.perm_nil]
  exact ⟨hleft.symm.trans, hleft.trans⟩

end Dependencies

end DecisionDiagram
