import DecisionDiagram.Proofs.BuildLines
import DecisionDiagram.Proofs.DiagramLayers
import DecisionDiagram.Proofs.ValidateDecides
/-! A diagram is built from node lines if and only if the lines below the root line make sense. Its
root then is the node of the root line, and it evaluates to what a walk over the lines comes to. -/
namespace DecisionDiagram

namespace Document
open Relation

/-- A walk over the lines, along the children that an assignment selects. -/
inductive Walk (lines : Lines) (assignment : Assignment) : Int → Except Fault Bool → Prop
  | constant {id : Int} {value : Bool} (rule : lines.lookup id = some (.constant value)) :
    Walk lines assignment id (.ok value)
  | test {id v lo hi : Int} {side : Bool} {outcome : Except Fault Bool}
    (rule : lines.lookup id = some (.test v lo hi)) (value : assignment v = some side)
    (rest : Walk lines assignment (if side then hi else lo) outcome) :
      Walk lines assignment id outcome
  | missing {id v lo hi : Int} (rule : lines.lookup id = some (.test v lo hi))
      (value : assignment v = none) :
    Walk lines assignment id (.error (.missingVariable v))

theorem Walk.unique {lines : Lines} {assignment : Assignment} {id : Int} {x y : Except Fault Bool}
    (hx : Walk lines assignment id x) (hy : Walk lines assignment id y) : x = y := by
  induction hx with
  | constant rule =>
    cases hy with
    | constant rule' =>
      exact congrArg _ (Rule.constant.inj (Option.some.inj (rule.symm.trans rule')))
    | test rule' => simp [rule] at rule'
    | missing rule' => simp [rule] at rule'
  | test rule value _ ih =>
    cases hy with
    | constant rule' => simp [rule] at rule'
    | test rule' value' rest' =>
      obtain ⟨rfl, rfl, rfl⟩ := Rule.test.inj (Option.some.inj (rule.symm.trans rule'))
      obtain rfl := Option.some.inj (value.symm.trans value')
      exact ih rest'
    | missing rule' value' =>
      obtain ⟨rfl, rfl, rfl⟩ := Rule.test.inj (Option.some.inj (rule.symm.trans rule'))
      simp [value] at value'
  | missing rule value =>
    cases hy with
    | constant rule' => simp [rule] at rule'
    | test rule' value' =>
      obtain ⟨rfl, rfl, rfl⟩ := Rule.test.inj (Option.some.inj (rule.symm.trans rule'))
      simp [value] at value'
    | missing rule' =>
      obtain ⟨rfl, rfl, rfl⟩ := Rule.test.inj (Option.some.inj (rule.symm.trans rule'))
      rfl

section Order

variable {lines : Lines} {root : Int} {ids done order : List Int} {id v lo hi : Int}

theorem Sensible.fitsAll (h : Sensible lines root) (hids : ∀ x, Below lines root x → x ∈ ids)
    (hbelow : ∀ x ∈ done ++ order, Below lines root x)
    (horder : Dependencies.InOrder (fun a b => b ≠ a ∧ a ∈ ids ∧ Child lines a b) done order) :
    FitsAll lines done order := by
  induction order generalizing done with
  | nil => trivial
  | cons id order ih =>
    obtain ⟨hnew, hneeds, hrest⟩ := horder
    refine ⟨fun v lo hi hrule => ?_, ih (by simpa using hbelow) hrest⟩
    have hid : Below lines root id := hbelow id (by simp)
    have hchild : ∀ c, Child lines id c → c ∈ done := by
      intro c hc
      refine hneeds c ⟨?_, hids id hid, hc⟩
      rintro rfl
      exact h.acyclic c hid (.single hc)
    obtain ⟨hne, hdiffer⟩ := h.branches id v lo hi hid hrule
    refine ⟨h.unreserved id v lo hi hid hrule, ?_, ?_, ?_, hne, hdiffer⟩
    · intro a ha lo' hi' hrule'
      have ha' : Below lines root a := hbelow a (List.mem_append_left _ ha)
      exact hnew (h.distinct a id v lo' hi' lo hi ha' hid hrule' hrule ▸ ha)
    · exact hchild hi ((child_of_test hrule).mpr (.inr rfl))
    · exact hchild lo ((child_of_test hrule).mpr (.inl rfl))

theorem fits_of_fitsAll (h : FitsAll lines done order) (hid : id ∈ order)
    (hrule : lines.lookup id = some (.test v lo hi)) : ∃ before, Fits lines before v lo hi := by
  induction order generalizing done with
  | nil => simp at hid
  | cons a order ih =>
    rcases List.mem_cons.mp hid with rfl | hid
    · exact ⟨done, h.1 v lo hi hrule⟩
    · exact ih h.2 hid

theorem inOrder_of_fitsAll (h : FitsAll lines done order) (hnodup : (done ++ order).Nodup) :
    Dependencies.InOrder (Child lines) done order := by
  induction order generalizing done with
  | nil => trivial
  | cons id order ih =>
    have hnew : id ∉ done :=
      fun hid => (List.nodup_append.mp hnodup).2.2 id hid id List.mem_cons_self rfl
    refine ⟨hnew, fun c hc => ?_, ih h.2 (by simpa using hnodup)⟩
    obtain ⟨v, lo, hi, hrule, rfl | rfl⟩ := child_iff.mp hc
    · exact (h.1 v c hi hrule).loDone
    · exact (h.1 v lo c hrule).hiDone

end Order

/-- A validated diagram that the lines below the root line describe: `built` tells which vertex a
line stands for. -/
structure Stands (lines : Lines) (root : Int) (s : Store) (d : Ref) (g : Registry) (yes no r : Ref)
    (built : List (Int × Ref)) : Prop where
  rooted : Rooted s d g yes no r
  top : built.lookup root = some r
  keys : ∀ id, (built.lookup id).isSome ↔ Below lines root id
  defined : ∀ id, Below lines root id → (lines.lookup id).isSome
  constant : ∀ {id q value}, built.lookup id = some q → lines.lookup id = some (.constant value) →
    q = if value then yes else no
  test : ∀ {id q v lo hi}, built.lookup id = some q → lines.lookup id = some (.test v lo hi) →
    g.find? v = some q ∧ ∃ hiRef loRef, built.lookup hi = some hiRef ∧
      built.lookup lo = some loRef ∧
      s.body? q = some (decisionBody v hiRef loRef)
  table : ∀ {v q}, g.find? v = some q → ∃ id lo hi, built.lookup id = some q ∧
    lines.lookup id = some (.test v lo hi)

namespace Laid

variable {lines : Lines} {root : Int} {s : Store} {d : Ref} {g : Registry} {yes no r q : Ref}
variable {done : List Int} {built : List (Int × Ref)} {id : Int}

theorem leads_iff (h : Laid lines s d g yes no done built) (hid : built.lookup id = some r) :
    s.Leads r q ↔ ∃ c, Child lines id c ∧ built.lookup c = some q := by
  have hw := h.isOpen.wired
  obtain ⟨rule, hrule⟩ := Option.isSome_iff_exists.mp (h.defined id (h.mem_done hid))
  cases rule with
  | constant value =>
    have hterm : s.isTerminal r = true := by
      obtain rfl := h.constant hid hrule
      cases value
      · exact hw.isTerminal_no
      · exact hw.isTerminal_yes
    constructor
    · intro hlead
      simp [Store.isTerminal_of_leads hlead] at hterm
    · rintro ⟨c, hc, -⟩
      obtain ⟨_, _, _, hrule', -⟩ := child_iff.mp hc
      simp [hrule] at hrule'
  | test v lo hi =>
    obtain ⟨hv, hiRef, loRef, hhi, hlo, hbody⟩ := h.test hid hrule
    have hlead : s.Leads r q ↔ q = hiRef ∨ q = loRef := by
      rw [Store.Leads, Store.successors_of_body hbody, List.mem_pair]
    rw [hlead]
    constructor
    · rintro (rfl | rfl)
      · exact ⟨hi, (child_of_test hrule).mpr (.inr rfl), hhi⟩
      · exact ⟨lo, (child_of_test hrule).mpr (.inl rfl), hlo⟩
    · rintro ⟨c, hc, hq⟩
      rcases (child_of_test hrule).mp hc with rfl | rfl
      · exact .inr (Option.some.inj (hq.symm.trans hlo))
      · exact .inl (Option.some.inj (hq.symm.trans hhi))

theorem grounded (h : Laid lines s d g yes no done built)
    (hacc : Acc (Function.swap (Child lines)) id) (hid : built.lookup id = some r) :
    s.Grounded r := by
  induction hacc generalizing r with
  | intro id _ ih =>
    refine .intro r fun q hq => ?_
    obtain ⟨c, hc, hcq⟩ := (h.leads_iff hid).mp hq
    exact ih c hc hcq

theorem exists_line (h : Laid lines s d g yes no done built) (hr : r ∈ g.nodes) :
    ∃ id ∈ done, built.lookup id = some r := by
  obtain ⟨v, hv⟩ := (Registry.mem_nodes_iff h.isOpen.wired.ascending).mp hr
  obtain ⟨id, _, _, hid, -⟩ := h.table hv
  exact ⟨id, h.mem_done hid, hid⟩

theorem eq_of_mem_topNodes (h : Laid lines s d g yes no done built)
    (hall : ∀ x, x ∈ done ↔ Below lines root x)
    (hacc : ∀ x ∈ done, Acc (Function.swap (Child lines)) x) (hroot : built.lookup root = some r)
    (hq : q ∈ s.topNodes g) : q = r := by
  have hw := h.isOpen.wired
  obtain ⟨hnode, htop⟩ := hq
  obtain ⟨a, hdone, ha⟩ := h.exists_line hnode
  rcases ReflTransGen.cases_tail ((hall a).mp hdone) with rfl | ⟨p, hp, hpa⟩
  · exact Option.some.inj (ha.symm.trans hroot)
  · exfalso
    obtain ⟨pRef, hpRef⟩ := h.exists_ref ((hall p).mpr hp)
    have hlead : s.Leads pRef q := (h.leads_iff hpRef).mpr ⟨a, hpa, ha⟩
    have hpNode : pRef ∈ g.nodes :=
      (hw.mem_nodes_iff_of_member (h.member hpRef)).mpr (Store.isTerminal_of_leads hlead)
    have hground := h.grounded (hacc p ((hall p).mpr hp)) hpRef
    have hne : pRef ≠ q := by
      rintro rfl
      exact hground.not_reaches_back hlead .refl
    rw [hw.leads_iff hpNode, htop pRef hpNode hne] at hlead
    cases hlead

/-- The node of the root line is a top node: a node above it would close a loop of lines. -/
theorem mem_topNodes (h : Laid lines s d g yes no done built)
    (hall : ∀ x, x ∈ done ↔ Below lines root x)
    (hacc : ∀ x ∈ done, Acc (Function.swap (Child lines)) x)
    (htest : ∃ v lo hi, lines.lookup root = some (.test v lo hi))
    (hroot : built.lookup root = some r) : r ∈ s.topNodes g := by
  obtain ⟨v, lo, hi, hrule⟩ := htest
  have hw := h.isOpen.wired
  refine ⟨hw.mem_nodes (h.test hroot hrule).1, fun p hp hpr => ?_⟩
  rw [Bool.eq_false_iff]
  intro hbranch
  obtain ⟨a, hdone, ha⟩ := h.exists_line hp
  obtain ⟨c, hc, hcr⟩ := (h.leads_iff ha).mp ((hw.leads_iff hp).mpr hbranch)
  have hcroot : c = root := by
    rcases h.eq_or_constant hcr hroot with hsame | ⟨value, -, hconst⟩
    · exact hsame
    · simp [hrule] at hconst
  have hloop : TransGen (Child lines) root root := .tail' ((hall a).mp hdone) (hcroot ▸ hc)
  exact Cycle.not_transGen_self_of_acc (hacc root ((hall root).mpr .refl)) hloop

theorem stands (h : Laid lines s d g yes no done built) (hall : ∀ x, x ∈ done ↔ Below lines root x)
    (hnode : r ∈ g.nodes) (hground : s.Grounded r) (hroot : built.lookup root = some r) :
    Stands lines root (s.updateRegistry d (·.setRoot r)) d (g.setRoot r) yes no r built where
  rooted := by
    have hw := h.isOpen.wired
    refine ⟨hw.setRoot hnode, rfl, hw.grounded_congr (.inr (.inr hnode)) hground fun q hq => ?_⟩
    exact Store.body?_updateRegistry_ne _ (hw.member_ne_diagram hq).symm
  top := hroot
  keys := fun id => (h.keys id).trans (hall id)
  defined := fun id hid => h.defined id ((hall id).mpr hid)
  constant := h.constant
  test := by
    intro id q v lo hi hid hrule
    obtain ⟨hv, hiRef, loRef, hhi, hlo, hbody⟩ := h.test hid hrule
    refine ⟨hv, hiRef, loRef, hhi, hlo, ?_⟩
    rw [Store.body?_updateRegistry_ne _ (h.isOpen.wired.member_ne_diagram (h.member hid)).symm,
      hbody]
  table := h.table

end Laid

theorem Stands.walk {lines : Lines} {root : Int} {s : Store} {d : Ref} {g : Registry}
    {yes no r q : Ref} {built : List (Int × Ref)} (h : Stands lines root s d g yes no r built)
    (assignment : Assignment) {id : Int} (hid : built.lookup id = some q) (hground : s.Grounded q) :
    Walk lines assignment id (s.follow assignment [] q) := by
  have hw := h.rooted.wired
  induction hground generalizing id with
  | intro q hbelow ih =>
    have hground : s.Grounded q := .intro q hbelow
    obtain ⟨rule, hrule⟩ :=
      Option.isSome_iff_exists.mp (h.defined id ((h.keys id).mp (by simp [hid])))
    cases rule with
    | constant value =>
      obtain rfl := h.constant hid hrule
      cases value
      · exact hw.follow_no ▸ .constant hrule
      · exact hw.follow_yes ▸ .constant hrule
    | test v lo hi =>
      obtain ⟨hv, hiRef, loRef, hhi, hlo, hbody⟩ := h.test hid hrule
      rw [hw.follow_node hground hv hbody]
      cases hvalue : assignment v with
      | none => exact .missing hrule hvalue
      | some side =>
        refine .test hrule hvalue (ih _ (Store.leads_of_body hbody side) ?_)
        cases side
        · exact hlo
        · exact hhi

theorem Stands.isSome_find?_iff {lines : Lines} {root : Int} {s : Store} {d : Ref} {g : Registry}
    {yes no r : Ref} {built : List (Int × Ref)} (h : Stands lines root s d g yes no r built)
    {v : Int} :
    (g.find? v).isSome ↔ ∃ id lo hi, Below lines root id ∧
    lines.lookup id = some (.test v lo hi) := by
  constructor
  · intro hv
    obtain ⟨q, hq⟩ := Option.isSome_iff_exists.mp hv
    obtain ⟨id, lo, hi, hid, hrule⟩ := h.table hq
    exact ⟨id, lo, hi, (h.keys id).mp (by simp [hid]), hrule⟩
  · rintro ⟨id, lo, hi, hbelow, hrule⟩
    obtain ⟨q, hq⟩ := Option.isSome_iff_exists.mp ((h.keys id).mpr hbelow)
    simp [(h.test hq hrule).1]

section Build

variable {lines : Lines} {root : Int} {ids : List Int} {s s' : Store} {d : Ref}

theorem Laid.created {created : Store} (h : Diagram.create s = .ok d created) :
    Laid lines created d {} (d + 1) (d + 2) [] [] where
  isOpen := ⟨Wired.created h, Mirrored.created, rfl⟩
  keys := by simp
  defined := by simp
  constant := by simp
  test := by simp
  table := by simp [Registry.find?]
  distinct := by simp

theorem Sensible.exists_layers (h : Sensible lines root) (hids : reachable lines root = .ok ids) :
    ∃ layers, (dependencies lines ids).layers? = some layers := by
  obtain ⟨hmem, -, hnodup⟩ := mem_reachable hids
  refine Dependencies.exists_layers (nodup_dependencies hnodup) ?_
  rintro ⟨a, hloop⟩
  obtain ⟨b, hab, -⟩ := TransGen.head'_iff.mp hloop
  have ha := (hmem a).mp (needs_dependencies.mp hab).1
  exact h.acyclic a ha (TransGen.mono (fun _ _ hxy => (needs_dependencies.mp hxy).2.2) _ _ hloop)

theorem Laid.validate {g : Registry} {yes no : Ref} {done : List Int} {built : List (Int × Ref)}
    (h : Laid lines s d g yes no done built) (hall : ∀ x, x ∈ done ↔ Below lines root x)
    (hacc : ∀ x ∈ done, Acc (Function.swap (Child lines)) x)
    (htest : ∃ v lo hi, lines.lookup root = some (.test v lo hi)) : ∃ r s',
      Diagram.validate d s = .ok r s' ∧ built.lookup root = some r ∧
      Stands lines root s' d (g.setRoot r) yes no r built := by
  have hdone : root ∈ done := (hall root).mpr .refl
  obtain ⟨r, hr⟩ := h.exists_ref hdone
  have hmem := h.mem_topNodes hall hacc htest hr
  have htop : s.topNodes g = {r} :=
    Set.eq_singleton_iff_unique_mem.mpr ⟨hmem, fun q hq => h.eq_of_mem_topNodes hall hacc hr hq⟩
  have hground := h.grounded (hacc root hdone) hr
  have hrun := h.isOpen.validate_ok_iff.mpr ⟨htop, Store.grounded_iff.mp hground, rfl⟩
  exact ⟨r, _, hrun, hr, h.stands hall hmem.1 hground hr⟩

theorem build_of_sensible (h : Sensible lines root) (s : Store) : ∃ d s' g yes no r built,
    build lines root s = .ok d s' ∧ Stands lines root s' d g yes no r built := by
  obtain ⟨ids, hids⟩ := exists_reachable h.defined
  obtain ⟨layers, hlayers⟩ := h.exists_layers hids
  obtain ⟨horder, hbelow, htest, -⟩ := order_of_layers hids hlayers
  obtain ⟨hmem, -, -⟩ := mem_reachable hids
  have hall : ∀ x, x ∈ [] ++ layers.flatten ↔ Below lines root x :=
    fun x => ⟨hbelow x, htest h.rootTest x⟩
  have hfits : FitsAll lines [] layers.flatten :=
    h.fitsAll (fun x hx => (hmem x).mpr hx) (fun x hx => (hall x).mp hx) horder
  have hnodup : ([] ++ layers.flatten).Nodup := (Dependencies.nodup_of_inOrder horder).1
  obtain ⟨created, hcreate⟩ : ∃ created, Diagram.create s = .ok s.size created := ⟨_, rfl⟩
  obtain ⟨t, g, built, hfold, hlaid⟩ := (Laid.created hcreate).foldlM_of_fitsAll hnodup
    (fun x hx => h.defined x (hbelow x hx)) hfits
  have hacc := Dependencies.acc_of_inOrder (inOrder_of_fitsAll hfits hnodup) (by simp)
  obtain ⟨r, s', hvalidate, hr, hstands⟩ := hlaid.validate hall hacc h.rootTest
  refine ⟨s.size, s', _, _, _, r, built, ?_, hstands⟩
  unfold build
  rw [bind_of_ok (observe_of_ok hids), hlayers]
  change (Diagram.create >>= _) s = _
  rw [bind_of_ok hcreate, bind_of_ok hfold, bind_of_ok hvalidate,
    bind_of_ok (observe_of_ok (Laid.builtVertex_eq_ok_iff.mpr hr))]
  simp only [ne_eq, not_true_eq_false, ↓reduceIte]
  rfl

theorem Laid.exists_done {g : Registry} {yes no r : Ref} {done : List Int}
    {built : List (Int × Ref)} (h : Laid lines s d g yes no done built)
    (hvalidate : Diagram.validate d s = .ok r s') : ∃ id, id ∈ done := by
  obtain ⟨htop, -⟩ := h.isOpen.validate_ok_iff.mp hvalidate
  have hmem : r ∈ s.topNodes g := htop ▸ rfl
  obtain ⟨id, hid, -⟩ := h.exists_line hmem.1
  exact ⟨id, hid⟩

theorem Laid.sensible {g : Registry} {yes no : Ref} {done : List Int} {built : List (Int × Ref)}
    (h : Laid lines s d g yes no done built) (hall : ∀ x, Below lines root x → x ∈ done)
    (hnodup : done.Nodup) (hfits : FitsAll lines [] done)
    (htest : ∃ v lo hi, lines.lookup root = some (.test v lo hi)) : Sensible lines root := by
  have hacc := Dependencies.acc_of_inOrder (inOrder_of_fitsAll hfits hnodup) (by simp)
  have hfit : ∀ {a v lo hi}, Below lines root a → lines.lookup a = some (.test v lo hi) →
      ∃ before, Fits lines before v lo hi :=
    fun ha hrule => fits_of_fitsAll hfits (hall _ ha) hrule
  refine ⟨fun a ha => h.defined a (hall a ha), ?_, htest, ?_, ?_, ?_⟩
  · exact fun a ha hloop => Cycle.not_transGen_self_of_acc (hacc a (hall a ha)) hloop
  · exact fun a b v lo hi lo' hi' ha hb => h.distinct (hall a ha) (hall b hb)
  · intro a v lo hi ha hrule
    obtain ⟨before, hfits⟩ := hfit ha hrule
    exact hfits.unreserved
  · intro a v lo hi ha hrule
    obtain ⟨before, hfits⟩ := hfit ha hrule
    exact ⟨hfits.ne, hfits.differ⟩

theorem defined_of_layers {layers : List (List Int)} (hids : reachable lines root = .ok ids)
    (hlayers : (dependencies lines ids).layers? = some layers) :
    ([] ++ layers.flatten).Nodup ∧ ∀ x ∈ layers.flatten, (lines.lookup x).isSome := by
  obtain ⟨horder, hbelow, -⟩ := order_of_layers hids hlayers
  obtain ⟨hmem, hdefined, -⟩ := mem_reachable hids
  exact ⟨(Dependencies.nodup_of_inOrder horder).1, fun x hx =>
    hdefined x ((hmem x).mpr (hbelow x hx))⟩

theorem laid_of_build (hrun : build lines root s = .ok d s') : ∃ ids layers created t g built r,
    reachable lines root = .ok ids ∧ (dependencies lines ids).layers? = some layers ∧
    Diagram.create s = .ok d created ∧
    layers.flatten.foldlM (buildLine d lines) [] created = .ok built t ∧
    FitsAll lines [] layers.flatten ∧ Laid lines t d g (d + 1) (d + 2) layers.flatten built ∧
    Diagram.validate d t = .ok r s' := by
  unfold build at hrun
  obtain ⟨ids, _, hobserve, hrest⟩ := bind_eq_ok_iff.mp hrun
  obtain ⟨hids, rfl⟩ := observe_eq_ok_iff.mp hobserve
  cases hlayers : (dependencies lines ids).layers? with
  | none =>
    rw [hlayers] at hrest
    cases hrest
  | some layers =>
    rw [hlayers] at hrest
    obtain ⟨e, created, hcreate, hrest⟩ := bind_eq_ok_iff.mp hrest
    obtain ⟨built, t, hfold, hrest⟩ := bind_eq_ok_iff.mp hrest
    obtain ⟨found, s'', hvalidate, hrest⟩ := bind_eq_ok_iff.mp hrest
    obtain ⟨declared, _, hdeclared, hlast⟩ := bind_eq_ok_iff.mp hrest
    obtain ⟨-, rfl⟩ := observe_eq_ok_iff.mp hdeclared
    obtain ⟨hnodup, hsome⟩ := defined_of_layers hids hlayers
    obtain ⟨hfits, g, hlaid⟩ := (Laid.created hcreate).laid_of_foldlM hnodup hsome hfold
    split at hlast
    · cases hlast
    · cases hlast
      exact ⟨ids, layers, created, t, g, built, found, hids, hlayers, hcreate, hfold, hfits, hlaid,
        hvalidate⟩

theorem sensible_of_build (hrun : build lines root s = .ok d s') : Sensible lines root := by
  obtain ⟨ids, layers, created, t, g, built, r, hids, hlayers, -, -, hfits, hlaid, hvalidate⟩ :=
    laid_of_build hrun
  obtain ⟨hnodup, -⟩ := defined_of_layers hids hlayers
  obtain ⟨-, -, htest, hconstant⟩ := order_of_layers hids hlayers
  obtain ⟨hmem, hdefined, -⟩ := mem_reachable hids
  have hroot : ∃ v lo hi, lines.lookup root = some (.test v lo hi) := by
    obtain ⟨rule, hrule⟩ := Option.isSome_iff_exists.mp (hdefined root ((hmem root).mpr .refl))
    cases rule with
    | test v lo hi => exact ⟨v, lo, hi, hrule⟩
    | constant value =>
      obtain ⟨id, hid⟩ := hlaid.exists_done hvalidate
      simp [hconstant ⟨value, hrule⟩] at hid
  exact hlaid.sensible (htest hroot) hnodup hfits hroot

theorem stands_of_build (hrun : build lines root s = .ok d s') :
    ∃ g yes no r built, Stands lines root s' d g yes no r built := by
  obtain ⟨d', t, g, yes, no, r, built, hrun', hstands⟩ :=
    build_of_sensible (sensible_of_build hrun) s
  obtain ⟨rfl, rfl⟩ := EStateM.Result.ok.inj (hrun.symm.trans hrun')
  exact ⟨g, yes, no, r, built, hstands⟩

/-- A diagram is built from lines if and only if they are sensible. It then is validated, its
variables are those of the tests below the root line, its root is the node of the root line, and it
evaluates to what a walk over the lines comes to. -/
theorem build_decides (lines : Lines) (root : Int) (s : Store) :
    ((∃ d s', build lines root s = .ok d s') ↔ Sensible lines root) ∧
    ∀ d s', build lines root s = .ok d s' → ∃ g r, s'.registry? d = some g ∧ g.root = some r ∧
      (∀ v, (g.find? v).isSome ↔ ∃ id lo hi, Below lines root id ∧
        lines.lookup id = some (.test v lo hi)) ∧
      (∃ v lo hi, lines.lookup root = some (.test v lo hi) ∧ g.find? v = some r) ∧
      ∀ assignment outcome, Walk lines assignment root outcome ↔
      s'.evaluate d assignment = outcome := by
  refine ⟨⟨fun ⟨d, s', hrun⟩ => sensible_of_build hrun, fun h => ?_⟩, fun d s' hrun => ?_⟩
  · obtain ⟨d, s', _, _, _, _, _, hrun, -⟩ := build_of_sensible h s
    exact ⟨d, s', hrun⟩
  · obtain ⟨g, yes, no, r, built, hstands⟩ := stands_of_build hrun
    refine ⟨g, r, hstands.rooted.wired.registry?, hstands.rooted.found, fun v => ?_, ?_, ?_⟩
    · exact hstands.isSome_find?_iff
    · obtain ⟨v, lo, hi, hrule⟩ := (sensible_of_build hrun).rootTest
      exact ⟨v, lo, hi, hrule, (hstands.test hstands.top hrule).1⟩
    · intro assignment outcome
      have hwalk := hstands.walk assignment hstands.top hstands.rooted.grounded
      rw [hstands.rooted.evaluate_eq]
      constructor
      · exact fun hother => hwalk.unique hother
      · rintro rfl
        exact hwalk

theorem parse_of_read {bytes : Text.Bytes} {document : Document}
    (hread : ofBytes bytes = .ok document) (hroot : document.root = some root) (file : String) :
    parse bytes file s = (build document.lines root >>= fun d => pure (document.order, d)) s := by
  unfold parse
  rw [bind_of_ok (observe_of_ok hread), load, hroot]

theorem build_of_parse {bytes : Text.Bytes} {file : String} {order : List Text}
    (hrun : parse bytes file s = .ok (order, d) s') :
    ∃ document root, ofBytes bytes = .ok document ∧
      document.root = some root ∧ document.order = order ∧
      build document.lines root s = .ok d s' := by
  unfold parse at hrun
  obtain ⟨document, _, hobserve, hload⟩ := bind_eq_ok_iff.mp hrun
  obtain ⟨hread, rfl⟩ := observe_eq_ok_iff.mp hobserve
  unfold load at hload
  cases hroot : document.root with
  | none =>
    rw [hroot] at hload
    cases hload
  | some root =>
    rw [hroot] at hload
    obtain ⟨d', t, hbuild, hlast⟩ := bind_eq_ok_iff.mp hload
    cases hlast
    exact ⟨document, root, hread, hroot, rfl, hbuild⟩

theorem stands_of_parse {bytes : Text.Bytes} {file : String} {order : List Text}
    (hrun : parse bytes file s = .ok (order, d) s') : ∃ document n g yes no r built,
      ofBytes bytes = .ok document ∧ document.root = some n ∧
      Stands document.lines n s' d g yes no r built := by
  obtain ⟨document, n, hread, hroot, -, hbuild⟩ := build_of_parse hrun
  obtain ⟨g, yes, no, r, built, hstands⟩ := stands_of_build hbuild
  exact ⟨document, n, g, yes, no, r, built, hread, hroot, hstands⟩

end Build

end Document

end DecisionDiagram
