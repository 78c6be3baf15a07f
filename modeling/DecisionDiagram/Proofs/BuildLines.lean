import DecisionDiagram.Proofs.NodeLineGraph
import DecisionDiagram.Proofs.ParentRecords
/-! Building lines one by one. What a line needs to be built is a matter of the lines alone, and
each line that is built stands for the vertex it describes. -/
namespace DecisionDiagram

namespace Wired

variable {s : Store} {d : Ref} {g : Registry} {yes no hi lo : Ref} {v : Int}

theorem yes_ne_no (h : Wired s d g yes no) : yes ≠ no := by
  rintro rfl
  simpa [trueVariable, falseVariable] using h.yesBody.symm.trans h.noBody

theorem branchTarget_vertex (h : Wired s d g yes no) (side : Bool) (hhi : g.Member yes no hi) :
    s.branchTarget d side (.vertex hi) = .ok (some hi) := by
  have hlisted : s.requireListed d (.vertex hi) = .ok hi := h.requireListed_of_ok rfl hhi
  change (s.requireListed d (.vertex hi)).map some = _
  rw [hlisted]
  rfl

theorem addNode_vertices (h : Wired s d g yes no) (hopen : g.root = none) (hnew : g.find? v = none)
    (hhi : g.Member yes no hi) (hlo : g.Member yes no lo) :
    Diagram.addNode d v (.vertex hi) (.vertex lo) s =
      if isReserved v then .error (.reservedVariable v) s
      else if lo = hi then .error (s.raise (.equalBranches hi)) s
      else .ok s.size (s.grown d v hi lo) := by
  rw [h.addNode_run, hnew]
  have hready : g.ready = false := by simp [Registry.ready, hopen]
  simp only [hready, Bool.false_eq_true, ↓reduceIte]
  rw [h.placeNode_run (h.branchTarget_vertex true hhi) (h.branchTarget_vertex false hlo) hhi hlo]

end Wired

namespace Document

/-- A test can be built after the lines in `done`. -/
structure Fits (lines : Lines) (done : List Int) (v lo hi : Int) : Prop where
  unreserved : isReserved v = false
  fresh : ∀ a ∈ done, ∀ lo' hi', lines.lookup a ≠ some (.test v lo' hi')
  hiDone : hi ∈ done
  loDone : lo ∈ done
  ne : lo ≠ hi
  differ : ∀ value,
    ¬ (lines.lookup lo = some (.constant value) ∧ lines.lookup hi = some (.constant value))

def FitsAll (lines : Lines) : List Int → List Int → Prop
  | _, [] => True
  | done, id :: rest =>
    (∀ v lo hi, lines.lookup id = some (.test v lo hi) → Fits lines done v lo hi) ∧
      FitsAll lines (done ++ [id]) rest

/-- The lines in `done` are built: each stands for a terminal or a node, and there are no other
nodes. -/
structure Laid (lines : Lines) (s : Store) (d : Ref) (g : Registry) (yes no : Ref) (done : List Int)
    (built : List (Int × Ref)) : Prop where
  isOpen : Open s d g yes no
  keys : ∀ id, (built.lookup id).isSome ↔ id ∈ done
  defined : ∀ id ∈ done, (lines.lookup id).isSome
  constant : ∀ {id r value}, built.lookup id = some r → lines.lookup id = some (.constant value) →
    r = if value then yes else no
  test : ∀ {id r v lo hi}, built.lookup id = some r → lines.lookup id = some (.test v lo hi) →
    g.find? v = some r ∧ ∃ hiRef loRef, built.lookup hi = some hiRef ∧
      built.lookup lo = some loRef ∧
      s.body? r = some (decisionBody v hiRef loRef)
  table : ∀ {v r}, g.find? v = some r → ∃ id lo hi, built.lookup id = some r ∧
    lines.lookup id = some (.test v lo hi)
  distinct : ∀ {a b v lo hi lo' hi'}, a ∈ done → b ∈ done → lines.lookup a = some (.test v lo hi) →
    lines.lookup b = some (.test v lo' hi') → a = b

namespace Laid

variable {lines : Lines} {s : Store} {d : Ref} {g : Registry} {yes no r : Ref}
variable {done order : List Int}
variable {built : List (Int × Ref)} {id v lo hi : Int}

theorem exists_ref (h : Laid lines s d g yes no done built) (hid : id ∈ done) :
    ∃ r, built.lookup id = some r :=
  Option.isSome_iff_exists.mp ((h.keys id).mpr hid)

theorem mem_done (h : Laid lines s d g yes no done built) (hid : built.lookup id = some r) :
    id ∈ done :=
  (h.keys id).mp (by simp [hid])

theorem member (h : Laid lines s d g yes no done built) (hid : built.lookup id = some r) :
    g.Member yes no r := by
  obtain ⟨rule, hrule⟩ := Option.isSome_iff_exists.mp (h.defined id (h.mem_done hid))
  cases rule with
  | constant value =>
    obtain rfl := h.constant hid hrule
    cases value
    · exact .inr (.inl rfl)
    · exact .inl rfl
  | test v lo hi => exact .inr (.inr (h.isOpen.wired.mem_nodes (h.test hid hrule).1))

theorem eq_or_constant (h : Laid lines s d g yes no done built) {a b : Int}
    (ha : built.lookup a = some r) (hb : built.lookup b = some r) : a = b ∨
      ∃ value, lines.lookup a = some (.constant value) ∧
      lines.lookup b = some (.constant value) := by
  have hw := h.isOpen.wired
  obtain ⟨rule, hrule⟩ := Option.isSome_iff_exists.mp (h.defined a (h.mem_done ha))
  obtain ⟨rule', hrule'⟩ := Option.isSome_iff_exists.mp (h.defined b (h.mem_done hb))
  have hterm : ∀ {value : Bool}, s.isTerminal (if value then yes else no) = true := by
    intro value
    cases value
    · exact hw.isTerminal_no
    · exact hw.isTerminal_yes
  cases rule with
  | constant value =>
    have hvalue := h.constant ha hrule
    cases rule' with
    | constant value' =>
      have hvalue' := h.constant hb hrule'
      refine .inr ⟨value, hrule, ?_⟩
      have hne := hw.yes_ne_no
      have hsame : value = value' := by
        cases value <;> cases value' <;> simp_all
      rw [hsame, hrule']
    | test v lo hi =>
      have hnode := hw.isTerminal_of_mem_nodes (hw.mem_nodes (h.test hb hrule').1)
      rw [hvalue, hterm] at hnode
      cases hnode
  | test v lo hi =>
    have hv := (h.test ha hrule).1
    cases rule' with
    | constant value =>
      have hnode := hw.isTerminal_of_mem_nodes (hw.mem_nodes hv)
      rw [h.constant hb hrule', hterm] at hnode
      cases hnode
    | test v' lo' hi' =>
      obtain rfl := hw.nodes_inj hv (h.test hb hrule').1
      exact .inl (h.distinct (h.mem_done ha) (h.mem_done hb) hrule hrule')

theorem buildLine_constant (h : Laid lines s d g yes no done built) {value : Bool}
    (hrule : lines.lookup id = some (.constant value)) :
    buildLine d lines built id s = .ok ((id, if value then yes else no) :: built) s := by
  have hbranch : s.branch value d = some (if value then yes else no) := by
    cases value
    · exact h.isOpen.wired.branch_false
    · exact h.isOpen.wired.branch_true
  have hget : (get : Edit Store) s = .ok s s := rfl
  unfold buildLine
  simp only [hrule]
  rw [bind_of_ok hget, hbranch]
  rfl

theorem buildLine_test (h : Laid lines s d g yes no done built)
    (hrule : lines.lookup id = some (.test v lo hi)) : buildLine d lines built id s =
      if (g.find? v).isSome then .error (s.raise (.repeatedVariable v)) s
      else (observe (fun _ => builtVertex built hi) >>= fun hiRef =>
        observe (fun _ => builtVertex built lo) >>= fun loRef =>
        Diagram.addNode d v (.vertex hiRef) (.vertex loRef) >>= fun r =>
        (pure ((id, r) :: built) : Edit (List (Int × Ref)))) s := by
  have hget : (get : Edit Store) s = .ok s s := rfl
  unfold buildLine
  simp only [hrule]
  rw [bind_of_ok hget, bind_of_ok (observe_of_ok h.isOpen.wired.registry)]
  split <;> rfl

theorem builtVertex_eq_ok_iff : builtVertex built id = .ok r ↔ built.lookup id = some r := by
  unfold builtVertex
  split
  · simp [*]
  · simp [*]

theorem lookup_cons_old (hnew : id ∉ done) {a : Int} (ha : a ∈ done) (r : Ref) :
    ((id, r) :: built).lookup a = built.lookup a := by
  rw [lookup_cons_eq_ite, if_neg]
  rintro rfl
  exact hnew ha

theorem keys_cons (h : Laid lines s d g yes no done built) (a : Int) (r : Ref) :
    (((id, r) :: built).lookup a).isSome ↔ a ∈ done ++ [id] := by
  rw [lookup_cons_eq_ite, List.mem_append, List.mem_singleton]
  split
  · simp [*]
  · simp [*, h.keys]

theorem defined_append (h : Laid lines s d g yes no done built) (hid : (lines.lookup id).isSome) :
    ∀ a ∈ done ++ [id], (lines.lookup a).isSome := by
  intro a ha
  rcases List.mem_append.mp ha with ha | ha
  · exact h.defined a ha
  · exact List.mem_singleton.mp ha ▸ hid

theorem append (h : Laid lines s d g yes no done built) (hnew : id ∉ done) {s' : Store}
    {g' : Registry} (hopen : Open s' d g' yes no) (hdefined : (lines.lookup id).isSome)
    (hbody : ∀ q, g.Member yes no q → s'.body? q = s.body? q)
    (hfind : ∀ {v q}, g.find? v = some q → g'.find? v = some q)
    (hconstant : ∀ {value}, lines.lookup id = some (.constant value) →
      r = if value then yes else no)
    (htest : ∀ {v lo hi}, lines.lookup id = some (.test v lo hi) → g'.find? v = some r ∧
      ∃ hiRef loRef, built.lookup hi = some hiRef ∧ built.lookup lo = some loRef ∧
      s'.body? r = some (decisionBody v hiRef loRef))
    (htable : ∀ {v q}, g'.find? v = some q → g.find? v = some q ∨ q = r ∧
      ∃ lo hi, lines.lookup id = some (.test v lo hi))
    (hfresh : ∀ {v lo hi}, lines.lookup id = some (.test v lo hi) →
      ∀ a ∈ done, ∀ lo' hi', lines.lookup a ≠ some (.test v lo' hi')) :
    Laid lines s' d g' yes no (done ++ [id]) ((id, r) :: built) := by
  have hself : ((id, r) :: built).lookup id = some r := by rw [lookup_cons_eq_ite, if_pos rfl]
  have hold : ∀ {a q}, built.lookup a = some q → ((id, r) :: built).lookup a = some q := by
    intro a q ha
    rw [lookup_cons_old hnew (h.mem_done ha), ha]
  have hcases : ∀ {a q}, ((id, r) :: built).lookup a = some q → a = id ∧ q = r ∨
      built.lookup a = some q := by
    intro a q ha
    rw [lookup_cons_eq_ite] at ha
    split at ha
    · exact .inl ⟨‹_›, (Option.some.inj ha).symm⟩
    · exact .inr ha
  -- Each field is checked once for the new line and carried over for the lines laid before it.
  refine ⟨hopen, fun a => h.keys_cons a r, h.defined_append hdefined, ?_, ?_, ?_, ?_⟩
  · intro a q value ha hrule
    rcases hcases ha with ⟨rfl, rfl⟩ | ha
    · exact hconstant hrule
    · exact h.constant ha hrule
  · intro a q v lo hi ha hrule
    rcases hcases ha with ⟨rfl, rfl⟩ | ha
    · obtain ⟨hv, hiRef, loRef, hhi, hlo, hbody⟩ := htest hrule
      exact ⟨hv, hiRef, loRef, hold hhi, hold hlo, hbody⟩
    · obtain ⟨hv, hiRef, loRef, hhi, hlo, hq⟩ := h.test ha hrule
      exact ⟨hfind hv, hiRef, loRef, hold hhi, hold hlo, (hbody q (h.member ha)).trans hq⟩
  · intro v q hv
    rcases htable hv with hv | ⟨rfl, lo, hi, hrule⟩
    · obtain ⟨a, lo, hi, ha, hrule⟩ := h.table hv
      exact ⟨a, lo, hi, hold ha, hrule⟩
    · exact ⟨id, lo, hi, hself, hrule⟩
  · intro a b v lo hi lo' hi' ha hb hrulea hruleb
    rw [List.mem_append, List.mem_singleton] at ha hb
    rcases ha with ha | rfl
    · rcases hb with hb | rfl
      · exact h.distinct ha hb hrulea hruleb
      · exact absurd hrulea (hfresh hruleb a ha lo hi)
    · rcases hb with hb | rfl
      · exact absurd hruleb (hfresh hrulea b hb lo' hi')
      · rfl

theorem step_constant (h : Laid lines s d g yes no done built) (hnew : id ∉ done) {value : Bool}
    (hrule : lines.lookup id = some (.constant value)) :
    Laid lines s d g yes no (done ++ [id]) ((id, if value then yes else no) :: built) := by
  have htest : ∀ {v lo hi}, lines.lookup id ≠ some (.test v lo hi) := by simp [hrule]
  refine h.append hnew h.isOpen (by simp [hrule]) (fun _ _ => rfl) (fun hv => hv) ?_ ?_
    (fun hv => .inl hv) ?_
  · intro value' hrule'
    obtain rfl := Rule.constant.inj (Option.some.inj (hrule.symm.trans hrule'))
    rfl
  · exact fun hrule' => absurd hrule' htest
  · exact fun hrule' => absurd hrule' htest

theorem find?_fresh (h : Laid lines s d g yes no done built) (hfresh : ∀ a ∈ done, ∀ lo' hi',
    lines.lookup a ≠ some (.test v lo' hi')) : g.find? v = none := by
  rw [Option.eq_none_iff_forall_ne_some]
  intro r hr
  obtain ⟨a, lo', hi', ha, hrule⟩ := h.table hr
  exact hfresh a (h.mem_done ha) lo' hi' hrule

theorem step_test (h : Laid lines s d g yes no done built) (hnew : id ∉ done)
    (hrule : lines.lookup id = some (.test v lo hi)) (hfits : Fits lines done v lo hi)
    {hiRef loRef : Ref} (hhi : built.lookup hi = some hiRef) (hlo : built.lookup lo = some loRef)
    (hne : hiRef ≠ loRef) :
    Laid lines (s.grown d v hiRef loRef) d (g.insert v s.size) yes no (done ++ [id])
      ((id, s.size) :: built) := by
  have hw := h.isOpen.wired
  have hfind := h.find?_fresh hfits.fresh
  have hopen : Open (s.grown d v hiRef loRef) d (g.insert v s.size) yes no :=
    ⟨hw.grown hfind h.isOpen.root hfits.unreserved (h.member hhi) (h.member hlo) hne,
      h.isOpen.mirrored.grown hw hfind (h.member hhi) (h.member hlo), h.isOpen.root⟩
  refine h.append hnew hopen (by simp [hrule]) ?_ ?_ ?_ ?_ ?_ ?_
  · exact fun q hq => Wired.body?_grown_old (hw.member_ne_size hq) (hw.member_ne_diagram hq)
  · intro w q hwq
    rw [Registry.find?_insert, if_neg, hwq]
    rintro rfl
    simp [hfind] at hwq
  · simp [hrule]
  · intro w lo' hi' hrule'
    obtain ⟨rfl, rfl, rfl⟩ := Rule.test.inj (Option.some.inj (hrule.symm.trans hrule'))
    exact ⟨by rw [Registry.find?_insert, if_pos rfl], hiRef, loRef, hhi, hlo, hw.body?_grown_new⟩
  · intro w q hwq
    rw [Registry.find?_insert] at hwq
    split at hwq
    · subst_vars
      exact .inr ⟨(Option.some.inj hwq).symm, lo, hi, hrule⟩
    · exact .inl hwq
  · intro w lo' hi' hrule'
    obtain ⟨rfl, rfl, rfl⟩ := Rule.test.inj (Option.some.inj (hrule.symm.trans hrule'))
    exact hfits.fresh

theorem buildLine_of_fits (h : Laid lines s d g yes no done built) (hnew : id ∉ done)
    (hdefined : (lines.lookup id).isSome)
    (hfits : ∀ v lo hi, lines.lookup id = some (.test v lo hi) → Fits lines done v lo hi) :
    ∃ s' g' built', buildLine d lines built id s = .ok built' s' ∧
      Laid lines s' d g' yes no (done ++ [id]) built' := by
  obtain ⟨rule, hrule⟩ := Option.isSome_iff_exists.mp hdefined
  cases rule with
  | constant value => exact ⟨s, g, _, h.buildLine_constant hrule, h.step_constant hnew hrule⟩
  | test v lo hi =>
    have hfit := hfits v lo hi hrule
    obtain ⟨hiRef, hhi⟩ := h.exists_ref hfit.hiDone
    obtain ⟨loRef, hlo⟩ := h.exists_ref hfit.loDone
    have hne : hiRef ≠ loRef := by
      rintro rfl
      rcases h.eq_or_constant hlo hhi with hsame | ⟨value, hboth⟩
      · exact hfit.ne hsame
      · exact hfit.differ value hboth
    have hfind := h.find?_fresh hfit.fresh
    refine ⟨_, _, _, ?_, h.step_test hnew hrule hfit hhi hlo hne⟩
    have hadd := h.isOpen.wired.addNode_vertices h.isOpen.root hfind (h.member hhi) (h.member hlo)
    rw [if_neg (by simp [hfit.unreserved]), if_neg hne.symm] at hadd
    rw [h.buildLine_test hrule, hfind, if_neg (by simp),
      bind_of_ok (observe_of_ok (builtVertex_eq_ok_iff.mpr hhi)),
      bind_of_ok (observe_of_ok (builtVertex_eq_ok_iff.mpr hlo)), bind_of_ok hadd]
    rfl

theorem fits_of_buildLine (h : Laid lines s d g yes no done built)
    (hrule : lines.lookup id = some (.test v lo hi)) {built' : List (Int × Ref)} {s' : Store}
    (hrun : buildLine d lines built id s = .ok built' s') : Fits lines done v lo hi := by
  rw [h.buildLine_test hrule] at hrun
  split at hrun
  · cases hrun
  · rename_i hfind
    have hfind : g.find? v = none := by simpa using hfind
    obtain ⟨hiRef, _, hiRun, hloLine⟩ := bind_eq_ok_iff.mp hrun
    obtain ⟨hhi, rfl⟩ := observe_eq_ok_iff.mp hiRun
    obtain ⟨loRef, _, loRun, hnode⟩ := bind_eq_ok_iff.mp hloLine
    obtain ⟨hlo, rfl⟩ := observe_eq_ok_iff.mp loRun
    obtain ⟨r, t, hadd, -⟩ := bind_eq_ok_iff.mp hnode
    rw [builtVertex_eq_ok_iff] at hhi hlo
    rw [h.isOpen.wired.addNode_vertices h.isOpen.root hfind (h.member hhi) (h.member hlo)] at hadd
    split at hadd
    · cases hadd
    · rename_i hfree
      split at hadd
      · cases hadd
      · rename_i hne
        refine ⟨by simpa using hfree, ?_, h.mem_done hhi, h.mem_done hlo, ?_, ?_⟩
        · intro a ha lo' hi' hrule'
          obtain ⟨r, hr⟩ := h.exists_ref ha
          simp [(h.test hr hrule').1] at hfind
        · rintro rfl
          exact hne (Option.some.inj (hlo.symm.trans hhi))
        · rintro value ⟨hloRule, hhiRule⟩
          exact hne ((h.constant hlo hloRule).trans (h.constant hhi hhiRule).symm)

theorem foldlM_of_fitsAll (h : Laid lines s d g yes no done built) (hnodup : (done ++ order).Nodup)
    (hdefined : ∀ id ∈ order, (lines.lookup id).isSome) (hfits : FitsAll lines done order) :
    ∃ s' g' built', order.foldlM (buildLine d lines) built s = .ok built' s' ∧
      Laid lines s' d g' yes no (done ++ order) built' := by
  induction order generalizing s g done built with
  | nil => exact ⟨s, g, built, rfl, by rwa [List.append_nil]⟩
  | cons id order ih =>
    have hnew : id ∉ done :=
      fun hid => (List.nodup_append.mp hnodup).2.2 id hid id List.mem_cons_self rfl
    obtain ⟨t, g', next, hstep, hnext⟩ :=
      h.buildLine_of_fits hnew (hdefined id List.mem_cons_self) hfits.1
    have happend : done ++ id :: order = done ++ [id] ++ order := by simp
    rw [happend] at hnodup ⊢
    obtain ⟨s', g'', built', hrun, hlaid⟩ := ih hnext hnodup
      (fun a ha => hdefined a (List.mem_cons_of_mem _ ha)) hfits.2
    refine ⟨s', g'', built', ?_, hlaid⟩
    rw [List.foldlM_cons, bind_of_ok hstep]
    exact hrun

theorem fitsAll_of_foldlM (h : Laid lines s d g yes no done built) (hnodup : (done ++ order).Nodup)
    (hdefined : ∀ id ∈ order, (lines.lookup id).isSome) {built' : List (Int × Ref)} {s' : Store}
    (hrun : order.foldlM (buildLine d lines) built s = .ok built' s') :
    FitsAll lines done order := by
  induction order generalizing s g done built with
  | nil => trivial
  | cons id order ih =>
    have hnew : id ∉ done :=
      fun hid => (List.nodup_append.mp hnodup).2.2 id hid id List.mem_cons_self rfl
    rw [List.foldlM_cons] at hrun
    obtain ⟨next, t, hstep, hrest⟩ := bind_eq_ok_iff.mp hrun
    have hfits : ∀ v lo hi, lines.lookup id = some (.test v lo hi) → Fits lines done v lo hi :=
      fun v lo hi hrule => h.fits_of_buildLine hrule hstep
    obtain ⟨t', g', next', hstep', hnext⟩ :=
      h.buildLine_of_fits hnew (hdefined id List.mem_cons_self) hfits
    obtain ⟨rfl, rfl⟩ := EStateM.Result.ok.inj (hstep.symm.trans hstep')
    have happend : done ++ id :: order = done ++ [id] ++ order := by simp
    rw [happend] at hnodup
    exact ⟨hfits, ih hnext hnodup (fun a ha => hdefined a (List.mem_cons_of_mem _ ha)) hrest⟩

theorem laid_of_foldlM (h : Laid lines s d g yes no done built) (hnodup : (done ++ order).Nodup)
    (hdefined : ∀ id ∈ order, (lines.lookup id).isSome) {built' : List (Int × Ref)} {s' : Store}
    (hrun : order.foldlM (buildLine d lines) built s = .ok built' s') :
    FitsAll lines done order ∧ ∃ g', Laid lines s' d g' yes no (done ++ order) built' := by
  have hfits := h.fitsAll_of_foldlM hnodup hdefined hrun
  obtain ⟨t, g', next, hrun', hlaid⟩ := h.foldlM_of_fitsAll hnodup hdefined hfits
  obtain ⟨rfl, rfl⟩ := EStateM.Result.ok.inj (hrun.symm.trans hrun')
  exact ⟨hfits, g', hlaid⟩

end Laid

end Document

end DecisionDiagram
