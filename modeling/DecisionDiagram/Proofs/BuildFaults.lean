import DecisionDiagram.Proofs.BuildDecides
import DecisionDiagram.Proofs.ReadWrittenLines
/-! Lines that make no diagram. The fault with which building ends tells what is wrong with the
lines below the root line, and there are words for it. -/
namespace DecisionDiagram
open Numeral

theorem Wired.exists_show {s : Store} {d : Ref} {g : Registry} {yes no r : Ref}
    (h : Wired s d g yes no) (hlegible : g.Legible) (hr : g.Member yes no r) :
    ∃ t, s.show? r = .ok (some t) := by
  have hok := (s.shows_show? r).exists_ok (h.short_of_member hlegible hr)
  have hshow : ∀ {x : Vertex}, s.body? r = some x → (x.kind = .terminal trueVariable true ∨
      x.kind = .terminal falseVariable false ∨ ∃ v, x.kind = .decision v) →
          ∃ t, s.show? r = .ok (some t) := by
    intro x hbody hkind
    obtain ⟨y, hy, rfl⟩ := Option.map_eq_some_iff.mp hbody
    unfold Store.show? at hok ⊢
    rw [hy] at hok ⊢
    rcases hkind with hkind | hkind | ⟨v, hkind⟩
    all_goals
      change y.kind = _ at hkind
      simp only [hkind] at hok ⊢
      obtain ⟨_, ha⟩ := hok
      obtain ⟨t, -, rfl⟩ := map_eq_ok_iff.mp ha
      exact ⟨t, ha⟩
  rcases hr with rfl | rfl | hr
  · exact hshow h.yesBody (.inl rfl)
  · exact hshow h.noBody (.inr (.inl rfl))
  · obtain ⟨v, hi, lo, -, hbody, -⟩ := h.exists_body hr
    exact hshow hbody (.inr (.inr ⟨v, rfl⟩))

theorem Wired.show_diagram {s : Store} {d : Ref} {g : Registry} {yes no : Ref}
    (h : Wired s d g yes no) : s.show? d = (s.showRegistry g).map some := by
  obtain ⟨x, hx, hbody⟩ := Store.exists_vertex_of_body h.diagram
  have hkind : x.kind = .diagram g := congrArg Vertex.kind hbody
  rw [Store.show?, hx]
  simp only [hkind]

namespace Document
open Relation

/-- A line names another one as a child, which has to be built first. Its own number does not count.
-/
def Waits (lines : Lines) (a b : Int) : Prop := b ≠ a ∧ Child lines a b

inductive Flaw (lines : Lines) (root : Int) : Fault → Prop
  | undefined {a : Int} (below : Below lines root a) (rule : lines.lookup a = none) :
    Flaw lines root (.undefinedLine a)
  | cyclic {a : Int} (below : Below lines root a) (loop : TransGen (Waits lines) a a) :
    Flaw lines root .cyclicLines
  | itself {a : Int} (below : Below lines root a) (child : Child lines a a) :
      Flaw lines root (.missingLine a)
  | repeated {a b v lo hi lo' hi' : Int} (below : Below lines root a) (below' : Below lines root b)
      (ne : a ≠ b)
    (rule : lines.lookup a = some (.test v lo hi))
      (rule' : lines.lookup b = some (.test v lo' hi')) :
    Flaw lines root (.repeatedVariable v)
  | reserved {a v lo hi : Int} (below : Below lines root a)
      (rule : lines.lookup a = some (.test v lo hi))
    (reserved : isReserved v = true) : Flaw lines root (.reservedVariable v)
  | equal {a v lo hi : Int} {target : Ref} (below : Below lines root a)
    (rule : lines.lookup a = some (.test v lo hi)) (same : lo = hi ∨
      ∃ value, lines.lookup lo = some (.constant value) ∧
        lines.lookup hi = some (.constant value)) :
    Flaw lines root (.equalBranches target)
  | constant {value : Bool} (rule : lines.lookup root = some (.constant value)) :
      Flaw lines root (.rootCount [])

theorem exists_undefined_of_reach {lines : Lines} {done pending : List Int} {e : Fault}
    (h : reach lines done pending = .error e) :
    ∃ p ∈ pending, ∃ a, Below lines p a ∧ lines.lookup a = none ∧
      e = ({} : Store).raise (.undefinedLine a) := by
  fun_induction reach lines done pending with
  | case1 => cases h
  | case2 done id rest hold ih =>
    obtain ⟨p, hp, hbelow⟩ := ih h
    exact ⟨p, List.mem_cons_of_mem _ hp, hbelow⟩
  | case3 done id rest hnew hnone =>
    cases h
    exact ⟨id, List.mem_cons_self, id, .refl, hnone, rfl⟩
  | case4 done id rest hnew rule hrule ih =>
    obtain ⟨p, hp, a, hbelow, hnone⟩ := ih h
    rcases List.mem_append.mp hp with hp | hp
    · exact ⟨id, List.mem_cons_self, a, .head ⟨rule, hrule, List.mem_reverse.mp hp⟩ hbelow, hnone⟩
    · exact ⟨p, List.mem_cons_of_mem _ hp, a, hbelow, hnone⟩

theorem exists_undefined_of_reachable {lines : Lines} {root : Int} {e : Fault}
    (h : reachable lines root = .error e) :
    ∃ a, Below lines root a ∧ lines.lookup a = none ∧
    e = ({} : Store).raise (.undefinedLine a) := by
  unfold reachable at h
  cases hreach : reach lines [] [root] with
  | ok out =>
    rw [hreach] at h
    cases h
  | error f =>
    rw [hreach] at h
    cases h
    obtain ⟨p, hp, hundefined⟩ := exists_undefined_of_reach hreach
    exact List.mem_singleton.mp hp ▸ hundefined

section Failing

variable {lines : Lines} {root id a c v lo hi : Int} {ids done order : List Int} {s s' : Store}
variable {d : Ref}
variable {g : Registry} {yes no : Ref} {built : List (Int × Ref)} {e : Fault}

theorem transGen_needs (h : TransGen (dependencies lines ids).Needs id id) :
    id ∈ ids ∧ TransGen (Waits lines) id id := by
  obtain ⟨b, hb, -⟩ := TransGen.head'_iff.mp h
  exact ⟨(needs_dependencies.mp hb).1,
    TransGen.mono
      (fun _ _ hxy => ⟨(needs_dependencies.mp hxy).2.1, (needs_dependencies.mp hxy).2.2⟩) _ _ h⟩

theorem exists_loop_of_layers? (hids : reachable lines root = .ok ids)
    (hnone : (dependencies lines ids).layers? = none) :
    ∃ a, Below lines root a ∧ TransGen (Waits lines) a a := by
  obtain ⟨hmem, -, hnodup⟩ := mem_reachable hids
  by_contra hloop
  obtain ⟨layers, hlayers⟩ := Dependencies.exists_layers (nodup_dependencies hnodup)
    fun ⟨a, ha⟩ => hloop ⟨a, (hmem a).mp (transGen_needs ha).1, (transGen_needs ha).2⟩
  simp [hnone] at hlayers

theorem Laid.flaw_of_builtVertex (h : Laid lines s d g yes no done built) (hid : Integer.Short id)
    (hbelow : Below lines root id) (hneeds : ∀ c, Waits lines id c → c ∈ done)
    (hchild : Child lines id c) (hc : builtVertex built c = .error e) :
    Flaw lines root e ∧ ∃ m, e.message? s = some m := by
  unfold builtVertex at hc
  split at hc
  · cases hc
  · rename_i hlookup
    cases hc
    obtain rfl : c = id := by
      by_contra hne
      obtain ⟨r, hr⟩ := h.exists_ref (hneeds c ⟨hne, hchild⟩)
      simp [hlookup] at hr
    exact ⟨.itself hbelow hchild, Fault.message?_of_showInt hid rfl⟩

theorem Laid.legible (h : Laid lines s d g yes no done built) (hlines : ShortLines lines) :
    g.Legible := by
  intro v r hv
  obtain ⟨a, lo, hi, -, hrule⟩ := h.table hv
  exact (hlines a _ hrule).2.1

theorem Laid.flaw_of_test (h : Laid lines s d g yes no done built) (hlines : ShortLines lines)
    (hnew : id ∉ done) (hdone : ∀ a ∈ done, Below lines root a) (hbelow : Below lines root id)
    (hneeds : ∀ c, Waits lines id c → c ∈ done) (hrule : lines.lookup id = some (.test v lo hi))
    (hrun : buildLine d lines built id s = .error e s') :
    s' = s ∧ Flaw lines root e ∧ ∃ m, e.message? s = some m := by
  obtain ⟨hid, hv, hloShort, hhiShort⟩ := hlines id _ hrule
  -- The faults in the order the line is checked: the variable is taken, a branch is not built,
  -- the variable is reserved, both branches are one vertex.
  rw [h.buildLine_test hrule] at hrun
  split at hrun
  · rename_i hfound
    rw [Store.raise_of_short (by simpa [Fault.integers] using hv)] at hrun
    cases hrun
    obtain ⟨r, hr⟩ := Option.isSome_iff_exists.mp hfound
    obtain ⟨a, lo', hi', ha, hrule'⟩ := h.table hr
    have hne : a ≠ id := fun hsame => hnew (hsame ▸ h.mem_done ha)
    exact ⟨rfl, .repeated (hdone a (h.mem_done ha)) hbelow hne hrule' hrule,
      Fault.message?_of_showInt hv rfl⟩
  · rename_i hfresh
    cases hhi : builtVertex built hi with
    | error f =>
      rw [bind_of_error (observe_of_error hhi)] at hrun
      cases hrun
      exact ⟨rfl, h.flaw_of_builtVertex hid hbelow hneeds ((child_of_test hrule).mpr (.inr rfl))
        hhi⟩
    | ok hiRef =>
      rw [bind_of_ok (observe_of_ok hhi)] at hrun
      cases hlo : builtVertex built lo with
      | error f =>
        rw [bind_of_error (observe_of_error hlo)] at hrun
        cases hrun
        exact ⟨rfl, h.flaw_of_builtVertex hid hbelow hneeds ((child_of_test hrule).mpr (.inl rfl))
          hlo⟩
      | ok loRef =>
        rw [Laid.builtVertex_eq_ok_iff] at hhi hlo
        have hadd := h.isOpen.wired.addNode_vertices (v := v) h.isOpen.root (by simpa using hfresh)
          (h.member hhi)
          (h.member hlo)
        rw [bind_of_ok (observe_of_ok (Laid.builtVertex_eq_ok_iff.mpr hlo))] at hrun
        split at hadd
        · rename_i hreserved
          rw [bind_of_error hadd] at hrun
          cases hrun
          exact ⟨rfl, .reserved hbelow hrule hreserved, Fault.message?_of_showInt hv rfl⟩
        · split at hadd
          · rename_i hsame
            rw [bind_of_error hadd] at hrun
            have hlegible := h.legible hlines
            have hraise : s.raise (.equalBranches hiRef) = .equalBranches hiRef :=
              Store.raise_of_short (h.isOpen.wired.short_of_member hlegible (h.member hhi))
            rw [hraise] at hrun
            cases hrun
            obtain ⟨t, ht⟩ := h.isOpen.wired.exists_show hlegible (h.member hhi)
            subst hsame
            refine ⟨rfl, .equal hbelow hrule (h.eq_or_constant hlo hhi),
              "True and false branch are the same node: " ++ t, ?_⟩
            rw [Fault.message?, Fault.wording, ht]
            rfl
          · rw [bind_of_ok hadd] at hrun
            cases hrun

theorem Laid.flaw_of_foldlM (h : Laid lines s d g yes no done built) (hlines : ShortLines lines)
    (hids : ∀ a, Below lines root a → a ∈ ids)
    (horder : Dependencies.InOrder (fun a b => b ≠ a ∧ a ∈ ids ∧ Child lines a b) done order)
    (hbelow : ∀ a ∈ done ++ order, Below lines root a)
    (hdefined : ∀ a ∈ order, (lines.lookup a).isSome)
    (hrun : order.foldlM (buildLine d lines) built s = .error e s') :
    Flaw lines root e ∧ ∃ m, e.message? s' = some m := by
  induction order generalizing s g done built with
  | nil => cases hrun
  | cons id order ih =>
    obtain ⟨hnew, hneeds, hrest⟩ := horder
    obtain ⟨rule, hrule⟩ := Option.isSome_iff_exists.mp (hdefined id List.mem_cons_self)
    have happend : done ++ id :: order = done ++ [id] ++ order := by simp
    have hlater : ∀ a ∈ order, (lines.lookup a).isSome :=
      fun a ha => hdefined a (List.mem_cons_of_mem _ ha)
    have hid : Below lines root id := hbelow id (by simp)
    have hdone : ∀ a ∈ done, Below lines root a := fun a ha => hbelow a (List.mem_append_left _ ha)
    rw [happend] at hbelow
    rw [List.foldlM_cons] at hrun
    -- A line that is laid extends the invariant `Laid`; the first that is not shows the flaw.
    cases hstep : buildLine d lines built id s with
    | error f t =>
      rw [bind_of_error hstep] at hrun
      cases hrun
      cases rule with
      | constant value => cases (h.buildLine_constant hrule).symm.trans hstep
      | test v lo hi =>
        obtain ⟨rfl, hflaw⟩ := h.flaw_of_test hlines hnew hdone hid
          (fun c hc => hneeds c ⟨hc.1, hids id hid, hc.2⟩) hrule hstep
        exact hflaw
    | ok next t =>
      rw [bind_of_ok hstep] at hrun
      obtain ⟨t', g', next', hstep', hnext⟩ := h.buildLine_of_fits hnew (by simp [hrule])
        fun v lo hi htest => h.fits_of_buildLine htest hstep
      obtain ⟨rfl, rfl⟩ := EStateM.Result.ok.inj (hstep.symm.trans hstep')
      exact ih hnext hrest hbelow hlater hrun

theorem validate_created {created : Store} (hcreate : Diagram.create s = .ok d created) :
    Diagram.validate d created = .error (.rootCount []) created := by
  have hw := Wired.created hcreate
  unfold Diagram.validate
  rw [bind_of_ok (observe_of_ok hw.registry)]
  exact bind_of_error (observe_of_error rfl)

theorem short_of_below (hlines : ShortLines lines) (hroot : Integer.Short root)
    (h : Below lines root a) : Integer.Short a := by
  rcases ReflTransGen.cases_tail h with rfl | ⟨b, -, hba⟩
  · exact hroot
  · obtain ⟨v, lo, hi, hrule, hside⟩ := child_iff.mp hba
    obtain ⟨-, -, hlo, hhi⟩ := hlines b _ hrule
    rcases hside with rfl | rfl
    · exact hlo
    · exact hhi

/-- The fault with which building ends tells what is wrong with the lines, and there are words for
it. -/
theorem flaw_of_build (hlines : ShortLines lines) (hroot : Integer.Short root)
    (hrun : build lines root s = .error e s') :
    Flaw lines root e ∧ ∃ m, e.message? s' = some m := by
  unfold build at hrun
  cases hids : reachable lines root with
  | error f =>
    rw [bind_of_error (observe_of_error hids)] at hrun
    cases hrun
    obtain ⟨a, hbelow, hnone, rfl⟩ := exists_undefined_of_reachable hids
    have ha := short_of_below hlines hroot hbelow
    rw [Store.raise_of_short (by simpa [Fault.integers] using ha)]
    exact ⟨.undefined hbelow hnone, Fault.message?_of_showInt ha rfl⟩
  | ok ids =>
    rw [bind_of_ok (observe_of_ok hids)] at hrun
    cases hlayers : (dependencies lines ids).layers? with
    | none =>
      simp only [hlayers] at hrun
      cases hrun
      obtain ⟨a, hbelow, hloop⟩ := exists_loop_of_layers? hids hlayers
      exact ⟨.cyclic hbelow hloop, _, rfl⟩
    | some layers =>
      simp only [hlayers] at hrun
      obtain ⟨hmem, hdefined, -⟩ := mem_reachable hids
      obtain ⟨horder, hbelow, htest, hconstant⟩ := order_of_layers hids hlayers
      obtain ⟨created, hcreate⟩ : ∃ created, Diagram.create s = .ok s.size created := ⟨_, rfl⟩
      rw [bind_of_ok hcreate] at hrun
      have hlaid : Laid lines created s.size {} (s.size + 1) (s.size + 2) [] [] :=
        Laid.created hcreate
      obtain ⟨hnodup, hsome⟩ := defined_of_layers hids hlayers
      cases hfold : layers.flatten.foldlM (buildLine s.size lines) [] created with
      | error f t =>
        rw [bind_of_error hfold] at hrun
        cases hrun
        exact hlaid.flaw_of_foldlM hlines (fun a ha => (hmem a).mpr ha) horder hbelow hsome hfold
      | ok built t =>
        rw [bind_of_ok hfold] at hrun
        obtain ⟨hfits, g, hlaid'⟩ := hlaid.laid_of_foldlM hnodup hsome hfold
        obtain ⟨rule, hrule⟩ := Option.isSome_iff_exists.mp (hdefined root ((hmem root).mpr .refl))
        cases rule with
        | constant value =>
          rw [hconstant ⟨value, hrule⟩] at hfold
          cases hfold
          rw [bind_of_error (validate_created hcreate)] at hrun
          cases hrun
          exact ⟨.constant hrule, _, rfl⟩
        | test v lo hi =>
          -- All lines are laid, so that nothing is left to fail.
          have hacc := Dependencies.acc_of_inOrder (inOrder_of_fitsAll hfits hnodup) (by simp)
          obtain ⟨r, t'', hvalidate, hr, -⟩ := hlaid'.validate
            (fun x => ⟨hbelow x, htest ⟨v, lo, hi, hrule⟩ x⟩) hacc ⟨v, lo, hi, hrule⟩
          rw [bind_of_ok hvalidate,
            bind_of_ok (observe_of_ok (Laid.builtVertex_eq_ok_iff.mpr hr))] at hrun
          simp only [ne_eq, not_true_eq_false, ↓reduceIte] at hrun
          cases hrun

end Failing

end Document

end DecisionDiagram
