import DecisionDiagram.Proofs.BuildDecides
/-! Diagrams that are built beside one another. Building adds vertices behind those that are there,
which stay as they are; so a diagram that was built before keeps its root. -/
namespace DecisionDiagram

namespace Store

variable {s s' s'' : Store} {d source target hi lo q : Ref} {l : Label} {v : Int} {bound : Nat}

/-- The vertices before the bound are the same. -/
def SameBelow (bound : Nat) (s s' : Store) : Prop := ∀ r < bound, s'.vertex? r = s.vertex? r

theorem SameBelow.trans (h : s.SameBelow bound s') (h' : s'.SameBelow bound s'') :
    s.SameBelow bound s'' :=
  fun r hr => (h' r hr).trans (h r hr)

theorem sameBelow_modify (f : Vertex → Vertex) (hq : bound ≤ q) :
    s.SameBelow bound (s.modify q f) :=
  fun _ hr => s.vertex?_modify_ne (Nat.ne_of_gt (Nat.lt_of_lt_of_le hr hq)) f

theorem sameBelow_push (x : Vertex) (hs : bound ≤ s.size) : s.SameBelow bound (s.push x) := by
  intro r hr
  rw [vertex?_push, if_neg (Nat.ne_of_lt (Nat.lt_of_lt_of_le hr hs))]

theorem sameBelow_linkedInner (ht : bound ≤ target) :
    s.SameBelow bound (s.linkedInner d source l target) := by
  unfold linkedInner linked unheld
  split
  · exact fun _ _ => rfl
  · split
    · exact (sameBelow_modify _ ht).trans (sameBelow_modify _ ht)
    · exact sameBelow_modify _ ht

theorem sameBelow_grown (hs : bound ≤ s.size) (hd : bound ≤ d) (hhi : bound ≤ hi)
    (hlo : bound ≤ lo) : s.SameBelow bound (s.grown d v hi lo) :=
  (((sameBelow_push _ hs).trans (sameBelow_linkedInner hhi)).trans
    (sameBelow_linkedInner hlo)).trans
    (sameBelow_modify _ hd)

theorem sameBelow_create {created : Store} (h : Diagram.create s = .ok d created) :
    s.SameBelow s.size created := by
  obtain ⟨rfl, rfl⟩ := EStateM.Result.ok.inj h
  refine ((sameBelow_push _ (Nat.le_refl _)).trans (sameBelow_push _ ?_)).trans
    (sameBelow_push _ ?_)
  · simp [size_push]
  · rw [size_push, size_push]
    omega

end Store

theorem Rooted.beside {s s' : Store} {d : Ref} {g : Registry} {yes no root : Ref}
    (h : Rooted s d g yes no root) (hsame : s.SameBelow s.size s') : Rooted s' d g yes no root := by
  have hbody : ∀ r, r = d ∨ g.Member yes no r → s'.body? r = s.body? r := by
    intro r hr
    have hlt : r < s.size := by
      rcases hr with rfl | hr
      · exact Store.lt_size_of_body h.wired.diagram
      · exact h.wired.member_lt_size hr
    rw [Store.body?, hsame r hlt, ← Store.body?]
  exact ⟨h.wired.congr hbody, h.found, h.wired.grounded_congr h.member h.grounded fun r hr =>
    hbody r (.inr hr)⟩

namespace Document

section Build

variable {lines : Lines} {root id v lo hi : Int} {bound : Nat} {s s' : Store} {d : Ref}
variable {g : Registry} {yes no : Ref}
variable {done order : List Int} {built built' : List (Int × Ref)}

theorem Laid.grown_of_buildLine (h : Laid lines s d g yes no done built)
    (hrule : lines.lookup id = some (.test v lo hi))
    (hrun : buildLine d lines built id s = .ok built' s') :
    ∃ hiRef loRef, built.lookup hi = some hiRef ∧ built.lookup lo = some loRef ∧
      s' = s.grown d v hiRef loRef ∧ built' = (id, s.size) :: built := by
  rw [h.buildLine_test hrule] at hrun
  split at hrun
  · cases hrun
  · rename_i hfresh
    obtain ⟨hiRef, _, hiRun, hrest⟩ := bind_eq_ok_iff.mp hrun
    obtain ⟨hhi, rfl⟩ := observe_eq_ok_iff.mp hiRun
    obtain ⟨loRef, _, loRun, hnode⟩ := bind_eq_ok_iff.mp hrest
    obtain ⟨hlo, rfl⟩ := observe_eq_ok_iff.mp loRun
    obtain ⟨r, t, hadd, hlast⟩ := bind_eq_ok_iff.mp hnode
    rw [builtVertex_eq_ok_iff] at hhi hlo
    rw [h.isOpen.wired.addNode_vertices h.isOpen.root (by simpa using hfresh) (h.member hhi)
      (h.member hlo)] at hadd
    cases hlast
    split at hadd
    · cases hadd
    · split at hadd
      · cases hadd
      · cases hadd
        exact ⟨hiRef, loRef, hhi, hlo, rfl, rfl⟩

theorem Laid.sameBelow_of_buildLine (h : Laid lines s d g yes no done built) (hd : bound ≤ d)
    (hyes : bound ≤ yes) (hno : bound ≤ no) (hbuilt : ∀ a r, built.lookup a = some r → bound ≤ r)
    (hdefined : (lines.lookup id).isSome) (hrun : buildLine d lines built id s = .ok built' s') :
    s.SameBelow bound s' ∧ ∀ a r, built'.lookup a = some r → bound ≤ r := by
  have hs : bound ≤ s.size := hd.trans (Nat.le_of_lt (Store.lt_size_of_body h.isOpen.wired.diagram))
  have hcons : ∀ q, bound ≤ q → ∀ a r, ((id, q) :: built).lookup a = some r → bound ≤ r := by
    intro q hq a r ha
    rw [lookup_cons_eq_ite] at ha
    split at ha
    · exact Option.some.inj ha ▸ hq
    · exact hbuilt a r ha
  obtain ⟨rule, hrule⟩ := Option.isSome_iff_exists.mp hdefined
  cases rule with
  | constant value =>
    rw [h.buildLine_constant hrule] at hrun
    cases hrun
    refine ⟨fun _ _ => rfl, hcons _ ?_⟩
    cases value
    · exact hno
    · exact hyes
  | test v lo hi =>
    obtain ⟨hiRef, loRef, hhi, hlo, rfl, rfl⟩ := h.grown_of_buildLine hrule hrun
    exact ⟨Store.sameBelow_grown hs hd (hbuilt hi hiRef hhi) (hbuilt lo loRef hlo), hcons _ hs⟩

theorem Laid.sameBelow_of_foldlM (h : Laid lines s d g yes no done built) (hd : bound ≤ d)
    (hyes : bound ≤ yes) (hno : bound ≤ no) (hbuilt : ∀ a r, built.lookup a = some r → bound ≤ r)
    (hnodup : (done ++ order).Nodup) (hdefined : ∀ a ∈ order, (lines.lookup a).isSome)
    (hrun : order.foldlM (buildLine d lines) built s = .ok built' s') : s.SameBelow bound s' := by
  induction order generalizing s g done built with
  | nil =>
    cases hrun
    exact fun _ _ => rfl
  | cons id order ih =>
    have hid := hdefined id List.mem_cons_self
    have hnew : id ∉ done :=
      fun hmem => (List.nodup_append.mp hnodup).2.2 id hmem id List.mem_cons_self rfl
    have happend : done ++ id :: order = done ++ [id] ++ order := by simp
    rw [List.foldlM_cons] at hrun
    obtain ⟨next, t, hstep, hrest⟩ := bind_eq_ok_iff.mp hrun
    obtain ⟨hsame, hlater⟩ := h.sameBelow_of_buildLine hd hyes hno hbuilt hid hstep
    obtain ⟨t', g', next', hstep', hnext⟩ :=
      h.buildLine_of_fits hnew hid fun v lo hi hrule => h.fits_of_buildLine hrule hstep
    obtain ⟨rfl, rfl⟩ := EStateM.Result.ok.inj (hstep.symm.trans hstep')
    exact hsame.trans (ih hnext hlater (happend ▸ hnodup)
      (fun a ha => hdefined a (List.mem_cons_of_mem _ ha)) hrest)

theorem sameBelow_of_build (hrun : build lines root s = .ok d s') : s.SameBelow s.size s' := by
  obtain ⟨ids, layers, created, t, g, built, r, hids, hlayers, hcreate, hfold, -, hlaid,
    hvalidate⟩ := laid_of_build hrun
  obtain ⟨hnodup, hsome⟩ := defined_of_layers hids hlayers
  obtain ⟨-, -, rfl⟩ := hlaid.isOpen.validate_ok_iff.mp hvalidate
  have hd : s.size ≤ d := by
    cases hcreate
    exact Nat.le_refl _
  have hlines :=
    (Laid.created hcreate).sameBelow_of_foldlM hd (by omega) (by omega) (by simp) hnodup hsome hfold
  exact ((Store.sameBelow_create hcreate).trans hlines).trans (Store.sameBelow_modify _ hd)

end Build

end Document

end DecisionDiagram
