import DecisionDiagram.Proofs.ReachableVertices
import DecisionDiagram.Walk.DepthFirst
/-! Depth-first walks meet exactly the vertices that are to be found off those seen before, and
report a cycle if and only if there is one among them. A vertex is finished before the walk goes
back above it, so whatever leads back to the current path is tried while it still is the current
path. -/
namespace DecisionDiagram.Store
open Relation

variable {s : Store} {budget : Option Nat} {visited seen : List Ref} {frames : List Frame}

theorem visited_descend : (s.descend budget visited frames).visited =
    visited ++ (s.descend budget visited frames).met := by
  fun_induction Store.descend <;> simp_all [Pass.stopped, Pass.prepend]

theorem met_descend_new (s : Store) (budget : Option Nat) (visited : List Ref)
    (frames : List Frame) : (s.descend budget visited frames).met.Nodup ∧
      ∀ x ∈ (s.descend budget visited frames).met, x ∉ visited := by
  fun_induction Store.descend with
  | case1 => simp [Pass.stopped]
  | case2 => simp [Pass.stopped]
  | case3 _ _ _ _ _ ih => exact ih
  | case4 => simp
  | case5 _ _ _ _ _ _ _ _ _ ih => exact ih
  | case6 budget visited _ r c rest outer _ hnew ih =>
    simp only [Pass.prepend, List.nodup_cons, List.mem_cons]
    refine ⟨⟨fun hc => ih.2 c hc (by simp), ih.1⟩, ?_⟩
    rintro x (rfl | hx)
    · exact hnew
    · exact fun hv => ih.2 x hx (List.mem_append_left _ hv)

theorem exists_of_mem_met {x : Ref} (hx : x ∈ (s.descend budget visited frames).met) :
    ∃ f ∈ frames, ∃ y ∈ f.rest, y ∉ visited ∧ ReflTransGen (s.LeadsOff visited) y x := by
  fun_induction Store.descend with
  | case1 => simp [Pass.stopped] at hx
  | case2 => simp [Pass.stopped] at hx
  | case3 _ _ _ _ _ ih =>
    obtain ⟨f, hf, hy⟩ := ih hx
    exact ⟨f, List.mem_cons_of_mem _ hf, hy⟩
  | case4 => simp at hx
  | case5 _ _ _ r c rest outer _ _ ih =>
    obtain ⟨f, hf, y, hy, hreach⟩ := ih hx
    rcases List.mem_cons.mp hf with rfl | hf
    · exact ⟨_, List.mem_cons_self, y, List.mem_cons_of_mem _ hy, hreach⟩
    · exact ⟨f, List.mem_cons_of_mem _ hf, y, hy, hreach⟩
  | case6 budget visited _ r c rest outer _ hnew ih =>
    simp only [Pass.prepend, List.mem_cons] at hx
    rcases hx with rfl | hx
    · exact ⟨_, List.mem_cons_self, x, List.mem_cons_self, hnew, .refl⟩
    · obtain ⟨f, hf, y, hy, hfresh, hreach⟩ := ih hx
      have hold : y ∉ visited := fun hv => hfresh (List.mem_append_left _ hv)
      have hwide := ReflTransGen.mono (fun _ _ => leadsOff_of_append) _ _ hreach
      rcases List.mem_cons.mp hf with rfl | hf
      · exact ⟨_, List.mem_cons_self, c, List.mem_cons_self, hnew, .head ⟨hy, hold⟩ hwide⟩
      · rcases List.mem_cons.mp hf with rfl | hf
        · exact ⟨_, List.mem_cons_self, y, List.mem_cons_of_mem _ hy, hold, hwide⟩
        · exact ⟨f, List.mem_cons_of_mem _ hf, y, hy, hold, hwide⟩

theorem tried_of_cycle_eq_none (h : (s.descend none visited frames).cycle = none) :
    (∀ f ∈ frames, ∀ y ∈ f.rest, y ∈ visited ++ (s.descend none visited frames).met) ∧
      ∀ x ∈ (s.descend none visited frames).met, ∀ y, s.Leads x y →
        y ∈ visited ++ (s.descend none visited frames).met := by
  generalize hb : (none : Option Nat) = budget at h ⊢
  -- Without a budget and a cycle a frame is left only when all its children have been visited.
  fun_induction Store.descend with
  | case1 => simp_all
  | case2 => simp [Pass.stopped]
  | case3 budget visited _ r outer ih =>
    refine ⟨fun f hf y hy => ?_, (ih hb h).2⟩
    rcases List.mem_cons.mp hf with rfl | hf
    · simp at hy
    · exact (ih hb h).1 f hf y hy
  | case4 => simp at h
  | case5 budget visited _ r c rest outer _ hold ih =>
    refine ⟨fun f hf y hy => ?_, (ih hb h).2⟩
    rcases List.mem_cons.mp hf with rfl | hf
    · rcases List.mem_cons.mp hy with rfl | hy
      · exact List.mem_append_left _ hold
      · exact (ih hb h).1 _ List.mem_cons_self y hy
    · exact (ih hb h).1 f (List.mem_cons_of_mem _ hf) y hy
  | case6 budget visited _ r c rest outer _ _ ih =>
    obtain ⟨hframes, hmet⟩ := ih (by simp [← hb]) h
    simp only [Pass.prepend, List.append_assoc, List.singleton_append] at hframes hmet ⊢
    refine ⟨fun f hf y hy => ?_, fun x hx y hxy => ?_⟩
    · rcases List.mem_cons.mp hf with rfl | hf
      · rcases List.mem_cons.mp hy with rfl | hy
        · simp
        · exact hframes ⟨r, rest⟩ (by simp) y hy
      · exact hframes f (by simp [hf]) y hy
    · rcases List.mem_cons.mp hx with rfl | hx
      · exact hframes ⟨x, s.successors x⟩ (by simp) y hxy
      · exact hmet x hx y hxy

def OnPath (frames : List Frame) (r : Ref) : Prop := ∃ f ∈ frames, f.vertex = r

def Returns (s : Store) (visited : List Ref) (r p : Ref) : Prop :=
  ∃ z, ReflTransGen (s.LeadsOff visited) r z ∧ s.Leads z p

/-- No successor that is still to be tried is on the path above it, or leads back there. -/
def Clear (s : Store) (visited : List Ref) : List Frame → Prop
  | [] => True
  | f :: outer =>
    (∀ y ∈ f.rest, ∀ p, OnPath (f :: outer) p → y ≠ p ∧ (y ∉ visited → ¬ s.Returns visited y p)) ∧
      s.Clear visited outer

theorem onPath_cons {f : Frame} {r : Ref} :
    OnPath (f :: frames) r ↔ r = f.vertex ∨ OnPath frames r := by
  simp [OnPath, eq_comm]

theorem onPath_rest {r p : Ref} {a b : List Ref} {outer : List Frame} :
    OnPath (⟨r, a⟩ :: outer) p ↔ OnPath (⟨r, b⟩ :: outer) p := by
  simp [onPath_cons]

theorem returns_self_of_transGen {c : Ref} (h : TransGen (s.LeadsOff visited) c c) :
    s.Returns visited c c := by
  obtain ⟨z, hcz, hzc⟩ := TransGen.tail'_iff.mp h
  exact ⟨z, hcz, hzc.1⟩

theorem returns_of_transGen {a c : Ref} (h : TransGen (s.LeadsOff visited) a c) :
    s.Returns (visited ++ [c]) a c := by
  induction h using TransGen.head_induction_on with
  | single hac => exact ⟨_, .refl, hac.1⟩
  | @head x y hxy _ ih =>
    by_cases hyc : y = c
    · exact ⟨x, .refl, hyc ▸ hxy.1⟩
    · obtain ⟨z, hyz, hzc⟩ := ih
      exact ⟨z, .head ⟨hxy.1, by simp [hxy.2, hyc]⟩ hyz, hzc⟩

theorem not_returns_of_successors {c p : Ref} (hne : ∀ y, s.Leads c y → y ≠ p)
    (hself : ∀ y, s.Leads c y → y ∉ visited → ¬ s.Returns (visited ++ [c]) y c)
    (hpath : ∀ y, s.Leads c y → y ∉ visited → ¬ s.Returns (visited ++ [c]) y p) :
    ¬ s.Returns visited c p := by
  rintro ⟨z, hcz, hzp⟩
  rcases ReflTransGen.cases_head hcz with rfl | ⟨y, hcy, hyz⟩
  · exact hne p hzp rfl
  · rcases leadsOff_append_or (c := c) hyz with hoff | ⟨hyc, -⟩
    · exact hpath y hcy.1 hcy.2 ⟨z, hoff, hzp⟩
    · exact hself y hcy.1 hcy.2 (returns_of_transGen hyc)

theorem not_returns_of_append {c r p : Ref} (hc : ¬ s.Returns visited c p)
    (hr : r ≠ c → ¬ s.Returns (visited ++ [c]) r p) : ¬ s.Returns visited r p := by
  rintro ⟨z, hrz, hzp⟩
  by_cases hrc : r = c
  · exact hc ⟨z, hrc ▸ hrz, hzp⟩
  · rcases leadsOff_append_or (c := c) hrz with hoff | ⟨-, hcz⟩
    · exact hr hrc ⟨z, hoff, hzp⟩
    · exact hc ⟨z, hcz, hzp⟩

theorem not_mem_append_singleton {y c : Ref} (hy : y ∉ visited) (hne : y ≠ c) :
    y ∉ visited ++ [c] := by
  simp [hy, hne]

theorem Clear.of_append {c : Ref} (hc : ∀ p, OnPath frames p → ¬ s.Returns visited c p)
    (h : s.Clear (visited ++ [c]) frames) : s.Clear visited frames := by
  induction frames with
  | nil => trivial
  | cons f outer ih =>
    refine ⟨fun y hy p hp => ⟨(h.1 y hy p hp).1, fun hfresh => ?_⟩, ?_⟩
    · refine not_returns_of_append (hc p hp) fun hne => ?_
      exact (h.1 y hy p hp).2 (not_mem_append_singleton hfresh hne)
    · exact ih (fun p hp => hc p (onPath_cons.mpr (.inr hp))) h.2

theorem Clear.not_returns {c : Ref} {outer : List Frame}
    (h : s.Clear (visited ++ [c]) (⟨c, s.successors c⟩ :: outer)) {p : Ref}
    (hp : OnPath (⟨c, s.successors c⟩ :: outer) p) : ¬ s.Returns visited c p := by
  have htop : OnPath (⟨c, s.successors c⟩ :: outer) c := onPath_cons.mpr (.inl rfl)
  have hsucc : ∀ q, OnPath (⟨c, s.successors c⟩ :: outer) q → ∀ y, s.Leads c y → y ∉ visited →
      ¬ s.Returns (visited ++ [c]) y q := by
    intro q hq y hcy hy
    have hyc : y ≠ c := (h.1 y hcy c htop).1
    exact (h.1 y hcy q hq).2 (not_mem_append_singleton hy hyc)
  exact not_returns_of_successors (fun y hcy => (h.1 y hcy p hp).1) (hsucc c htop) (hsucc p hp)

theorem Clear.of_push {r c : Ref} {rest : List Ref} {outer : List Frame}
    (hc : ¬ OnPath (⟨r, rest⟩ :: outer) c)
    (h : s.Clear (visited ++ [c]) (⟨c, s.successors c⟩ :: ⟨r, rest⟩ :: outer)) :
    s.Clear visited (⟨r, c :: rest⟩ :: outer) := by
  have hown : ∀ p, OnPath (⟨r, rest⟩ :: outer) p → ¬ s.Returns visited c p :=
    fun p hp => h.not_returns (onPath_cons.mpr (.inr hp))
  have hwide : s.Clear visited (⟨r, rest⟩ :: outer) := h.2.of_append hown
  refine ⟨fun y hy p hpath => ?_, hwide.2⟩
  have hp : OnPath (⟨r, rest⟩ :: outer) p := onPath_rest.mp hpath
  rcases List.mem_cons.mp hy with rfl | hy
  · exact ⟨fun hyp => hc (hyp ▸ hp), fun _ => hown p hp⟩
  · exact hwide.1 y hy p hp

/-- A loop off the visited vertices passes `c`, unless it is a loop off `c` as well. -/
theorem not_loop_of_append {c x : Ref} (hc : ¬ s.Returns visited c c) (hx : x ∉ visited ++ [c])
    (h : ¬ TransGen (s.LeadsOff (visited ++ [c])) x x) : ¬ TransGen (s.LeadsOff visited) x x := by
  intro hloop
  obtain ⟨z, hxz, hzx⟩ := TransGen.tail'_iff.mp hloop
  rcases leadsOff_append_or (c := c) hxz with hoff | ⟨hxc, hcz⟩
  · exact h (.tail' hoff ⟨hzx.1, hx⟩)
  · exact hc (returns_self_of_transGen (.trans (.tail' hcz hzx) hxc))

theorem clear_of_cycle_eq_none (h : (s.descend none visited frames).cycle = none) :
    s.Clear visited frames ∧ ∀ x ∈ (s.descend none visited frames).met,
      ¬ TransGen (s.LeadsOff visited) x x := by
  generalize hb : (none : Option Nat) = budget at h ⊢
  fun_induction Store.descend with
  | case1 => simp_all
  | case2 => simp [Pass.stopped, Clear]
  | case3 budget visited _ r outer ih => exact ⟨⟨by simp, (ih hb h).1⟩, (ih hb h).2⟩
  | case4 => simp at h
  | case5 budget visited _ r c rest outer hpath hold ih =>
    obtain ⟨hclear, hmet⟩ := ih hb h
    refine ⟨⟨fun y hy p hp => ?_, hclear.2⟩, hmet⟩
    rcases List.mem_cons.mp hy with rfl | hy
    · refine ⟨?_, fun hnew => absurd hold hnew⟩
      rintro rfl
      exact hpath (by simpa [OnPath, eq_comm] using hp)
    · exact hclear.1 y hy p (onPath_rest.mp hp)
  | case6 budget visited _ r c rest outer hpath hnew ih =>
    obtain ⟨hclear, hmet⟩ := ih (by simp [← hb]) h
    have hoff : ¬ OnPath (⟨r, rest⟩ :: outer) c :=
      fun hc => hpath (by simpa [OnPath, eq_comm] using hc)
    -- The walk below `c` avoids a set that holds `c` too, so loops through `c` are ruled out apart.
    have hown : ¬ s.Returns visited c c := hclear.not_returns (onPath_cons.mpr (.inl rfl))
    refine ⟨hclear.of_push hoff, fun x hx => ?_⟩
    simp only [Pass.prepend, List.mem_cons] at hx
    rcases hx with rfl | hx
    · exact fun hloop => hown (returns_self_of_transGen hloop)
    · exact not_loop_of_append hown ((met_descend_new ..).2 x hx) (hmet x hx)

/-- Each frame stands at the end of a branch of the frame outside it, and tries its own successors.
-/
def Linked (s : Store) (seen : List Ref) : List Frame → Prop
  | [] => True
  | f :: outer =>
    f.vertex ∉ seen ∧ (∀ y ∈ f.rest, s.Leads f.vertex y) ∧
      (∀ g ∈ outer.head?, s.Leads g.vertex f.vertex) ∧ s.Linked seen outer

theorem Linked.rest {f : Frame} {rest : List Ref} (h : s.Linked seen (f :: frames))
    (hrest : ∀ y ∈ rest, y ∈ f.rest) : s.Linked seen (⟨f.vertex, rest⟩ :: frames) :=
  ⟨h.1, fun y hy => h.2.1 y (hrest y hy), h.2.2⟩

theorem Linked.not_mem {p : Ref} (h : s.Linked seen frames) (hp : OnPath frames p) : p ∉ seen := by
  induction frames with
  | nil => simp [OnPath] at hp
  | cons f outer ih =>
    rcases onPath_cons.mp hp with rfl | hp
    · exact h.1
    · exact ih h.2.2.2 hp

theorem Linked.reaches {f : Frame} {p : Ref} (h : s.Linked seen (f :: frames))
    (hp : OnPath (f :: frames) p) : ReflTransGen (s.LeadsOff seen) p f.vertex := by
  induction frames generalizing f with
  | nil =>
    rcases onPath_cons.mp hp with rfl | ⟨g, hg, -⟩
    · exact .refl
    · simp at hg
  | cons g outer ih =>
    rcases onPath_cons.mp hp with rfl | hp
    · exact .refl
    · exact (ih h.2.2.2 hp).tail ⟨h.2.2.1 g rfl, h.1⟩

theorem loop_of_cycle {a b : Ref} (hlinked : s.Linked seen frames) (hseen : ∀ x ∈ seen, x ∈ visited)
    (h : (s.descend budget visited frames).cycle = some (a, b)) :
    (s.LeadsOff seen a b ∧ ReflTransGen (s.LeadsOff seen) b a) ∧
      ∃ f ∈ frames, ReflTransGen (s.LeadsOff seen) f.vertex b := by
  -- `case4` is a child on the path, `case5` one seen before, `case6` a new one that is pushed.
  fun_induction Store.descend with
  | case1 => simp [Pass.stopped] at h
  | case2 => simp [Pass.stopped] at h
  | case3 _ _ _ _ _ ih =>
    obtain ⟨hloop, f, hf, hreach⟩ := ih hlinked.2.2.2 hseen h
    exact ⟨hloop, f, List.mem_cons_of_mem _ hf, hreach⟩
  | case4 budget visited _ r c rest outer hpath =>
    obtain ⟨rfl, rfl⟩ := Prod.mk.inj (Option.some.inj h)
    have hc : OnPath (⟨r, c :: rest⟩ :: outer) c := by simpa [OnPath, eq_comm] using hpath
    have hback : s.LeadsOff seen r c := ⟨hlinked.2.1 c List.mem_cons_self, hlinked.not_mem hc⟩
    obtain ⟨f, hf, hfc⟩ := id hc
    exact ⟨⟨hback, hlinked.reaches hc⟩, f, hf, hfc ▸ .refl⟩
  | case5 _ _ _ r c rest outer _ _ ih =>
    obtain ⟨hloop, f, hf, hreach⟩ := ih (hlinked.rest fun y hy => List.mem_cons_of_mem _ hy) hseen h
    rcases List.mem_cons.mp hf with rfl | hf
    · exact ⟨hloop, _, List.mem_cons_self, hreach⟩
    · exact ⟨hloop, f, List.mem_cons_of_mem _ hf, hreach⟩
  | case6 budget visited _ r c rest outer _ hnew ih =>
    have hc : s.Leads r c := hlinked.2.1 c List.mem_cons_self
    have hfresh : c ∉ seen := fun hc => hnew (hseen c hc)
    have hrest : s.Linked seen (⟨r, rest⟩ :: outer) :=
      hlinked.rest fun y hy => List.mem_cons_of_mem _ hy
    have hpush : s.Linked seen (⟨c, s.successors c⟩ :: ⟨r, rest⟩ :: outer) :=
      ⟨hfresh, fun _ hy => hy, by simpa using hc, hrest⟩
    obtain ⟨hloop, f, hf, hreach⟩ := ih hpush (fun x hx => List.mem_append_left _ (hseen x hx)) h
    refine ⟨hloop, ?_⟩
    rcases List.mem_cons.mp hf with rfl | hf
    · exact ⟨_, List.mem_cons_self, .head ⟨hc, hfresh⟩ hreach⟩
    · rcases List.mem_cons.mp hf with rfl | hf
      · exact ⟨_, List.mem_cons_self, hreach⟩
      · exact ⟨f, List.mem_cons_of_mem _ hf, hreach⟩

variable {start : Ref}

theorem depthFirst_of_mem (h : start ∈ seen) : s.depthFirst none seen start = .stopped seen := by
  simp [depthFirst, h]

theorem depthFirst_of_not_mem (h : start ∉ seen) : s.depthFirst none seen start =
    (s.descend none (seen ++ [start]) [⟨start, s.successors start⟩]).prepend start := by
  simp [depthFirst, h]

theorem visited_depthFirst :
    (s.depthFirst none seen start).visited = seen ++ (s.depthFirst none seen start).met := by
  by_cases h : start ∈ seen
  · simp [depthFirst_of_mem h, Pass.stopped]
  · simp [depthFirst_of_not_mem h, Pass.prepend, visited_descend]

theorem nodup_met_depthFirst : (s.depthFirst none seen start).met.Nodup := by
  by_cases h : start ∈ seen
  · simp [depthFirst_of_mem h, Pass.stopped]
  · rw [depthFirst_of_not_mem h]
    obtain ⟨hnodup, hnew⟩ := s.met_descend_new none (seen ++ [start]) [⟨start, s.successors start⟩]
    exact List.nodup_cons.mpr ⟨fun hmet => hnew start hmet (by simp), hnodup⟩

theorem mem_met_depthFirst_iff (hstart : start ∉ seen)
    (h : (s.depthFirst none seen start).cycle = none) {x : Ref} :
    x ∈ (s.depthFirst none seen start).met ↔ ReflTransGen (s.LeadsOff seen) start x := by
  rw [depthFirst_of_not_mem hstart] at h ⊢
  obtain ⟨hframe, hmet⟩ := tried_of_cycle_eq_none h
  simp only [Pass.prepend, List.mem_cons, List.append_assoc, List.singleton_append] at hframe hmet ⊢
  constructor
  · rintro (rfl | hx)
    · exact .refl
    · obtain ⟨f, hf, y, hy, hfresh, hreach⟩ := exists_of_mem_met hx
      obtain rfl := List.mem_singleton.mp hf
      refine .head ⟨hy, fun hold => hfresh (List.mem_append_left _ hold)⟩ ?_
      exact ReflTransGen.mono (fun _ _ => leadsOff_of_append) _ _ hreach
  · intro hreach
    induction hreach with
    | refl => exact .inl rfl
    | @tail y z _ hyz ih =>
      have hz : z ∈ seen ++ start ::
          (s.descend none (seen ++ [start]) [⟨start, s.successors start⟩]).met := by
        rcases ih with rfl | hy
        · exact hframe _ (.inl rfl) z hyz.1
        · exact hmet y hy z hyz.1
      simpa [hyz.2] using hz

theorem exists_of_cycle {a b : Ref} (hstart : start ∉ seen)
    (h : (s.depthFirst none seen start).cycle = some (a, b)) :
    ReflTransGen (s.LeadsOff seen) start b ∧ s.LeadsOff seen a b ∧
    ReflTransGen (s.LeadsOff seen) b a := by
  rw [depthFirst_of_not_mem hstart] at h
  have hlinked : s.Linked seen [⟨start, s.successors start⟩] :=
    ⟨hstart, fun _ hy => hy, by simp, trivial⟩
  obtain ⟨⟨hback, hreach⟩, f, hf, hstart⟩ :=
    loop_of_cycle hlinked (fun x hx => List.mem_append_left _ hx) h
  obtain rfl := List.mem_singleton.mp hf
  exact ⟨hstart, hback, hreach⟩

theorem cycle_depthFirst_eq_none_iff (hstart : start ∉ seen) :
    (s.depthFirst none seen start).cycle = none ↔
      ¬ ∃ x, ReflTransGen (s.LeadsOff seen) start x ∧ TransGen (s.LeadsOff seen) x x := by
  constructor
  · rintro h ⟨x, hreach, hloop⟩
    have hx := (mem_met_depthFirst_iff hstart h).mpr hreach
    rw [depthFirst_of_not_mem hstart] at h hx
    obtain ⟨hclear, hmet⟩ := clear_of_cycle_eq_none h
    have hown : ¬ s.Returns seen start start := hclear.not_returns (onPath_cons.mpr (.inl rfl))
    rcases List.mem_cons.mp hx with rfl | hx
    · exact hown (returns_self_of_transGen hloop)
    · exact not_loop_of_append hown ((met_descend_new ..).2 x hx) (hmet x hx) hloop
  · intro hnone
    rw [Option.eq_none_iff_forall_ne_some]
    rintro ⟨a, b⟩ hcycle
    obtain ⟨hreach, hback, hloop⟩ := exists_of_cycle hstart hcycle
    exact hnone ⟨b, hreach, .tail' hloop hback⟩

/-- A walk of its own reports a cycle if and only if its start is not on solid ground. -/
theorem cycle_depthFirst_nil_eq_none_iff :
    (s.depthFirst none [] start).cycle = none ↔ s.Grounded start := by
  rw [cycle_depthFirst_eq_none_iff List.not_mem_nil, leadsOff_nil, grounded_iff]
  rfl

theorem mem_met_depthFirst_nil_iff (h : s.Grounded start) {x : Ref} :
    x ∈ (s.depthFirst none [] start).met ↔ s.Reaches start x := by
  rw [mem_met_depthFirst_iff List.not_mem_nil (cycle_depthFirst_nil_eq_none_iff.mpr h),
    leadsOff_nil]
  rfl

end DecisionDiagram.Store
