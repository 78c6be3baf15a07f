import DecisionDiagram.Document.Build
import DecisionDiagram.Proofs.DependencyLayers
/-! Node lines as a graph: which lines the root line reaches, in which order they are built, and
when they make sense as a diagram. -/
namespace DecisionDiagram.Document
open Relation

variable {lines : Lines} {root id a b : Int} {done pending ids out needs : List Int} {rule : Rule}

def Child (lines : Lines) (a b : Int) : Prop :=
  ∃ rule, lines.lookup a = some rule ∧ b ∈ rule.children

def Below (lines : Lines) : Int → Int → Prop := ReflTransGen (Child lines)

/-- The lines below the root line that make a diagram: what is named is defined, no line comes back
to itself, the root line is a test, and the tests have variables of their own and two children that
are not the same vertex. -/
structure Sensible (lines : Lines) (root : Int) : Prop where
  defined : ∀ a, Below lines root a → (lines.lookup a).isSome
  acyclic : ∀ a, Below lines root a → ¬ TransGen (Child lines) a a
  rootTest : ∃ v lo hi, lines.lookup root = some (.test v lo hi)
  distinct : ∀ a b v lo hi lo' hi', Below lines root a → Below lines root b →
    lines.lookup a = some (.test v lo hi) → lines.lookup b = some (.test v lo' hi') → a = b
  unreserved : ∀ a v lo hi, Below lines root a → lines.lookup a = some (.test v lo hi) →
    isReserved v = false
  branches : ∀ a v lo hi, Below lines root a → lines.lookup a = some (.test v lo hi) →
    lo ≠ hi ∧ ∀ value,
      ¬ (lines.lookup lo = some (.constant value) ∧ lines.lookup hi = some (.constant value))

theorem child_of_test {v lo hi : Int} (h : lines.lookup a = some (.test v lo hi)) :
    Child lines a b ↔ b = lo ∨ b = hi := by
  unfold Child
  simp [h, Rule.children]

theorem child_iff :
    Child lines a b ↔ ∃ v lo hi, lines.lookup a = some (.test v lo hi) ∧ (b = lo ∨ b = hi) := by
  constructor
  · rintro ⟨_ | ⟨v, lo, hi⟩, hrule, hb⟩
    · simp [Rule.children] at hb
    · exact ⟨v, lo, hi, hrule, by simpa [Rule.children] using hb⟩
  · rintro ⟨v, lo, hi, hrule, hb⟩
    exact (child_of_test hrule).mpr hb

theorem not_child_of_constant {value : Bool} (h : lines.lookup a = some (.constant value)) :
    ¬ Child lines a b := by
  intro hchild
  obtain ⟨_, _, _, hrule, -⟩ := child_iff.mp hchild
  simp [h] at hrule

theorem eq_of_below_constant {value : Bool} (h : lines.lookup a = some (.constant value))
    (hb : Below lines a b) : b = a := by
  rcases ReflTransGen.cases_head hb with rfl | ⟨c, hc, -⟩
  · rfl
  · exact absurd hc (not_child_of_constant h)

theorem mem_of_reach (h : reach lines done pending = .ok out) : (∀ x ∈ done, x ∈ out) ∧
    (∀ x ∈ pending, x ∈ out) ∧ (∀ x ∈ out, x ∈ done ∨ ∃ p ∈ pending, Below lines p x) ∧
    ∀ x ∈ out, x ∈ done ∨ ∃ rule, lines.lookup x = some rule ∧ ∀ c ∈ rule.children, c ∈ out := by
  fun_induction reach lines done pending with
  | case1 done =>
    obtain rfl := Except.ok.inj h
    exact ⟨fun _ hx => hx, by simp, fun _ hx => .inl hx, fun _ hx => .inl hx⟩
  | case2 done id rest hold ih =>
    obtain ⟨hdone, hrest, hbelow, hclosed⟩ := ih h
    refine ⟨hdone, ?_, fun x hx => ?_, hclosed⟩
    · rintro x (_ | ⟨_, hx⟩)
      · exact hdone _ hold
      · exact hrest x hx
    · exact (hbelow x hx).imp_right fun ⟨p, hp, hpx⟩ => ⟨p, List.mem_cons_of_mem _ hp, hpx⟩
  | case3 => cases h
  | case4 done id rest hnew rule hrule ih =>
    obtain ⟨hdone, hpending, hbelow, hclosed⟩ := ih h
    have hid : id ∈ out := hdone _ List.mem_cons_self
    refine ⟨fun x hx => hdone x (List.mem_cons_of_mem _ hx), ?_, fun x hx => ?_, fun x hx => ?_⟩
    · rintro x (_ | ⟨_, hx⟩)
      · exact hid
      · exact hpending x (List.mem_append_right _ hx)
    · rcases hbelow x hx with hx | ⟨p, hp, hpx⟩
      · rcases List.mem_cons.mp hx with rfl | hx
        · exact .inr ⟨x, List.mem_cons_self, .refl⟩
        · exact .inl hx
      · rcases List.mem_append.mp hp with hp | hp
        · exact .inr ⟨id, List.mem_cons_self, .head ⟨rule, hrule, List.mem_reverse.mp hp⟩ hpx⟩
        · exact .inr ⟨p, List.mem_cons_of_mem _ hp, hpx⟩
    · rcases hclosed x hx with hx | hx
      · rcases List.mem_cons.mp hx with rfl | hx
        · exact .inr ⟨rule, hrule, fun c hc => hpending c (by simp [hc])⟩
        · exact .inl hx
      · exact .inr hx

theorem exists_reach (h : ∀ p ∈ pending, ∀ x, Below lines p x → (lines.lookup x).isSome) :
    ∃ out, reach lines done pending = .ok out := by
  fun_induction reach lines done pending with
  | case1 done => exact ⟨done, rfl⟩
  | case2 done id rest hold ih => exact ih fun p hp => h p (List.mem_cons_of_mem _ hp)
  | case3 done id rest hnew hnone =>
    have hid := h id List.mem_cons_self id .refl
    simp [hnone] at hid
  | case4 done id rest hnew rule hrule ih =>
    refine ih fun p hp x hpx => ?_
    rcases List.mem_append.mp hp with hp | hp
    · exact h id List.mem_cons_self x (.head ⟨rule, hrule, List.mem_reverse.mp hp⟩ hpx)
    · exact h p (List.mem_cons_of_mem _ hp) x hpx

theorem mem_reachable (h : reachable lines root = .ok ids) :
    (∀ x, x ∈ ids ↔ Below lines root x) ∧ (∀ x ∈ ids, (lines.lookup x).isSome) ∧ ids.Nodup := by
  unfold reachable at h
  cases hout : reach lines [] [root] with
  | error e => simp [hout, Except.map] at h
  | ok out =>
    rw [hout] at h
    obtain rfl := Except.ok.inj h
    obtain ⟨-, hroot, hbelow, hclosed⟩ := mem_of_reach hout
    simp only [mem_ascending, List.not_mem_nil, false_or,
      List.mem_singleton] at hroot hbelow hclosed ⊢
    refine ⟨fun x => ⟨fun hx => ?_, fun hx => ?_⟩, fun x hx => ?_,
      (pairwise_ascending out).imp fun hlt => Int.ne_of_lt hlt⟩
    · obtain ⟨p, rfl, hpx⟩ := hbelow x hx
      exact hpx
    · induction hx with
      | refl => exact hroot root rfl
      | tail _ hstep ih =>
        obtain ⟨rule, hrule, hall⟩ := hclosed _ ih
        obtain ⟨rule', hrule', hc⟩ := hstep
        obtain rfl := Option.some.inj (hrule.symm.trans hrule')
        exact hall _ hc
    · obtain ⟨rule, hrule, -⟩ := hclosed x hx
      simp [hrule]

theorem exists_reachable (h : ∀ a, Below lines root a → (lines.lookup a).isSome) :
    ∃ ids, reachable lines root = .ok ids := by
  have hpending : ∀ p ∈ [root], ∀ x, Below lines p x → (lines.lookup x).isSome := by
    intro p hp
    obtain rfl := List.mem_singleton.mp hp
    exact h
  obtain ⟨out, hout⟩ : ∃ out, reach lines [] [root] = .ok out := exists_reach hpending
  exact ⟨ascending out, by rw [reachable, hout]; rfl⟩

theorem mem_dependencies : (id, needs) ∈ dependencies lines ids ↔
    id ∈ ids ∧ ∃ v lo hi, lines.lookup id = some (.test v lo hi) ∧ needs = ascending [lo, hi] := by
  unfold dependencies
  rw [List.mem_filterMap]
  constructor
  · rintro ⟨x, hx, he⟩
    split at he
    · rename_i v lo hi hrule
      obtain ⟨rfl, rfl⟩ := Prod.ext_iff.mp (Option.some.inj he)
      exact ⟨hx, v, lo, hi, hrule, rfl⟩
    · cases he
  · rintro ⟨hid, v, lo, hi, hrule, rfl⟩
    exact ⟨id, hid, by rw [hrule]⟩

theorem nodup_dependencies (h : ids.Nodup) : (dependencies lines ids).keys.Nodup := by
  unfold Dependencies.keys dependencies
  rw [List.map_filterMap, List.Nodup, List.pairwise_filterMap]
  refine h.imp fun hne x hx y hy hxy => hne ?_
  split at hx
  · split at hy
    · obtain rfl := Option.some.inj hx
      obtain rfl := Option.some.inj hy
      exact hxy
    · cases hy
  · cases hx

theorem needs_dependencies :
    (dependencies lines ids).Needs a b ↔ a ∈ ids ∧ b ≠ a ∧ Child lines a b := by
  unfold Dependencies.Needs
  simp only [mem_dependencies]
  constructor
  · rintro ⟨hne, needs, ⟨ha, v, lo, hi, hrule, rfl⟩, hb⟩
    refine ⟨ha, hne, (child_of_test hrule).mpr ?_⟩
    simpa [mem_ascending] using hb
  · rintro ⟨ha, hne, hchild⟩
    obtain ⟨v, lo, hi, hrule, hb⟩ := child_iff.mp hchild
    exact ⟨hne, ascending [lo, hi], ⟨ha, v, lo, hi, hrule, rfl⟩, by simpa [mem_ascending] using hb⟩

/-- The layers hold the tests below the root and the children that these have besides themselves. -/
theorem mem_layers {layers : List (List Int)} {x : Int} (hids : reachable lines root = .ok ids)
    (hlayers : (dependencies lines ids).layers? = some layers) : x ∈ layers.flatten ↔
      (Below lines root x ∧ ∃ v lo hi, lines.lookup x = some (.test v lo hi)) ∨
      ∃ w, Below lines root w ∧ x ≠ w ∧ Child lines w x := by
  obtain ⟨hmem, -, hnodup⟩ := mem_reachable hids
  rw [(Dependencies.inOrder_of_layers? (nodup_dependencies hnodup) hlayers).2 x]
  refine or_congr ?_ (exists_congr fun w => by rw [needs_dependencies, hmem])
  rw [Dependencies.mem_keys]
  constructor
  · rintro ⟨needs, hneeds⟩
    obtain ⟨hx, v, lo, hi, hrule, -⟩ := mem_dependencies.mp hneeds
    exact ⟨(hmem x).mp hx, v, lo, hi, hrule⟩
  · rintro ⟨hx, v, lo, hi, hrule⟩
    exact ⟨_, mem_dependencies.mpr ⟨(hmem x).mpr hx, v, lo, hi, hrule, rfl⟩⟩

theorem order_of_layers {layers : List (List Int)} (hids : reachable lines root = .ok ids)
    (hlayers : (dependencies lines ids).layers? = some layers) :
    Dependencies.InOrder (fun a b => b ≠ a ∧ a ∈ ids ∧ Child lines a b) [] layers.flatten ∧
    (∀ x ∈ layers.flatten, Below lines root x) ∧
    ((∃ v lo hi, lines.lookup root = some (.test v lo hi)) → ∀ x, Below lines root x →
      x ∈ layers.flatten) ∧
    ((∃ value, lines.lookup root = some (.constant value)) → layers.flatten = []) := by
  obtain ⟨-, -, hnodup⟩ := mem_reachable hids
  obtain ⟨horder, -⟩ := Dependencies.inOrder_of_layers? (nodup_dependencies hnodup) hlayers
  have hneeds : (dependencies lines ids).Needs = fun a b => b ≠ a ∧ a ∈ ids ∧ Child lines a b := by
    funext a b
    rw [needs_dependencies]
    exact propext and_left_comm
  refine ⟨hneeds ▸ horder, fun x hx => ?_, ?_, ?_⟩
  · rcases (mem_layers hids hlayers).mp hx with ⟨hbelow, -⟩ | ⟨w, hw, -, hchild⟩
    · exact hbelow
    · exact hw.tail hchild
  · -- A line is in a layer as a test or as the child of one; only a constant root is neither.
    intro hroot x hx
    rw [mem_layers hids hlayers]
    rcases ReflTransGen.cases_tail hx with rfl | ⟨p, hp, hpx⟩
    · exact .inl ⟨.refl, hroot⟩
    · by_cases hxp : x = p
      · obtain ⟨v, lo, hi, hrule, -⟩ := child_iff.mp hpx
        exact .inl ⟨hx, v, lo, hi, hxp ▸ hrule⟩
      · exact .inr ⟨p, hp, hxp, hpx⟩
  · rintro ⟨value, hroot⟩
    refine List.eq_nil_iff_forall_not_mem.mpr fun x hx => ?_
    rcases (mem_layers hids hlayers).mp hx with ⟨hbelow, v, lo, hi, hrule⟩ | ⟨w, hw, -, hchild⟩
    · obtain rfl := eq_of_below_constant hroot hbelow
      simp [hroot] at hrule
    · obtain rfl := eq_of_below_constant hroot hw
      exact not_child_of_constant hroot hchild

end DecisionDiagram.Document
