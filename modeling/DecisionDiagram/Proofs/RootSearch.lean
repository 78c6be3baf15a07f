import DecisionDiagram.Proofs.ParentRecords
/-! The search for the root looks at parents, and what it finds out is about branches. If every node
has another node above it, then somewhere the nodes go round in a cycle, and the search comes upon
it. -/
namespace DecisionDiagram
open Relation

namespace Store

variable {s : Store} {seen : List Ref} {a b r : Ref}

/-- The nodes of the table that no other node of the table has as a branch. -/
def topNodes (s : Store) (g : Registry) : Set Ref :=
  {r | r ∈ g.nodes ∧ ∀ p ∈ g.nodes, p ≠ r → s.hasBranch p r = false}

theorem leadsOff_of_reaches (hold : ∀ x ∈ seen, s.Grounded x) (hab : s.Reaches a b)
    (hb : ¬ s.Grounded b) : ReflTransGen (s.LeadsOff seen) a b := by
  induction hab with
  | refl => exact .refl
  | tail _ hxy ih =>
    have hx := ih fun hground => hb (hground.of_leads hxy)
    exact hx.tail ⟨hxy, fun hseen => hb (hold _ hseen)⟩

theorem leadsOff_of_loop (hold : ∀ x ∈ seen, s.Grounded x) (hloop : TransGen s.Leads a a)
    (ha : ¬ s.Grounded a) : TransGen (s.LeadsOff seen) a a := by
  obtain ⟨c, hac, hca⟩ := TransGen.tail'_iff.mp hloop
  have hc := leadsOff_of_reaches hold hac fun hground => ha (hground.of_leads hca)
  exact .tail' hc ⟨hca, fun hseen => ha (hold _ hseen)⟩

theorem grounded_of_cycle_eq_none (hold : ∀ x ∈ seen, s.Grounded x)
    (h : (s.depthFirst none seen r).cycle = none) : s.Grounded r := by
  by_cases hr : r ∈ seen
  · exact hold r hr
  · rw [cycle_depthFirst_eq_none_iff hr] at h
    rw [grounded_iff]
    rintro ⟨a, hra, hloop⟩
    have ha : ¬ s.Grounded a := fun hground => grounded_iff.mp hground ⟨a, .refl, hloop⟩
    exact h ⟨a, leadsOff_of_reaches hold hra ha, leadsOff_of_loop hold hloop ha⟩

theorem grounded_of_visited (hold : ∀ x ∈ seen, s.Grounded x)
    (h : (s.depthFirst none seen r).cycle = none) :
    ∀ x ∈ (s.depthFirst none seen r).visited, s.Grounded x := by
  intro x hx
  have hground := grounded_of_cycle_eq_none hold h
  rw [visited_depthFirst] at hx
  rcases List.mem_append.mp hx with hx | hx
  · exact hold x hx
  · by_cases hr : r ∈ seen
    · simp [depthFirst_of_mem hr, Pass.stopped] at hx
    · exact hground.of_reaches (reaches_of_leadsOff ((mem_met_depthFirst_iff hr h).mp hx))

theorem grounded_of_firstCycle {rs : List Ref} (hold : ∀ x ∈ seen, s.Grounded x)
    (h : s.firstCycle seen rs = none) : ∀ r ∈ rs, s.Grounded r := by
  induction rs generalizing seen with
  | nil => simp
  | cons r rs ih =>
    unfold firstCycle at h
    dsimp only at h
    split at h
    · cases h
    · rename_i hnone
      intro q hq
      rcases List.mem_cons.mp hq with rfl | hq
      · exact grounded_of_cycle_eq_none hold hnone
      · exact ih (grounded_of_visited hold hnone) h q hq

def Closes (s : Store) (a b : Ref) : Prop := s.Leads a b ∧ s.Reaches b a

theorem closes_of_cycle (h : (s.depthFirst none seen r).cycle = some (a, b)) :
    s.Reaches r b ∧ s.Closes a b := by
  have hstart : r ∉ seen := fun hmem => by simp [depthFirst_of_mem hmem, Pass.stopped] at h
  obtain ⟨hreach, hback, hloop⟩ := exists_of_cycle hstart h
  exact ⟨reaches_of_leadsOff hreach, hback.1, reaches_of_leadsOff hloop⟩

theorem closes_of_firstCycle {rs : List Ref} (h : s.firstCycle seen rs = some (a, b)) :
    (∃ r ∈ rs, s.Reaches r b) ∧ s.Closes a b := by
  induction rs generalizing seen with
  | nil => cases h
  | cons r rs ih =>
    unfold firstCycle at h
    dsimp only at h
    split at h
    · rename_i edge hcycle
      obtain rfl := Option.some.inj h
      obtain ⟨hreach, hcloses⟩ := closes_of_cycle hcycle
      exact ⟨⟨r, List.mem_cons_self, hreach⟩, hcloses⟩
    · obtain ⟨⟨q, hq, hreach⟩, hcloses⟩ := ih h
      exact ⟨⟨q, List.mem_cons_of_mem r hq, hreach⟩, hcloses⟩

end Store

namespace Wired

variable {s : Store} {d : Ref} {g : Registry} {yes no p n : Ref}

theorem nodup_nodes (h : Wired s d g yes no) : g.nodes.Nodup := by
  refine List.Nodup.map_on ?_ h.ascending.nodup.of_map
  rintro ⟨v, r⟩ hv ⟨w, q⟩ hw hrq
  obtain rfl : r = q := hrq
  rw [← lookup_eq_some_iff_mem h.ascending.nodup] at hv hw
  rw [h.nodes_inj hv hw]

theorem leads_iff (h : Wired s d g yes no) (hp : p ∈ g.nodes) :
    s.Leads p n ↔ s.hasBranch p n = true := by
  obtain ⟨v, hi, lo, _, hbody, _⟩ := h.exists_body hp
  rw [Store.Leads, Store.successors_of_body hbody, Store.hasBranch_eq_body, hbody]
  change n ∈ [hi, lo] ↔ (some hi == some n || some lo == some n) = true
  simp only [List.mem_cons, List.not_mem_nil, or_false, Bool.or_eq_true, beq_iff_eq,
    Option.some.injEq]
  rw [eq_comm (b := hi), eq_comm (b := lo)]

/-- Going up from node to node without end comes round to a cycle of branches. -/
theorem exists_circular (h : Wired s d g yes no) (hnone : s.topNodes g = ∅) (hsome : g.nodes ≠ []) :
    ∃ r ∈ g.nodes, ¬ s.Grounded r := by
  have hup : ∀ r ∈ {r | r ∈ g.nodes}, ∃ p ∈ {r | r ∈ g.nodes}, Function.swap s.Leads r p := by
    intro r hr
    by_contra hall
    have htop : r ∈ s.topNodes g := by
      refine ⟨hr, fun p hp _ => ?_⟩
      rw [Bool.eq_false_iff]
      exact fun hbranch => hall ⟨p, hp, (h.leads_iff hp).mpr hbranch⟩
    simp [hnone] at htop
  obtain ⟨r, hr⟩ := List.exists_mem_of_ne_nil _ hsome
  obtain ⟨a, ha, hloop⟩ := Cycle.exists_transGen_self (List.finite_toSet g.nodes) ⟨r, hr⟩ hup
  refine ⟨a, ha, fun hground => ?_⟩
  exact Cycle.not_transGen_self_of_acc hground (transGen_swap.mp hloop)

end Wired

namespace Open

variable {s : Store} {d : Ref} {g : Registry} {yes no r : Ref}

theorem mem_rootCandidates_iff (h : Open s d g yes no) :
    r ∈ s.rootCandidates d g ↔ r ∈ s.topNodes g := by
  unfold Store.rootCandidates Store.topNodes
  rw [List.mem_filter, Set.mem_ofPred_eq]
  refine and_congr_right fun hr => ?_
  simp only [List.all_eq_true, beq_iff_eq, Store.mem_parents_iff]
  constructor
  · intro hall p hp hpr
    rw [Bool.eq_false_iff]
    intro hbranch
    have hpd : p ≠ d := h.wired.member_ne_diagram (.inr (.inr hp))
    exact hpd (hall p ((h.mirrored r hr p hpd).mpr ⟨hp, hpr, hbranch⟩))
  · intro hall p hparent
    by_contra hpd
    obtain ⟨hp, hpr, hbranch⟩ := (h.mirrored r hr p hpd).mp hparent
    simp [hall p hp hpr] at hbranch

theorem topNodes_eq (h : Open s d g yes no) : s.topNodes g = {r | r ∈ s.rootCandidates d g} := by
  ext r
  exact h.mem_rootCandidates_iff.symm

/-- The outcome of the search, by the top nodes. It names a branch that closes a cycle among the
vertices of the diagram, or all top nodes. -/
theorem findRoot_cases (h : Open s d g yes no) :
    (∃ r, s.topNodes g = {r} ∧ s.Grounded r ∧ s.findRoot d g = .ok r) ∨
    (((∃ r, s.topNodes g = {r} ∧ ¬ s.Grounded r) ∨ s.topNodes g = ∅ ∧ g.nodes ≠ []) ∧
      ∃ a b, g.Member yes no b ∧ s.Closes a b ∧
      s.findRoot d g = .error (s.raise (.cyclicPath a b))) ∨
    ((g.nodes = [] ∨ (s.topNodes g).Nontrivial) ∧
      ∃ l, (∀ r, r ∈ l ↔ r ∈ s.topNodes g) ∧ s.findRoot d g = .error (s.raise (.rootCount l))) := by
  have htop := h.topNodes_eq
  have hnodup : (s.rootCandidates d g).Nodup := h.wired.nodup_nodes.filter _
  unfold Store.findRoot
  rcases hcs : s.rootCandidates d g with _ | ⟨r, _ | ⟨q, l⟩⟩
  · -- no candidate
    have hnone : s.topNodes g = ∅ := by simp [htop, hcs]
    by_cases hempty : g.nodes = []
    · refine .inr (.inr ⟨.inl hempty, [], by simp [hnone], ?_⟩)
      rw [hempty]
      rfl
    · obtain ⟨x, hx, hcircular⟩ := h.wired.exists_circular hnone hempty
      cases hfirst : s.firstCycle [] g.nodes with
      | none => exact absurd (Store.grounded_of_firstCycle (by simp) hfirst x hx) hcircular
      | some edge =>
        obtain ⟨a, b⟩ := edge
        obtain ⟨⟨r, hr, hreach⟩, hcloses⟩ := Store.closes_of_firstCycle hfirst
        have hmember : g.Member yes no b := h.wired.reaches_member (.inr (.inr hr)) hreach
        exact .inr (.inl ⟨.inr ⟨hnone, hempty⟩, a, b, hmember, hcloses, rfl⟩)
  · -- one candidate
    have hone : s.topNodes g = {r} := by simp [htop, hcs]
    have hr : r ∈ s.topNodes g := hone ▸ rfl
    cases hcycle : (s.depthFirst none [] r).cycle with
    | none =>
      exact .inl ⟨r, hone, Store.cycle_depthFirst_nil_eq_none_iff.mp hcycle, by simp [hcycle]⟩
    | some edge =>
      obtain ⟨a, b⟩ := edge
      obtain ⟨hreach, hcloses⟩ := Store.closes_of_cycle hcycle
      have hmember : g.Member yes no b := h.wired.reaches_member (.inr (.inr hr.1)) hreach
      have hloose : ¬ s.Grounded r := fun hground => by
        simp [Store.cycle_depthFirst_nil_eq_none_iff.mpr hground] at hcycle
      exact .inr (.inl ⟨.inl ⟨r, hone, hloose⟩, a, b, hmember, hcloses, by simp [hcycle]⟩)
  · -- several candidates
    have hne : r ≠ q := by
      rintro rfl
      simp [hcs] at hnodup
    refine .inr (.inr ⟨.inr ⟨r, ?_, q, ?_, hne⟩, r :: q :: l, by simp [htop, hcs], rfl⟩)
    · simp [htop, hcs]
    · simp [htop, hcs]

end Open

end DecisionDiagram
