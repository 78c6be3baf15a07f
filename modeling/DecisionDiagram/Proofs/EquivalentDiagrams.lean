import DecisionDiagram.Proofs.CombineEvaluations
import DecisionDiagram.Proofs.ReducedDiagram
/-! Diagrams that always come to the same truth value. Whatever the order of their variables, they
depend on the same ones, and so they have nodes for the same variables, as many models, and are
equal in order. -/
namespace DecisionDiagram
open Relation

namespace Registry

variable {g g' : Registry}

theorem size_eq (h : g.Ascending) (h' : g'.Ascending)
    (hsame : ∀ v, (g.find? v).isSome ↔ (g'.find? v).isSome) : g.size = g'.size := by
  have hkeys : g.table.map (·.1) = g'.table.map (·.1) :=
    List.Pairwise.eq_of_mem_iff h h' fun v => by rw [mem_keys_iff, mem_keys_iff, hsame]
  simpa [size] using congrArg List.length hkeys

end Registry

namespace Rooted

variable {s : Store} {d : Ref} {g : Registry} {yes no root r q : Ref} {v w : Int}

theorem isSome_find?_iff (h : Rooted s d g yes no root) (hbelow : ∀ r ∈ g.nodes, s.Reaches root r) :
    (g.find? v).isSome ↔ v ∈ s.tested root := by
  constructor
  · intro hv
    obtain ⟨r, hr⟩ := Option.isSome_iff_exists.mp hv
    exact h.mem_tested (hbelow r (h.wired.mem_nodes hr)) hr
  · intro hv
    obtain ⟨r, hi, lo, -, hfind, -⟩ := h.exists_node hv
    simp [hfind]

theorem follow_assign (h : Rooted s d g yes no root) {V : Finset Int}
    (hV : ∀ v ∈ s.tested root, v ∈ V) (σ : V → Bool) :
    s.follow (assign σ) [] root = .ok (s.truth (fun v => (assign σ v).getD false) root) := by
  rw [← h.follow_total .refl]
  refine h.wired.follow_congr h.member h.grounded fun v hv => ?_
  simp [assign, total, hV v hv]

theorem chance_eq_mean (h : Rooted s d g yes no root) {V : Finset Int}
    (hV : s.testedVariables root = V) (weight : Int → Rat) :
    s.chance root weight root = mean (fun v : V => weight v) fun σ =>
      if s.truth (fun v => (assign σ v).getD false) root then 1 else 0 := by
  subst hV
  unfold Store.chance
  congr 1
  funext σ
  simp only [h.follow_assign (fun v hv => Store.mem_testedVariables.mpr hv), Except.ok.injEq]

theorem length_tested (h : Rooted s d g yes no root) {order : List Int} (hnodup : order.Nodup)
    (hmem : ∀ v, v ∈ order ↔ ∃ r, s.Reaches root r ∧ s.var? r = some v) :
    (order.filter (!isReserved ·)).length = (s.testedVariables root).card := by
  rw [← List.toFinset_card_of_nodup (hnodup.filter _)]
  congr 1
  ext v
  rw [List.mem_toFinset, List.mem_filter, hmem, Store.mem_testedVariables]
  constructor
  · rintro ⟨⟨r, hr, hv⟩, hfree⟩
    rcases h.var?_cases hr hv with ⟨rfl, -⟩ | ⟨rfl, -⟩ | ⟨htested, -⟩
    · cases hfree
    · cases hfree
    · exact htested
  · intro hv
    obtain ⟨r, hi, lo, hr, hfind, -⟩ := h.exists_node hv
    exact ⟨⟨r, hr, h.wired.var?_of_find? hfind⟩, by simp [h.isReserved_of_mem_tested hv]⟩

theorem probability_even (h : Rooted s d g yes no root) :
    s.probability d [] = .ok (s.chance root (fun _ => 1 / 2) root) := by
  refine h.probability_eq_chance fun v _ => exact_of_weights (w := fun _ => 1 / 2) (fun x hx => ?_)
    fun _ => rfl
  cases hx

theorem modelCount_eq (h : Rooted s d g yes no root) : s.modelCount d =
    let q := s.chance root (fun _ => 1 / 2) root
    .ok ((q.num * Numeral.powTwo (s.testedVariables root).card).tdiv q.den) := by
  obtain ⟨layers, hlayers, horder, hmem⟩ := h.exists_layers
  unfold Store.modelCount
  rw [hlayers, ok_bind]
  dsimp only
  rw [h.probability_even, ok_bind,
    h.length_tested (Dependencies.nodup_of_inOrder horder).1 hmem]
  rfl

section Pair

variable {a b first second yes' no' : Ref} {g' : Registry}

theorem testedVariables_congr (ha : Rooted s a g yes no first) (hb : Rooted s b g' yes' no' second)
    (hsame : ∀ σ, s.truth σ first = s.truth σ second) :
    s.testedVariables first = s.testedVariables second := by
  ext v
  rw [Store.mem_testedVariables, Store.mem_testedVariables, ← ha.dependsOn_iff, ← hb.dependsOn_iff,
    Store.DependsOn, Store.DependsOn]
  simp only [hsame]

theorem modelCount_congr (ha : Rooted s a g yes no first) (hb : Rooted s b g' yes' no' second)
    (hsame : ∀ σ, s.truth σ first = s.truth σ second) : s.modelCount a = s.modelCount b := by
  have htested := testedVariables_congr ha hb hsame
  have hchance : ∀ weight, s.chance first weight first = s.chance second weight second := by
    intro weight
    rw [ha.chance_eq_mean htested, hb.chance_eq_mean rfl]
    simp only [hsame]
  rw [ha.modelCount_eq, hb.modelCount_eq, htested, hchance]

theorem isSome_find?_congr (ha : Rooted s a g yes no first) (hb : Rooted s b g' yes' no' second)
    (hfirst : ∀ r ∈ g.nodes, s.Reaches first r) (hsecond : ∀ r ∈ g'.nodes, s.Reaches second r)
    (hsame : ∀ σ, s.truth σ first = s.truth σ second) :
    (g.find? v).isSome ↔ (g'.find? v).isSome := by
  rw [ha.isSome_find?_iff hfirst, hb.isSome_find?_iff hsecond, ← Store.mem_testedVariables,
    ← Store.mem_testedVariables, testedVariables_congr ha hb hsame]

end Pair

end Rooted

/-- Two validated diagrams all of whose nodes are below their roots, and which come to the same
under every total assignment, have nodes for the same variables, the same number of models, and are
equal in order. -/
theorem agree_of_evaluate_eq {s : Store} {a b first second : Ref} {g g' : Registry}
    (pastFirst : History (ownCalls a) a s) (pastSecond : History (ownCalls b) b s)
    (hg : s.registry? a = some g) (hg' : s.registry? b = some g') (hroot : g.root = some first)
    (hroot' : g'.root = some second) (hfirst : ∀ r ∈ g.nodes, s.Reaches first r)
    (hsecond : ∀ r ∈ g'.nodes, s.Reaches second r)
    (hsame : ∀ σ, s.evaluate a (total σ) = s.evaluate b (total σ)) :
    (∀ v, (g.find? v).isSome ↔ (g'.find? v).isSome) ∧
      (∃ n, s.modelCount a = .ok n ∧ s.modelCount b = .ok n) ∧ s.compareDiagrams a b = .ok .eq := by
  obtain ⟨yes, no, ha⟩ := Rooted.of_history pastFirst hg hroot
  obtain ⟨yes', no', hb⟩ := Rooted.of_history pastSecond hg' hroot'
  have htruth : ∀ σ, s.truth σ first = s.truth σ second := by
    intro σ
    have hvalues := hsame σ
    rw [ha.evaluate_total, hb.evaluate_total] at hvalues
    exact Except.ok.inj hvalues
  have htables := fun v => Rooted.isSome_find?_congr (v := v) ha hb hfirst hsecond htruth
  have hcount := Rooted.modelCount_congr ha hb htruth
  refine ⟨htables, ⟨_, ha.modelCount_eq, hcount.symm.trans ha.modelCount_eq⟩, ?_⟩
  exact Rooted.compareDiagrams_of_size_eq ha hb
    (Registry.size_eq ha.wired.ascending hb.wired.ascending htables)

def conjoin (d : Ref) (v w : Int) (s : Store) : Store :=
  (Call.addNode v (.variable w) .nothing).after d ((Call.addNode w .nothing .nothing).after d s)

def conjunction : Store :=
  (conjoin 0 1 2 (Edit.after Diagram.create {})).updateRegistry 0 (·.setRoot 4)

/-- A second diagram beside it, with 2 at its root. -/
def bothOrders : Store :=
  (conjoin 5 2 1 (Edit.after Diagram.create conjunction)).updateRegistry 5 (·.setRoot 9)

theorem conjoin_history (before : Store) {created : Store} {d r : Ref} {v w : Int} {g : Registry}
    (rs : List Ref) (hcreate : Diagram.create before = .ok d created)
    (hg : Store.registry? (conjoin d v w created) d = some g)
    (hone : (conjoin d v w created).rootCandidates d g = [r]) (hr : r ∈ rs)
    (hbelow : ∀ r ∈ rs, ∀ q ∈ (conjoin d v w created).successors r, q ∈ rs ∧ q < r) :
    History (ownCalls d) d ((conjoin d v w created).updateRegistry d (·.setRoot r)) := by
  have hfresh : History (wiringCalls d) d created := ⟨before, created, hcreate, .refl⟩
  have hown : ∀ s u ref, wiringCalls d s (.addNode u (.variable ref) .nothing) ∧
      wiringCalls d s (.addNode u .nothing .nothing) := by
    simp [wiringCalls, Call.Wires, Call.Own, Call.references, Reference.Own]
  have past : History (wiringCalls d) d (conjoin d v w created) :=
    (hfresh.tail (.call _ (hown _ w w).2)).tail (.call _ (hown _ v w).1)
  obtain ⟨g', yes, no, hopen⟩ := Open.of_history past
  obtain rfl := Option.some.inj (hopen.wired.registry?.symm.trans hg)
  have hrun := hopen.validate_of_candidate hone (Store.grounded_of_lt hbelow r hr)
  have hlast :=
    (past.mono fun _ _ hc => hc.2).tail (.call .validate (by simp [Call.Own, Call.references]))
  rwa [Call.after, after_of_ok hrun] at hlast

theorem conjunction_history : History (ownCalls 0) 0 conjunction :=
  conjoin_history {} [1, 2, 3, 4] rfl rfl rfl (by decide) (by decide)

theorem Rooted.truth_conjunction {s : Store} {d : Ref} {g : Registry} {yes no root q : Ref}
    {v w : Int} (h : Rooted s d g yes no root) (hv : g.find? v = some root)
    (hw : g.find? w = some q) (hroot : s.body? root = some (decisionBody v q no))
    (hq : s.body? q = some (decisionBody w yes no)) (σ : Int → Bool) :
    s.truth σ root = (σ v && σ w) := by
  have hreach : s.Reaches root q := .single (Store.leads_of_body hroot true)
  rw [h.truth_node .refl hv hroot]
  cases σ v with
  | false => exact h.truth_no
  | true =>
    rw [if_pos rfl, h.truth_node hreach hw hq]
    cases σ w with
    | false => exact h.truth_no
    | true => exact h.truth_yes

theorem bothOrders_history :
    History (ownCalls 0) 0 bothOrders ∧ History (ownCalls 5) 5 bothOrders := by
  refine ⟨conjunction_history.tail (.elsewhere fun r hr => ?_),
    conjoin_history conjunction [6, 7, 8, 9] rfl rfl rfl (by decide) (by decide)⟩
  have hkeep : ∀ r < 5, bothOrders.vertex? r = conjunction.vertex? r := by decide
  refine hkeep r ?_
  obtain ⟨g, yes, no, hsound⟩ := Sound.of_history conjunction_history
  rcases hr with rfl | hr
  · decide
  · exact hsound.wired.member_lt_size (hsound.wired.owns_iff.mp hr)

theorem bothOrders_rooted :
    Rooted bothOrders 0 { table := [(1, 4), (2, 3)], root := some 4 } 1 2 4 ∧
    Rooted bothOrders 5 { table := [(1, 8), (2, 9)], root := some 9 } 6 7 9 := by
  obtain ⟨yes, no, hfirst⟩ := Rooted.of_history bothOrders_history.1 rfl rfl
  obtain ⟨yes', no', hsecond⟩ := Rooted.of_history bothOrders_history.2 rfl rfl
  obtain rfl : yes = 1 := Option.some.inj (hfirst.wired.branch_true.symm.trans rfl)
  obtain rfl : no = 2 := Option.some.inj (hfirst.wired.branch_false.symm.trans rfl)
  obtain rfl : yes' = 6 := Option.some.inj (hsecond.wired.branch_true.symm.trans rfl)
  obtain rfl : no' = 7 := Option.some.inj (hsecond.wired.branch_false.symm.trans rfl)
  exact ⟨hfirst, hsecond⟩

theorem agree_of_evaluate_eq_bothOrders :
    (∃ n, bothOrders.modelCount 0 = .ok n ∧ bothOrders.modelCount 5 = .ok n) ∧
      bothOrders.compareDiagrams 0 5 = .ok .eq := by
  obtain ⟨hfirst, hsecond⟩ := bothOrders_rooted
  have hlead : ∀ {r q}, q ∈ bothOrders.successors r → bothOrders.Reaches r q := fun hq => .single hq
  refine (agree_of_evaluate_eq bothOrders_history.1 bothOrders_history.2 hfirst.wired.registry?
    hsecond.wired.registry? rfl rfl ?_ ?_ fun σ => ?_).2
  · intro r hr
    rcases List.mem_pair.mp hr with rfl | rfl
    · exact .refl
    · exact hlead (by decide)
  · intro r hr
    rcases List.mem_pair.mp hr with rfl | rfl
    · exact hlead (by decide)
    · exact .refl
  · rw [hfirst.evaluate_total, hsecond.evaluate_total, hfirst.truth_conjunction (v := 1) (w :=
      2) rfl rfl rfl rfl,
      hsecond.truth_conjunction (v := 2) (w := 1) rfl rfl rfl rfl, Bool.and_comm]

end DecisionDiagram
