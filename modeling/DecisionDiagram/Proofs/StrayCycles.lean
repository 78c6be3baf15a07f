import DecisionDiagram.Proofs.EquivalentDiagrams
import DecisionDiagram.Proofs.SettledDiagrams
/-! What validation leaves out. The walk below the root meets no cycle, but a part of the table in
which every node has another one above it is no hindrance to finding the root. Such strays hang on a
cycle, so the table is as large as what the walk sees if and only if its branches are free of
cycles. -/
namespace DecisionDiagram
open Relation

namespace Wired

variable {s : Store} {d : Ref} {g : Registry} {yes no root n : Ref}

/-- A node that is not below the only top node hangs on a cycle that is not there either. -/
theorem exists_cycle_above (h : Wired s d g yes no) (htop : s.topNodes g = {root})
    (hn : n ∈ g.nodes) (hstray : ¬ s.Reaches root n) :
    ∃ c ∈ g.nodes, TransGen s.Leads c c ∧ s.Reaches c n ∧ ¬ s.Reaches root c := by
  let above : Set Ref := {m | m ∈ g.nodes ∧ s.Reaches m n}
  have hup : ∀ m ∈ above, ∃ p ∈ above, Function.swap s.Leads m p := by
    rintro m ⟨hm, hmn⟩
    by_contra hall
    have hmtop : m ∈ s.topNodes g := by
      refine ⟨hm, fun p hp _ => ?_⟩
      rw [Bool.eq_false_iff]
      intro hbranch
      have hlead := (h.leads_iff hp).mpr hbranch
      exact hall ⟨p, ⟨hp, .head hlead hmn⟩, hlead⟩
    rw [htop, Set.mem_singleton_iff] at hmtop
    exact hstray (hmtop ▸ hmn)
  have hfinite : above.Finite := (List.finite_toSet g.nodes).subset fun m hm => hm.1
  obtain ⟨c, ⟨hc, hcn⟩, hloop⟩ := Cycle.exists_transGen_self hfinite ⟨n, hn, .refl⟩ hup
  exact ⟨c, hc, transGen_swap.mp hloop, hcn, fun hroot => hstray (hroot.trans hcn)⟩

end Wired

namespace Rooted

variable {s : Store} {d : Ref} {g : Registry} {yes no root n : Ref}

theorem all_reached_iff (h : Rooted s d g yes no root)
    (hcycle : ∀ n ∈ g.nodes, ¬ s.Reaches root n → ∃ c ∈ g.nodes, TransGen s.Leads c c) :
    (∀ n ∈ g.nodes, s.Reaches root n) ↔ ∀ n ∈ g.nodes, ¬ TransGen s.Leads n n := by
  constructor
  · exact fun hall n hn => Cycle.not_transGen_self_of_acc (h.grounded.of_reaches (hall n hn))
  · intro hfree n hn
    by_contra hstray
    obtain ⟨c, hc, hloop⟩ := hcycle n hn hstray
    exact hfree c hc hloop

theorem testedVariables_subset (h : Rooted s d g yes no root) :
    s.testedVariables root ⊆ (g.table.map (·.1)).toFinset := by
  intro v hv
  obtain ⟨r, hi, lo, -, hfind, -⟩ := h.exists_node (Store.mem_testedVariables.mp hv)
  rw [List.mem_toFinset, Registry.mem_keys_iff, hfind]
  rfl

theorem card_keys (h : Rooted s d g yes no root) : (g.table.map (·.1)).toFinset.card = g.size := by
  rw [List.toFinset_card_of_nodup h.wired.ascending.nodup, List.length_map, Registry.size]

theorem card_tested_eq_iff (h : Rooted s d g yes no root) :
    (s.testedVariables root).card = g.size ↔ ∀ n ∈ g.nodes, s.Reaches root n := by
  rw [← h.card_keys]
  constructor
  · intro hcard n hn
    have hsame := Finset.eq_of_subset_of_card_le h.testedVariables_subset hcard.ge
    obtain ⟨v, hv⟩ := (Registry.mem_nodes_iff h.wired.ascending).mp hn
    have hkey : v ∈ s.testedVariables root := by
      rw [hsame, List.mem_toFinset, Registry.mem_keys_iff, hv]
      rfl
    exact h.reaches_of_mem_tested .refl hv (Store.mem_testedVariables.mp hkey)
  · intro hall
    congr 1
    ext v
    rw [Store.mem_testedVariables, List.mem_toFinset, Registry.mem_keys_iff,
      h.isSome_find?_iff hall]

end Rooted

theorem Open.rooted {s s' : Store} {d r : Ref} {g : Registry} {yes no : Ref} (h : Open s d g yes no)
    (hrun : Diagram.validate d s = .ok r s') :
    s.topNodes g = {r} ∧ s' = s.updateRegistry d (·.setRoot r) ∧
    Rooted s' d (g.setRoot r) yes no r := by
  obtain ⟨htop, hcircular, rfl⟩ := h.validate_ok_iff.mp hrun
  have hr : r ∈ g.nodes := (htop ▸ Set.mem_singleton r : r ∈ s.topNodes g).1
  refine ⟨htop, rfl, h.wired.setRoot hr, rfl, ?_⟩
  rw [Store.Grounded, Store.leads_updateRegistry]
  exact Store.grounded_iff.mpr hcircular

/-- Below the root of a validated diagram there is no cycle. The nodes that are not below the root
hang on cycles that are not there either, so the layers hold a variable for every node of the table,
and all nodes are below the root, if and only if no node of the table lies on a cycle. -/
theorem validate_strays {s s' : Store} {d r : Ref} (past : History (wiringCalls d) d s)
    (hrun : Diagram.validate d s = .ok r s') :
    ∃ g layers, s'.registry? d = some g ∧ s'.layers d = .ok layers ∧ ¬ s'.Circular r ∧
      (∀ n ∈ g.nodes, ¬ s'.Reaches r n →
        ∃ c ∈ g.nodes, TransGen s'.Leads c c ∧ s'.Reaches c n ∧ ¬ s'.Reaches r c) ∧
      ((∀ n ∈ g.nodes, s'.Reaches r n) ↔ ∀ n ∈ g.nodes, ¬ TransGen s'.Leads n n) ∧
      (layers.flatten.filter (!isReserved ·)).length ≤ g.size ∧
      ((layers.flatten.filter (!isReserved ·)).length = g.size ↔
        ∀ n ∈ g.nodes, ¬ TransGen s'.Leads n n) := by
  obtain ⟨g, yes, no, hopen⟩ := Open.of_history past
  obtain ⟨htop, hs', h⟩ := hopen.rooted hrun
  obtain ⟨layers, hlayers, horder, hmem⟩ := h.exists_layers
  have hlength := h.length_tested (Dependencies.nodup_of_inOrder horder).1 hmem
  have hleads : s'.Leads = s.Leads := hs' ▸ Store.leads_updateRegistry _
  have hstrays : ∀ n ∈ g.nodes, ¬ s'.Reaches r n →
      ∃ c ∈ g.nodes, TransGen s'.Leads c c ∧ s'.Reaches c n ∧ ¬ s'.Reaches r c := by
    unfold Store.Reaches
    rw [hleads]
    exact fun n hn => hopen.wired.exists_cycle_above htop hn
  have hall := h.all_reached_iff fun n hn hstray =>
    (hstrays n hn hstray).imp fun c hc => ⟨hc.1, hc.2.1⟩
  refine ⟨g.setRoot r, layers, h.wired.registry?, hlayers, Store.grounded_iff.mp h.grounded,
    hstrays, hall, ?_, ?_⟩
  · rw [hlength, ← h.card_keys]
    exact Finset.card_le_card h.testedVariables_subset
  · rw [hlength, h.card_tested_eq_iff, hall]

/-- Nodes for the variables 1 to 4, of which the last three form a cycle: its root is the node of 1.
-/
def strayCycle : Store :=
  (Edit.after Diagram.create {}).afterCalls 0
    [.addNode 1 .nothing .nothing, .addNode 2 .nothing .nothing,
    .addNode 3 .nothing .nothing, .addNode 4 .nothing .nothing,
      .setEdge (.variable 2) (.variable 3) (.flag true),
    .setEdge (.variable 3) (.variable 4) (.flag true),
      .setEdge (.variable 4) (.variable 2) (.flag true)]

theorem strayCycle_history : History (wiringCalls 0) 0 strayCycle := History.fresh {} rfl rfl

theorem strayCycle_validate : Diagram.validate 0 strayCycle =
    .ok 3 (strayCycle.updateRegistry 0 (·.setRoot 3)) := by
  obtain ⟨g, yes, no, h⟩ := Open.of_history strayCycle_history
  obtain rfl : g = { table := [(1, 3), (2, 4), (3, 5), (4, 6)] } :=
    Option.some.inj (h.wired.registry?.symm.trans rfl)
  have hbelow : ∀ r ∈ [1, 2, 3], ∀ q ∈ strayCycle.successors r, q ∈ [1, 2, 3] ∧ q < r := by decide
  exact h.validate_of_candidate rfl (Store.grounded_of_lt hbelow 3 (by decide))

theorem validate_strays_strayCycle : History (wiringCalls 0) 0 strayCycle ∧ ∃ s' g layers,
    Diagram.validate 0 strayCycle = .ok 3 s' ∧ s'.registry? 0 = some g ∧ s'.layers 0 = .ok layers ∧
      (layers.flatten.filter (!isReserved ·)).length ≤ g.size := by
  obtain ⟨g, layers, hg, hlayers, -, -, -, hle, -⟩ :=
    validate_strays strayCycle_history strayCycle_validate
  exact ⟨strayCycle_history, _, g, layers, strayCycle_validate, hg, hlayers, hle⟩

theorem validate_ignores_strayCycle : History (wiringCalls 0) 0 strayCycle ∧ ∃ s' g,
    Diagram.validate 0 strayCycle = .ok 3 s' ∧ s'.registry? 0 = some g ∧ 4 ∈ g.nodes ∧
      TransGen s'.Leads 4 4 ∧ ¬ s'.Reaches 3 4 := by
  refine ⟨strayCycle_history, _, { table := [(1, 3), (2, 4), (3, 5), (4, 6)], root := some 3 },
    strayCycle_validate, rfl, by decide, ?_, ?_⟩
  · have hlead : ∀ a b, b ∈ (strayCycle.updateRegistry 0 (·.setRoot 3)).successors a →
        (strayCycle.updateRegistry 0 (·.setRoot 3)).Leads a b := fun _ _ hb => hb
    exact .head (hlead 4 5 (by decide))
      (.head (hlead 5 6 (by decide)) (.single (hlead 6 4 (by decide))))
  · have hclosed : ∀ r ∈ [1, 2, 3], ∀ q ∈ (strayCycle.updateRegistry 0 (·.setRoot 3)).successors r,
        q ∈ [1, 2, 3] := by decide
    intro hreach
    exact absurd (Store.mem_of_reaches hclosed (by decide) hreach) (by decide)

end DecisionDiagram
