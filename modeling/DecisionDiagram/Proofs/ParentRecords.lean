import DecisionDiagram.Proofs.CallHistory
/-! Parents mirror branches: as long as nodes are only added and edges only set, the parents that a
node records are the nodes with a branch to it. A loop at a single node is set but never recorded.
-/
namespace DecisionDiagram

/-- The nodes among the parents of a node are the other nodes that have it as a branch. -/
def Mirrored (s : Store) (d : Ref) (g : Registry) : Prop := ∀ n ∈ g.nodes, ∀ p, p ≠ d →
  (s.hasParent n p = true ↔ p ∈ g.nodes ∧ p ≠ n ∧ s.hasBranch p n = true)

namespace Wired

variable {s s' : Store} {d : Ref} {g : Registry} {yes no a b n p : Ref} {side : Bool} {v : Int}

theorem hasBranch_eq_of_body (h : s'.body? p = s.body? p) : s'.hasBranch p n = s.hasBranch p n := by
  rw [Store.hasBranch_eq_body, h, ← Store.hasBranch_eq_body]

theorem hasBranch_terminal (h : Wired s d g yes no) (hp : g.Member yes no p)
    (hterm : s.isTerminal p = true) : s.hasBranch p n = false := by
  rw [Bool.eq_false_iff]
  intro hbranch
  obtain ⟨side, hside⟩ := hasBranch_iff.mp hbranch
  rcases hp with rfl | rfl | hp
  · simp [h.branch_yes] at hside
  · simp [h.branch_no] at hside
  · simp [h.isTerminal_of_mem_nodes hp] at hterm

theorem hasBranch_node (h : Wired s d g yes no) (side : Bool) (hp : p ∈ g.nodes) :
    s.hasBranch p n = true ↔ s.next side p = some n ∨ s.branch (!side) p = some n := by
  have hnext : s.next side p = s.branch side p := by
    obtain ⟨_, _, _, _, hbody, _⟩ := h.exists_body hp
    rw [Store.next_of_body hbody, Store.branch_of_body hbody]
  rw [hasBranch_iff, hnext]
  cases side
  · constructor
    · rintro ⟨_ | _, hb⟩
      · exact .inl hb
      · exact .inr hb
    · rintro (hb | hb)
      · exact ⟨_, hb⟩
      · exact ⟨_, hb⟩
  · constructor
    · rintro ⟨_ | _, hb⟩
      · exact .inr hb
      · exact .inl hb
    · rintro (hb | hb)
      · exact ⟨_, hb⟩
      · exact ⟨_, hb⟩

theorem next_ne_other (h : Wired s d g yes no) (hp : p ∈ g.nodes) (hn : s.next side p = some n) :
    s.branch (!side) p ≠ some n := by
  obtain ⟨_, hi, lo, _, hbody, hne, _⟩ := h.exists_body hp
  rw [Store.next_eq_body, hbody] at hn
  rw [Store.branch_eq_body, hbody]
  cases side
  · obtain rfl :
      lo = n := by simpa [Vertex.next, Vertex.isTerminal, Kind.isTerminal, decisionBody,
      Vertex.branch] using hn
    simpa [decisionBody, Vertex.branch] using hne
  · obtain rfl :
      hi = n := by simpa [Vertex.next, Vertex.isTerminal, Kind.isTerminal, decisionBody,
      Vertex.branch] using hn
    simpa [decisionBody, Vertex.branch] using hne.symm

theorem hasBranch_redirected (h : Wired s d g yes no) (ha : a ∈ g.nodes) :
    (s.redirected a side b).hasBranch a n = true ↔ n = b ∨ s.branch (!side) a = some n := by
  obtain ⟨_, hi, lo, _, hbody, _⟩ := h.exists_body ha
  rw [Store.hasBranch_eq_body, Store.body?_redirected, if_pos rfl, Store.branch_eq_body, hbody]
  cases side
  · change (some hi == some n || some b == some n) = true ↔ n = b ∨ some hi = some n
    simp only [Bool.or_eq_true, beq_iff_eq, Option.some.injEq]
    rw [or_comm, eq_comm (a := b)]
  · change (some b == some n || some lo == some n) = true ↔ n = b ∨ some lo = some n
    simp only [Bool.or_eq_true, beq_iff_eq, Option.some.injEq]
    rw [eq_comm (a := b)]

end Wired

namespace Store

variable {s : Store} {d a b n p : Ref} {l : Label}

theorem hasParent_congr {s' : Store} (h : s'.label? n p = s.label? n p) :
    s'.hasParent n p = s.hasParent n p := by
  rw [hasParent, h, ← hasParent]

theorem hasParent_linked (hp : p ≠ d) (hb : b < s.size) :
    (s.linked d a b l).hasParent n p = true ↔ (n = b ∧ p = a) ∨ s.hasParent n p = true := by
  rw [hasParent, label?_linked hb, if_neg (fun hc : n = b ∧ p = d => hp hc.2)]
  split
  · simp [*]
  · simp [*, hasParent]

theorem hasParent_linkedInner (hp : p ≠ d) (hb : b < s.size) :
    (s.linkedInner d a l b).hasParent n p = true ↔
      (n = b ∧ p = a ∧ s.isTerminal b = false) ∨ s.hasParent n p = true := by
  unfold linkedInner
  split
  · simp [*]
  · rw [hasParent_linked hp hb]
    simp [*]

end Store

namespace Mirrored

variable {s s' : Store} {d : Ref} {g : Registry} {yes no a b n p : Ref} {side : Bool} {v : Int}
variable {l : Label}

theorem congr (h : Mirrored s d g) (hsame : ∀ r, r ∈ g.nodes → s'.vertex? r = s.vertex? r) :
    Mirrored s' d g := by
  intro n hn p hp
  have hlabel : s'.label? n p = s.label? n p := by
    rw [Store.label?, hsame n hn, ← Store.label?]
  rw [Store.hasParent_congr hlabel, h n hn p hp]
  refine and_congr_right fun hpn => ?_
  have hbody : s'.body? p = s.body? p := by
    unfold Store.body?
    rw [hsame p hpn]
  rw [Wired.hasBranch_eq_of_body hbody]

theorem created : Mirrored s d {} := by
  intro n hn
  simp [Registry.nodes] at hn

theorem hasParent_grown (hw : Wired s d g yes no) {hi lo : Ref} (hhi : g.Member yes no hi)
    (hlo : g.Member yes no lo) (hp : p ≠ d) :
    (s.grown d v hi lo).hasParent n p = true ↔ (n = lo ∧ p = s.size ∧ s.isTerminal lo = false) ∨
      (n = hi ∧ p = s.size ∧ s.isTerminal hi = false) ∨ n ≠ s.size ∧ s.hasParent n p = true := by
  let x : Vertex := { decisionBody v hi lo with parents := [(d, .unknown)] }
  have hpush : ∀ {q}, g.Member yes no q → (s.push x).isTerminal q = s.isTerminal q := by
    intro q hq
    rw [Store.isTerminal_eq_body, Store.body?_push,
      if_neg (hw.member_ne_size hq), ← Store.isTerminal_eq_body]
  have hlt : ∀ {q}, g.Member yes no q → q < (s.push x).size := by
    intro q hq
    rw [Store.size_push]
    exact Nat.lt_succ_of_lt (hw.member_lt_size hq)
  have hinner : ((s.push x).linkedInner d s.size .hi hi).isTerminal lo = s.isTerminal lo := by
    rw [Store.isTerminal_eq_body, Store.body?_linkedInner, ← Store.isTerminal_eq_body, hpush hlo]
  have hold : (s.push x).hasParent n p = true ↔ n ≠ s.size ∧ s.hasParent n p = true := by
    rw [Store.hasParent, Store.label?_push]
    by_cases hn : n = s.size
    · simp [hn, x, Vertex.label?, lookup_cons_eq_ite, hp]
    · simp [hn, Store.hasParent]
  unfold Store.grown
  rw [Store.hasParent_congr (Store.label?_updateRegistry _),
    Store.hasParent_linkedInner hp (by rw [Store.size_linkedInner]; exact hlt hlo),
    Store.hasParent_linkedInner hp (hlt hhi), hinner, hpush hhi, hold]

theorem hasBranch_grown_new (hw : Wired s d g yes no) {hi lo : Ref} :
    (s.grown d v hi lo).hasBranch s.size n = true ↔ n = hi ∨ n = lo := by
  rw [Store.hasBranch_eq_body, hw.body?_grown_new]
  simp only [Option.any_some, Vertex.hasBranch, decisionBody, Bool.or_eq_true, beq_iff_eq,
    Option.some.injEq]
  rw [eq_comm (a := hi), eq_comm (a := lo)]

theorem grown (hw : Wired s d g yes no) (h : Mirrored s d g) {hi lo : Ref} (hnew : g.find? v = none)
    (hhi : g.Member yes no hi) (hlo : g.Member yes no lo) :
    Mirrored (s.grown d v hi lo) d (g.insert v s.size) := by
  intro n hn p hp
  rw [Registry.mem_nodes_insert hw.ascending hnew] at hn ⊢
  rw [hasParent_grown hw hhi hlo hp]
  have hkept : p ≠ s.size → (s.grown d v hi lo).hasBranch p n = s.hasBranch p n :=
    fun hps => Wired.hasBranch_eq_of_body (Wired.body?_grown_old hps hp)
  by_cases hns : n = s.size
  · -- no node leads to the new one
    subst hns
    have hnone : p ∈ g.nodes → s.hasBranch p s.size = false :=
      fun hpn => hw.hasBranch_fresh (.inr (.inr hpn))
    simp only [(hw.member_ne_size hhi).symm, (hw.member_ne_size hlo).symm, ne_eq, not_true,
      false_and, or_self, false_iff]
    rintro ⟨rfl | hpn, hps, hb⟩
    · exact hps rfl
    · simp [hkept hps, hnone hpn] at hb
  · have hn : n ∈ g.nodes := hn.resolve_left hns
    have hterm := hw.isTerminal_of_mem_nodes hn
    rw [h n hn p hp]
    by_cases hps : p = s.size
    · subst hps
      have hout : s.size ∉ g.nodes := fun hmem => hw.member_ne_size (.inr (.inr hmem)) rfl
      rw [hasBranch_grown_new hw]
      constructor
      · rintro (⟨rfl, -⟩ | ⟨rfl, -⟩ | ⟨-, hmem, -⟩)
        · exact ⟨.inl rfl, Ne.symm hns, .inr rfl⟩
        · exact ⟨.inl rfl, Ne.symm hns, .inl rfl⟩
        · exact absurd hmem hout
      · rintro ⟨-, -, rfl | rfl⟩
        · exact .inr (.inl ⟨rfl, rfl, hterm⟩)
        · exact .inl ⟨rfl, rfl, hterm⟩
    · rw [hkept hps]
      simp [hps, hns]

/-- Once a branch is set, all parents mirror branches but that of the new target. -/
theorem redirected (hw : Wired s d g yes no) (h : Mirrored s d g) (ha : a ∈ g.nodes)
    (hn : n ∈ g.nodes) (hp : p ≠ d) (hnew : ¬ (p = a ∧ n = b)) :
    (s.redirected a side b).hasParent n p = true ↔
      p ∈ g.nodes ∧ p ≠ n ∧ (s.redirected a side b).hasBranch p n = true := by
  have hlabel : (s.redirected a side b).label? n p = _ := Store.label?_redirected
  by_cases hpa : p = a
  · subst hpa
    have hnb : n ≠ b := fun hnb => hnew ⟨rfl, hnb⟩
    rw [hw.hasBranch_redirected ha]
    by_cases hnext : s.next side p = some n
    · rw [if_pos ⟨hnext, hnb, rfl⟩] at hlabel
      simp [Store.hasParent, hlabel, hnb, hw.next_ne_other ha hnext]
    · rw [if_neg (fun hc => hnext hc.1)] at hlabel
      rw [Store.hasParent_congr hlabel, h n hn p hp, hw.hasBranch_node side ha]
      simp [hnext, hnb]
  · rw [if_neg (fun hc => hpa hc.2.2)] at hlabel
    rw [Store.hasParent_congr hlabel, h n hn p hp, Wired.hasBranch_eq_of_body]
    rw [Store.body?_redirected, if_neg (Ne.symm hpa)]

theorem eq_of_halted (hw : Wired s d g yes no) (h : Mirrored s d g) (ha : a ∈ g.nodes)
    (hb : g.Member yes no b) (hfree : s.hasParent a b = false)
    (hback : (s.redirected a side b).hasBranch b a = true) : b = a := by
  by_contra hne
  have hkeep : (s.redirected a side b).body? b = s.body? b := by
    rw [Store.body?_redirected, if_neg (Ne.symm hne)]
  rw [Wired.hasBranch_eq_of_body hkeep] at hback
  cases hterm : s.isTerminal b with
  | true => simp [hw.hasBranch_terminal hb hterm] at hback
  | false =>
    have hbn : b ∈ g.nodes := (hw.mem_nodes_iff_of_member hb).mpr hterm
    have hbd : b ≠ d := hw.member_ne_diagram hb
    rw [(h a ha b hbd).mpr ⟨hbn, hne, hback⟩] at hfree
    cases hfree

theorem halted (hw : Wired s d g yes no) (h : Mirrored s d g) (ha : a ∈ g.nodes)
    (hb : g.Member yes no b) (hfree : s.hasParent a b = false)
    (hback : (s.redirected a side b).hasBranch b a = true) :
    Mirrored ((s.redirected a side b).unheld d b) d g := by
  obtain rfl := eq_of_halted hw h ha hb hfree hback
  intro n hn p hp
  have hlabel : ((s.redirected b side b).unheld d b).label? n p = _ := Store.label?_unheld
  rw [if_neg (fun hc => hp hc.2)] at hlabel
  rw [Store.hasParent_congr hlabel, Wired.hasBranch_eq_of_body Store.body?_unheld]
  by_cases hloop : p = b ∧ n = b
  · -- a node is no parent of itself, and setting the branch records none
    obtain ⟨rfl, rfl⟩ := hloop
    have hkept : (s.redirected n side n).label? n n = _ := Store.label?_redirected
    rw [if_neg (fun hc => hc.2.1 rfl)] at hkept
    rw [Store.hasParent_congr hkept, hfree]
    simp
  · exact redirected hw h ha hn hp hloop

theorem linked (hw : Wired s d g yes no) (h : Mirrored s d g) (ha : a ∈ g.nodes)
    (hb : g.Member yes no b) (hforth : (s.redirected a side b).hasBranch b a ≠ true) :
    Mirrored ((s.redirected a side b).linked d a b l) d g := by
  intro n hn p hp
  have hlt : b < (s.redirected a side b).size := by
    rw [Store.size_redirected]
    exact hw.member_lt_size hb
  rw [Store.hasParent_linked hp hlt, Wired.hasBranch_eq_of_body Store.body?_linked]
  by_cases hnew : p = a ∧ n = b
  · obtain ⟨rfl, rfl⟩ := hnew
    have hbranch : (s.redirected p side n).hasBranch p n = true :=
      (hw.hasBranch_redirected ha).mpr (.inl rfl)
    have hne : p ≠ n := by
      rintro rfl
      exact hforth hbranch
    simp [ha, hne, hbranch]
  · rw [redirected hw h ha hn hp hnew]
    refine or_iff_right ?_
    rintro ⟨hnb, hpa⟩
    exact hnew ⟨hpa, hnb⟩

end Mirrored

structure Open (s : Store) (d : Ref) (g : Registry) (yes no : Ref) : Prop where
  wired : Wired s d g yes no
  mirrored : Mirrored s d g
  root : g.root = none

namespace Open

variable {s s' : Store} {d : Ref} {g : Registry} {yes no : Ref}

theorem of_effect (h : Open s d g yes no) {c : Call} (hwires : c.Wires) {g' : Registry}
    (heffect : Effect s d g yes no c s' g') : Open s' d g' yes no := by
  have hw := h.wired
  have hnext := hw.of_effect heffect
  cases heffect with
  | unchanged => exact h
  | grown hnew hopen _ hhi hlo => exact ⟨hnext, h.mirrored.grown hw hnew hhi hlo, hopen⟩
  | halted hopen ha hb _ hparent hback =>
    exact ⟨hnext, h.mirrored.halted hw ha hb hparent hback, hopen⟩
  | linked hopen ha hb _ hforth => exact ⟨hnext, h.mirrored.linked hw ha hb hforth, hopen⟩
  | dropped => exact hwires.elim
  | rooted => exact hwires.elim

theorem after (h : Open s d g yes no) {c : Call} (hwires : c.Wires) (hown : c.Own s d) :
    ∃ g', Open (c.after d s) d g' yes no := by
  obtain ⟨g', heffect⟩ := h.wired.effect hown
  exact ⟨g', h.of_effect hwires heffect⟩

theorem step (h : Open s d g yes no) (hstep : Step (wiringCalls d) d s s') :
    ∃ g', Open s' d g' yes no := by
  cases hstep with
  | call c hc => exact h.after hc.1 hc.2
  | elsewhere same =>
    have hsame : ∀ {r}, r ∈ g.nodes → s'.vertex? r = s.vertex? r := fun hr =>
      (h.wired.same_of_elsewhere same (.inr (.inr (.inr hr)))).1
    exact ⟨g, h.wired.elsewhere same, h.mirrored.congr fun r hr => hsame hr, h.root⟩

theorem of_history (past : History (wiringCalls d) d s) : ∃ g yes no, Open s d g yes no := by
  refine History.induct (motive := fun t => ∃ g yes no, Open t d g yes no)
    (fun before s hcreate => ?_) (fun s s' h hstep => ?_) past
  · exact ⟨{}, _, _, Wired.created hcreate, Mirrored.created, rfl⟩
  · obtain ⟨g, yes, no, hopen⟩ := h
    obtain ⟨g', hnext⟩ := hopen.step hstep
    exact ⟨g', yes, no, hnext⟩

end Open

end DecisionDiagram
