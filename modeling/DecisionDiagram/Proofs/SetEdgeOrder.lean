import DecisionDiagram.Proofs.PairedWalks
import DecisionDiagram.Proofs.ParentLabels
/-! Branches of a diagram may be set in any order. When the calls are about different branches, and
none of them fails, what they leave behind can be read off the calls and the store they started
from: an edge that was asked for is there under its label, a branch that was moved has taken the
record at its former end with it, and the diagram is no longer a parent of what became a target.
Nothing in this description tells one order from another. -/
namespace DecisionDiagram
open List

structure Wire where
  source : Reference
  target : Reference
  side : Bool

namespace Wire

def Own (s : Store) (d : Ref) (w : Wire) : Prop := w.source.Own s d ∧ w.target.Own s d

/-- The branch that the wire is about: the vertex that its source names, and the side. -/
def slot (s : Store) (d : Ref) (w : Wire) : Except Fault Ref × Bool :=
  (s.require d w.source, w.side)

def set (d : Ref) (w : Wire) : Edit Unit := do
  let _ ← Diagram.setEdge d w.source w.target (.flag w.side)
  return

end Wire

def Diagram.setEdges (d : Ref) (ws : List Wire) : Edit Unit := forM ws (Wire.set d)

/-- One of the wires is to lead from `p`, by the branch on that side, to `n`. -/
def Store.Asks (s : Store) (d : Ref) (ws : List Wire) (p : Ref) (side : Bool) (n : Ref) : Prop :=
  ∃ w ∈ ws, s.require d w.source = .ok p ∧ w.side = side ∧ s.require d w.target = .ok n

/-- The parents that `n` records with their labels, when all the wires are set. -/
def Store.Records (s : Store) (d : Ref) (ws : List Wire) (n p : Ref) (l : Label) : Prop :=
  (∃ side, s.Asks d ws p side n ∧ l = .ofSide side) ∨
  (s.label? n p = some l ∧ (∀ side, ¬ s.Asks d ws p side n) ∧
    (p = d → ∀ q side, ¬ s.Asks d ws q side n) ∧
    ∀ side, s.branch side p = some n → ∀ m, ¬ s.Asks d ws p side m)

/-- What the store `t` is like after the wires have been set, beginning with `s`. -/
structure Rewired (s : Store) (d : Ref) (g : Registry) (yes no : Ref) (ws : List Wire) (t : Store) :
    Prop where
  recorded : Recorded t d g yes no
  sources : ∀ {p side n}, s.Asks d ws p side n → p ∈ g.nodes
  elsewhere : ∀ r, ¬ g.Member yes no r → t.vertex? r = s.vertex? r
  kind : ∀ r, t.kind? r = s.kind? r
  asked : ∀ {p side n}, s.Asks d ws p side n → t.branch side p = some n
  left : ∀ {p side}, (∀ n, ¬ s.Asks d ws p side n) → t.branch side p = s.branch side p
  labels : ∀ {n p l}, t.label? n p = some l ↔ s.Records d ws n p l

namespace Store

variable {s : Store} {d source target q n p : Ref} {l : Label} {ws ws' : List Wire} {w : Wire}
variable {side : Bool} {a b : Ref}

theorem asks_nil : ¬ s.Asks d [] p side n := by rintro ⟨w, hw, -⟩; cases hw

theorem asks_concat (ha : s.require d w.source = .ok a) (hb : s.require d w.target = .ok b) :
    s.Asks d (ws ++ [w]) p side n ↔ s.Asks d ws p side n ∨ p = a ∧ side = w.side ∧ n = b := by
  have hone : (s.require d w.source = .ok p ∧ w.side = side ∧ s.require d w.target = .ok n) ↔
      p = a ∧ side = w.side ∧ n = b := by
    rw [ha, hb, Except.ok.injEq, Except.ok.injEq, eq_comm, eq_comm (a := w.side), eq_comm (a := b)]
  unfold Asks
  simp only [mem_append, mem_singleton, or_and_right, exists_or, exists_eq_left, hone]

theorem asks_perm (h : ws.Perm ws') : s.Asks d ws p side n ↔ s.Asks d ws' p side n := by
  unfold Asks
  simp only [h.mem_iff]

theorem records_perm (h : ws.Perm ws') : s.Records d ws n p l ↔ s.Records d ws' n p l := by
  unfold Records
  simp only [asks_perm h]

theorem vertex?_linked_ne (h : target ≠ q) :
    (s.linked d source target l).vertex? q = s.vertex? q := by
  unfold linked unheld
  rw [addParent, vertex?_modify_ne _ h]
  split
  · exact vertex?_modify_ne _ h _
  · rfl

theorem vertex?_redirected_ne (hq : source ≠ q) (hformer : s.next side source ≠ some q) :
    (s.redirected source side target).vertex? q = s.vertex? q := by
  have hset : (s.setBranch source side target).vertex? q = s.vertex? q := vertex?_modify_ne _ hq _
  unfold redirected
  split
  · rename_i f hf
    have hfq : f ≠ q := by
      rintro rfl
      exact hformer hf
    split
    · rw [dropParent, vertex?_modify_ne _ hfq, hset]
    · exact hset
  · exact hset

theorem kind?_redirected : (s.redirected source side target).kind? q = s.kind? q := by
  rw [kind?_eq_body, body?_redirected, kind?_eq_body]
  split
  · cases s.body? q with
    | none => rfl
    | some x => cases side <;> rfl
  · rfl

end Store

theorem Wired.exists_of_set {t t' : Store} {d : Ref} {g : Registry} {yes no : Ref} {w : Wire}
    (hw : Wired t d g yes no) (hown : w.Own t d) (hrun : w.set d t = .ok () t') :
    ∃ a b, t.require d w.source = .ok a ∧
      t.require d w.target = .ok b ∧ a ∈ g.nodes ∧ g.Member yes no b ∧
      t.branch (!w.side) a ≠ some b ∧
      t' = (t.redirected a w.side b).linked d a b (.ofSide w.side) ∧
      Effect t d g yes no (.setEdge w.source w.target (.flag w.side)) t' g := by
  obtain ⟨edge, t₁, hedge, hlast⟩ := bind_eq_ok_iff.mp hrun
  obtain ⟨-, rfl⟩ := EStateM.Result.ok.inj hlast
  obtain ⟨a, b, hsource, htarget, hnode, hmember, hother, -, hafter, heffect⟩ :=
    hw.exists_of_setEdge hown.1 hown.2 hedge
  exact ⟨a, b, hsource, htarget, hnode, hmember, hother, hafter, heffect⟩

namespace Rewired

variable {s t t' : Store} {d : Ref} {g : Registry} {yes no a b p n : Ref} {ws ws' : List Wire}
variable {w : Wire} {side : Bool}

theorem refl (h : Recorded s d g yes no) : Rewired s d g yes no [] s where
  recorded := h
  sources h := absurd h Store.asks_nil
  elsewhere _ _ := rfl
  kind _ := rfl
  asked h := absurd h Store.asks_nil
  left _ := rfl
  labels := by simp [Store.Records, Store.asks_nil]

theorem not_asks_of_slot (ha : s.require d w.source = .ok a)
    (hslot : w.slot s d ∉ ws.map (Wire.slot s d)) (n : Ref) : ¬ s.Asks d ws a w.side n := by
  rintro ⟨w', hw', hsource, hside, -⟩
  exact hslot (mem_map.mpr ⟨w', hw', by rw [Wire.slot, Wire.slot, hsource, ha, hside]⟩)

theorem branch_ne (hw : Wired t d g yes no) (hnode : p ∈ g.nodes)
    (hside : t.branch side p = some n) : t.branch (!side) p ≠ some n := by
  obtain ⟨v, hi, lo, -, hbody, hne, -⟩ := hw.exists_body hnode
  rw [Store.branch_of_body hbody] at hside ⊢
  obtain rfl := Option.some.inj hside
  cases side with
  | true => simpa using hne.symm
  | false => simpa using hne

section Concat

variable {l : Label} (h : Rewired s d g yes no ws t) (hsource : s.require d w.source = .ok a)
variable (htarget : s.require d w.target = .ok b) (hnode : a ∈ g.nodes)
variable (hslot : w.slot s d ∉ ws.map (Wire.slot s d)) (hother : t.branch (!w.side) a ≠ some b)

include h hsource hslot in
theorem not_asks_of_other {m : Ref} (hm : t.branch (!w.side) a ≠ some m) (side : Bool) :
    ¬ s.Asks d ws a side m := by
  intro hasks
  by_cases hside : side = w.side
  · exact not_asks_of_slot hsource hslot m (hside ▸ hasks)
  · rw [← Bool.eq_not.mpr hside] at hm
    exact hm (h.asked hasks)

include h hsource htarget hslot hother in
theorem records_edge : s.Records d (ws ++ [w]) b a l ↔ l = .ofSide w.side := by
  have hadd : s.Asks d (ws ++ [w]) a w.side b :=
    (Store.asks_concat hsource htarget).mpr (.inr ⟨rfl, rfl, rfl⟩)
  constructor
  · rintro (⟨side, hasks, hl⟩ | ⟨-, hfree, -⟩)
    · rcases (Store.asks_concat hsource htarget).mp hasks with hasks | ⟨-, rfl, -⟩
      · exact absurd hasks (not_asks_of_other h hsource hslot hother side)
      · exact hl
    · exact absurd hadd (hfree w.side)
  · exact fun hl => .inl ⟨w.side, hadd, hl⟩

include h hsource htarget hnode in
theorem not_records_diagram : ¬ s.Records d (ws ++ [w]) b d l := by
  have hdiagram : d ∉ g.nodes := fun hd => h.recorded.wired.member_ne_diagram (.inr (.inr hd)) rfl
  rintro (⟨side, hasks, -⟩ | ⟨-, -, hfree, -⟩)
  · rcases (Store.asks_concat hsource htarget).mp hasks with hasks | ⟨rfl, -, -⟩
    · exact hdiagram (h.sources hasks)
    · exact hdiagram hnode
  · exact hfree rfl a w.side ((Store.asks_concat hsource htarget).mpr (.inr ⟨rfl, rfl, rfl⟩))

include h hsource htarget hnode hslot in
theorem not_records_former (hformer : s.branch w.side a = some n) (hne : n ≠ b) :
    ¬ s.Records d (ws ++ [w]) n a l := by
  have hleft : t.branch w.side a = some n := (h.left (not_asks_of_slot hsource hslot)).trans hformer
  have hother := branch_ne h.recorded.wired hnode hleft
  rintro (⟨side, hasks, -⟩ | ⟨-, -, -, hkept⟩)
  · rcases (Store.asks_concat hsource htarget).mp hasks with hasks | ⟨-, -, rfl⟩
    · exact not_asks_of_other h hsource hslot hother side hasks
    · exact hne rfl
  · exact hkept w.side hformer b ((Store.asks_concat hsource htarget).mpr (.inr ⟨rfl, rfl, rfl⟩))

include hsource htarget in
theorem records_other (hedge : ¬ (n = b ∧ p = a)) (hdiagram : ¬ (n = b ∧ p = d))
    (hformer : ¬ (s.branch w.side a = some n ∧ n ≠ b ∧ p = a)) :
    s.Records d (ws ++ [w]) n p l ↔ s.Records d ws n p l := by
  have hhere : ∀ side, s.Asks d (ws ++ [w]) p side n ↔ s.Asks d ws p side n := by
    intro side
    rw [Store.asks_concat hsource htarget, or_iff_left]
    exact fun hnew => hedge ⟨hnew.2.2, hnew.1⟩
  have hheld : (p = d → ∀ q side, ¬ s.Asks d (ws ++ [w]) q side n) ↔
      (p = d → ∀ q side, ¬ s.Asks d ws q side n) := by
    refine forall_congr' fun hp => forall₂_congr fun q side => not_congr ?_
    rw [Store.asks_concat hsource htarget, or_iff_left]
    exact fun hnew => hdiagram ⟨hnew.2.2, hp⟩
  have hkept : (∀ side, s.branch side p = some n → ∀ m, ¬ s.Asks d (ws ++ [w]) p side m) ↔
      ∀ side, s.branch side p = some n → ∀ m, ¬ s.Asks d ws p side m := by
    refine forall₂_congr fun side hside => forall_congr' fun m => not_congr ?_
    rw [Store.asks_concat hsource htarget, or_iff_left]
    rintro ⟨rfl, rfl, -⟩
    exact hformer ⟨hside, fun hn => hedge ⟨hn, rfl⟩, rfl⟩
  unfold Store.Records
  simp only [hhere, hheld, hkept]

include h hsource hnode hslot in
theorem next_source : t.next w.side a = s.branch w.side a := by
  obtain ⟨v, hi, lo, -, hbody, -⟩ := h.recorded.wired.exists_body hnode
  rw [← h.left (not_asks_of_slot hsource hslot), Store.next_of_body hbody,
    Store.branch_of_body hbody]

include h hnode in
theorem vertex?_concat (hmember : g.Member yes no b) (hr : ¬ g.Member yes no n) :
    ((t.redirected a w.side b).linked d a b l).vertex? n = s.vertex? n := by
  have hw := h.recorded.wired
  have hmem : ∀ {r}, g.Member yes no r → r ≠ n := by
    rintro r hmember rfl
    exact hr hmember
  have hformer : t.next w.side a ≠ some n := by
    intro hnext
    have hbranch : t.branch w.side a = some n := by
      obtain ⟨v, hi, lo, -, hbody, -⟩ := hw.exists_body hnode
      rw [Store.branch_of_body hbody, ← Store.next_of_body hbody, hnext]
    exact hr (hw.member_of_branch (.inr (.inr hnode)) hbranch)
  rw [Store.vertex?_linked_ne (hmem hmember),
    Store.vertex?_redirected_ne (hmem (.inr (.inr hnode))) hformer, h.elsewhere n hr]

include h hsource htarget hnode hslot hother in
theorem label?_concat (hmember : g.Member yes no b) :
    ((t.redirected a w.side b).linked d a b (.ofSide w.side)).label? n p = some l ↔
      s.Records d (ws ++ [w]) n p l := by
  have hlt : b < (t.redirected a w.side b).size := by
    rw [Store.size_redirected]
    exact h.recorded.wired.member_lt_size hmember
  rw [Store.label?_linked hlt, Store.label?_redirected, next_source h hsource hnode hslot]
  split
  · rename_i hedge
    obtain ⟨rfl, rfl⟩ := hedge
    rw [records_edge h hsource htarget hslot hother, Option.some.injEq, eq_comm]
  · rename_i hedge
    split
    · rename_i hdiagram
      obtain ⟨rfl, rfl⟩ := hdiagram
      simpa using not_records_diagram h hsource htarget hnode
    · rename_i hdiagram
      split
      · rename_i hformer
        obtain ⟨hformer, hne, rfl⟩ := hformer
        simpa using not_records_former h hsource htarget hnode hslot hformer hne
      · rename_i hformer
        rw [h.labels, records_other hsource htarget hedge hdiagram hformer]

end Concat

theorem concat (hs : Wired s d g yes no) (h : Rewired s d g yes no ws t) (hown : w.Own s d)
    (hslot : w.slot s d ∉ ws.map (Wire.slot s d)) (hrun : w.set d t = .ok () t') :
    Rewired s d g yes no (ws ++ [w]) t' := by
  have hw := h.recorded.wired
  obtain ⟨a, b, hsource, htarget, hnode, hmember, hother, rfl, heffect⟩ :=
    hw.exists_of_set ⟨(hs.own_congr hw).mpr hown.1, (hs.own_congr hw).mpr hown.2⟩ hrun
  rw [hs.require_congr hw] at hsource htarget
  have hbranch :
      ∀ side p, Store.branch ((t.redirected a w.side b).linked d a b (.ofSide w.side)) side p =
        if p = a ∧ side = w.side then some b else t.branch side p := by
    intro side p
    rw [Store.branch_linked, hw.branch_redirected hnode]
  have hasks : ∀ {p side n}, s.Asks d (ws ++ [w]) p side n ↔ s.Asks d ws p side n ∨ p = a ∧
      side = w.side ∧ n = b :=
    Store.asks_concat hsource htarget
  have hflag : Call.Flagged (.setEdge w.source w.target (.flag w.side)) := ⟨w.side, rfl⟩
  -- The slot of `w` is new: the branches that earlier wires ask for are not touched again.
  refine ⟨h.recorded.of_effect hflag heffect, ?_, fun r hr => vertex?_concat h hnode hmember hr,
    ?_, ?_, ?_, label?_concat h hsource htarget hnode hslot hother hmember⟩
  · intro p side n hp
    rcases hasks.mp hp with hp | ⟨rfl, -⟩
    · exact h.sources hp
    · exact hnode
  · intro r
    rw [Store.kind?_eq_body, Store.body?_linked, ← Store.kind?_eq_body,
      Store.kind?_redirected, h.kind]
  · intro p side n hp
    rw [hbranch]
    rcases hasks.mp hp with hp | ⟨rfl, rfl, rfl⟩
    · rw [if_neg, h.asked hp]
      rintro ⟨rfl, rfl⟩
      exact not_asks_of_slot hsource hslot n hp
    · rw [if_pos ⟨rfl, rfl⟩]
  · intro p side hfree
    rw [hbranch, if_neg, h.left fun n hn => hfree n (hasks.mpr (.inl hn))]
    rintro ⟨rfl, rfl⟩
    exact hfree b (hasks.mpr (.inr ⟨rfl, rfl, rfl⟩))

theorem of_run (hs : Recorded s d g yes no) (hown : ∀ w ∈ ws, w.Own s d)
    (hslots : (ws.map (Wire.slot s d)).Nodup) (hrun : Diagram.setEdges d ws s = .ok () t) :
    Rewired s d g yes no ws t := by
  induction ws using List.reverseRecOn generalizing t with
  | nil =>
    obtain ⟨-, rfl⟩ := EStateM.Result.ok.inj hrun
    exact refl hs
  | append_singleton ws w ih =>
    rw [Diagram.setEdges, forM_append] at hrun
    obtain ⟨_, t₁, hfirst, hrest⟩ := bind_eq_ok_iff.mp hrun
    rw [forM_cons] at hrest
    obtain ⟨_, t₂, hset, hlast⟩ := bind_eq_ok_iff.mp hrest
    obtain ⟨-, rfl⟩ := EStateM.Result.ok.inj hlast
    rw [map_append, nodup_append] at hslots
    have hnew : w.slot s d ∉ ws.map (Wire.slot s d) := fun hmem => hslots.2.2 _ hmem _ (by simp) rfl
    exact (ih (fun w hw => hown w (mem_append_left _ hw)) hslots.1 hfirst).concat hs.wired
      (hown w (by simp)) hnew hset

end Rewired

namespace Store

variable {s t : Store} {d : Ref} {g : Registry}

/-- The vertices are the same, but for the order of their parents. -/
def SameEdges (s t : Store) : Prop :=
  ∀ r, Option.Rel (fun x y : Vertex => x.body = y.body ∧ x.parents.Perm y.parents) (s.vertex? r)
    (t.vertex? r)

theorem SameEdges.body? (h : s.SameEdges t) (r : Ref) : s.body? r = t.body? r := by
  have hr := h r
  unfold Store.body?
  generalize s.vertex? r = x, t.vertex? r = y at hr
  cases hr with
  | none => rfl
  | some hxy => exact congrArg some hxy.1

theorem SameEdges.parents_perm (h : s.SameEdges t) (r : Ref) :
    (s.parents r).Perm (t.parents r) := by
  have hr := h r
  unfold Store.parents
  generalize s.vertex? r = x, t.vertex? r = y at hr
  cases hr with
  | none => exact .nil
  | some hxy => exact hxy.2.map _

theorem eq_of_rel {e e' : Option (Ref × Ref)}
    (h : Option.Rel (fun x y => x.1 = y.1 ∧ x.2 = y.2) e e') : e = e' := by
  cases h with
  | none => rfl
  | some hxy => rw [Prod.ext hxy.1 hxy.2]

theorem SameEdges.findRoot_eq (h : s.SameEdges t) (d : Ref) (g : Registry) :
    s.findRoot d g = t.findRoot d g := by
  have hunique : Relator.BiUnique (Eq : Pairing) :=
    ⟨fun _ _ _ hac hbc => hac.trans hbc.symm, fun _ _ _ hab hac => hab.symm.trans hac⟩
  have hnext : s.Abreast t Eq := by
    rintro a _ rfl
    rw [forall₂_eq_eq_eq, successors_congr (h.body? a)]
  have hcycle : ∀ r, (s.depthFirst none [] r).cycle = (t.depthFirst none [] r).cycle := fun r =>
    eq_of_rel (depthFirst_alike hunique hnext .nil rfl).cycle
  have hfirst : s.firstCycle [] g.nodes = t.firstCycle [] g.nodes :=
    eq_of_rel (firstCycle_alike hunique hnext .nil (forall₂_refl _))
  have hcandidates : s.rootCandidates d g = t.rootCandidates d g :=
    filter_congr fun r _ => (h.parents_perm r).all_eq
  have hraise : s.raise = t.raise := funext fun e => raise_congr_body h.body? e
  unfold findRoot
  simp only [hcandidates, hcycle, hfirst, hraise]

end Store

theorem Store.exists_vertex_of_lt {s : Store} {r : Ref} (h : r < s.size) :
    ∃ x, s.vertex? r = some x :=
  ⟨_, Array.getElem?_eq_getElem h⟩

/-- Stores that were reached by setting the same branches in whatever order are the same up to the
order of parents. -/
theorem Rewired.sameEdges {s t t' : Store} {d : Ref} {g : Registry} {yes no : Ref}
    {ws ws' : List Wire} (h : Rewired s d g yes no ws t) (h' : Rewired s d g yes no ws' t')
    (hperm : ws.Perm ws') : t.SameEdges t' := by
  intro r
  -- For a member everything is a function of which wires there are, not of their order.
  by_cases hr : g.Member yes no r
  · have hlabel : ∀ p, t.label? r p = t'.label? r p := by
      intro p
      refine Option.ext fun l => ?_
      rw [h.labels, h'.labels, Store.records_perm hperm]
    have hbranch : ∀ side, t.branch side r = t'.branch side r := by
      intro side
      by_cases hasked : ∃ n, s.Asks d ws r side n
      · obtain ⟨n, hn⟩ := hasked
        rw [h.asked hn, h'.asked ((Store.asks_perm hperm).mp hn)]
      · push Not at hasked
        rw [h.left hasked, h'.left fun n hn => hasked n ((Store.asks_perm hperm).mpr hn)]
    obtain ⟨x, hx⟩ := Store.exists_vertex_of_lt (h.recorded.wired.member_lt_size hr)
    obtain ⟨y, hy⟩ := Store.exists_vertex_of_lt (h'.recorded.wired.member_lt_size hr)
    have hkind : t.kind? r = t'.kind? r := by rw [h.kind, h'.kind]
    have hnodup := h.recorded.distinct r hr
    have hnodup' := h'.recorded.distinct r hr
    simp only [Store.parents, Store.kind?, Store.branch, Store.label?, hx,
      hy] at hlabel hbranch hkind hnodup hnodup'
    rw [hx, hy]
    refine .some ⟨?_, ?_⟩
    · simp only [Vertex.body]
      rw [Option.some.inj hkind, show x.hi = y.hi from hbranch true,
        show x.lo = y.lo from hbranch false]
    · refine (perm_ext_iff_of_nodup hnodup.of_map hnodup'.of_map).mpr fun e => ?_
      rw [← lookup_eq_some_iff_mem hnodup, ← lookup_eq_some_iff_mem hnodup']
      exact iff_of_eq (congrArg (· = some e.2) (hlabel e.1))
  · rw [h.elsewhere r hr, h'.elsewhere r hr]
    cases s.vertex? r with
    | none => exact .none
    | some x => exact .some ⟨rfl, .refl _⟩

/-- Whatever state own calls have brought a diagram to: if branches that differ from one another can
be set in two orders, then both leave the same branches, and the same parents with their labels.
Validation comes to the same root after both, or to the same fault. -/
theorem setEdges_perm {s t t' : Store} {d : Ref} (past : History (flaggedCalls d) d s)
    {ws ws' : List Wire} (hown : ∀ w ∈ ws, w.Own s d) (hslots : (ws.map (Wire.slot s d)).Nodup)
    (hperm : ws.Perm ws') (hrun : Diagram.setEdges d ws s = .ok () t)
    (hrun' : Diagram.setEdges d ws' s = .ok () t') :
    t.SameEdges t' ∧ Edit.answer (Diagram.validate d) t = Edit.answer (Diagram.validate d) t' := by
  obtain ⟨g, yes, no, hs⟩ := Recorded.of_history past
  have h : Rewired s d g yes no ws t := .of_run hs hown hslots hrun
  have h' : Rewired s d g yes no ws' t' :=
    .of_run hs (fun w hw => hown w (hperm.mem_iff.mpr hw)) ((hperm.map _).nodup_iff.mp hslots) hrun'
  have hsame := h.sameEdges h' hperm
  refine ⟨hsame, ?_⟩
  unfold Edit.answer
  rw [h.recorded.wired.validate_run, h'.recorded.wired.validate_run, hsame.findRoot_eq]
  cases g.root with
  | some root => rfl
  | none => cases t'.findRoot d g <;> rfl

theorem setEdges_perm_linkedPair :
    ∃ t t', Diagram.setEdges 0
      [⟨.vertex 3, .variable trueVariable, true⟩, ⟨.variable 6, .vertex 1, true⟩]
        linkedPair = .ok () t ∧
      Diagram.setEdges 0 [⟨.variable 6, .vertex 1, true⟩, ⟨.vertex 3, .variable trueVariable, true⟩]
        linkedPair = .ok () t' ∧
      t.parents 1 = [3, 4] ∧ t'.parents 1 = [4, 3] ∧ t.SameEdges t' ∧
      Edit.answer (Diagram.validate 0) t = Edit.answer (Diagram.validate 0) t' := by
  have hown : ∀ w ∈ [(⟨.vertex 3, .variable trueVariable, true⟩ : Wire),
    ⟨.variable 6, .vertex 1, true⟩],
      w.Own linkedPair 0 := by
    simp only [forall_mem_cons, not_mem_nil, false_implies, implies_true, and_true]
    exact ⟨⟨.inr (.inr ⟨_, rfl, by decide⟩), trivial⟩, trivial, .inl rfl⟩
  have hsame := setEdges_perm linkedPair_history hown (by decide) (.swap _ _ []) rfl rfl
  exact ⟨_, _, rfl, rfl, rfl, rfl, hsame⟩

end DecisionDiagram
