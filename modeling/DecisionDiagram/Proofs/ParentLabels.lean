import DecisionDiagram.Proofs.CallHistory
/-! Labels that are recorded with parents: each is that of a selector which picks the branch of the
parent that ends here. As long as branches are selected by truth values, labels name branches
therefore. A parent may be missing, but none is wrong. -/
namespace DecisionDiagram

namespace Store

variable {s : Store} {d a b n p : Ref} {side : Bool} {l m : Label}

/-! Where a label that is recorded after an edit comes from. -/

theorem label_of_dropParent {child parent : Ref}
    (h : (s.dropParent child parent).label? n p = some m) : s.label? n p = some m := by
  rw [label?_dropParent] at h
  split at h
  · cases h
  · exact h

theorem label_of_unheld (h : (s.unheld d b).label? n p = some m) : s.label? n p = some m := by
  unfold unheld at h
  split at h
  · exact label_of_dropParent h
  · exact h

theorem label_of_linked (hb : b < s.size) (h : (s.linked d a b l).label? n p = some m) :
    n = b ∧ p = a ∧ m = l ∨ s.label? n p = some m := by
  rw [linked, label?_addParent (by simpa using hb)] at h
  split at h
  · rename_i hnew
    exact .inl ⟨hnew.1, hnew.2, (Option.some.inj h).symm⟩
  · exact .inr (label_of_unheld h)

theorem label_of_linkedInner (hb : b < s.size) (h : (s.linkedInner d a l b).label? n p = some m) :
    n = b ∧ p = a ∧ m = l ∨ s.label? n p = some m := by
  unfold linkedInner at h
  split at h
  · exact .inr h
  · exact label_of_linked hb h

theorem label_of_redirected (h : (s.redirected a side b).label? n p = some m) :
    s.label? n p = some m ∧ (s.next side a = some n → p = a → n = b) := by
  rw [label?_redirected] at h
  split at h
  · cases h
  · rename_i hkept
    exact ⟨h, fun hnext hpa => by_contra fun hne => hkept ⟨hnext, hne, hpa⟩⟩

/-! No parent is recorded twice. -/

theorem nodup_parents_modify {r : Ref} {f : Vertex → Vertex}
    (hf : ∀ x : Vertex, (x.parents.map (·.1)).Nodup → ((f x).parents.map (·.1)).Nodup)
    (h : (s.parents n).Nodup) : (Store.parents (s.modify r f) n).Nodup := by
  unfold parents at h ⊢
  rw [vertex?_modify]
  split
  · cases hx : s.vertex? n with
    | none => exact List.nodup_nil
    | some x =>
      rw [hx] at h
      exact hf x h
  · exact h

theorem nodup_parents_dropParent {child parent : Ref} (h : (s.parents n).Nodup) :
    (Store.parents (s.dropParent child parent) n).Nodup :=
  nodup_parents_modify (fun _ hx => hx.sublist (List.filter_sublist.map _)) h

theorem nodup_parents_addParent {child parent : Ref} (h : (s.parents n).Nodup) :
    (Store.parents (s.addParent child parent l) n).Nodup := by
  refine nodup_parents_modify (fun x hx => ?_) h
  change ((upsert parent l x.parents).map (·.1)).Nodup
  rw [keys_upsert]
  split
  · exact hx
  · rename_i hnew
    exact hx.append (List.nodup_singleton _) (List.disjoint_singleton.mpr hnew)

theorem nodup_parents_setBranch {source target : Ref} (h : (s.parents n).Nodup) :
    (Store.parents (s.setBranch source side target) n).Nodup :=
  nodup_parents_modify (fun x hx => by cases side <;> exact hx) h

theorem nodup_parents_updateRegistry {f : Registry → Registry} (h : (s.parents n).Nodup) :
    (Store.parents (s.updateRegistry d f) n).Nodup :=
  nodup_parents_modify (fun x hx => by split <;> exact hx) h

theorem nodup_parents_unheld (h : (s.parents n).Nodup) :
    (Store.parents (s.unheld d b) n).Nodup := by
  unfold unheld
  split
  · exact nodup_parents_dropParent h
  · exact h

theorem nodup_parents_linked (h : (s.parents n).Nodup) :
    (Store.parents (s.linked d a b l) n).Nodup :=
  nodup_parents_addParent (nodup_parents_unheld h)

theorem nodup_parents_linkedInner (h : (s.parents n).Nodup) :
    (Store.parents (s.linkedInner d a l b) n).Nodup := by
  unfold linkedInner
  split
  · exact h
  · exact nodup_parents_linked h

theorem nodup_parents_redirected (h : (s.parents n).Nodup) :
    (Store.parents (s.redirected a side b) n).Nodup := by
  unfold redirected
  split
  · split
    · exact nodup_parents_dropParent (nodup_parents_setBranch h)
    · exact nodup_parents_setBranch h
  · exact nodup_parents_setBranch h

end Store

theorem Wired.branch_redirected {s : Store} {d : Ref} {g : Registry} {yes no a b p : Ref}
    {side other : Bool} (h : Wired s d g yes no) (ha : a ∈ g.nodes) :
    (s.redirected a side b).branch other p = if p = a ∧
    other = side then some b else s.branch other p := by
  rw [Store.branch_eq_body, Store.body?_redirected, Store.branch_eq_body]
  by_cases hpa : a = p
  · subst hpa
    obtain ⟨_, hi, lo, -, hbody, -⟩ := h.exists_body ha
    rw [if_pos rfl, hbody]
    simp [Vertex.branch_setBranch]
  · rw [if_neg hpa, if_neg fun hc => hpa hc.1.symm]

/-- A label that is recorded in the diagram is `unknown` for the diagram itself. For any other
parent, which is a node in the table, it is that of a permitted selector, which picks the branch
that ends here. -/
def Marked (permits : Selector → Prop) (s : Store) (d : Ref) (g : Registry) (yes no : Ref) : Prop :=
  ∀ n p m, g.Member yes no n → s.label? n p = some m →
    p = d ∧ m = .unknown ∨
      p ∈ g.nodes ∧ ∃ selector, permits selector ∧ m = selector.toLabel ∧
        s.branch selector.side p = some n

def Call.Selects (permits : Selector → Prop) : Call → Prop
  | .setEdge _ _ selector => permits selector
  | _ => True

def selectingCalls (permits : Selector → Prop) (d : Ref) (s : Store) (c : Call) : Prop :=
  c.Own s d ∧ c.Selects permits

namespace Marked

variable {permits : Selector → Prop} {s s' : Store} {d : Ref} {g g' : Registry} {yes no a b : Ref}
variable {side : Bool}
variable {selector : Selector} {v : Int}

theorem anti (h : Marked permits s d g yes no)
    (hlabel : ∀ {n p m}, g.Member yes no n → s'.label? n p = some m → s.label? n p = some m)
    (hbody : ∀ r, g.Member yes no r → s'.body? r = s.body? r) : Marked permits s' d g yes no := by
  intro n p m hn hm
  rcases h n p m hn (hlabel hn hm) with hd | ⟨hp, selector, hpermits, hmark, hleads⟩
  · exact .inl hd
  · refine .inr ⟨hp, selector, hpermits, hmark, ?_⟩
    rw [Store.branch_eq_body, hbody p (.inr (.inr hp)), ← Store.branch_eq_body]
    exact hleads

theorem created {before : Store} (h : Diagram.create before = .ok d s) :
    Marked permits s d {} (d + 1) (d + 2) := by
  obtain ⟨rfl, rfl⟩ := EStateM.Result.ok.inj h
  intro n p m hn hm
  have hone : ∀ (q : Ref) (l : Label),
      ([(before.size, Label.unknown)] : List (Ref × Label)).lookup q = some l →
        q = before.size ∧ l = .unknown := by
    intro q l hl
    rw [lookup_cons_eq_ite] at hl
    split at hl
    · exact ⟨‹_›, (Option.some.inj hl).symm⟩
    · cases hl
  left
  rcases hn with rfl | rfl | hn
  · refine hone p m ?_
    simpa [Store.label?_push, Store.size_push, Vertex.label?] using hm
  · refine hone p m ?_
    simpa [Store.label?_push, Store.size_push, Vertex.label?] using hm
  · simp [Registry.nodes] at hn

theorem grown (h : Marked permits s d g yes no) (hw : Wired s d g yes no)
    (hflag : ∀ side, permits (.flag side)) {hi lo : Ref} (hnew : g.find? v = none)
    (hhi : g.Member yes no hi) (hlo : g.Member yes no lo) :
    Marked permits (s.grown d v hi lo) d (g.insert v s.size) yes no := by
  intro n p m hn hm
  have hbranch :
      ∀ side : Bool, (s.grown d v hi lo).branch side s.size = some (if side then hi else lo) :=
    fun side => Store.branch_of_body hw.body?_grown_new side
  have htable : s.size ∈ (g.insert v s.size).nodes :=
    (Registry.mem_nodes_insert hw.ascending hnew).mpr (.inl rfl)
  have hlt : ∀ {q}, g.Member yes no q →
      q < (s.push { decisionBody v hi lo with parents := [(d, .unknown)] }).size := by
    intro q hq
    rw [Store.size_push]
    exact Nat.lt_succ_of_lt (hw.member_lt_size hq)
  -- The false branch is linked last, so that the changes are undone from it to the new node.
  unfold Store.grown at hm
  rw [Store.label?_updateRegistry] at hm
  rcases Store.label_of_linkedInner (by rw [Store.size_linkedInner]; exact hlt hlo) hm with
    ⟨rfl, rfl, rfl⟩ | hm
  · exact .inr ⟨htable, .flag false, hflag false, rfl, hbranch false⟩
  rcases Store.label_of_linkedInner (hlt hhi) hm with ⟨rfl, rfl, rfl⟩ | hm
  · exact .inr ⟨htable, .flag true, hflag true, rfl, hbranch true⟩
  rw [Store.label?_push] at hm
  split at hm
  · -- the new node itself
    left
    rw [Vertex.label?, lookup_cons_eq_ite] at hm
    split at hm
    · exact ⟨‹_›, (Option.some.inj hm).symm⟩
    · cases hm
  · rename_i hold
    have hn' := ((hw.member_insert hnew).mp hn).resolve_left hold
    rcases h n p m hn' hm with hd | ⟨hp, selector, hpermits, hmark, hleads⟩
    · exact .inl hd
    · have hmember : g.Member yes no p := .inr (.inr hp)
      refine .inr ⟨(Registry.mem_nodes_insert hw.ascending hnew).mpr (.inr hp), selector, hpermits,
        hmark, ?_⟩
      rw [Store.branch_eq_body, Wired.body?_grown_old (hw.member_ne_size hmember)
        (hw.member_ne_diagram hmember), ← Store.branch_eq_body]
      exact hleads

theorem redirected (h : Marked permits s d g yes no) (hw : Wired s d g yes no) (ha : a ∈ g.nodes) :
    Marked permits (s.redirected a side b) d g yes no := by
  intro n p m hn hm
  obtain ⟨hold, hkept⟩ := Store.label_of_redirected hm
  rcases h n p m hn hold with hd | ⟨hp, other, hpermits, hmark, hleads⟩
  · exact .inl hd
  · refine .inr ⟨hp, other, hpermits, hmark, ?_⟩
    rw [hw.branch_redirected ha]
    split
    · rename_i hset
      obtain ⟨rfl, rfl⟩ := hset
      obtain ⟨_, hi, lo, -, hbody, -⟩ := hw.exists_body ha
      have hnext :=
        (Store.next_of_body hbody other.side).trans (Store.branch_of_body hbody other.side).symm
      rw [hkept (hnext.trans hleads) rfl]
    · exact hleads

theorem linked (h : Marked permits s d g yes no) (hw : Wired s d g yes no)
    (hpermits : permits selector) (ha : a ∈ g.nodes) (hb : g.Member yes no b) :
    Marked permits ((s.redirected a selector.side b).linked d a b selector.toLabel) d g yes no := by
  intro n p m hn hm
  rcases Store.label_of_linked (by rw [Store.size_redirected]; exact hw.member_lt_size hb) hm with
    ⟨rfl, rfl, rfl⟩ | hm
  · refine .inr ⟨ha, selector, hpermits, rfl, ?_⟩
    rw [Store.branch_linked, hw.branch_redirected ha, if_pos ⟨rfl, rfl⟩]
  · rcases h.redirected hw ha n p m hn hm with hd | ⟨hp, other, hother, hmark, hleads⟩
    · exact .inl hd
    · exact .inr ⟨hp, other, hother, hmark, Store.branch_linked.trans hleads⟩

theorem of_effect (h : Marked permits s d g yes no) (hw : Wired s d g yes no)
    (hflag : ∀ side, permits (.flag side)) {c : Call} (hselects : c.Selects permits)
    (heffect : Effect s d g yes no c s' g') : Marked permits s' d g' yes no := by
  cases heffect with
  | unchanged => exact h
  | grown hnew _ _ hhi hlo => exact h.grown hw hflag hnew hhi hlo
  | halted _ ha =>
    exact (h.redirected hw ha).anti (fun _ => Store.label_of_unheld) fun r _ => Store.body?_unheld
  | linked _ ha hb => exact h.linked hw hselects ha hb
  | dropped => exact h.anti (fun _ => Store.label_of_dropParent) fun r _ => Store.body?_dropParent
  | rooted =>
    refine h.anti (fun _ hm => ?_) fun r hr =>
      Store.body?_updateRegistry_ne _ (hw.member_ne_diagram hr).symm
    rwa [Store.label?_updateRegistry] at hm

theorem elsewhere (h : Marked permits s d g yes no) (hw : Wired s d g yes no)
    (same : ∀ r, r = d ∨ s.Owns d r → s'.vertex? r = s.vertex? r) :
    Marked permits s' d g yes no := by
  refine h.anti (fun hn hm => ?_) fun r hr => (hw.same_of_elsewhere same (.inr hr)).2
  rwa [Store.label?, (hw.same_of_elsewhere same (.inr hn)).1, ← Store.label?] at hm

theorem of_history (hflag : ∀ side, permits (.flag side))
    (past : History (selectingCalls permits d) d s) :
    ∃ g yes no, Wired s d g yes no ∧ Marked permits s d g yes no := by
  refine History.induct (motive :=
    fun t => ∃ g yes no, Wired t d g yes no ∧ Marked permits t d g yes no)
    (fun before s hcreate => ⟨{}, _, _, Wired.created hcreate, created hcreate⟩)
      (fun s s' h hstep => ?_) past
  obtain ⟨g, yes, no, hw, hmarked⟩ := h
  cases hstep with
  | call c hc =>
    obtain ⟨g', heffect⟩ := hw.effect hc.1
    exact ⟨g', yes, no, hw.of_effect heffect, hmarked.of_effect hw hflag hc.2 heffect⟩
  | elsewhere same => exact ⟨g, yes, no, hw.elsewhere same, hmarked.elsewhere hw same⟩

end Marked

def Call.Flagged : Call → Prop
  | .setEdge _ _ selector => ∃ b, selector = .flag b
  | _ => True

def flaggedCalls (d : Ref) (s : Store) (c : Call) : Prop := c.Own s d ∧ c.Flagged

/-- A label that is recorded in the diagram is `unknown` for the diagram itself; for any other
parent, which is a node in the table, it names the branch that ends here. -/
def Labelled (s : Store) (d : Ref) (g : Registry) (yes no : Ref) : Prop :=
  ∀ n p m, g.Member yes no n → s.label? n p = some m →
    p = d ∧ m = .unknown ∨ p ∈ g.nodes ∧ ∃ side, m = .ofSide side ∧ s.branch side p = some n

theorem labelled_iff {s : Store} {d : Ref} {g : Registry} {yes no : Ref} :
    Labelled s d g yes no ↔ Marked (fun selector => ∃ b, selector = .flag b) s d g yes no := by
  refine forall₃_congr fun n p m => imp_congr_right fun _ => imp_congr_right fun _ =>
    or_congr_right ?_
  refine and_congr_right fun _ => ?_
  constructor
  · rintro ⟨side, hm, hleads⟩
    exact ⟨.flag side, ⟨side, rfl⟩, hm, hleads⟩
  · rintro ⟨_, ⟨side, rfl⟩, hm, hleads⟩
    exact ⟨side, hm, hleads⟩

structure Recorded (s : Store) (d : Ref) (g : Registry) (yes no : Ref) : Prop where
  wired : Wired s d g yes no
  labelled : Labelled s d g yes no
  distinct : ∀ n, g.Member yes no n → (s.parents n).Nodup

namespace Recorded

variable {s s' : Store} {d : Ref} {g : Registry} {yes no : Ref}

theorem created {before : Store} (h : Diagram.create before = .ok d s) :
    Recorded s d {} (d + 1) (d + 2) := by
  refine ⟨Wired.created h, labelled_iff.mpr (Marked.created h), ?_⟩
  obtain ⟨rfl, rfl⟩ := EStateM.Result.ok.inj h
  rintro n (rfl | rfl | hn)
  · simp [Store.parents, Store.vertex?_push, Store.size_push]
  · simp [Store.parents, Store.vertex?_push, Store.size_push]
  · simp [Registry.nodes] at hn

theorem of_effect (h : Recorded s d g yes no) {c : Call} (hflag : c.Flagged) {g' : Registry}
    (heffect : Effect s d g yes no c s' g') : Recorded s' d g' yes no := by
  have hw := h.wired
  have hselects : c.Selects fun selector => ∃ b, selector = .flag b := by cases c <;> exact hflag
  have hmarked :=
    (labelled_iff.mp h.labelled).of_effect hw (fun side => ⟨side, rfl⟩) hselects heffect
  refine ⟨hw.of_effect heffect, labelled_iff.mpr hmarked, fun n hn => ?_⟩
  cases heffect with
  | unchanged => exact h.distinct n hn
  | grown hnew =>
    refine Store.nodup_parents_updateRegistry
      (Store.nodup_parents_linkedInner (Store.nodup_parents_linkedInner ?_))
    unfold Store.parents
    rw [Store.vertex?_push]
    split
    · exact List.nodup_singleton _
    · rename_i hold
      exact h.distinct n (((hw.member_insert hnew).mp hn).resolve_left hold)
  | halted => exact Store.nodup_parents_unheld (Store.nodup_parents_redirected (h.distinct n hn))
  | linked => exact Store.nodup_parents_linked (Store.nodup_parents_redirected (h.distinct n hn))
  | dropped => exact Store.nodup_parents_dropParent (h.distinct n hn)
  | rooted => exact Store.nodup_parents_updateRegistry (h.distinct n hn)

theorem step (h : Recorded s d g yes no) (hstep : Step (flaggedCalls d) d s s') :
    ∃ g', Recorded s' d g' yes no := by
  cases hstep with
  | call c hc =>
    obtain ⟨g', heffect⟩ := h.wired.effect hc.1
    exact ⟨g', h.of_effect hc.2 heffect⟩
  | elsewhere same =>
    have hmarked := (labelled_iff.mp h.labelled).elsewhere h.wired same
    refine ⟨g, h.wired.elsewhere same, labelled_iff.mpr hmarked, fun n hn => ?_⟩
    rw [Store.parents, (h.wired.same_of_elsewhere same (.inr hn)).1, ← Store.parents]
    exact h.distinct n hn

theorem of_history (past : History (flaggedCalls d) d s) : ∃ g yes no, Recorded s d g yes no := by
  refine History.induct (motive := fun t => ∃ g yes no, Recorded t d g yes no)
    (fun before s hcreate => ⟨{}, _, _, created hcreate⟩) (fun s s' h hstep => ?_) past
  obtain ⟨g, yes, no, hrecorded⟩ := h
  obtain ⟨g', hnext⟩ := hrecorded.step hstep
  exact ⟨g', yes, no, hnext⟩

end Recorded

/-- After any own calls that select branches by truth values, failed ones included, the vertices of
a diagram are in order. No parent is recorded twice, and each is the diagram itself, held as
`unknown`, or a node in the table whose branch of that label ends here. -/
theorem parents_name_branches {s : Store} {d : Ref} (past : History (flaggedCalls d) d s) :
    ∃ g yes no, Wired s d g yes no ∧ ∀ n x, g.Member yes no n → s.vertex? n = some x →
      (x.parents.map (·.1)).Nodup ∧ ∀ p l, (p, l) ∈ x.parents →
        p = d ∧ l = .unknown ∨ p ∈ g.nodes ∧
          (l = .hi ∧ s.branch true p = some n ∨ l = .lo ∧ s.branch false p = some n) := by
  obtain ⟨g, yes, no, h⟩ := Recorded.of_history past
  refine ⟨g, yes, no, h.wired, fun n x hn hx => ?_⟩
  have hdistinct : (x.parents.map (·.1)).Nodup := by
    have hn := h.distinct n hn
    rwa [Store.parents, hx] at hn
  refine ⟨hdistinct, fun p l hl => ?_⟩
  have hlabel : s.label? n p = some l := by
    rw [Store.label?, hx]
    exact (lookup_eq_some_iff_mem hdistinct).mpr hl
  rcases h.labelled n p l hn hlabel with hd | ⟨hp, side, rfl, hleads⟩
  · exact .inl hd
  · refine .inr ⟨hp, ?_⟩
    cases side with
    | true => exact .inl ⟨rfl, hleads⟩
    | false => exact .inr ⟨rfl, hleads⟩

theorem linkedPair_history : History (flaggedCalls 0) 0 linkedPair := by
  have hadd : ∀ s v, flaggedCalls 0 s (.addNode v .nothing .nothing) := by
    simp [flaggedCalls, Call.Own, Call.references, Reference.Own, Call.Flagged]
  have hset : ∀ s, flaggedCalls 0 s (.setEdge (.variable 5) (.variable 6) (.flag true)) := by
    simp [flaggedCalls, Call.Own, Call.references, Reference.Own, Call.Flagged]
  have hfresh : History (flaggedCalls 0) 0 (Edit.after Diagram.create {}) := ⟨{}, _, rfl, .refl⟩
  have hlone : History (flaggedCalls 0) 0 loneNode := hfresh.tail (.call _ (hadd _ 5))
  exact (hlone.tail (.call _ (hadd _ 6))).tail (.call _ (hset _))

theorem parents_name_branches_linkedPair : History (flaggedCalls 0) 0 linkedPair ∧
    ∃ x, linkedPair.vertex? 4 = some x ∧ x.parents = [(3, .hi)] ∧
    linkedPair.branch true 3 = some 4 := by
  obtain ⟨g, yes, no, hwired, hparents⟩ := parents_name_branches linkedPair_history
  obtain rfl : g = { table := [(5, 3), (6, 4)] } :=
    Option.some.inj (hwired.registry?.symm.trans rfl)
  obtain ⟨-, hlabel⟩ := hparents 4 _ (.inr (.inr (by decide))) rfl
  refine ⟨linkedPair_history, _, rfl, rfl, ?_⟩
  rcases hlabel 3 .hi (List.mem_singleton.mpr rfl) with hd | ⟨-, hhi | hlo⟩
  · exact absurd hd.1 (by decide)
  · exact hhi.2
  · exact absurd hlo.1 (by decide)

end DecisionDiagram
