import DecisionDiagram.Proofs.BuildFrame
import DecisionDiagram.Proofs.PairedQuestions
/-! Changes to twin stores. The methods of paired diagrams, called with references to paired
vertices, end alike and leave twin stores behind. What was paired stays so, new vertices are paired
with new ones, and a vertex that is not paired stays as it is. -/
namespace DecisionDiagram
open List Relator

section Mono

variable {R R' : Pairing}

theorem Registry.Alike.mono (hle : ∀ a b, R a b → R' a b) {g g' : Registry}
    (h : Registry.Alike R g g') : Registry.Alike R' g g' :=
  ⟨h.table.imp fun _ _ he => ⟨he.1, hle _ _ he.2⟩, rel_mono hle h.root⟩

theorem Kind.Alike.mono (hle : ∀ a b, R a b → R' a b) {k k' : Kind} (h : Kind.Alike R k k') :
    Kind.Alike R' k k' := by
  cases h with
  | diagram hg => exact .diagram (hg.mono hle)
  | plain => exact .plain
  | node v => exact .node v
  | decision v => exact .decision v
  | terminal v value => exact .terminal v value

theorem Vertex.Alike.mono (hle : ∀ a b, R a b → R' a b) {x y : Vertex} (h : Vertex.Alike R x y) :
    Vertex.Alike R' x y where
  kind := h.kind.mono hle
  hi := rel_mono hle h.hi
  lo := rel_mono hle h.lo
  parents := h.parents.imp fun _ _ he => ⟨hle _ _ he.1, he.2⟩

theorem Reference.Alike.mono (hle : ∀ a b, R a b → R' a b) {ref ref' : Reference}
    (h : Reference.Alike R ref ref') : Reference.Alike R' ref ref' := by
  cases h with
  | nothing => exact .nothing
  | «variable» v => exact .variable v
  | vertex hab => exact .vertex (hle _ _ hab)

theorem Fault.Alike.mono (hle : ∀ a b, R a b → R' a b) {e f : Fault} (h : Fault.Alike R e f) :
    Fault.Alike R' e f := by
  cases h with
  | equalBranches hab => exact .equalBranches (hle _ _ hab)
  | absentTarget hab => exact .absentTarget (hle _ _ hab)
  | secondBranch hab => exact .secondBranch (hle _ _ hab)
  | parentAsBranch hab => exact .parentAsBranch (hle _ _ hab)
  | branchAsParent hab => exact .branchAsParent (hle _ _ hab)
  | terminalSource hab => exact .terminalSource (hle _ _ hab)
  | unknownEdge hab hce => exact .unknownEdge (hle _ _ hab) (hle _ _ hce)
  | rootCount hl => exact .rootCount (hl.imp hle)
  | cyclicPath hab hce => exact .cyclicPath (hle _ _ hab) (hle _ _ hce)
  | notValidated hab => exact .notValidated (hle _ _ hab)
  | lostWalk side hab => exact .lostWalk side (hle _ _ hab)
  | missingBranch hab => exact .missingBranch (hle _ _ hab)
  | endlessPath hab => exact .endlessPath (hle _ _ hab)
  | bare hbare => exact .bare hbare

end Mono

structure Advance (s t : Store) (R : Pairing) (s' t' : Store) (R' : Pairing) : Prop where
  twin : s'.Twin t' R'
  wider : ∀ a b, R a b → R' a b
  fresh : ∀ a b, R' a b → R a b ∨ s.size ≤ a
  apart : ∀ r < s.size, (∀ b, ¬ R r b) → s'.vertex? r = s.vertex? r
  size : s.size ≤ s'.size

namespace Advance

variable {s s' s'' t t' t'' : Store} {R R' R'' : Pairing} {a b : Ref}

theorem refl (h : s.Twin t R) : Advance s t R s t R :=
  ⟨h, fun _ _ hab => hab, fun _ _ hab => .inl hab, fun _ _ _ => rfl, Nat.le_refl _⟩

theorem trans (h : Advance s t R s' t' R') (h' : Advance s' t' R' s'' t'' R'') :
    Advance s t R s'' t'' R'' where
  twin := h'.twin
  wider a b hab := h'.wider a b (h.wider a b hab)
  fresh a b hab := by
    rcases h'.fresh a b hab with hab | hnew
    · exact h.fresh a b hab
    · exact .inr (h.size.trans hnew)
  apart r hr hfree := by
    have hfree' : ∀ b, ¬ R' r b := by
      intro b hb
      rcases h.fresh r b hb with hb | hnew
      · exact hfree b hb
      · exact absurd hr (Nat.not_lt.mpr hnew)
    rw [h'.apart r (Nat.lt_of_lt_of_le hr h.size) hfree', h.apart r hr hfree]
  size := h.size.trans h'.size

theorem modify (h : s.Twin t R) (hab : R a b) {f f' : Vertex → Vertex}
    (hf : ∀ x y, Vertex.Alike R x y → Vertex.Alike R (f x) (f' y)) :
    Advance s t R (s.modify a f) (t.modify b f') R where
  twin := by
    refine ⟨h.unique, fun c e hce => ?_⟩
    obtain ⟨x, y, hx, hy, hxy⟩ := h.alike c e hce
    rw [Store.vertex?_modify, Store.vertex?_modify, hx, hy]
    simp only [BiUnique.eq_iff h.unique hab hce]
    split
    · exact ⟨f x, f' y, rfl, rfl, hf x y hxy⟩
    · exact ⟨x, y, rfl, rfl, hxy⟩
  wider _ _ hce := hce
  fresh _ _ hce := .inl hce
  apart r _ hfree := by
    refine s.vertex?_modify_ne ?_ f
    rintro rfl
    exact hfree b hab
  size := Nat.le_of_eq (s.size_modify a f).symm

theorem extend (h : s.Twin t R) {new : Pairing} (hunique : BiUnique new)
    (hs : s.SameBelow s.size s') (ht : t.SameBelow t.size t') (hsize : s.size ≤ s'.size)
    (hnew : ∀ a b, new a b → s.size ≤ a ∧ t.size ≤ b ∧ ∃ x y, s'.vertex? a = some x ∧
      t'.vertex? b = some y ∧ Vertex.Alike (fun a b => R a b ∨ new a b) x y) :
    Advance s t R s' t' fun a b => R a b ∨ new a b where
  twin := by
    refine ⟨⟨?_, ?_⟩, ?_⟩
    · rintro a c b (hab | hab) (hcb | hcb)
      · exact h.unique.1 hab hcb
      · exact absurd (h.lt_size hab).2 (Nat.not_lt.mpr (hnew c b hcb).2.1)
      · exact absurd (h.lt_size hcb).2 (Nat.not_lt.mpr (hnew a b hab).2.1)
      · exact hunique.1 hab hcb
    · rintro a b c (hab | hab) (hac | hac)
      · exact h.unique.2 hab hac
      · exact absurd (h.lt_size hab).1 (Nat.not_lt.mpr (hnew a c hac).1)
      · exact absurd (h.lt_size hac).1 (Nat.not_lt.mpr (hnew a b hab).1)
      · exact hunique.2 hab hac
    · rintro a b (hab | hab)
      · obtain ⟨ha, hb⟩ := h.lt_size hab
        obtain ⟨x, y, hx, hy, hxy⟩ := h.alike a b hab
        exact ⟨x, y, (hs a ha).trans hx, (ht b hb).trans hy, hxy.mono fun _ _ => .inl⟩
      · exact (hnew a b hab).2.2
  wider _ _ := .inl
  fresh a b hab := hab.imp_right fun hab => (hnew a b hab).1
  apart r hr _ := hs r hr
  size := hsize

end Advance

abbrev anything {α β : Type} : Pairing → α → β → Prop := fun _ _ _ => True

abbrev paired : Pairing → Ref → Ref → Prop := fun R => R

/-- Two edits that come from twin stores to an end: alike, and in twin stores. -/
inductive Results {α β : Type} (s t : Store) (R : Pairing) (S : Pairing → α → β → Prop) :
    EStateM.Result Fault Store α → EStateM.Result Fault Store β → Prop
  | ok {s' t' : Store} {R' : Pairing} {a : α} {b : β} (h : Advance s t R s' t' R')
      (hab : S R' a b) :
    Results s t R S (.ok a s') (.ok b t')
  | error {s' t' : Store} {R' : Pairing} {e f : Fault} (h : Advance s t R s' t' R')
      (hef : Fault.Alike R' e f) :
    Results s t R S (.error e s') (.error f t')

namespace Results

variable {α β γ δ : Type} {s s' t t' : Store} {R R' : Pairing} {S : Pairing → α → β → Prop}
variable {T : Pairing → γ → δ → Prop}
variable {x : Edit α} {y : Edit β} {f : α → Edit γ} {f' : β → Edit δ}

theorem after (h : Advance s t R s' t' R') {p : EStateM.Result Fault Store α}
    {q : EStateM.Result Fault Store β} (hpq : Results s' t' R' S p q) : Results s t R S p q := by
  cases hpq with
  | ok h' hab => exact .ok (h.trans h') hab
  | error h' hef => exact .error (h.trans h') hef

theorem bind (h : Results s t R S (x s) (y t))
    (hf : ∀ s' t' R' a b, Advance s t R s' t' R' → S R' a b →
      Results s' t' R' T (f a s') (f' b t')) :
    Results s t R T ((x >>= f) s) ((y >>= f') t) := by
  generalize hx : x s = p, hy : y t = q at h
  cases h with
  | ok h hab =>
    rw [bind_of_ok hx, bind_of_ok hy]
    exact (hf _ _ _ _ _ h hab).after h
  | error h hef =>
    rw [bind_of_error hx, bind_of_error hy]
    exact .error h hef

theorem observe {question : Store → Except Fault α} {question' : Store → Except Fault β}
    (h : s.Twin t R) (hanswers : Answers R (S R) (question s) (question' t)) :
    Results s t R S (DecisionDiagram.observe question s) (DecisionDiagram.observe question' t) := by
  unfold DecisionDiagram.observe
  generalize question s = p, question' t = q at hanswers
  cases hanswers with
  | ok hab => exact .ok (.refl h) hab
  | error hef => exact .error (.refl h) hef

theorem get_bind {f : Store → Edit γ} {f' : Store → Edit δ} (h : Results s t R T (f s s) (f' t t)) :
    Results s t R T ((get >>= f) s) ((get >>= f') t) := h

end Results

namespace Vertex.Alike

variable {R : Pairing} {x y : Vertex} {p q : Ref}

theorem setBranch (h : Vertex.Alike R x y) (side : Bool) (hpq : R p q) :
    Vertex.Alike R (x.setBranch side p) (y.setBranch side q) := by
  cases side with
  | true => exact ⟨h.kind, .some hpq, h.lo, h.parents⟩
  | false => exact ⟨h.kind, h.hi, .some hpq, h.parents⟩

theorem dropParent (h : Vertex.Alike R x y) (hR : BiUnique R) (hpq : R p q) :
    Vertex.Alike R (x.dropParent p) (y.dropParent q) := by
  refine ⟨h.kind, h.hi, h.lo, rel_filter (fun e e' he => ?_) h.parents⟩
  simp only [ne_eq, decide_eq_true_eq, BiUnique.eq_iff hR he.1 hpq]

theorem upsert_rel (hR : BiUnique R) (hpq : R p q) (l : Label) {es es' : List (Ref × Label)}
    (h : Forall₂ (fun e e' => R e.1 e'.1 ∧ e.2 = e'.2) es es') :
    Forall₂ (fun e e' => R e.1 e'.1 ∧ e.2 = e'.2) (upsert p l es) (upsert q l es') := by
  induction h with
  | nil => exact .cons ⟨hpq, rfl⟩ .nil
  | cons he hes ih =>
    unfold upsert
    simp only [BiUnique.eq_iff hR he.1 hpq]
    split
    · exact .cons ⟨hpq, rfl⟩ hes
    · exact .cons he ih

theorem addParent (h : Vertex.Alike R x y) (hR : BiUnique R) (hpq : R p q) (l : Label) :
    Vertex.Alike R (x.addParent p l) (y.addParent q l) :=
  ⟨h.kind, h.hi, h.lo, upsert_rel hR hpq l h.parents⟩

theorem create_answers (hR : BiUnique R) {k m : Kind} (hkind : Kind.Alike R k m)
    {parent parent' hi hi' lo lo' : Option Ref} (hparent : Option.Rel R parent parent')
    (hhi : Option.Rel R hi hi') (hlo : Option.Rel R lo lo') :
    Answers R (Vertex.Alike R) (Vertex.create k parent hi lo)
      (Vertex.create m parent' hi' lo') := by
  have hheld : Answers R (Vertex.Alike R) (Vertex.create.held k parent hi lo)
      (Vertex.create.held m parent' hi' lo') := by
    cases hparent with
    | none => exact .ok ⟨hkind, hhi, hlo, .nil⟩
    | some hpq =>
      simp only [Vertex.create.held, eq_some_iff_of_rel hR hhi hpq, eq_some_iff_of_rel hR hlo hpq]
      split
      · exact .error (.branchAsParent hpq)
      · exact .ok ⟨hkind, hhi, hlo, .cons ⟨hpq, rfl⟩ .nil⟩
  cases hhi with
  | none => exact hheld
  | some hab =>
    simp only [Vertex.create, eq_some_iff_of_rel hR hlo hab]
    split
    · exact .error (.equalBranches hab)
    · exact hheld

end Vertex.Alike

namespace Store.Twin

variable {s t : Store} {R : Pairing} {a b d e p q : Ref} {side : Bool} {l : Label}

theorem dropParent (h : s.Twin t R) (hab : R a b) (hpq : R p q) :
    Advance s t R (s.dropParent a p) (t.dropParent b q) R :=
  .modify h hab fun _ _ hxy => hxy.dropParent h.unique hpq

theorem addParent (h : s.Twin t R) (hab : R a b) (hpq : R p q) (l : Label) :
    Advance s t R (s.addParent a p l) (t.addParent b q l) R :=
  .modify h hab fun _ _ hxy => hxy.addParent h.unique hpq l

theorem setBranch (h : s.Twin t R) (hab : R a b) (side : Bool) (hpq : R p q) :
    Advance s t R (s.setBranch a side p) (t.setBranch b side q) R :=
  .modify h hab fun _ _ hxy => hxy.setBranch side hpq

theorem updateRegistry (h : s.Twin t R) (hd : R d e) {f f' : Registry → Registry}
    (hf : ∀ g g', Registry.Alike R g g' → Registry.Alike R (f g) (f' g')) :
    Advance s t R (s.updateRegistry d f) (t.updateRegistry e f') R := by
  refine .modify h hd fun x y hxy => ?_
  obtain ⟨kind, hi, lo, parents⟩ := x
  obtain ⟨kind', hi', lo', parents'⟩ := y
  obtain ⟨hkind, hhi, hlo, hparents⟩ := hxy
  cases hkind with
  | diagram hg => exact ⟨.diagram (hf _ _ hg), hhi, hlo, hparents⟩
  | plain => exact ⟨.plain, hhi, hlo, hparents⟩
  | node v => exact ⟨.node v, hhi, hlo, hparents⟩
  | decision v => exact ⟨.decision v, hhi, hlo, hparents⟩
  | terminal v value => exact ⟨.terminal v value, hhi, hlo, hparents⟩

theorem unheld (h : s.Twin t R) (hd : R d e) (hab : R a b) :
    Advance s t R (s.unheld d a) (t.unheld e b) R := by
  unfold Store.unheld
  rw [h.hasParent_eq hab hd]
  split
  · exact h.dropParent hab hd
  · exact .refl h

theorem linked (h : s.Twin t R) (hd : R d e) (hpq : R p q) (hab : R a b) (l : Label) :
    Advance s t R (s.linked d p a l) (t.linked e q b l) R :=
  (h.unheld hd hab).trans ((h.unheld hd hab).twin.addParent hab hpq l)

theorem push (h : s.Twin t R) {x y : Vertex} (hxy : Vertex.Alike R x y) :
    Advance s t R (s.push x) (t.push y) fun a b => R a b ∨ a = s.size ∧ b = t.size := by
  have hunique : BiUnique fun a b => a = s.size ∧ b = t.size := by
    refine ⟨?_, ?_⟩
    · rintro a c b ⟨rfl, -⟩ ⟨rfl, -⟩
      rfl
    · rintro a b c ⟨-, rfl⟩ ⟨-, rfl⟩
      rfl
  refine .extend h hunique (sameBelow_push x (Nat.le_refl _)) (sameBelow_push y (Nat.le_refl _))
    ?_ ?_
  · rw [size_push]
    exact Nat.le_succ _
  · rintro a b ⟨rfl, rfl⟩
    refine ⟨Nat.le_refl _, Nat.le_refl _, x, y, ?_, ?_, hxy.mono fun _ _ => .inl⟩
    · rw [vertex?_push, if_pos rfl]
    · rw [vertex?_push, if_pos rfl]

end Store.Twin

section Edits

variable {s t : Store} {R : Pairing} {a b d e p q : Ref} {side : Bool} {l : Label}

theorem results_modify {f f' : Store → Store} (h : Advance s t R (f s) (f' t) R) :
    Results s t R anything ((modify f : Edit Unit) s) ((modify f' : Edit Unit) t) := .ok h trivial

theorem results_wireBranch (h : s.Twin t R) (hab : R a b) (side : Bool) (hpq : R p q) :
    Results s t R anything (wireBranch a side p s) (wireBranch b side q t) := by
  cases hterm : t.isTerminal b with
  | true =>
    rw [Wired.wireBranch_terminal hterm, Wired.wireBranch_terminal (h.isTerminal_eq hab ▸ hterm)]
    exact .error (.refl h) (h.raise_rel (.terminalSource hab))
  | false =>
    rw [Wired.wireBranch_run hterm, Wired.wireBranch_run (h.isTerminal_eq hab ▸ hterm)]
    have hcheck := h.checkTarget_answers hab side hpq
    generalize s.checkTarget a side p = x, t.checkTarget b side q = y at hcheck
    cases hcheck with
    | ok _ => exact .ok (h.setBranch hab side hpq) trivial
    | error hef => exact .error (.refl h) hef

theorem results_link (h : s.Twin t R) (hd : R d e) (hpq : R p q) (hab : R a b) (l : Label) :
    Results s t R anything (Diagram.link d p a l s) (Diagram.link e q b l t) := by
  rw [link_run, link_run, h.hasBranch_eq hab hpq]
  split
  · have hunheld := h.unheld hd hab
    exact .error hunheld (hunheld.twin.raise_rel (.branchAsParent hpq))
  · exact .ok (h.linked hd hpq hab l) trivial

theorem results_linkInner (h : s.Twin t R) (hd : R d e) (hpq : R p q) (l : Label)
    {target target' : Option Ref} (htarget : Option.Rel R target target') :
    Results s t R anything (Diagram.linkInner d p l target s)
      (Diagram.linkInner e q l target' t) := by
  cases htarget with
  | none => exact .ok (.refl h) trivial
  | some hab =>
    rw [linkInner_run, linkInner_run, h.isTerminal_eq hab]
    split
    · exact .ok (.refl h) trivial
    · exact results_link h hd hpq hab l

theorem results_createVertex (h : s.Twin t R) {k m : Kind} (hkind : Kind.Alike R k m)
    {parent parent' hi hi' lo lo' : Option Ref} (hparent : Option.Rel R parent parent')
    (hhi : Option.Rel R hi hi') (hlo : Option.Rel R lo lo') :
    Results s t R paired (createVertex k parent hi lo s) (createVertex m parent' hi' lo' t) := by
  have hcreate := h.mapError_answers (Vertex.Alike.create_answers h.unique hkind hparent hhi hlo)
  refine (Results.observe h (S := fun R => Vertex.Alike R) hcreate).bind
    fun s' t' R' x y hadv hxy => ?_
  exact .ok (hadv.twin.push hxy) (.inr ⟨rfl, rfl⟩)

theorem results_requireMutable (h : s.Twin t R) (hd : R d e) :
    Results s t R anything (Diagram.requireMutable d s) (Diagram.requireMutable e t) := by
  refine (Results.observe h (S := Registry.Alike) (h.registry_answers hd)).bind
    fun s' t' R' g g' hadv hg => ?_
  rw [hg.ready_eq]
  split
  · exact .error (.refl hadv.twin) (.bare rfl)
  · exact .ok (.refl hadv.twin) trivial

theorem results_placeNode (h : s.Twin t R) (hd : R d e) (v : Int) {hi hi' lo lo' : Reference}
    (hhi : Reference.Alike R hi hi') (hlo : Reference.Alike R lo lo') :
    Results s t R paired (Diagram.placeNode d v hi lo s) (Diagram.placeNode e v hi' lo' t) := by
  unfold Diagram.placeNode
  refine (Results.observe h (S := Option.Rel) (h.branchTarget_answers hd true hhi)).bind
    fun s₁ t₁ R₁ hiRef hiRef' h₁ hhiRef => ?_
  have hd₁ := h₁.wider d e hd
  refine (Results.observe h₁.twin (S := Option.Rel)
    (h₁.twin.branchTarget_answers hd₁ false (hlo.mono h₁.wider))).bind
      fun s₂ t₂ R₂ loRef loRef' h₂ hloRef => ?_
  have hd₂ := h₂.wider d e hd₁
  refine (results_createVertex h₂.twin (.decision v) (.some hd₂) (rel_mono h₂.wider hhiRef)
    hloRef).bind fun s₃ t₃ R₃ r r' h₃ hr => ?_
  refine (results_linkInner h₃.twin (h₃.wider d e hd₂) hr .hi
    (rel_mono (h₂.trans h₃).wider hhiRef)).bind fun s₄ t₄ R₄ _ _ h₄ _ => ?_
  refine (results_linkInner h₄.twin ((h₃.trans h₄).wider d e hd₂) (h₄.wider r r' hr) .lo
    (rel_mono (h₃.trans h₄).wider hloRef)).bind fun s₅ t₅ R₅ _ _ h₅ _ => ?_
  have hr₅ := (h₄.trans h₅).wider r r' hr
  have hupdate := h₅.twin.updateRegistry (((h₃.trans h₄).trans h₅).wider d e hd₂)
    fun g g' (hg : Registry.Alike R₅ g g') => hg.insert v hr₅
  exact (results_modify hupdate).bind fun s₆ t₆ R₆ _ _ h₆ _ =>
    .ok (.refl h₆.twin) (h₆.wider r r' hr₅)

theorem results_addNode (h : s.Twin t R) (hd : R d e) (v : Int) {hi hi' lo lo' : Reference}
    (hhi : Reference.Alike R hi hi') (hlo : Reference.Alike R lo lo') :
    Results s t R paired (Diagram.addNode d v hi lo s) (Diagram.addNode e v hi' lo' t) := by
  refine (Results.observe h (S := Registry.Alike) (h.registry_answers hd)).bind
    fun s₁ t₁ R₁ g g' h₁ hg => ?_
  have hd₁ := h₁.wider d e hd
  refine rel_cases (hg.find?_rel v) ?_ fun r r' hr => .ok (.refl h₁.twin) hr
  refine (results_requireMutable h₁.twin hd₁).bind fun s₂ t₂ R₂ _ _ h₂ _ => ?_
  have hle := (h₁.trans h₂).wider
  split
  · exact .error (.refl h₂.twin) (.bare rfl)
  · exact results_placeNode h₂.twin (h₂.wider d e hd₁) v (hhi.mono hle) (hlo.mono hle)

def Edge.Alike (R : Pairing) (x y : Edge) : Prop :=
  R x.source y.source ∧ R x.target y.target ∧ x.side = y.side

theorem results_setEdge (h : s.Twin t R) (hd : R d e) {source source' target target' : Reference}
    (selector : Selector) (hsource : Reference.Alike R source source')
    (htarget : Reference.Alike R target target') :
    Results s t R Edge.Alike (Diagram.setEdge d source target selector s)
      (Diagram.setEdge e source' target' selector t) := by
  refine (results_requireMutable h hd).bind fun s₁ t₁ R₁ _ _ h₁ _ => ?_
  have hd₁ := h₁.wider d e hd
  refine (Results.observe h₁.twin (S :=
    paired) (h₁.twin.require_answers hd₁ (hsource.mono h₁.wider))).bind
    fun s₂ t₂ R₂ p q h₂ hpq => ?_
  have hd₂ := h₂.wider d e hd₁
  refine (Results.observe h₂.twin (S := paired) (h₂.twin.requireListed_answers hd₂
    (htarget.mono (h₁.trans h₂).wider))).bind fun s₃ t₃ R₃ a b h₃ hab => ?_
  have hpq₃ : R₃ p q := h₃.wider p q hpq
  refine Results.get_bind ?_
  have hformer := h₃.twin.next_rel hpq₃ selector.side
  refine (results_wireBranch h₃.twin hpq₃ selector.side hab).bind fun s₄ t₄ R₄ _ _ h₄ _ => ?_
  have hlink : ∀ s₅ t₅ R₅, Advance s₄ t₄ R₄ s₅ t₅ R₅ → Results s₅ t₅ R₅ Edge.Alike
      ((do Diagram.link d p a selector.toLabel; return (⟨p, a, selector.side⟩ : Edge)) s₅)
      ((do Diagram.link e q b selector.toLabel; return (⟨q, b, selector.side⟩ : Edge)) t₅) := by
    intro s₅ t₅ R₅ h₅
    have hle := ((h₃.trans h₄).trans h₅).wider
    have hle₄ := (h₄.trans h₅).wider
    refine (results_link h₅.twin (hle d e hd₂) (hle₄ p q hpq₃) (hle₄ a b hab) _).bind
      fun s₆ t₆ R₆ _ _ h₆ _ => ?_
    exact .ok (.refl h₆.twin) ⟨h₆.wider _ _ (hle₄ p q hpq₃), h₆.wider _ _ (hle₄ a b hab), rfl⟩
  refine rel_cases hformer (hlink _ _ _ (.refl h₄.twin)) fun f f' hf => ?_
  have hiff := BiUnique.eq_iff h₄.twin.unique (h₄.wider f f' hf) (h₄.wider a b hab)
  have hdrop := h₄.twin.dropParent (h₄.wider f f' hf) (h₄.wider p q hpq₃)
  dsimp only
  by_cases hsame : f = a
  · rw [if_neg (not_not_intro hsame), if_neg (not_not_intro (hiff.mp hsame))]
    exact hlink _ _ _ (.refl h₄.twin)
  · rw [if_pos hsame, if_pos (hsame ∘ hiff.mpr)]
    exact (results_modify hdrop).bind fun s₅ t₅ R₅ _ _ h₅ _ => hlink _ _ _ h₅

theorem results_removeEdge (h : s.Twin t R) (hd : R d e) {source source' target target' : Reference}
    (hsource : Reference.Alike R source source') (htarget : Reference.Alike R target target') :
    Results s t R anything (Diagram.removeEdge d source target s)
      (Diagram.removeEdge e source' target' t) := by
  refine (Results.observe h (S := Registry.Alike) (h.registry_answers hd)).bind
    fun s₁ t₁ R₁ g g' h₁ hg => ?_
  have hd₁ := h₁.wider d e hd
  refine (Results.observe h₁.twin (S :=
    paired) (h₁.twin.require_answers hd₁ (hsource.mono h₁.wider))).bind
    fun s₂ t₂ R₂ p q h₂ hpq => ?_
  have hd₂ := h₂.wider d e hd₁
  refine (Results.observe h₂.twin (S := paired) (h₂.twin.require_answers hd₂
    (htarget.mono (h₁.trans h₂).wider))).bind fun s₃ t₃ R₃ a b h₃ hab => ?_
  have hd₃ := h₃.wider d e hd₂
  have hpq₃ : R₃ p q := h₃.wider p q hpq
  have hdrop : ∀ s₄ t₄ R₄, Advance s₃ t₃ R₃ s₄ t₄ R₄ →
      Results s₄ t₄ R₄ anything (removeParent a p s₄) (removeParent b q t₄) := fun s₄ t₄ R₄ h₄ =>
    results_modify (h₄.twin.dropParent (h₄.wider a b hab) (h₄.wider p q hpq₃))
  have hiff := BiUnique.eq_iff h₃.twin.unique hpq₃ hd₃
  by_cases hsame : p = d
  · rw [if_neg (not_not_intro hsame), if_neg (not_not_intro (hiff.mp hsame))]
    exact hdrop _ _ _ (.refl h₃.twin)
  · rw [if_pos hsame, if_pos (hsame ∘ hiff.mpr)]
    exact (results_requireMutable h₃.twin hd₃).bind fun s₄ t₄ R₄ _ _ h₄ _ => hdrop _ _ _ h₄

theorem results_validate (h : s.Twin t R) (hd : R d e) :
    Results s t R paired (Diagram.validate d s) (Diagram.validate e t) := by
  refine (Results.observe h (S := Registry.Alike) (h.registry_answers hd)).bind
    fun s₁ t₁ R₁ g g' h₁ hg => ?_
  have hd₁ := h₁.wider d e hd
  refine rel_cases hg.root ?_ fun r r' hr => .ok (.refl h₁.twin) hr
  refine (Results.observe h₁.twin (S := paired) (h₁.twin.findRoot_answers hd₁ hg)).bind
    fun s₂ t₂ R₂ r r' h₂ hr => ?_
  have hupdate := h₂.twin.updateRegistry (h₂.wider d e hd₁)
    fun g g' (hg : Registry.Alike R₂ g g') => hg.setRoot hr
  exact (results_modify hupdate).bind fun s₃ t₃ R₃ _ _ h₃ _ =>
    .ok (.refl h₃.twin) (h₃.wider r r' hr)

theorem vertices_created {created : Store} (h : Diagram.create s = .ok d created) :
    created.vertex? d = some { kind := .diagram {}, hi := some (d + 1), lo := some (d + 2) } ∧
      created.vertex? (d + 1) = some
        { kind := .terminal trueVariable true, parents := [(d, .unknown)] } ∧
      created.vertex? (d + 2) = some
        { kind := .terminal falseVariable false, parents := [(d, .unknown)] } := by
  obtain ⟨rfl, rfl⟩ := EStateM.Result.ok.inj h
  have hd : s.size ≠ s.size + 1 + 1 := by omega
  simp [Store.vertex?_push, Store.size_push, hd]

theorem results_create (h : s.Twin t R) :
    Results s t R paired (Diagram.create s) (Diagram.create t) := by
  obtain ⟨s', hs⟩ : ∃ s', Diagram.create s = .ok s.size s' := ⟨_, rfl⟩
  obtain ⟨t', ht⟩ : ∃ t', Diagram.create t = .ok t.size t' := ⟨_, rfl⟩
  obtain ⟨hx, hxyes, hxno⟩ := vertices_created hs
  obtain ⟨hy, hyyes, hyno⟩ := vertices_created ht
  have hsize : s.size ≤ s'.size := Nat.le_of_lt (Store.lt_size_of_vertex? hx)
  let new : Pairing := fun a b => ∃ i : Nat, i < 3 ∧ a = s.size + i ∧ b = t.size + i
  have hunique : BiUnique new := by
    refine ⟨?_, ?_⟩
    · rintro a c b ⟨i, -, rfl, rfl⟩ ⟨j, -, rfl, hij⟩
      rw [Nat.add_left_cancel hij]
    · rintro a b c ⟨i, -, rfl, rfl⟩ ⟨j, -, hij, rfl⟩
      rw [Nat.add_left_cancel hij]
  have hpair : ∀ i < 3, R (s.size + i) (t.size + i) ∨ new (s.size + i) (t.size + i) :=
    fun i hi => .inr ⟨i, hi, rfl, rfl⟩
  have hheld :
    Forall₂ (fun e e' => (R e.1 e'.1 ∨ new e.1 e'.1) ∧ e.2 = e'.2) [(s.size, Label.unknown)]
      [(t.size, Label.unknown)] := .cons ⟨hpair 0 (by decide), rfl⟩ .nil
  rw [hs, ht]
  refine .ok (.extend h hunique (Store.sameBelow_create hs) (Store.sameBelow_create ht) hsize ?_)
    (hpair 0 (by decide))
  rintro a b ⟨i, hi, rfl, rfl⟩
  refine ⟨Nat.le_add_right _ _, Nat.le_add_right _ _, ?_⟩
  obtain rfl | rfl | rfl : i = 0 ∨ i = 1 ∨ i = 2 := by omega
  · exact ⟨_, _, hx, hy, .diagram ⟨.nil, .none⟩, .some (hpair 1 (by decide)),
      .some (hpair 2 (by decide)), .nil⟩
  · exact ⟨_, _, hxyes, hyyes, .terminal _ _, .none, .none, hheld⟩
  · exact ⟨_, _, hxno, hyno, .terminal _ _, .none, .none, hheld⟩

end Edits

end DecisionDiagram
