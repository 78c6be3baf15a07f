import DecisionDiagram.Document.Write
import DecisionDiagram.Evaluation
import DecisionDiagram.Probability
import DecisionDiagram.Proofs.EvaluationOutcome
import DecisionDiagram.Proofs.StorePairing
/-! Questions to twin stores about paired diagrams. Each is answered alike: with values that are
equal or name paired vertices, or with faults of one kind that name paired vertices. -/
namespace DecisionDiagram
open List Relator

variable {R : Pairing}

inductive Reference.Alike (R : Pairing) : Reference → Reference → Prop
  | nothing : Alike R .nothing .nothing
  | variable (v : Int) : Alike R (.variable v) (.variable v)
  | vertex {a b : Ref} (h : R a b) : Alike R (.vertex a) (.vertex b)

/-- Both come to related values, or both to alike faults. -/
inductive Answers {α β : Type} (R : Pairing) (S : α → β → Prop) : Except Fault α →
  Except Fault β → Prop
  | ok {a : α} {b : β} (h : S a b) : Answers R S (.ok a) (.ok b)
  | error {e f : Fault} (h : Fault.Alike R e f) : Answers R S (.error e) (.error f)

namespace Answers

variable {α β γ δ : Type} {S : α → β → Prop} {T : γ → δ → Prop} {x : Except Fault α}
variable {y : Except Fault β}

theorem bind {f : α → Except Fault γ} {f' : β → Except Fault δ} (h : Answers R S x y)
    (hf : ∀ a b, S a b → Answers R T (f a) (f' b)) : Answers R T (x >>= f) (y >>= f') := by
  cases h with
  | ok hab => exact hf _ _ hab
  | error hef => exact .error hef

theorem map {f : α → γ} {f' : β → δ} (h : Answers R S x y) (hf : ∀ a b, S a b → T (f a) (f' b)) :
    Answers R T (x.map f) (y.map f') := by
  cases h with
  | ok hab => exact .ok (hf _ _ hab)
  | error hef => exact .error hef

theorem bare {e : Fault} (h : e.names = []) : Answers R S (.error e) (.error e) := .error (.bare h)

theorem mapM {f : α → Except Fault γ} {f' : β → Except Fault δ} {l : List α} {l' : List β}
    (hl : Forall₂ S l l') (hf : ∀ a b, S a b → Answers R T (f a) (f' b)) :
    Answers R (Forall₂ T) (l.mapM f) (l'.mapM f') := by
  induction hl with
  | nil => exact .ok .nil
  | cons hab _ ih =>
    rw [mapM_cons, mapM_cons]
    exact (hf _ _ hab).bind fun c d hcd => ih.bind fun cs ds hcds => .ok (.cons hcd hcds)

theorem foldlM {f : γ → α → Except Fault γ} {f' : δ → β → Except Fault δ} {l : List α} {l' : List β}
    {c : γ} {e : δ} (hl : Forall₂ S l l')
    (hf : ∀ c e a b, T c e → S a b → Answers R T (f c a) (f' e b)) (hce : T c e) :
    Answers R T (l.foldlM f c) (l'.foldlM f' e) := by
  induction hl generalizing c e with
  | nil => exact .ok hce
  | cons hab _ ih =>
    rw [foldlM_cons, foldlM_cons]
    exact (hf c e _ _ hce hab).bind fun c' e' hce' => ih hce'

end Answers

namespace Store.Twin

variable {s t : Store} {a b d e : Ref} {v : Int} {side : Bool} {ref ref' : Reference}

theorem raise_answers {α β : Type} {S : α → β → Prop} {e f : Fault} (h : s.Twin t R)
    (hef : Fault.Alike R e f) :
    Answers R S (.error (s.raise e)) (.error (t.raise f)) := .error (h.raise_rel hef)

theorem mapError_answers {α β : Type} {S : α → β → Prop} {x : Except Fault α} {y : Except Fault β}
    (h : s.Twin t R) (hxy : Answers R S x y) :
    Answers R S (x.mapError s.raise) (y.mapError t.raise) := by
  cases hxy with
  | ok hab => exact .ok hab
  | error hef => exact h.raise_answers hef

theorem registry_answers (h : s.Twin t R) (hd : R d e) :
    Answers R (Registry.Alike R) (s.registry d) (t.registry e) := by
  unfold Store.registry
  exact rel_cases (h.registry?_rel hd) (.bare rfl) fun _ _ hg => .ok hg

theorem vertexOf?_rel (h : s.Twin t R) (hd : R d e) (v : Int) :
    Option.Rel R (s.vertexOf? d v) (t.vertexOf? e v) := by
  unfold vertexOf?
  split
  · exact h.branch_rel hd true
  · split
    · exact h.branch_rel hd false
    · exact bind_rel (h.registry?_rel hd) fun _ _ hg => hg.find?_rel v

theorem require_answers (h : s.Twin t R) (hd : R d e) (href : Reference.Alike R ref ref') :
    Answers R R (s.require d ref) (t.require e ref') := by
  cases href with
  | nothing => exact .bare rfl
  | vertex hab => exact .ok hab
  | «variable» v =>
    simp only [Store.require]
    exact rel_cases (h.vertexOf?_rel hd v) (h.raise_answers (.bare rfl)) fun _ _ hr => .ok hr

theorem listed_rel (h : s.Twin t R) (hd : R d e) (hab : R a b) :
    R (s.listed d a) (t.listed e b) := by
  unfold listed
  rw [h.var?_eq hab]
  cases t.var? b with
  | none => exact hab
  | some v =>
    dsimp only
    exact rel_cases (bind_rel (h.registry?_rel hd) fun _ _ hg => hg.find?_rel v) hab
      fun _ _ hr => hr

theorem requireListed_answers (h : s.Twin t R) (hd : R d e) (href : Reference.Alike R ref ref') :
    Answers R R (s.requireListed d ref) (t.requireListed e ref') :=
  (h.require_answers hd href).map fun _ _ => h.listed_rel hd

theorem branchTarget_answers (h : s.Twin t R) (hd : R d e) (side : Bool)
    (href : Reference.Alike R ref ref') :
    Answers R (Option.Rel R) (s.branchTarget d side ref) (t.branchTarget e side ref') := by
  cases href with
  | nothing => exact .ok (h.branch_rel hd side)
  | «variable» v => exact (h.requireListed_answers hd (.variable v)).map fun _ _ => .some
  | vertex hab => exact (h.requireListed_answers hd (.vertex hab)).map fun _ _ => .some

theorem checkTarget_answers (h : s.Twin t R) (hd : R d e) (side : Bool) (hab : R a b) :
    Answers R Eq (s.checkTarget d side a) (t.checkTarget e side b) := by
  unfold checkTarget
  rw [h.hasParent_eq hd hab]
  simp only [eq_some_iff_of_rel h.unique (h.branch_rel hd (!side)) hab]
  split
  · exact h.raise_answers (.secondBranch hab)
  · split
    · exact h.raise_answers (.parentAsBranch hab)
    · exact .ok rfl

theorem edgeSide_answers (h : s.Twin t R) (hd : R d e) {target target' : Reference}
    (hsource : Reference.Alike R ref ref') (htarget : Reference.Alike R target target') :
    Answers R Eq (Diagram.edgeSide s d ref target) (Diagram.edgeSide t e ref' target') := by
  refine (h.registry_answers hd).bind fun _ _ _ => ?_
  refine (h.require_answers hd hsource).bind fun p q hpq => ?_
  refine (h.require_answers hd htarget).bind fun a b hab => ?_
  rw [h.label?_eq hab hpq]
  cases t.label? b q with
  | none => exact h.raise_answers (.unknownEdge hpq hab)
  | some l => exact .ok rfl

theorem rootCandidates_rel (h : s.Twin t R) (hd : R d e) {g g' : Registry}
    (hg : Registry.Alike R g g') : Forall₂ R (s.rootCandidates d g) (t.rootCandidates e g') := by
  have hall : ∀ l l', Forall₂ R l l' → (l.all (· == d) = true ↔ l'.all (· == e) = true) := by
    intro l l' hl
    induction hl with
    | nil => simp
    | cons hpq _ ih =>
      simp only [all_cons, Bool.and_eq_true, beq_iff_eq, ih, BiUnique.eq_iff h.unique hpq hd]
  exact rel_filter (fun a b hab => hall _ _ (h.parents_rel hab)) hg.nodes_rel

theorem findRoot_answers (h : s.Twin t R) (hd : R d e) {g g' : Registry}
    (hg : Registry.Alike R g g') : Answers R R (s.findRoot d g) (t.findRoot e g') := by
  have hcandidates := h.rootCandidates_rel hd hg
  unfold findRoot
  generalize s.rootCandidates d g = l, t.rootCandidates e g' = l' at hcandidates
  cases hcandidates with
  | nil =>
    have hcycle := firstCycle_alike h.unique h.abreast (.nil : Forall₂ R [] []) hg.nodes_rel
    exact rel_cases hcycle (h.raise_answers (.rootCount .nil)) fun _ _ he =>
      h.raise_answers (.cyclicPath he.1 he.2)
  | cons hab hrest =>
    cases hrest with
    | nil =>
      have hwalk : Pass.Alike R (s.depthFirst none [] _) (t.depthFirst none [] _) :=
        depthFirst_alike h.unique h.abreast .nil hab
      dsimp only
      exact rel_cases hwalk.cycle (.ok hab) fun _ _ he => h.raise_answers (.cyclicPath he.1 he.2)
    | cons hce hrest => exact h.raise_answers (.rootCount (.cons hab (.cons hce hrest)))

theorem validatedRoot_answers (h : s.Twin t R) (hd : R d e) :
    Answers R R (s.validatedRoot d) (t.validatedRoot e) := by
  refine (h.registry_answers hd).bind fun g g' hg => ?_
  exact rel_cases hg.root (.error (.notValidated hd)) fun _ _ hr => .ok hr

theorem value_answers (h : s.Twin t R) (hab : R a b) : Answers R Eq (s.value a) (t.value b) := by
  obtain ⟨x, y, hx, hy, hkind, -⟩ := h.alike a b hab
  rw [Store.value, Store.value, kind?, kind?, hx, hy, Option.map_some, Option.map_some]
  generalize x.kind = k, y.kind = k' at hkind
  cases hkind with
  | decision v => exact .ok rfl
  | terminal v value => exact .ok rfl
  | _ => exact .bare rfl

theorem follow_answers (h : s.Twin t R) (assignment : Assignment) {passed passed' : List Ref}
    (hpassed : Forall₂ R passed passed') (hab : R a b) :
    Answers R Eq (s.follow assignment passed a) (t.follow assignment passed' b) := by
  -- every vertex that is passed is one less that has not been seen
  induction hn : s.unseen passed using Nat.strong_induction_on generalizing passed passed' a b with
  | _ n ih =>
    rw [Store.follow_eq s, Store.follow_eq t]
    simp only [BiUnique.mem_iff h.unique hab hpassed, h.isTerminal_eq hab, h.var?_eq hab]
    split
    · exact .error (.endlessPath hab)
    · rename_i hnew
      split
      · exact h.value_answers hab
      · cases t.var? b with
        | none => exact .bare rfl
        | some v =>
          simp only [Option.elim_some]
          cases assignment v with
          | none => exact .bare rfl
          | some side =>
            have hless : s.unseen (a :: passed) < n := by
              rw [← BiUnique.mem_iff h.unique hab hpassed] at hnew
              exact hn ▸ unseen_lt (fun _ hx => mem_cons_of_mem _ hx) (h.lt_size hab).1 hnew
                mem_cons_self
            simp only [Option.elim_some]
            exact rel_cases (h.branch_rel hab side) (h.raise_answers (.missingBranch hab))
                fun _ _ hnext =>
              ih _ hless (.cons hab hpassed) hnext rfl

theorem evaluate_answers (h : s.Twin t R) (hd : R d e) (assignment : Assignment) :
    Answers R Eq (s.evaluate d assignment) (t.evaluate e assignment) :=
  (h.validatedRoot_answers hd).bind fun _ _ hroot => h.follow_answers assignment .nil hroot

theorem requireVariable_answers (h : s.Twin t R) (hab : R a b) :
    Answers R Eq (s.requireVariable a) (t.requireVariable b) := by
  unfold requireVariable
  rw [h.var?_eq hab]
  cases t.var? b with
  | none => exact .bare rfl
  | some v => exact .ok rfl

theorem enterEdges_answers (h : s.Twin t R) (deps : Dependencies) (hab : R a b) :
    Answers R Eq (s.enterEdges deps a) (t.enterEdges deps b) := by
  unfold enterEdges
  rw [h.isTerminal_eq hab]
  split
  · exact .ok rfl
  · refine (Answers.mapM (h.abreast a b hab) fun _ _ => h.requireVariable_answers).bind
      fun vs ws hvs => ?_
    obtain rfl : vs = ws := forall₂_eq_eq_eq ▸ hvs
    refine (h.requireVariable_answers hab).bind fun v _ hv => ?_
    subst hv
    exact .ok rfl

theorem edges_answers (h : s.Twin t R) (hd : R d e) : Answers R Eq (s.edges d) (t.edges e) := by
  refine (h.validatedRoot_answers hd).bind fun root root' hroot => ?_
  have hwalk : Pass.Alike R (s.depthFirst none [] root) (t.depthFirst none [] root') :=
    depthFirst_alike h.unique h.abreast .nil hroot
  refine (Answers.foldlM hwalk.met
    (fun deps _ a b hdeps hab => hdeps ▸ h.enterEdges_answers deps hab) rfl).bind
    fun deps _ hdeps => ?_
  subst hdeps
  exact rel_cases hwalk.cycle (.ok rfl) fun _ _ he => h.raise_answers (.cyclicPath he.1 he.2)

theorem layers_answers (h : s.Twin t R) (hd : R d e) : Answers R Eq (s.layers d) (t.layers e) := by
  refine (h.edges_answers hd).bind fun deps _ hdeps => ?_
  subst hdeps
  cases deps.layers? with
  | none => exact .bare rfl
  | some layers => exact .ok rfl

theorem numbering_answers (h : s.Twin t R) (hd : R d e) :
    Answers R Eq (s.numbering d) (t.numbering e) := by
  refine (h.layers_answers hd).bind fun layers _ hlayers => ?_
  subst hlayers
  exact .ok rfl

theorem branchVariable_answers (h : s.Twin t R) (hd : R d e) (v : Int) (side : Bool) :
    Answers R Eq (s.branchVariable d v side) (t.branchVariable e v side) := by
  have hchild := h.bind_var?_eq (bind_rel (h.vertexOf?_rel hd v) fun _ _ hr => h.branch_rel hr side)
  unfold branchVariable
  rw [hchild]
  split
  · exact .ok rfl
  · exact .bare rfl

theorem branchEntry_answers {α : Type} (h : s.Twin t R) (hd : R d e) (known : List (Int × α))
    (v : Int) (side : Bool) :
    Answers R Eq (s.branchEntry d known v side) (t.branchEntry e known v side) := by
  refine (h.branchVariable_answers hd v side).bind fun child _ hchild => ?_
  subst hchild
  cases known.lookup child with
  | none => exact .bare rfl
  | some a => exact .ok rfl

theorem exact_answers (x : Weight) : Answers R Eq x.exact x.exact := by
  cases x with
  | binary x => cases x <;> first | exact .ok rfl | exact .bare rfl
  | absent => exact .bare rfl
  | _ => exact .ok rfl

theorem enterProbability_answers (h : s.Twin t R) (hd : R d e) (weights : Weights)
    (known : List (Int × Rat)) (v : Int) :
    Answers R Eq (s.enterProbability d weights known v) (t.enterProbability e weights known v) := by
  unfold enterProbability
  split
  · exact .ok rfl
  · refine (exact_answers _).bind fun w _ hw => (h.branchEntry_answers hd known v true).bind
        fun hi _ hhi =>
      (h.branchEntry_answers hd known v false).bind fun lo _ hlo => ?_
    subst hw hhi hlo
    exact .ok rfl

theorem foldLayers_answers {α : Type} (h : s.Twin t R) (hd : R d e)
    {enter enter' : List (Int × α) → Int → Except Fault (List (Int × α))}
    (terminals : List (Int × α))
    (henter : ∀ known v, Answers R Eq (enter known v) (enter' known v)) :
    Answers R Eq (s.foldLayers d enter terminals) (t.foldLayers e enter' terminals) := by
  refine (h.layers_answers hd).bind fun layers _ hlayers => ?_
  subst hlayers
  refine (Answers.foldlM (forall₂_refl _ : Forall₂ Eq _ _) (fun known _ v _ hknown hv => ?_)
    rfl).bind
    fun known _ hknown => (h.validatedRoot_answers hd).bind fun _ _ hroot =>
      (h.requireVariable_answers hroot).bind fun v _ hv => ?_
  · subst hknown hv
    exact henter known v
  · subst hknown hv
    cases known.lookup v with
    | none => exact .bare rfl
    | some a => exact .ok rfl

theorem probability_answers (h : s.Twin t R) (hd : R d e) (weights : Weights) :
    Answers R Eq (s.probability d weights) (t.probability e weights) :=
  h.foldLayers_answers hd _ fun known v => h.enterProbability_answers hd weights known v

theorem modelCount_answers (h : s.Twin t R) (hd : R d e) :
    Answers R Eq (s.modelCount d) (t.modelCount e) := by
  refine (h.layers_answers hd).bind fun layers _ hlayers => (h.probability_answers hd []).bind
    fun q _ hq => ?_
  subst hlayers hq
  exact .ok rfl

theorem lookupNumber_answers (numbers : List (Int × Int)) (v : Int) :
    Answers R Eq (Document.lookupNumber numbers v) (Document.lookupNumber numbers v) := by
  unfold Document.lookupNumber
  cases numbers.lookup v with
  | none => exact .bare rfl
  | some n => exact .ok rfl

theorem childNumber_answers (h : s.Twin t R) (numbers : List (Int × Int)) (side : Bool)
    (hab : R a b) :
    Answers R Eq (Document.childNumber s numbers side a)
      (Document.childNumber t numbers side b) := by
  unfold Document.childNumber
  rw [h.bind_var?_eq (h.branch_rel hab side)]
  split
  · exact lookupNumber_answers numbers _
  · exact .bare rfl

theorem written_answers (v : Int) :
    Answers R Eq (Numeral.Integer.written v) (Numeral.Integer.written v) := by
  unfold Numeral.Integer.written
  split
  · exact .ok rfl
  · exact .bare rfl

theorem shown_answers (item : Document.Item) : Answers R Eq item.shown item.shown := by
  cases item with
  | number n => exact (written_answers n).map fun _ _ => congrArg _
  | text codes => exact .ok rfl

theorem encodable_answers (codes : List Document.CodePoint) :
    Answers R Eq (Document.encodable codes) (Document.encodable codes) := by
  unfold Document.encodable
  split
  · exact .ok rfl
  · exact .bare rfl

theorem orderWords_answers (items : List Document.Item) :
    Answers R Eq (Document.orderWords items) (Document.orderWords items) := by
  have hshown :
      Answers R (Forall₂ Eq) (items.mapM Document.Item.shown) (items.mapM Document.Item.shown) :=
    Answers.mapM (forall₂_refl items : Forall₂ Eq items items) fun item _ hitem =>
      hitem ▸ shown_answers item
  have hwords : ∀ codes : List (List Document.CodePoint),
      Answers R (Forall₂ Eq) (codes.mapM Document.encodable) (codes.mapM Document.encodable) := by
    intro codes
    exact Answers.mapM (forall₂_refl codes : Forall₂ Eq codes codes) fun c _ hc =>
      hc ▸ encodable_answers c
  rw [forall₂_eq_eq_eq] at hshown hwords
  exact hshown.bind fun codes _ hcodes => hcodes ▸ hwords codes

theorem lineText_answers (h : s.Twin t R) (numbers : List (Int × Int)) (hab : R a b) :
    Answers R Eq (Document.lineText s numbers a) (Document.lineText t numbers b) := by
  refine (h.requireVariable_answers hab).bind fun v _ hv => ?_
  subst hv
  refine (lookupNumber_answers numbers v).bind fun number _ hnumber => ?_
  subst hnumber
  rw [h.terminalValue?_eq hab]
  cases t.terminalValue? b with
  | some value => exact .ok rfl
  | none =>
    refine (h.childNumber_answers numbers false hab).bind fun lo _ hlo =>
      (h.childNumber_answers numbers true hab).bind fun hi _ hhi => ?_
    subst hlo hhi
    exact (written_answers v).bind fun tested _ htested => htested ▸ .ok rfl

theorem write_answers (h : s.Twin t R) (hd : R d e) (order : Option (List Document.Item)) :
    Answers R Eq (Document.write s d order) (Document.write t e order) := by
  refine (h.numbering_answers hd).bind fun numbers _ hnumbers => ?_
  subst hnumbers
  refine (orderWords_answers _).bind fun words _ hwords => ?_
  subst hwords
  refine (h.validatedRoot_answers hd).bind fun _ _ hroot => (h.requireVariable_answers hroot).bind
    fun v _ hv => ?_
  subst hv
  refine (lookupNumber_answers numbers v).bind fun number _ hnumber => ?_
  subst hnumber
  refine (Answers.mapM (T := Eq) (forall₂_refl _ : Forall₂ Eq _ _) fun entry _ hentry => ?_).bind
    fun lines _ hlines => ?_
  · subst hentry
    dsimp only
    exact rel_cases (h.vertexOf?_rel hd entry.1) (.bare rfl) fun _ _ hr =>
      h.lineText_answers numbers hr
  · rw [forall₂_eq_eq_eq] at hlines
    subst hlines
    exact .ok rfl

end Store.Twin

end DecisionDiagram
