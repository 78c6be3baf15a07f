import DecisionDiagram.Proofs.FaultWording
import DecisionDiagram.Proofs.WiredDiagram
import DecisionDiagram.Validation
/-! What each method of a diagram does to the store, said once. A call with references to variables
or to vertices of the diagram either leaves the store as it is, or makes one of the changes named
here. -/
namespace DecisionDiagram
open Numeral

section Edit

variable {α β : Type} {x : Edit α} {f : α → Edit β} {s s' s'' : Store} {a : α} {b : β} {e : Fault}

theorem bind_of_ok (h : x s = .ok a s') : (x >>= f) s = f a s' := by
  change EStateM.bind x f s = f a s'
  rw [EStateM.bind, h]

theorem bind_of_error (h : x s = .error e s') : (x >>= f) s = .error e s' := by
  change EStateM.bind x f s = .error e s'
  rw [EStateM.bind, h]

theorem bind_eq_ok_iff : (x >>= f) s = .ok b s'' ↔ ∃ a s', x s = .ok a s' ∧ f a s' = .ok b s'' := by
  change EStateM.bind x f s = .ok b s'' ↔ _
  unfold EStateM.bind
  constructor
  · intro h
    split at h
    · exact ⟨_, _, ‹_›, h⟩
    · cases h
  · rintro ⟨a, s', hx, hf⟩
    rw [hx]
    exact hf

theorem observe_of_ok {question : Store → Except Fault α} (h : question s = .ok a) :
    observe question s = .ok a s := by
  unfold observe
  rw [h]

theorem observe_of_error {question : Store → Except Fault α} (h : question s = .error e) :
    observe question s = .error e s := by
  unfold observe
  rw [h]

theorem observe_eq_ok_iff {question : Store → Except Fault α} :
    observe question s = .ok a s' ↔ question s = .ok a ∧ s' = s := by
  unfold observe
  cases question s with
  | ok b =>
    simp only [EStateM.Result.ok.injEq, Except.ok.injEq]
    exact and_congr_right fun _ => eq_comm
  | error e => simp

def Edit.answer (x : Edit α) (s : Store) : Except Fault α :=
  match x s with
  | .ok a _ => .ok a
  | .error e _ => .error e

def Edit.after (x : Edit α) (s : Store) : Store :=
  match x s with
  | .ok _ s' => s'
  | .error _ s' => s'

theorem after_of_ok (h : x s = .ok a s') : Edit.after x s = s' := by
  unfold Edit.after
  rw [h]

theorem after_of_error (h : x s = .error e s') : Edit.after x s = s' := by
  unfold Edit.after
  rw [h]

end Edit

theorem readBranch_run (s : Store) (r : Ref) (selector : Selector) : readBranch r selector s =
    if s.isTerminal r then .ok none { s with warned := true } else .ok
      (s.branch selector.side r) s := by
  unfold readBranch
  change (if s.isTerminal r then _ else _ : Edit _) s = _
  split <;> rfl

namespace Store

variable {s : Store} {d r q p source target hi lo : Ref} {l : Label} {v : Int} {side : Bool}

def unheld (s : Store) (d target : Ref) : Store :=
  if s.hasParent target d then s.dropParent target d else s

def linked (s : Store) (d source target : Ref) (l : Label) : Store :=
  (s.unheld d target).addParent target source l

def linkedInner (s : Store) (d source : Ref) (l : Label) (target : Ref) : Store :=
  if s.isTerminal target then s else s.linked d source target l

def grown (s : Store) (d : Ref) (v : Int) (hi lo : Ref) : Store :=
  s.push { decisionBody v hi lo with parents := [(d, .unknown)] }
    |>.linkedInner d s.size .hi hi
    |>.linkedInner d s.size .lo lo
    |>.updateRegistry d (·.insert v s.size)

/-- A branch is set, and the vertex it led to before has lost the source as a parent. -/
def redirected (s : Store) (source : Ref) (side : Bool) (target : Ref) : Store :=
  match s.next side source with
  | some f =>
    if f ≠ target then (s.setBranch source side target).dropParent f source
    else s.setBranch source side target
  | none => s.setBranch source side target

@[simp] theorem body?_unheld : (s.unheld d target).body? q = s.body? q := by
  unfold unheld
  split
  · exact body?_dropParent
  · rfl

@[simp] theorem body?_linked : (s.linked d source target l).body? q = s.body? q := by
  rw [linked, body?_addParent, body?_unheld]

@[simp] theorem body?_linkedInner : (s.linkedInner d source l target).body? q = s.body? q := by
  unfold linkedInner
  split
  · rfl
  · exact body?_linked

theorem branch_linked : (s.linked d source target l).branch side q = s.branch side q := by
  rw [branch_eq_body, body?_linked, ← branch_eq_body]

theorem body?_redirected : (s.redirected source side target).body? q =
    if source = q then (s.body? q).map (·.setBranch side target) else s.body? q := by
  unfold redirected
  split
  · split
    · rw [body?_dropParent, body?_setBranch]
    · exact body?_setBranch side target
  · exact body?_setBranch side target

@[simp] theorem size_unheld : (s.unheld d target).size = s.size := by
  unfold unheld
  split
  · exact size_dropParent
  · rfl

@[simp] theorem size_redirected : (s.redirected source side target).size = s.size := by
  unfold redirected
  split
  · split <;> simp
  · simp

@[simp] theorem size_linkedInner : (s.linkedInner d source l target).size = s.size := by
  unfold linkedInner linked
  split <;> simp

theorem label?_unheld : (s.unheld d target).label? q p =
    if q = target ∧ p = d then none else s.label? q p := by
  unfold unheld
  split
  · exact label?_dropParent
  · rename_i hnone
    split
    · rename_i hqp
      obtain ⟨rfl, rfl⟩ := hqp
      simpa [hasParent] using hnone
    · rfl

theorem label?_linked (h : target < s.size) : (s.linked d source target l).label? q p =
    if q = target ∧ p = source then some l else if q = target ∧
    p = d then none else s.label? q p := by
  rw [linked, label?_addParent (by simpa using h), label?_unheld]

theorem label?_redirected : (s.redirected source side target).label? q p =
    if s.next side source = some q ∧ q ≠ target ∧ p = source then none else s.label? q p := by
  unfold redirected
  split
  · rename_i f hf
    rw [hf]
    split
    · rename_i hne
      rw [label?_dropParent, label?_setBranch]
      by_cases hq : q = f
      · subst hq
        simp [hne]
      · simp [hq, Ne.symm hq]
    · rename_i heq
      rw [label?_setBranch]
      have : ¬ (some f = some q ∧ q ≠ target ∧ p = source) := by
        rintro ⟨hfq, hqt, -⟩
        exact heq (Option.some.inj hfq ▸ hqt)
      rw [if_neg this]
  · rename_i hf
    simp [hf]

end Store

theorem Diagram.edgeSide_congr {s t : Store} {d : Ref} {source target : Reference}
    (hregistry : t.registry d = s.registry d) (hrequire : ∀ ref, t.require d ref = s.require d ref)
    (hlabel : ∀ a b, s.require d source = .ok a → s.require d target = .ok b →
      t.label? b a = s.label? b a)
    (hraise : ∀ a b, s.require d source = .ok a → s.require d target = .ok b →
      t.raise (.unknownEdge a b) = s.raise (.unknownEdge a b)) :
    edgeSide t d source target = edgeSide s d source target := by
  unfold edgeSide
  rw [hregistry, hrequire, hrequire]
  cases ha : s.require d source with
  | error e => rfl
  | ok a =>
    cases hb : s.require d target with
    | error e => rfl
    | ok b => simp only [ok_bind, hlabel a b ha hb, hraise a b ha hb]

def Registry.Legible (g : Registry) : Prop := ∀ v r, g.find? v = some r → Integer.Short v

/-- What may be handed to a diagram: nothing, a variable, or a vertex of its own. -/
def Reference.Own (s : Store) (d : Ref) : Reference → Prop
  | .vertex r => s.Owns d r
  | _ => True

def Diagram.placeNode (d : Ref) (v : Int) (hi lo : Reference) : Edit Ref := do
  let hi ← observe (·.branchTarget d true hi)
  let lo ← observe (·.branchTarget d false lo)
  let r ← createVertex (.decision v) (some d) hi lo
  linkInner d r .hi hi
  linkInner d r .lo lo
  modify (·.updateRegistry d (·.insert v r))
  return r

theorem link_run (s : Store) (d source target : Ref) (l : Label) :
    Diagram.link d source target l s = if s.hasBranch target source then
      .error ((s.unheld d target).raise (.branchAsParent source)) (s.unheld d target)
    else .ok () (s.linked d source target l) := by
  have hsame : (s.unheld d target).hasBranch target source = s.hasBranch target source := by
    rw [Store.hasBranch_eq_body, Store.body?_unheld, ← Store.hasBranch_eq_body]
  have hfirst :
      Diagram.link d source target l s = addParent target source l (s.unheld d target) := by
    unfold Diagram.link
    change (if s.hasParent target d then _ else _ : Edit Unit) s = _
    unfold Store.unheld
    split <;> rfl
  rw [hfirst, ← hsame]
  change (if _ then _ else _ : Edit Unit) _ = _
  split <;> rfl

theorem linkInner_run (s : Store) (d source target : Ref) (l : Label) :
    Diagram.linkInner d source l (some target) s =
      if s.isTerminal target then .ok () s else Diagram.link d source target l s := by
  change (if !s.isTerminal target then _ else _ : Edit Unit) s = _
  cases s.isTerminal target <;> rfl

section Create

variable {kind : Kind} {parent hi lo : Option Ref} {x : Vertex} {e : Fault}

theorem createVertex_of_ok (s : Store) (h : Vertex.create kind parent hi lo = .ok x) :
    createVertex kind parent hi lo s = .ok s.size (s.push x) :=
  bind_of_ok (observe_of_ok (congrArg (·.mapError s.raise) h))

theorem createVertex_of_error (s : Store) (h : Vertex.create kind parent hi lo = .error e) :
    createVertex kind parent hi lo s = .error (s.raise e) s :=
  bind_of_error (observe_of_error (congrArg (·.mapError s.raise) h))

end Create

namespace Wired

variable {s : Store} {d : Ref} {g : Registry} {yes no r q : Ref} {v : Int} {side : Bool}

theorem member_lt_size (h : Wired s d g yes no) (hr : g.Member yes no r) : r < s.size := by
  rcases hr with rfl | rfl | hr
  · exact Store.lt_size_of_body h.yesBody
  · exact Store.lt_size_of_body h.noBody
  · obtain ⟨_, _, _, _, hbody, _⟩ := h.exists_body hr
    exact Store.lt_size_of_body hbody

theorem member_ne_diagram (h : Wired s d g yes no) (hr : g.Member yes no r) : r ≠ d := by
  intro hrd
  have hd := h.diagram
  rw [← hrd] at hd
  rcases hr with rfl | rfl | hr
  · simpa using hd.symm.trans h.yesBody
  · simpa using hd.symm.trans h.noBody
  · obtain ⟨_, _, _, _, hbody, _⟩ := h.exists_body hr
    simpa [decisionBody] using hd.symm.trans hbody

theorem find?_reserved (h : Wired s d g yes no) (hv : isReserved v = true) : g.find? v = none := by
  cases hfind : g.find? v with
  | none => rfl
  | some r =>
    obtain ⟨hfree, -⟩ := h.node hfind
    simp [hv] at hfree

theorem isTerminal_of_mem_nodes (h : Wired s d g yes no) (hr : r ∈ g.nodes) :
    s.isTerminal r = false := by
  obtain ⟨_, _, _, _, hbody, _⟩ := h.exists_body hr
  rw [Store.isTerminal_eq_body, hbody]
  rfl

theorem isTerminal_yes (h : Wired s d g yes no) : s.isTerminal yes = true := by
  rw [Store.isTerminal_eq_body, h.yesBody]
  rfl

theorem isTerminal_no (h : Wired s d g yes no) : s.isTerminal no = true := by
  rw [Store.isTerminal_eq_body, h.noBody]
  rfl

theorem mem_nodes_iff_of_member (h : Wired s d g yes no) (hr : g.Member yes no r) :
    r ∈ g.nodes ↔ s.isTerminal r = false := by
  constructor
  · exact h.isTerminal_of_mem_nodes
  · intro hterm
    rcases hr with rfl | rfl | hr
    · simp [h.isTerminal_yes] at hterm
    · simp [h.isTerminal_no] at hterm
    · exact hr

theorem terminal_cases (h : Wired s d g yes no) (hr : g.Member yes no r)
    (hterm : s.isTerminal r = true) : r = yes ∨ r = no := by
  rcases hr with rfl | rfl | hr
  · exact .inl rfl
  · exact .inr rfl
  · simp [h.isTerminal_of_mem_nodes hr] at hterm

theorem vertexOf?_eq (h : Wired s d g yes no) : s.vertexOf? d v =
    if v = trueVariable then some yes else if v = falseVariable then some no else g.find? v := by
  unfold Store.vertexOf?
  rw [h.branch_true, h.branch_false, h.registry?]
  rfl

theorem member_of_vertexOf? (h : Wired s d g yes no) (hv : s.vertexOf? d v = some r) :
    g.Member yes no r := by
  rw [h.vertexOf?_eq] at hv
  split at hv
  · exact .inl (Option.some.inj hv).symm
  · split at hv
    · exact .inr (.inl (Option.some.inj hv).symm)
    · exact .inr (.inr (h.mem_nodes hv))

theorem require_cases (h : Wired s d g yes no) {ref : Reference} (hown : ref.Own s d) :
    (∃ r, s.require d ref = .ok r ∧ g.Member yes no r) ∨ ∃ e, s.require d ref = .error e := by
  cases ref with
  | nothing => exact .inr ⟨_, rfl⟩
  | vertex r => exact .inl ⟨r, rfl, h.owns_iff.mp hown⟩
  | «variable» v =>
    cases hv : s.vertexOf? d v with
    | none => exact .inr ⟨s.raise (.unknownNode (some v)), by simp [Store.require, hv]⟩
    | some r => exact .inl ⟨r, by simp [Store.require, hv], h.member_of_vertexOf? hv⟩

theorem listed_eq (h : Wired s d g yes no) (hr : g.Member yes no r) : s.listed d r = r := by
  unfold Store.listed
  rw [Store.var?_eq_body]
  rcases hr with rfl | rfl | hr
  · rw [h.yesBody]
    simp [Kind.var?, h.registry?, h.find?_reserved (v := trueVariable) rfl]
  · rw [h.noBody]
    simp [Kind.var?, h.registry?, h.find?_reserved (v := falseVariable) rfl]
  · obtain ⟨v, hi, lo, hv, hbody, -⟩ := h.exists_body hr
    rw [hbody]
    simp [decisionBody, Kind.var?, h.registry?, hv]

theorem require_congr {t : Store} (h : Wired s d g yes no) (h' : Wired t d g yes no)
    (ref : Reference) : t.require d ref = s.require d ref := by
  cases ref with
  | «variable» v =>
    simp only [Store.require, h.vertexOf?_eq, h'.vertexOf?_eq, t.raise_unknownNode s]
  | _ => rfl

theorem own_congr {t : Store} (h : Wired s d g yes no) (h' : Wired t d g yes no) {ref : Reference} :
    ref.Own t d ↔ ref.Own s d := by
  cases ref with
  | vertex r => exact h'.owns_iff.trans h.owns_iff.symm
  | _ => exact Iff.rfl

theorem requireListed_of_ok (h : Wired s d g yes no) {ref : Reference}
    (hreq : s.require d ref = .ok r) (hr : g.Member yes no r) : s.requireListed d ref = .ok r := by
  rw [Store.requireListed, hreq]
  change Except.ok (s.listed d r) = .ok r
  rw [h.listed_eq hr]

theorem member_of_require (h : Wired s d g yes no) {ref : Reference} (hown : ref.Own s d)
    (hr : s.require d ref = .ok r) : g.Member yes no r := by
  rcases h.require_cases hown with ⟨q, hq, hmember⟩ | ⟨e, he⟩
  · obtain rfl := Except.ok.inj (hq.symm.trans hr)
    exact hmember
  · cases he.symm.trans hr

theorem member_of_requireListed (h : Wired s d g yes no) {ref : Reference} (hown : ref.Own s d)
    (hr : s.requireListed d ref = .ok r) : s.require d ref = .ok r ∧ g.Member yes no r := by
  rcases h.require_cases hown with ⟨q, hq, hmember⟩ | ⟨e, he⟩
  · obtain rfl := Except.ok.inj ((h.requireListed_of_ok hq hmember).symm.trans hr)
    exact ⟨hq, hmember⟩
  · rw [Store.requireListed, he] at hr
    cases hr

theorem requireListed_cases (h : Wired s d g yes no) {ref : Reference} (hown : ref.Own s d) :
    (∃ r, s.requireListed d ref = .ok r ∧ g.Member yes no r) ∨
      ∃ e, s.requireListed d ref = .error e := by
  rcases h.require_cases hown with ⟨r, hreq, hr⟩ | ⟨e, he⟩
  · exact .inl ⟨r, h.requireListed_of_ok hreq hr, hr⟩
  · refine .inr ⟨e, ?_⟩
    rw [Store.requireListed, he]
    rfl

theorem branchTarget_cases (h : Wired s d g yes no) (side : Bool) {ref : Reference}
    (hown : ref.Own s d) : (∃ r, s.branchTarget d side ref = .ok (some r) ∧ g.Member yes no r) ∨
      ∃ e, s.branchTarget d side ref = .error e := by
  cases ref with
  | nothing =>
    left
    cases side
    · exact ⟨no, congrArg Except.ok h.branch_false, .inr (.inl rfl)⟩
    · exact ⟨yes, congrArg Except.ok h.branch_true, .inl rfl⟩
  | _ =>
    rcases h.requireListed_cases hown with ⟨r, hreq, hr⟩ | ⟨e, he⟩
    · exact .inl ⟨r, by rw [Store.branchTarget, hreq]; rfl; simp, hr⟩
    · exact .inr ⟨e, by rw [Store.branchTarget, he]; rfl; simp⟩

theorem requireMutable_run (h : Wired s d g yes no) : Diagram.requireMutable d s =
    if g.ready then .error .alreadyValidated s else .ok () s := by
  unfold Diagram.requireMutable
  rw [bind_of_ok (observe_of_ok h.registry)]
  split <;> rfl

theorem requireMutable_of_open (h : Wired s d g yes no) (hopen : g.root = none) :
    Diagram.requireMutable d s = .ok () s := by
  rw [h.requireMutable_run, Registry.ready, hopen, if_neg (by simp)]

theorem requireMutable_cases (h : Wired s d g yes no) :
    Diagram.requireMutable d s = .error .alreadyValidated s ∨
      g.root = none ∧ Diagram.requireMutable d s = .ok () s := by
  cases hroot : g.root with
  | none => exact .inr ⟨rfl, h.requireMutable_of_open hroot⟩
  | some r => exact .inl (by rw [h.requireMutable_run, Registry.ready, hroot, if_pos (by simp)])

theorem branch_yes (h : Wired s d g yes no) : s.branch side yes = none := by
  rw [Store.branch_eq_body, h.yesBody]
  cases side <;> rfl

theorem branch_no (h : Wired s d g yes no) : s.branch side no = none := by
  rw [Store.branch_eq_body, h.noBody]
  cases side <;> rfl

theorem member_of_branch (h : Wired s d g yes no) (hr : g.Member yes no r)
    (hq : s.branch side r = some q) : g.Member yes no q := by
  rcases hr with rfl | rfl | hr
  · simp [h.branch_yes] at hq
  · simp [h.branch_no] at hq
  · obtain ⟨v, hi, lo, -, hbody, -, hhi, hlo⟩ := h.exists_body hr
    obtain rfl := Option.some.inj ((Store.branch_of_body hbody side).symm.trans hq)
    cases side
    · exact hlo
    · exact hhi

theorem short_var (h : Wired s d g yes no) (hlegible : g.Legible) (hr : g.Member yes no r)
    (hv : s.var? r = some v) : Integer.Short v := by
  rw [Store.var?_eq_body] at hv
  rcases hr with rfl | rfl | hr
  · rw [h.yesBody] at hv
    obtain rfl := Option.some.inj hv
    exact Integer.short_of_small (by decide)
  · rw [h.noBody] at hv
    obtain rfl := Option.some.inj hv
    exact Integer.short_of_small (by decide)
  · obtain ⟨w, hi, lo, hw, hbody, -⟩ := h.exists_body hr
    rw [hbody] at hv
    obtain rfl := Option.some.inj hv
    exact hlegible w r hw

theorem short_of_member (h : Wired s d g yes no) (hlegible : g.Legible) (hr : g.Member yes no r) :
    ∀ i ∈ s.integers r, Integer.Short i := by
  intro i hi
  rw [Store.integers_eq_body] at hi
  rcases hr with rfl | rfl | hr
  · rw [h.yesBody] at hi
    exact h.short_var hlegible (.inl rfl)
      (by rw [Store.var?_eq_body, h.yesBody, List.mem_singleton.mp hi]; rfl)
  · rw [h.noBody] at hi
    exact h.short_var hlegible (.inr (.inl rfl))
      (by rw [Store.var?_eq_body, h.noBody, List.mem_singleton.mp hi]; rfl)
  · obtain ⟨v, hiRef, loRef, hv, hbody, -, hhi, hlo⟩ := h.exists_body hr
    rw [hbody] at hi
    rcases List.mem_cons.mp hi with rfl | hi
    · exact hlegible i r hv
    · rcases List.mem_append.mp hi with hi | hi
      · exact h.short_var hlegible hhi (Option.mem_toList.mp hi)
      · exact h.short_var hlegible hlo (Option.mem_toList.mp hi)

theorem hasBranch_iff {s : Store} {r q : Ref} :
    s.hasBranch r q = true ↔ ∃ side, s.branch side r = some q := by
  unfold Store.hasBranch Store.branch
  cases s.vertex? r with
  | none => simp
  | some x => simp [Vertex.hasBranch, Vertex.branch, or_comm]

theorem hasBranch_fresh (h : Wired s d g yes no) (hr : g.Member yes no r) :
    s.hasBranch r s.size = false := by
  rw [Bool.eq_false_iff]
  intro hbranch
  obtain ⟨side, hside⟩ := hasBranch_iff.mp hbranch
  exact Nat.lt_irrefl _ (h.member_lt_size (h.member_of_branch hr hside))

theorem linkInner_run_fresh {s t : Store} {l : Label} (hfresh : s.hasBranch r s.size = false)
    (hsame : t.body? r = s.body? r) :
    Diagram.linkInner d s.size l (some r) t = .ok () (t.linkedInner d s.size l r) := by
  have hbranch : t.hasBranch r s.size = false := by
    rw [Store.hasBranch_eq_body, hsame, ← Store.hasBranch_eq_body]
    exact hfresh
  rw [linkInner_run, link_run, hbranch]
  unfold Store.linkedInner
  split <;> rfl

theorem create_decision {hi lo : Ref} (hhi : hi ≠ d) (hlo : lo ≠ d) :
    Vertex.create (.decision v) (some d) (some hi) (some lo) =
      if lo = hi then .error (.equalBranches hi)
      else .ok { decisionBody v hi lo with parents := [(d, .unknown)] } := by
  unfold Vertex.create
  simp only [Option.some.injEq]
  split
  · rfl
  · simp [Vertex.create.held, hhi, hlo, decisionBody]

theorem addNode_run (h : Wired s d g yes no) (hi lo : Reference) : Diagram.addNode d v hi lo s =
    match g.find? v with
    | some r => .ok r s
    | none =>
      if g.ready then .error .alreadyValidated s
      else if isReserved v then .error (.reservedVariable v) s
      else Diagram.placeNode d v hi lo s := by
  unfold Diagram.addNode
  rw [bind_of_ok (observe_of_ok h.registry)]
  cases g.find? v with
  | some r => rfl
  | none =>
    change (Diagram.requireMutable d >>= _) s = _
    have hmutable := h.requireMutable_run
    cases hready : g.ready with
    | true =>
      rw [hready, if_pos rfl] at hmutable
      exact bind_of_error hmutable
    | false =>
      rw [hready, if_neg Bool.false_ne_true] at hmutable
      rw [bind_of_ok hmutable]
      cases isReserved v <;> rfl

theorem placeNode_run (h : Wired s d g yes no) {hi lo : Reference} {hiRef loRef : Ref}
    (hhi : s.branchTarget d true hi = .ok (some hiRef))
    (hlo : s.branchTarget d false lo = .ok (some loRef)) (hiMember : g.Member yes no hiRef)
    (loMember : g.Member yes no loRef) : Diagram.placeNode d v hi lo s =
      if loRef = hiRef then .error (s.raise (.equalBranches hiRef)) s
      else .ok s.size (s.grown d v hiRef loRef) := by
  have hcreate :=
    create_decision (v := v) (h.member_ne_diagram hiMember) (h.member_ne_diagram loMember)
  unfold Diagram.placeNode
  rw [bind_of_ok (observe_of_ok hhi), bind_of_ok (observe_of_ok hlo)]
  split
  · rename_i heq
    rw [if_pos heq] at hcreate
    exact bind_of_error (createVertex_of_error s hcreate)
  · rename_i hne
    rw [if_neg hne] at hcreate
    let x : Vertex := { decisionBody v hiRef loRef with parents := [(d, .unknown)] }
    have hold : ∀ {q}, g.Member yes no q → (s.push x).body? q = s.body? q := by
      intro q hq
      rw [Store.body?_push, if_neg (Nat.ne_of_lt (h.member_lt_size hq))]
    rw [bind_of_ok (createVertex_of_ok s hcreate),
      bind_of_ok (linkInner_run_fresh (h.hasBranch_fresh hiMember) (hold hiMember)),
      bind_of_ok (linkInner_run_fresh (h.hasBranch_fresh loMember)
        (by rw [Store.body?_linkedInner, hold loMember]))]
    rfl

theorem placeNode_cases (h : Wired s d g yes no) {hi lo : Reference} (hhi : hi.Own s d)
    (hlo : lo.Own s d) : (∃ e, Diagram.placeNode d v hi lo s = .error e s) ∨
    (∃ hiRef loRef, g.Member yes no hiRef ∧ g.Member yes no loRef ∧ hiRef ≠ loRef ∧
      Diagram.placeNode d v hi lo s = .ok s.size (s.grown d v hiRef loRef)) := by
  rcases h.branchTarget_cases true hhi with ⟨hiRef, hhi, hiMember⟩ | ⟨e, he⟩
  · rcases h.branchTarget_cases false hlo with ⟨loRef, hlo, loMember⟩ | ⟨e, he⟩
    · have hrun := h.placeNode_run (v := v) hhi hlo hiMember loMember
      split at hrun
      · exact .inl ⟨_, hrun⟩
      · rename_i hne
        exact .inr ⟨hiRef, loRef, hiMember, loMember, Ne.symm hne, hrun⟩
    · refine .inl ⟨e, ?_⟩
      unfold Diagram.placeNode
      rw [bind_of_ok (observe_of_ok hhi), bind_of_error (observe_of_error he)]
  · exact .inl ⟨e, bind_of_error (observe_of_error he)⟩

theorem addNode_cases (h : Wired s d g yes no) {hi lo : Reference} (hhi : hi.Own s d)
    (hlo : lo.Own s d) : (∃ r, g.find? v = some r ∧ Diagram.addNode d v hi lo s = .ok r s) ∨
    (∃ e, Diagram.addNode d v hi lo s = .error e s) ∨
    (∃ hiRef loRef, g.find? v = none ∧ g.root = none ∧ isReserved v = false ∧
      g.Member yes no hiRef ∧
      g.Member yes no loRef ∧ hiRef ≠ loRef ∧
      Diagram.addNode d v hi lo s = .ok s.size (s.grown d v hiRef loRef)) := by
  rw [h.addNode_run]
  cases hfind : g.find? v with
  | some r => exact .inl ⟨r, rfl, rfl⟩
  | none =>
    cases hready : g.ready with
    | true => exact .inr (.inl ⟨_, rfl⟩)
    | false =>
      cases hfree : isReserved v with
      | true => exact .inr (.inl ⟨_, rfl⟩)
      | false =>
        have hopen : g.root = none := by simpa [Registry.ready] using hready
        rcases h.placeNode_cases hhi
          hlo with ⟨e, he⟩ | ⟨hiRef, loRef, hiMember, loMember, hne, hrun⟩
        · exact .inr (.inl ⟨e, he⟩)
        · exact .inr (.inr ⟨hiRef, loRef, rfl, hopen, rfl, hiMember, loMember, hne, hrun⟩)

theorem wireBranch_run {s : Store} {source target : Ref} {side : Bool}
    (hterm : s.isTerminal source = false) :
    wireBranch source side target s = match s.checkTarget source side target with
      | .ok _ => .ok () (s.setBranch source side target)
      | .error e => .error e s := by
  unfold wireBranch
  change (if s.isTerminal source then _ else _ : Edit Unit) s = _
  rw [hterm, if_neg Bool.false_ne_true]
  cases hcheck : s.checkTarget source side target with
  | ok u => exact bind_of_ok (observe_of_ok hcheck)
  | error e => exact bind_of_error (observe_of_error hcheck)

theorem wireBranch_terminal {s : Store} {source target : Ref} {side : Bool}
    (hterm : s.isTerminal source = true) :
    wireBranch source side target s = .error (s.raise (.terminalSource source)) s := by
  unfold wireBranch
  change (if s.isTerminal source then _ else _ : Edit Unit) s = _
  rw [hterm, if_pos rfl]
  rfl

theorem checkTarget_eq_ok_iff {s : Store} {a b : Ref} {side : Bool} :
    s.checkTarget a side b = .ok () ↔ s.branch (!side) a ≠ some b ∧ s.hasParent a b = false := by
  unfold Store.checkTarget
  split
  · simp [*]
  · split
    · simp [*]
    · simp [*]

theorem setEdge_run (h : Wired s d g yes no) {source target : Reference} {a b : Ref}
    (selector : Selector) (hopen : g.root = none) (hsource : s.require d source = .ok a)
    (htarget : s.requireListed d target = .ok b) (hterm : s.isTerminal a = false)
    (hcheck : s.checkTarget a selector.side b = .ok ()) :
    Diagram.setEdge d source target selector s = let t := s.redirected a selector.side b
      if t.hasBranch b a then .error ((t.unheld d b).raise (.branchAsParent a)) (t.unheld d b)
      else .ok ⟨a, b, selector.side⟩ (t.linked d a b selector.toLabel) := by
  have hmutable := h.requireMutable_of_open hopen
  have hwire : wireBranch a selector.side b s = _ := wireBranch_run hterm
  rw [hcheck] at hwire
  have hlink := link_run (s.redirected a selector.side b) d a b selector.toLabel
  unfold Diagram.setEdge
  rw [bind_of_ok hmutable, bind_of_ok (observe_of_ok hsource), bind_of_ok (observe_of_ok htarget)]
  change (wireBranch a selector.side b >>= _) s = _
  rw [bind_of_ok hwire]
  -- The edge that is answered differs from case to case below, the linking does not.
  have hrest : ∀ edge : Edge, (Diagram.link d a b selector.toLabel >>= fun _ => pure edge)
      (s.redirected a selector.side b) =
        if (s.redirected a selector.side b).hasBranch b a then
          .error (((s.redirected a selector.side b).unheld d b).raise (.branchAsParent a))
            ((s.redirected a selector.side b).unheld d b)
        else .ok edge ((s.redirected a selector.side b).linked d a b selector.toLabel) := by
    intro edge
    split at hlink
    · rename_i hback
      rw [if_pos hback, bind_of_error hlink]
    · rename_i hback
      rw [if_neg hback, bind_of_ok hlink]
      rfl
  rw [← hrest]
  unfold Store.redirected
  cases s.next selector.side a with
  | none => rfl
  | some f =>
    by_cases hf : f = b
    · simp only [hf, ne_eq, not_true_eq_false, ↓reduceIte]
    · simp only [ne_eq, hf, not_false_eq_true, ↓reduceIte]
      rfl

theorem setEdge_refused (h : Wired s d g yes no) {source target : Reference} {a b : Ref}
    (selector : Selector) (hopen : g.root = none) (hsource : s.require d source = .ok a)
    (htarget : s.requireListed d target = .ok b)
    (hrefused : ¬ (s.isTerminal a = false ∧ s.checkTarget a selector.side b = .ok ())) :
    ∃ e, Diagram.setEdge d source target selector s = .error e s := by
  obtain ⟨e, hwire⟩ : ∃ e, wireBranch a selector.side b s = .error e s := by
    cases hterm : s.isTerminal a with
    | true => exact ⟨_, wireBranch_terminal hterm⟩
    | false =>
      have hwire : wireBranch a selector.side b s = _ := wireBranch_run hterm
      cases hcheck : s.checkTarget a selector.side b with
      | ok u => exact absurd ⟨hterm, hcheck⟩ hrefused
      | error e => exact ⟨e, by rw [hwire, hcheck]⟩
  refine ⟨e, ?_⟩
  unfold Diagram.setEdge
  rw [bind_of_ok (h.requireMutable_of_open hopen), bind_of_ok (observe_of_ok hsource),
    bind_of_ok (observe_of_ok htarget)]
  change (wireBranch a selector.side b >>= _) s = _
  rw [bind_of_error hwire]

/-- A call of `setEdge` fails without a change, or it sets a branch. It can still fail then, if the
target has the source as a branch. -/
theorem setEdge_outcome (h : Wired s d g yes no) (source target : Reference) (selector : Selector) :
    (∃ e, Diagram.setEdge d source target selector s = .error e s) ∨
    ∃ a b, s.require d source = .ok a ∧ s.requireListed d target = .ok b ∧ g.root = none ∧
      s.isTerminal a = false ∧ s.checkTarget a selector.side b = .ok () ∧
      Diagram.setEdge d source target selector s =
        let t := s.redirected a selector.side b
        if t.hasBranch b a then .error ((t.unheld d b).raise (.branchAsParent a)) (t.unheld d b)
        else .ok ⟨a, b, selector.side⟩ (t.linked d a b selector.toLabel) := by
  rcases h.requireMutable_cases with hclosed | ⟨hopen, hmutable⟩
  · exact .inl ⟨_, bind_of_error hclosed⟩
  cases ha : s.require d source with
  | error e =>
    exact .inl ⟨e, by rw [Diagram.setEdge, bind_of_ok hmutable,
      bind_of_error (observe_of_error ha)]⟩
  | ok a =>
    cases hb : s.requireListed d target with
    | error e =>
      refine .inl ⟨e, ?_⟩
      rw [Diagram.setEdge, bind_of_ok hmutable, bind_of_ok (observe_of_ok ha),
        bind_of_error (observe_of_error hb)]
    | ok b =>
      by_cases hallowed : s.isTerminal a = false ∧ s.checkTarget a selector.side b = .ok ()
      · exact .inr ⟨a, b, rfl, rfl, hopen, hallowed.1, hallowed.2,
          h.setEdge_run selector hopen ha hb hallowed.1 hallowed.2⟩
      · exact .inl (h.setEdge_refused selector hopen ha hb hallowed)

/-- With own references, the branch that is set is one of a node, and the target is a vertex of the
diagram. The source does not record the target as a parent then. -/
theorem setEdge_cases (h : Wired s d g yes no) {source target : Reference} (selector : Selector)
    (hsource : source.Own s d) (htarget : target.Own s d) :
    (∃ e, Diagram.setEdge d source target selector s = .error e s) ∨
    ∃ a b, s.require d source = .ok a ∧ s.require d target = .ok b ∧ a ∈ g.nodes ∧
    g.Member yes no b ∧
      g.root = none ∧ s.branch (!selector.side) a ≠ some b ∧ s.hasParent a b = false ∧
      Diagram.setEdge d source target selector s = let t := s.redirected a selector.side b
        if t.hasBranch b a then .error ((t.unheld d b).raise (.branchAsParent a)) (t.unheld d b)
        else .ok ⟨a, b, selector.side⟩ (t.linked d a b selector.toLabel) := by
  rcases h.setEdge_outcome source target
    selector with hfail | ⟨a, b, ha, hb, hopen, hterm, hcheck, hrun⟩
  · exact .inl hfail
  obtain ⟨hother, hparent⟩ := checkTarget_eq_ok_iff.mp hcheck
  have haMember := h.member_of_require hsource ha
  obtain ⟨hb, hbMember⟩ := h.member_of_requireListed htarget hb
  exact .inr ⟨a, b, ha, hb, (h.mem_nodes_iff_of_member haMember).mpr hterm, hbMember, hopen, hother,
    hparent, hrun⟩

theorem removeEdge_cases (h : Wired s d g yes no) {source target : Reference}
    (hsource : source.Own s d) (htarget : target.Own s d) :
    (∃ e, Diagram.removeEdge d source target s = .error e s) ∨
    ∃ a b, s.require d source = .ok a ∧ s.require d target = .ok b ∧ g.Member yes no a ∧
      g.Member yes no b ∧ g.root = none ∧
      Diagram.removeEdge d source target s = .ok () (s.dropParent b a) := by
  unfold Diagram.removeEdge
  rw [bind_of_ok (observe_of_ok h.registry)]
  rcases h.require_cases hsource with ⟨a, ha, haMember⟩ | ⟨e, he⟩
  · rcases h.require_cases htarget with ⟨b, hb, hbMember⟩ | ⟨e, he⟩
    · rw [bind_of_ok (observe_of_ok ha), bind_of_ok (observe_of_ok hb)]
      simp only [ne_eq, h.member_ne_diagram haMember, not_false_eq_true, ↓reduceIte]
      rcases h.requireMutable_cases with hclosed | ⟨hopen, hmutable⟩
      · exact .inl ⟨_, bind_of_error hclosed⟩
      · exact .inr ⟨a, b, ha, hb, haMember, hbMember, hopen, bind_of_ok hmutable⟩
    · exact .inl ⟨e, by rw [bind_of_ok (observe_of_ok ha), bind_of_error (observe_of_error he)]⟩
  · exact .inl ⟨e, by rw [bind_of_error (observe_of_error he)]⟩

theorem validate_run (h : Wired s d g yes no) : Diagram.validate d s =
    match g.root with
    | some root => .ok root s
    | none =>
      match s.findRoot d g with
      | .ok root => .ok root (s.updateRegistry d (·.setRoot root))
      | .error e => .error e s := by
  unfold Diagram.validate
  rw [bind_of_ok (observe_of_ok h.registry)]
  cases g.root with
  | some root => rfl
  | none =>
    cases hfind : s.findRoot d g with
    | ok root => exact bind_of_ok (observe_of_ok hfind)
    | error e => exact bind_of_error (observe_of_error hfind)

end Wired

end DecisionDiagram
