import DecisionDiagram.CommandLine
import DecisionDiagram.Equality
import DecisionDiagram.Proofs.CanonicalInstance
/-! What a diagram finds in its table decides: no operation enters a terminal there, whatever
vertices it is handed. The files that are read and the reports on them are made up of the same
changes to the vertices. -/
namespace DecisionDiagram

namespace Store

variable {s s' : Store} {d r q : Ref} {v : Int} {x : Vertex} {f : Vertex → Vertex}

theorem kind?_modify (hkind : ∀ x, (f x).kind = x.kind) : (s.modify r f).kind? q = s.kind? q := by
  unfold kind?
  rw [vertex?_modify]
  split
  · cases s.vertex? q with
    | none => rfl
    | some x => exact congrArg some (hkind x)
  · rfl

theorem kind?_push : (s.push x).kind? q = if q = s.size then some x.kind else s.kind? q := by
  unfold kind?
  rw [vertex?_push]
  split <;> rfl

end Store

theorem Steady.of_kinds {invariant : Store → Prop}
    (hcongr : ∀ {s s' : Store}, (∀ r, s'.kind? r = s.kind? r) → invariant s → invariant s')
    (hpush : ∀ {s : Store} {x : Vertex}, (∀ g, x.kind.registry? = some g → g = {}) → invariant s →
      invariant (s.push x))
    (hinsert : ∀ {s : Store} {d r : Ref} {v : Int}, s.kind? r = some (.decision v) → invariant s →
      invariant (s.updateRegistry d (·.insert v r)))
    (hroot : ∀ {s : Store} {d r : Ref}, invariant s →
      invariant (s.updateRegistry d (·.setRoot r))) :
    Steady invariant where
  dropParent hs := hcongr (fun _ => Store.kind?_modify fun _ => rfl) hs
  addParent _ hs := hcongr (fun _ => Store.kind?_modify fun _ => rfl) hs
  setBranch {_ _ side _} _ _ hs :=
    hcongr (fun _ => Store.kind?_modify fun _ => by cases side <;> rfl) hs
  push hcreate _ hempty hs := hpush (fun g hg => hempty g (by rwa [(create_eq hcreate).1] at hg)) hs
  insert _ hkind hs := hinsert hkind hs
  setRoot hs := hroot hs

namespace Store

variable {s s' : Store} {d r q : Ref} {v : Int} {x : Vertex}

theorem kind?_updateRegistry_decision (f : Registry → Registry)
    (h : s.kind? r = some (.decision v)) : (s.updateRegistry d f).kind? r = some (.decision v) := by
  by_cases hdr : d = r
  · subst hdr
    obtain ⟨x, hx, hkind⟩ := Option.map_eq_some_iff.mp h
    rw [kind?, updateRegistry, vertex?_modify_self, hx]
    simp [hkind]
  · rwa [kind?_updateRegistry_ne f hdr]

/-- Every table holds nodes that decide on the variable they are held for. -/
def Deciding (s : Store) : Prop :=
  ∀ d g v r, s.registry? d = some g → g.find? v = some r → s.kind? r = some (.decision v)

namespace Deciding

theorem congr (h : s.Deciding) (hkind : ∀ r, s'.kind? r = s.kind? r) : s'.Deciding := by
  intro d g v r hg hv
  rw [registry?_eq_kind, hkind, ← registry?_eq_kind] at hg
  rw [hkind]
  exact h d g v r hg hv

theorem push (h : s.Deciding) (hx : ∀ g, x.kind.registry? = some g → g = {}) :
    (s.push x).Deciding := by
  intro d g v r hg hv
  rw [registry?_eq_kind, kind?_push] at hg
  split at hg
  · obtain rfl := hx g hg
    simp [Registry.find?] at hv
  · rw [← registry?_eq_kind] at hg
    have hkind := h d g v r hg hv
    exact (keeps_push x r _ hkind).1

theorem updateRegistry (h : s.Deciding) {f : Registry → Registry}
    (hf : ∀ g v r, (f g).find? v = some r → g.find? v = some r ∨ s.kind? r = some (.decision v)) :
    (s.updateRegistry d f).Deciding := by
  intro q g v r hg hv
  refine kind?_updateRegistry_decision f ?_
  rw [registry?_updateRegistry] at hg
  split at hg
  · obtain ⟨before, hbefore, rfl⟩ := Option.map_eq_some_iff.mp hg
    exact (hf before v r hv).elim (h q before v r hbefore) id
  · exact h q g v r hg hv

theorem insert (h : s.Deciding) (hkind : s.kind? r = some (.decision v)) :
    (s.updateRegistry d (·.insert v r)).Deciding := by
  refine h.updateRegistry fun g w q hq => ?_
  rw [Registry.find?_insert] at hq
  split at hq
  · subst_vars
    obtain rfl := Option.some.inj hq
    exact .inr hkind
  · exact .inl hq

theorem lasting : Lasting Deciding where
  toSteady := .of_kinds (fun hkind hs => hs.congr hkind) (fun hx hs => hs.push hx)
    (fun hkind hs => hs.insert hkind)
    fun hs => hs.updateRegistry fun _ _ _ hq => .inl hq
  warn hs := hs

theorem isTerminal_of_vertexOf? (h : s.Deciding) (hfree : isReserved v = false)
    (hr : s.vertexOf? d v = some r) : s.isTerminal r = false := by
  rw [isReserved, Bool.or_eq_false_iff, beq_eq_false_iff_ne, beq_eq_false_iff_ne] at hfree
  rw [vertexOf?, if_neg hfree.1, if_neg hfree.2] at hr
  obtain ⟨g, hg, hv⟩ := Option.bind_eq_some_iff.mp hr
  rw [isTerminal_eq_kind, h d g v r hg hv]
  rfl

end Deciding

theorem isTerminal_of_isDiagram (h : s.isDiagram d = true) : s.isTerminal d = false := by
  unfold isDiagram at h
  rw [registry?_eq_kind] at h
  rw [isTerminal_eq_kind]
  cases hkind : s.kind? d with
  | none => rfl
  | some k => cases k <;> simp_all [Kind.registry?, Kind.isTerminal]

theorem steady_isDiagram (d : Ref) : Steady fun s => s.isDiagram d = true := by
  have hupdate : ∀ {s : Store} {q : Ref} (f : Registry → Registry), s.isDiagram d = true →
      (s.updateRegistry q f).isDiagram d = true := by
    intro s q f hs
    rw [isDiagram, registry?_updateRegistry]
    split
    · rwa [Option.isSome_map]
    · exact hs
  refine .of_kinds (fun {s s'} hkind hs => ?_) (fun {s x} _ hs => ?_) (fun _ hs => hupdate _ hs)
    fun hs => hupdate _ hs
  · rw [isDiagram, registry?_eq_kind] at hs ⊢
    rwa [hkind]
  · rw [isDiagram, registry?_eq_kind] at hs ⊢
    cases hkind : s.kind? d with
    | none => simp [hkind] at hs
    | some k => rwa [(keeps_push x d k hkind).1, ← hkind]

theorem steady_warned (b : Bool) : Steady fun s => s.warned = b where
  dropParent hs := hs
  addParent _ hs := hs
  setBranch _ _ hs := hs
  push _ _ _ hs := hs
  insert _ _ hs := hs
  setRoot hs := hs

end Store

section Loops

variable {α β : Type} {invariant : Store → Prop} {s : Store}

theorem preserves_foldlM {step : β → α → Edit β} (hstep : ∀ b a, (step b a).Preserves invariant)
    (l : List α) (b : β) : (l.foldlM step b).Preserves invariant := by
  induction l generalizing b with
  | nil => exact preserves_pure b
  | cons a l ih =>
    rw [List.foldlM_cons]
    exact preserves_bind (hstep b a) ih

end Loops

namespace Steady

variable {invariant : Store → Prop} (h : Steady invariant)
include h

theorem buildLine (d : Ref) (lines : Document.Lines) (built : List (Int × Ref)) (id : Int) :
    (Document.buildLine d lines built id).Preserves invariant := by
  unfold Document.buildLine
  cases lines.lookup id with
  | none => exact preserves_throw _
  | some rule =>
    cases rule with
    | constant value =>
      refine preserves_bind preserves_get fun s => ?_
      cases s.branch value d with
      | none => exact preserves_throw _
      | some r => exact preserves_pure _
    | test v lo hi =>
      have hadd : Edit.Preserves invariant (do
          let hiRef ← observe fun _ => Document.builtVertex built hi
          let loRef ← observe fun _ => Document.builtVertex built lo
          return (id, ← Diagram.addNode d v (.vertex hiRef) (.vertex loRef)) :: built) :=
        preserves_bind preserves_observe fun _ => preserves_bind preserves_observe fun _ =>
          preserves_bind h.addNode fun _ => preserves_pure _
      exact preserves_bind preserves_get fun s => preserves_bind preserves_observe fun _ =>
        preserves_ite (preserves_throw _) hadd

theorem build (lines : Document.Lines) (root : Int) :
    (Document.build lines root).Preserves invariant := by
  refine preserves_bind preserves_observe fun ids => ?_
  cases (Document.dependencies lines ids).layers? with
  | none => exact preserves_throw _
  | some layers =>
    refine preserves_bind h.create fun d =>
        preserves_bind (preserves_foldlM (h.buildLine d lines) _ []) fun built =>
      preserves_bind h.validate fun found => preserves_bind preserves_observe fun declared => ?_
    exact preserves_ite (preserves_bind preserves_get fun s => preserves_throw _) (preserves_pure _)

theorem load (document : Document) (file : String) : (document.load file).Preserves invariant := by
  unfold Document.load
  cases document.root with
  | none => exact preserves_throw _
  | some root => exact preserves_bind (h.build _ _) fun _ => preserves_pure _

theorem parse (bytes : Text.Bytes) (file : String) :
    (Document.parse bytes file).Preserves invariant :=
  preserves_bind preserves_observe fun _ => h.load _ file

theorem report (fetch : String → Except Fault Text.Bytes) (r : CommandLine.Request) :
    (CommandLine.report fetch r).Preserves invariant := by
  -- Both sides go on with the files: the first one has failed by then.
  refine preserves_ite (preserves_bind preserves_observe fun _ => ?_) ?_ <;>
    exact preserves_bind preserves_observe fun _ => preserves_bind preserves_observe fun _ =>
      preserves_bind preserves_observe fun _ => preserves_bind (h.parse _ _) fun _ =>
        preserves_bind preserves_observe fun _ => preserves_bind (h.parse _ _) fun _ =>
          preserves_observe

end Steady

end DecisionDiagram
