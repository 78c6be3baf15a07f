import DecisionDiagram.Proofs.ProperBranches
/-! Edits that only tell something. In a given store such an edit comes to an answer and leaves the
store as it is, and so does what is put together from them: the answers are put together in the same
way. -/
namespace DecisionDiagram

variable {α β : Type} {s : Store} {x : Edit α} {f : α → Edit β} {p : Except Fault α}
variable {q : Except Fault β} {a : α}

/-- In this store the edit comes to the answer, and changes nothing. -/
def Edit.Tells (x : Edit α) (s : Store) (answer : Except Fault α) : Prop :=
  x s = observe (fun _ => answer) s

namespace Edit.Tells

theorem after (h : x.Tells s p) : x.after s = s := by
  unfold Edit.after
  rw [h]
  cases p <;> rfl

end Edit.Tells

theorem tells_pure (a : α) : Edit.Tells (pure a) s (.ok a) := rfl

theorem tells_throw (e : Fault) : Edit.Tells (throw e : Edit α) s (.error e) := rfl

theorem tells_get : Edit.Tells get s (.ok s) := rfl

theorem tells_observe (question : Store → Except Fault α) :
    (observe question).Tells s (question s) := by
  unfold Edit.Tells observe
  cases question s <;> rfl

theorem eq_observe {question : Store → Except Fault α} (h : ∀ s, x.Tells s (question s)) :
    x = observe question :=
  funext fun s => (h s).trans (tells_observe question).symm

theorem tells_bind {k : α → Except Fault β} (hx : x.Tells s p)
    (hf : ∀ a, p = .ok a → (f a).Tells s (k a)) : Edit.Tells (x >>= f) s (p >>= k) := by
  cases p with
  | error e => exact bind_of_error hx
  | ok a => exact (bind_of_ok hx).trans (hf a rfl)

theorem Edit.Tells.map {f : α → β} (h : x.Tells s p) :
    Edit.Tells (do return f (← x)) s (p.map f) := by
  have hbind : p.map f = p >>= fun a => .ok (f a) := by cases p <;> rfl
  rw [hbind]
  exact tells_bind h fun a _ => tells_pure (f a)

theorem tells_bind_ok (hx : x.Tells s (.ok a)) (hf : (f a).Tells s q) : Edit.Tells (x >>= f) s q :=
  (bind_of_ok hx).trans hf

theorem tells_readBranch {r : Ref} {selector : Selector} (h : s.isTerminal r = false) :
    (readBranch r selector).Tells s (.ok (s.branch selector.side r)) := by
  rw [Edit.Tells, readBranch_run, h]
  rfl

theorem tells_bind_readBranch {r : Ref} {side : Bool} {f : Option Ref → Edit β}
    (h : s.isTerminal r = false) (hf : (f (s.branch side r)).Tells s q) :
    Edit.Tells (readBranch r (.flag side) >>= f) s q :=
  tells_bind_ok (tells_readBranch h) hf

theorem tells_foldlM {step : β → α → Edit β} {next : β → α → Except Fault β} {motive : β → Prop}
    {l : List α} {b : β} (hb : motive b)
    (hnext : ∀ b a c, a ∈ l → motive b → next b a = .ok c → motive c)
    (hstep : ∀ b a, a ∈ l → motive b → (step b a).Tells s (next b a)) :
    (l.foldlM step b).Tells s (l.foldlM next b) := by
  induction l generalizing b with
  | nil => exact tells_pure b
  | cons a l ih =>
    rw [List.foldlM_cons, List.foldlM_cons]
    exact tells_bind (hstep b a List.mem_cons_self hb) fun c hc =>
      ih (hnext b a c List.mem_cons_self hb hc)
        (fun b' a' c' ha' => hnext b' a' c' (List.mem_cons_of_mem a ha'))
        fun b' a' ha' => hstep b' a' (List.mem_cons_of_mem a ha')

theorem tells_mapM {step : α → Edit β} {next : α → Except Fault β} {l : List α}
    (hstep : ∀ a ∈ l, (step a).Tells s (next a)) : (l.mapM step).Tells s (l.mapM next) := by
  induction l with
  | nil => exact tells_pure []
  | cons a l ih =>
    rw [List.mapM_cons, List.mapM_cons]
    exact tells_bind (hstep a List.mem_cons_self) fun _ _ =>
      tells_bind (ih fun b hb => hstep b (List.mem_cons_of_mem a hb)) fun _ _ => tells_pure _

theorem bind_congr_run {y : Edit α} {g : α → Edit β} (hxy : x s = y s)
    (hfg : ∀ a s', y s = .ok a s' → f a s' = g a s') : (x >>= f) s = (y >>= g) s := by
  cases hrun : y s with
  | ok a s' => rw [bind_of_ok (hxy.trans hrun), bind_of_ok hrun, hfg a s' hrun]
  | error e s' => rw [bind_of_error (hxy.trans hrun), bind_of_error hrun]

theorem bind_congr_preserves {invariant : Store → Prop} {g : α → Edit β}
    (hx : x.Preserves invariant) (hs : invariant s) (hfg : ∀ a s', invariant s' → f a s' = g a s') :
    (x >>= f) s = (x >>= g) s :=
  bind_congr_run rfl fun a s' hrun => hfg a s' (after_of_ok hrun ▸ hx s hs)

/-- Two loops come to the same if their rounds do in every store that the rounds lead to. -/
theorem foldlM_congr_run {invariant : Store → Prop} {step next : β → α → Edit β} (hs : invariant s)
    (hstep : ∀ s b a, invariant s → step b a s = next b a s)
    (hnext : ∀ b a, (next b a).Preserves invariant) (l : List α) (b : β) :
    l.foldlM step b s = l.foldlM next b s := by
  induction l generalizing b s with
  | nil => rfl
  | cons a l ih =>
    rw [List.foldlM_cons, List.foldlM_cons]
    refine bind_congr_run (hstep s b a hs) fun c s' hrun => ih ?_ c
    exact after_of_ok hrun ▸ hnext b a s hs

end DecisionDiagram
