import DecisionDiagram.Proofs.RelationCycles
import DecisionDiagram.Walk.Unseen
/-! What lies below a vertex: the vertices that walks along its branches come to. -/
namespace DecisionDiagram.Store
open Relation

def Leads (s : Store) (a b : Ref) : Prop := b ∈ s.successors a

def Reaches (s : Store) : Ref → Ref → Prop := ReflTransGen s.Leads

def Circular (s : Store) (r : Ref) : Prop := ∃ a, s.Reaches r a ∧ TransGen s.Leads a a

/-- Every walk down from `r` ends. -/
def Grounded (s : Store) (r : Ref) : Prop := Acc (Function.swap s.Leads) r

/-- A branch of `a` that ends at `b`, outside what was seen before. -/
def LeadsOff (s : Store) (seen : List Ref) (a b : Ref) : Prop := s.Leads a b ∧ b ∉ seen

theorem leads_lt_size {s : Store} {a b : Ref} (h : s.Leads a b) : a < s.size :=
  lt_size_of_mem_successors h

theorem leads_mem_flatMap {s : Store} {a b : Ref} (h : s.Leads a b) :
    b ∈ s.refs.flatMap s.successors :=
  List.mem_flatMap.mpr ⟨a, mem_refs.mpr (leads_lt_size h), h⟩

theorem grounded_iff {s : Store} {r : Ref} : s.Grounded r ↔ ¬ s.Circular r :=
  Cycle.acc_iff (fun _ _ => leads_mem_flatMap) r

theorem Grounded.of_leads {s : Store} {a b : Ref} (h : s.Grounded a) (hab : s.Leads a b) :
    s.Grounded b := h.inv hab

theorem Grounded.of_reaches {s : Store} {a b : Ref} (h : s.Grounded a) (hab : s.Reaches a b) :
    s.Grounded b := Cycle.acc_of_reflTransGen h hab

theorem grounded_of_lt {s : Store} {rs : List Ref}
    (h : ∀ r ∈ rs, ∀ q ∈ s.successors r, q ∈ rs ∧ q < r) : ∀ r ∈ rs, s.Grounded r := by
  intro r hr
  induction r using Nat.strongRecOn with
  | ind r ih => exact .intro r fun q hq => ih q (h r hr q hq).2 (h r hr q hq).1

theorem mem_of_reaches {s : Store} {rs : List Ref} (h : ∀ r ∈ rs, ∀ q ∈ s.successors r, q ∈ rs)
    {a b : Ref} (ha : a ∈ rs) (hab : s.Reaches a b) : b ∈ rs := by
  induction hab with
  | refl => exact ha
  | tail _ hlead ih => exact h _ ih _ hlead

theorem Grounded.not_reaches_back {s : Store} {a b : Ref} (h : s.Grounded a) (hab : s.Leads a b) :
    ¬ s.Reaches b a :=
  fun hback => Cycle.not_transGen_self_of_acc h (.head' hab hback)

theorem Grounded.congr {s s' : Store} {r : Ref} (h : s.Grounded r)
    (hsame : ∀ a, s.Reaches r a → s'.successors a = s.successors a) : s'.Grounded r := by
  induction h with
  | intro a _ ih =>
    refine .intro a fun b hb => ?_
    have hab : s.Leads a b := by
      rw [Leads, ← hsame a .refl]
      exact hb
    exact ih b hab fun c hc => hsame c (.head hab hc)

theorem LeadsOff.leads {s : Store} {seen : List Ref} {a b : Ref} (h : s.LeadsOff seen a b) :
    s.Leads a b := h.1

theorem reaches_of_leadsOff {s : Store} {seen : List Ref} {a b : Ref}
    (h : ReflTransGen (s.LeadsOff seen) a b) : s.Reaches a b :=
  ReflTransGen.mono (fun _ _ => LeadsOff.leads) _ _ h

theorem leadsOff_nil {s : Store} : s.LeadsOff [] = s.Leads := by
  funext a b
  simp [LeadsOff]

theorem leadsOff_append_or {s : Store} {seen : List Ref} {a b c : Ref}
    (h : ReflTransGen (s.LeadsOff seen) a b) :
    ReflTransGen (s.LeadsOff (seen ++ [c])) a b ∨
      TransGen (s.LeadsOff seen) a c ∧ ReflTransGen (s.LeadsOff seen) c b := by
  induction h with
  | refl => exact .inl .refl
  | @tail x y hax hxy ih =>
    by_cases hyc : y = c
    · subst hyc
      exact .inr ⟨.tail' hax hxy, .refl⟩
    · rcases ih with hoff | ⟨hac, hcx⟩
      · exact .inl (hoff.tail ⟨hxy.1, by simp [hxy.2, hyc]⟩)
      · exact .inr ⟨hac, hcx.tail hxy⟩

theorem leadsOff_of_append {s : Store} {seen more : List Ref} {a b : Ref}
    (h : s.LeadsOff (seen ++ more) a b) : s.LeadsOff seen a b :=
  ⟨h.1, fun hb => h.2 (List.mem_append_left _ hb)⟩

end DecisionDiagram.Store
