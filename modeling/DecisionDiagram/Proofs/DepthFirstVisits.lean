import DecisionDiagram.Counting
import Mathlib
/-! Depth-first visits, wherever one thing leads to others. What is met below the first of several
things is met before the next of them, and nothing is met a second time. -/
namespace DecisionDiagram
open Relation

variable {α : Type} {next : α → List α} {seen rest order below : List α} {a b x : α}

/-- What is met when some things are visited one after the other. A thing that was seen before is
skipped. A new one is met first, then what is new below it, then what is new beside it. -/
inductive Visits (next : α → List α) : List α → List α → List α → Prop
  | done (seen : List α) : Visits next seen [] []
  | skip {seen rest order : List α} {a : α} (hold : a ∈ seen)
      (hrest : Visits next seen rest order) :
    Visits next seen (a :: rest) order
  | meet {seen rest below beside : List α} {a : α} (hnew : a ∉ seen)
      (hbelow : Visits next (seen ++ [a]) (next a) below)
        (hbeside : Visits next (seen ++ a :: below) rest beside) :
    Visits next seen (a :: rest) (a :: (below ++ beside))

namespace Visits

def Off (next : α → List α) (seen : List α) (a b : α) : Prop := b ∈ next a ∧ b ∉ seen

theorem off_of_append (h : Off next (seen ++ rest) a b) : Off next seen a b :=
  ⟨h.1, fun hb => h.2 (List.mem_append_left _ hb)⟩

theorem append {more order' : List α} (h : Visits next seen rest order)
    (hmore : Visits next (seen ++ order) more order') :
    Visits next seen (rest ++ more) (order ++ order') := by
  induction h with
  | done => simpa using hmore
  | skip hold _ ih => exact .skip hold (ih hmore)
  | meet hnew hbelow _ _ ih =>
    have hbeside := ih (by simpa using hmore)
    simpa using Visits.meet hnew hbelow hbeside

theorem unique {order' : List α} (h : Visits next seen rest order)
    (h' : Visits next seen rest order') : order = order' := by
  induction h generalizing order' with
  | done =>
    cases h'
    rfl
  | skip hold _ ih =>
    cases h' with
    | skip _ hrest => exact ih hrest
    | meet hnew => exact absurd hold hnew
  | meet hnew _ _ ihBelow ihBeside =>
    cases h' with
    | skip hold => exact absurd hold hnew
    | meet _ hbelow hbeside =>
      obtain rfl := ihBelow hbelow
      rw [ihBeside hbeside]

theorem exists_of_mem (h : Visits next seen rest order) (hx : x ∈ order) :
    ∃ a ∈ rest, a ∉ seen ∧ ReflTransGen (Off next seen) a x := by
  induction h with
  | done => cases hx
  | skip _ _ ih =>
    obtain ⟨b, hb, hnew⟩ := ih hx
    exact ⟨b, List.mem_cons_of_mem _ hb, hnew⟩
  | @meet seen rest below beside a hnew _ _ ihBelow ihBeside =>
    rcases List.mem_cons.mp hx with rfl | hx
    · exact ⟨x, List.mem_cons_self, hnew, .refl⟩
    rcases List.mem_append.mp hx with hx | hx
    · obtain ⟨b, hb, hout, hreach⟩ := ihBelow hx
      have hstep : Off next seen a b := ⟨hb, fun hseen => hout (List.mem_append_left _ hseen)⟩
      exact ⟨a, List.mem_cons_self, hnew,
        .head hstep (ReflTransGen.mono (fun _ _ => off_of_append) _ _ hreach)⟩
    · obtain ⟨b, hb, hout, hreach⟩ := ihBeside hx
      exact ⟨b, List.mem_cons_of_mem _ hb, fun hseen => hout (List.mem_append_left _ hseen),
        ReflTransGen.mono (fun _ _ => off_of_append) _ _ hreach⟩

theorem closed (h : Visits next seen rest order) :
    (∀ a ∈ rest, a ∈ seen ++ order) ∧ ∀ x ∈ order, ∀ y ∈ next x, y ∈ seen ++ order := by
  induction h with
  | done => simp
  | @skip seen rest order a hold _ ih =>
    exact ⟨List.forall_mem_cons.mpr ⟨List.mem_append_left _ hold, ih.1⟩, ih.2⟩
  | @meet seen rest below beside a hnew _ _ ihBelow ihBeside =>
    have hwide : ∀ y, y ∈ seen ++ [a] ++ below → y ∈ seen ++ a :: (below ++ beside) := by
      intro y hy
      simp only [List.mem_append, List.mem_cons, List.not_mem_nil, or_false] at hy ⊢
      tauto
    have hsame : seen ++ a :: below ++ beside = seen ++ a :: (below ++ beside) := by simp
    rw [hsame] at ihBeside
    refine ⟨List.forall_mem_cons.mpr ⟨by simp, ihBeside.1⟩, fun x hx y hxy => ?_⟩
    rcases List.mem_cons.mp hx with rfl | hx
    · exact hwide y (ihBelow.1 y hxy)
    rcases List.mem_append.mp hx with hx | hx
    · exact hwide y (ihBelow.2 x hx y hxy)
    · exact ihBeside.2 x hx y hxy

theorem mem_iff (h : Visits next seen [a] order) :
    x ∈ order ↔ a ∉ seen ∧ ReflTransGen (Off next seen) a x := by
  constructor
  · intro hx
    obtain ⟨b, hb, hnew⟩ := h.exists_of_mem hx
    exact List.mem_singleton.mp hb ▸ hnew
  · rintro ⟨ha, hreach⟩
    have hmet : ∀ {y}, y ∈ seen ++ order → y ∉ seen → y ∈ order := fun hy hout =>
      (List.mem_append.mp hy).resolve_left hout
    induction hreach with
    | refl => exact hmet (h.closed.1 _ (List.mem_singleton.mpr rfl)) ha
    | tail _ hstep ih => exact hmet (h.closed.2 _ ih _ hstep.1) hstep.2

variable [DecidableEq α] {all : List α}

end Visits

end DecisionDiagram
