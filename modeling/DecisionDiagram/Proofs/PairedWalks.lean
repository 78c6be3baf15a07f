import DecisionDiagram.Validation
import Mathlib.Data.List.Forall2
/-! Walks in two stores at once. Where the vertices of two stores are paired off, one with one, and
paired vertices have paired successors, a depth-first walk goes the same way in both: it meets
paired vertices, and comes to the same cycle. -/
namespace DecisionDiagram
open List Relator

abbrev Pairing := Ref → Ref → Prop

section Relations

variable {α β : Type} {S S' : α → β → Prop} {x : Option α} {y : Option β}

theorem rel_self {S : α → α → Prop} (h : ∀ a, S a a) (x : Option α) : Option.Rel S x x := by
  cases x with
  | none => exact .none
  | some a => exact .some (h a)

@[elab_as_elim]
theorem rel_cases {motive : Option α → Option β → Prop} (h : Option.Rel S x y)
    (none : motive none none) (some : ∀ a b, S a b → motive (some a) (some b)) : motive x y := by
  cases h with
  | none => exact none
  | some hab => exact some _ _ hab

theorem rel_mono (h : ∀ a b, S a b → S' a b) (hrel : Option.Rel S x y) : Option.Rel S' x y :=
  rel_cases hrel .none fun a b hab => .some (h a b hab)

theorem bind_rel {γ δ : Type} {T : γ → δ → Prop} {f : α → Option γ} {f' : β → Option δ}
    (h : Option.Rel S x y) (hf : ∀ a b, S a b → Option.Rel T (f a) (f' b)) :
    Option.Rel T (x.bind f) (y.bind f') :=
  rel_cases h .none hf

theorem exists_of_rel_some {a : α} (h : Option.Rel S x y) (hx : x = some a) :
    ∃ b, y = some b ∧ S a b := by
  subst hx
  cases h with
  | some hab => exact ⟨_, rfl, hab⟩

theorem eq_none_of_rel (h : Option.Rel S x y) (hx : x = none) : y = none := by
  subst hx
  cases h
  rfl

theorem isSome_eq_of_rel (h : Option.Rel S x y) : x.isSome = y.isSome :=
  rel_cases h rfl fun _ _ _ => rfl

end Relations

section Unique

variable {R : Pairing} {a b : Ref} {l l' : List Ref}

theorem BiUnique.eq_iff {c e : Ref} (hR : BiUnique R) (hab : R a b) (hce : R c e) :
    a = c ↔ b = e := by
  constructor
  · rintro rfl
    exact hR.2 hab hce
  · rintro rfl
    exact hR.1 hab hce

theorem BiUnique.mem_iff (hR : BiUnique R) (hab : R a b) (hl : Forall₂ R l l') : a ∈ l ↔ b ∈ l' :=
  rel_mem hR hab hl

end Unique

structure Pass.Alike (R : Pairing) (p q : Pass) : Prop where
  met : Forall₂ R p.met q.met
  visited : Forall₂ R p.visited q.visited
  cycle : Option.Rel (fun e e' => R e.1 e'.1 ∧ R e.2 e'.2) p.cycle q.cycle

def Frame.Alike (R : Pairing) (f g : Frame) : Prop := R f.vertex g.vertex ∧ Forall₂ R f.rest g.rest

namespace Pass.Alike

variable {R : Pairing} {p q : Pass} {a b : Ref} {visited visited' : List Ref}

theorem stopped (h : Forall₂ R visited visited') :
    Pass.Alike R (.stopped visited) (.stopped visited') :=
  ⟨.nil, h, .none⟩

theorem prepend (h : Pass.Alike R p q) (hab : R a b) : Pass.Alike R (p.prepend a) (q.prepend b) :=
  ⟨.cons hab h.met, h.visited, h.cycle⟩

end Pass.Alike

namespace Store

/-- Paired vertices have paired successors. -/
def Abreast (s t : Store) (R : Pairing) : Prop :=
  ∀ a b, R a b → Forall₂ R (s.successors a) (t.successors b)

variable {s t : Store} {R : Pairing} {budget : Option Nat} {visited visited' : List Ref}
variable {frames frames' : List Frame}
variable {a b r c : Ref} {l l' rest : List Ref} {outer : List Frame}

theorem onPath_alike (h : Forall₂ (Frame.Alike R) frames frames') :
    Forall₂ R (frames.map (·.vertex)) (frames'.map (·.vertex)) :=
  rel_map (fun _ _ hf => hf.1) h

theorem exists_of_frames (h : Forall₂ (Frame.Alike R) (⟨r, c :: rest⟩ :: outer) frames') :
    ∃ r' c' rest' outer', frames' = ⟨r', c' :: rest'⟩ :: outer' ∧ R r r' ∧ R c c' ∧
    Forall₂ R rest rest' ∧
      Forall₂ (Frame.Alike R) outer outer' := by
  obtain ⟨⟨r', _⟩, outer', ⟨hr, htried⟩, houter, rfl⟩ := forall₂_cons_left_iff.mp h
  obtain ⟨c', rest', hc, hrest, rfl⟩ := forall₂_cons_left_iff.mp htried
  exact ⟨r', c', rest', outer', rfl, hr, hc, hrest, houter⟩

theorem descend_alike (hR : BiUnique R) (hnext : s.Abreast t R)
    (hvisited : Forall₂ R visited visited') (hframes : Forall₂ (Frame.Alike R) frames frames') :
    Pass.Alike R (s.descend budget visited frames) (t.descend budget visited' frames') := by
  -- A one-to-one pairing keeps equality and membership, so both walks take the same branch.
  fun_induction Store.descend s budget visited frames generalizing visited' frames' with
  | case1 visited frames =>
    rw [descend.eq_def, if_pos rfl]
    exact .stopped hvisited
  | case2 budget visited hbudget =>
    cases hframes
    rw [descend, if_neg hbudget]
    exact .stopped hvisited
  | case3 budget visited hbudget r outer ih =>
    obtain ⟨⟨r', _⟩, outer', ⟨hr, htried⟩, houter, rfl⟩ := forall₂_cons_left_iff.mp hframes
    obtain rfl := forall₂_nil_left_iff.mp htried
    rw [descend, if_neg hbudget]
    exact ih hvisited houter
  | case4 budget visited hbudget r c rest outer hback =>
    obtain ⟨r', c', rest', outer', rfl, hr, hc, hrest, houter⟩ := exists_of_frames hframes
    have hback' : c' = r' ∨ c' ∈ outer'.map (·.vertex) := by
      rwa [← BiUnique.eq_iff hR hc hr, ← BiUnique.mem_iff hR hc (onPath_alike houter)]
    rw [descend, if_neg hbudget, if_pos hback']
    exact ⟨.nil, hvisited, .some ⟨hr, hc⟩⟩
  | case5 budget visited hbudget r c rest outer hback hmem ih =>
    obtain ⟨r', c', rest', outer', rfl, hr, hc, hrest, houter⟩ := exists_of_frames hframes
    rw [BiUnique.eq_iff hR hc hr, BiUnique.mem_iff hR hc (onPath_alike houter)] at hback
    rw [BiUnique.mem_iff hR hc hvisited] at hmem
    rw [descend, if_neg hbudget, if_neg hback, if_pos hmem]
    exact ih hvisited (.cons ⟨hr, hrest⟩ houter)
  | case6 budget visited hbudget r c rest outer hback hnew ih =>
    obtain ⟨r', c', rest', outer', rfl, hr, hc, hrest, houter⟩ := exists_of_frames hframes
    rw [BiUnique.eq_iff hR hc hr, BiUnique.mem_iff hR hc (onPath_alike houter)] at hback
    rw [BiUnique.mem_iff hR hc hvisited] at hnew
    rw [descend, if_neg hbudget, if_neg hback, if_neg hnew]
    exact (ih (rel_append hvisited (.cons hc .nil))
      (.cons ⟨hc, hnext c c' hc⟩ (.cons ⟨hr, hrest⟩ houter))).prepend hc

theorem depthFirst_alike (hR : BiUnique R) (hnext : s.Abreast t R)
    (hvisited : Forall₂ R visited visited') (hab : R a b) :
    Pass.Alike R (s.depthFirst budget visited a) (t.depthFirst budget visited' b) := by
  unfold depthFirst
  simp only [BiUnique.mem_iff hR hab hvisited]
  split
  · exact .stopped hvisited
  · exact (descend_alike hR hnext (rel_append hvisited (.cons hab .nil))
      (.cons ⟨hab, hnext a b hab⟩ .nil)).prepend hab

theorem firstCycle_alike (hR : BiUnique R) (hnext : s.Abreast t R)
    (hvisited : Forall₂ R visited visited') (hl : Forall₂ R l l') :
    Option.Rel (fun e e' => R e.1 e'.1 ∧ R e.2 e'.2) (s.firstCycle visited l)
      (t.firstCycle visited' l') := by
  induction hl generalizing visited visited' with
  | nil => exact .none
  | @cons a b _ _ hab _ ih =>
    have hwalk : Pass.Alike R (s.depthFirst none visited a) _ :=
      depthFirst_alike hR hnext hvisited hab
    obtain ⟨-, hpass, hcycle⟩ := hwalk
    unfold firstCycle
    dsimp only
    generalize (s.depthFirst none visited a).cycle = edge,
      (t.depthFirst none visited' b).cycle = edge' at hcycle
    cases hcycle with
    | none => exact ih hpass
    | some he => exact .some he

end Store

end DecisionDiagram
