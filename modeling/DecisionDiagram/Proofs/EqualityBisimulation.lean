import DecisionDiagram.Proofs.EqualVertices
/-! Equality of vertices is bisimilarity: two vertices are equal if and only if some relation holds
between them under which related vertices have one shape and branches to vertices that are the same
or related again. What a comparison takes for granted on the way is made good by this relation, so
equality is an equivalence even where branches go round. -/
namespace DecisionDiagram

section Composition

variable {α β γ : Type} {S : α → β → Prop} {T : β → γ → Prop} {x : Option α} {y : Option β}
variable {z : Option γ}

theorem rel_swap (h : Option.Rel S x y) : Option.Rel (Function.swap S) y x := by
  cases h with
  | none => exact .none
  | some hab => exact .some hab

theorem rel_comp (h : Option.Rel S x y) (h' : Option.Rel T y z) :
    Option.Rel (Relation.Comp S T) x z := by
  cases h with
  | none =>
    cases h'
    exact .none
  | some hab =>
    cases h' with
    | some hbc => exact .some ⟨_, hab, hbc⟩

end Composition

namespace Store

variable {s : Store} {R S : Ref → Ref → Prop} {seen : List (Ref × Ref)}
variable {pending : List (Option Ref × Option Ref)}
variable {a b c : Ref}

/-- Related vertices have one shape, and their branches on either side are both missing, or lead to
one vertex, or to related ones. -/
def Bisimulates (s : Store) (R : Ref → Ref → Prop) : Prop := ∀ a b, R a b →
  (∃ shape, s.shape? a = some shape ∧ s.shape? b = some shape) ∧
    ∀ side, Option.Rel (fun p q => p = q ∨ R p q) (s.branch side a) (s.branch side b)

def Bisimilar (s : Store) (a b : Ref) : Prop := ∃ R, s.Bisimulates R ∧ R a b

namespace Bisimulates

theorem vertices (hR : s.Bisimulates R) (h : R a b) :
    ∃ x y, s.vertex? a = some x ∧ s.vertex? b = some y ∧ x.kind.shape = y.kind.shape := by
  obtain ⟨⟨shape, ha, hb⟩, -⟩ := hR a b h
  obtain ⟨k, hk, rfl⟩ := Option.map_eq_some_iff.mp ha
  obtain ⟨k', hk', hshape⟩ := Option.map_eq_some_iff.mp hb
  obtain ⟨x, hx, rfl⟩ := Option.map_eq_some_iff.mp hk
  obtain ⟨y, hy, rfl⟩ := Option.map_eq_some_iff.mp hk'
  exact ⟨x, y, hx, hy, hshape.symm⟩

theorem of_distinct (h : Option.Rel (fun p q => p = q ∨ R p q) (some a) (some b))
    (hne : some a ≠ some b) : R a b := by
  cases h with
  | some hab => exact hab.resolve_left fun heq => hne (congrArg some heq)

theorem swap (hR : s.Bisimulates R) : s.Bisimulates (Function.swap R) := by
  intro a b h
  obtain ⟨⟨shape, hb, ha⟩, hside⟩ := hR b a h
  refine ⟨⟨shape, ha, hb⟩, fun side => rel_mono ?_ (rel_swap (hside side))⟩
  exact fun p q hpq => hpq.imp_left Eq.symm

theorem comp (hR : s.Bisimulates R) (hS : s.Bisimulates S) :
    s.Bisimulates fun a c => R a c ∨ S a c ∨ Relation.Comp R S a c := by
  rintro a c (h | h | ⟨b, hab, hbc⟩)
  · obtain ⟨hshape, hside⟩ := hR a c h
    exact ⟨hshape, fun side => rel_mono (fun p q hpq => hpq.imp_right .inl) (hside side)⟩
  · obtain ⟨hshape, hside⟩ := hS a c h
    exact ⟨hshape, fun side => rel_mono (fun p q hpq => hpq.imp_right fun hpq => .inr (.inl hpq))
      (hside side)⟩
  · obtain ⟨⟨shape, ha, hb⟩, hfirst⟩ := hR a b hab
    obtain ⟨⟨shape', hb', hc⟩, hsecond⟩ := hS b c hbc
    obtain rfl := Option.some.inj (hb.symm.trans hb')
    refine ⟨⟨shape, ha, hc⟩, fun side => rel_mono ?_ (rel_comp (hfirst side) (hsecond side))⟩
    rintro p r ⟨q, rfl | hpq, rfl | hqr⟩
    · exact .inl rfl
    · exact .inr (.inr (.inl hqr))
    · exact .inr (.inl hpq)
    · exact .inr (.inr (.inr ⟨q, hpq, hqr⟩))

theorem agree (hR : s.Bisimulates R)
    (h : ∀ e ∈ pending, Option.Rel (fun p q => p = q ∨ R p q) e.1 e.2) :
    s.agree seen pending = true := by
  -- `case4` is a pair with equal shapes; the cases after it answer no, against `hR`.
  fun_induction Store.agree with
  | case1 => rfl
  | case2 _ _ _ ih => exact ih (List.forall_mem_cons.mp h).2
  | case3 _ _ _ _ _ _ ih => exact ih (List.forall_mem_cons.mp h).2
  | case4 seen rest a b _ x y hx hy _ hne ih =>
    obtain ⟨hhead, hrest⟩ := List.forall_mem_cons.mp h
    obtain ⟨-, hside⟩ := hR a b (of_distinct hhead hne)
    have hlo := hside false
    have hhi := hside true
    rw [branch, branch, hx, hy] at hlo hhi
    exact ih (List.forall_mem_cons.mpr ⟨hlo, List.forall_mem_cons.mpr ⟨hhi, hrest⟩⟩)
  | case5 seen rest a b _ x y hx hy hshape hne =>
    obtain ⟨x', y', hx', hy', heq⟩ := hR.vertices (of_distinct (List.forall_mem_cons.mp h).1 hne)
    obtain rfl := Option.some.inj (hx.symm.trans hx')
    obtain rfl := Option.some.inj (hy.symm.trans hy')
    exact absurd heq hshape
  | case6 seen rest a b _ hnone hne =>
    obtain ⟨x, y, hx, hy, -⟩ := hR.vertices (of_distinct (List.forall_mem_cons.mp h).1 hne)
    exact absurd hy (hnone x y hx)
  | case7 seen a b rest hne hnone =>
    cases (List.forall_mem_cons.mp h).1 with
    | none => exact absurd rfl hne
    | some _ => exact absurd rfl (hnone _ _ rfl)

theorem branch_shape?_eq (hR : s.Bisimulates R) (h : R a b) (side : Bool) :
    (s.branch side a).bind s.shape? = (s.branch side b).bind s.shape? := by
  obtain ⟨-, hside⟩ := hR a b h
  refine rel_cases (hside side) rfl ?_
  rintro p q (rfl | hpq)
  · rfl
  · obtain ⟨⟨shape, hp, hq⟩, -⟩ := hR p q hpq
    exact hp.trans hq.symm

end Bisimulates

namespace Bisimilar

theorem refl (ha : a < s.size) : s.Bisimilar a a := by
  refine ⟨fun p q => p = a ∧ q = a, ?_, rfl, rfl⟩
  rintro p q ⟨rfl, rfl⟩
  exact ⟨⟨_, shape?_eq (Array.getElem?_eq_getElem ha), shape?_eq (Array.getElem?_eq_getElem ha)⟩,
    fun side => rel_self (fun _ => .inl rfl) _⟩

theorem symm (h : s.Bisimilar a b) : s.Bisimilar b a := by
  obtain ⟨R, hR, hab⟩ := h
  exact ⟨_, hR.swap, hab⟩

theorem trans (h : s.Bisimilar a b) (h' : s.Bisimilar b c) : s.Bisimilar a c := by
  obtain ⟨R, hR, hab⟩ := h
  obtain ⟨S, hS, hbc⟩ := h'
  exact ⟨_, hR.comp hS, .inr (.inr ⟨b, hab, hbc⟩)⟩

theorem digest_eq (h : s.Bisimilar a b) : s.digest a = s.digest b := by
  obtain ⟨R, hR, hab⟩ := h
  obtain ⟨⟨shape, ha, hb⟩, -⟩ := hR a b hab
  rw [digest, digest, ha, hb, hR.branch_shape?_eq hab true, hR.branch_shape?_eq hab false]

end Bisimilar

theorem similar_iff : s.similar a b = true ↔ a = b ∨ s.Bisimilar a b := by
  constructor
  · intro h
    obtain ⟨R, hpending, hR⟩ := exists_of_agree h
    have hnothing : ∀ p q, Assumed [] R p q → p = q ∨ R p q := by simp [Assumed]
    cases hpending (some a, some b) List.mem_cons_self with
    | some hab =>
      refine (hnothing a b hab).imp_right fun hrel => ⟨R, fun p q hpq => ?_, hrel⟩
      obtain ⟨hshape, hside⟩ := hR p q hpq
      exact ⟨hshape, fun side => rel_mono hnothing (hside side)⟩
  · rintro (rfl | ⟨R, hR, hab⟩)
    · rw [similar, agree, if_pos rfl, agree]
    · exact hR.agree (List.forall_mem_singleton.mpr (.some (.inr hab)))

theorem equals_iff : s.equals a (.vertex b) = true ↔
    a = b ∨ s.isDiagram a = false ∧ s.isDiagram b = false ∧ s.Bisimilar a b := by
  rw [equals]
  cases ha : s.isDiagram a <;> cases hb : s.isDiagram b <;> simp [similar_iff]

theorem equals_equivalence (s : Store) : Equivalence fun a b => s.equals a (.vertex b) = true where
  refl _ := equals_iff.mpr (.inl rfl)
  symm h := equals_iff.mpr <| (equals_iff.mp h).imp Eq.symm fun ⟨ha, hb, hab⟩ => ⟨hb, ha, hab.symm⟩
  trans {a b c} h h' := by
    rcases equals_iff.mp h with rfl | ⟨ha, -, hab⟩
    · exact h'
    · rcases equals_iff.mp h' with rfl | ⟨-, hc, hbc⟩
      · exact h
      · exact equals_iff.mpr (.inr ⟨ha, hc, hab.trans hbc⟩)

theorem sameDigest_of_equals (h : s.equals a (.vertex b) = true) : s.sameDigest a b = true := by
  rw [sameDigest]
  rcases equals_iff.mp h with rfl | ⟨ha, hb, hab⟩
  · simp
  · simp [ha, hb, hab.digest_eq]

end Store

/-- Two vertices that are no diagrams are equal if and only if a relation of this kind holds between
them, and a diagram is equal to itself only. So equality is an equivalence, and equal vertices have
one hash key. -/
theorem equals_iff_bisimilar (s : Store) :
    (∀ a b, a < s.size → s.isDiagram a = false → s.isDiagram b = false →
      (s.equals a (.vertex b) = true ↔ s.Bisimilar a b)) ∧
    (∀ a b, s.isDiagram a = true ∨ s.isDiagram b = true → (s.equals a (.vertex b) = true ↔ a = b)) ∧
    (Equivalence fun a b => s.equals a (.vertex b) = true) ∧
    ∀ a b, s.equals a (.vertex b) = true → s.sameDigest a b = true := by
  refine ⟨fun a b hsize ha hb => ?_, fun a b hdiagram => ?_, s.equals_equivalence, fun a b =>
    Store.sameDigest_of_equals⟩
  · rw [Store.equals_iff]
    constructor
    · rintro (rfl | ⟨-, -, hab⟩)
      · exact .refl hsize
      · exact hab
    · exact fun hab => .inr ⟨ha, hb, hab⟩
  · rw [Store.equals_iff]
    refine or_iff_left fun ⟨ha, hb, _⟩ => ?_
    simp [ha, hb] at hdiagram

def twoRings : Store where
  vertices := #[{ kind := .decision 1, hi := some 1 }, { kind := .decision 2, hi := some 0 },
    { kind := .decision 3, hi := some 3 }, { kind := .decision 4, hi := some 4 },
      { kind := .decision 5, hi := some 2 }]

/-- No unfolding tells a ring of two from a ring of three. -/
theorem equals_iff_bisimilar_twoRings :
    twoRings.equals 0 (.vertex 2) = true ∧ twoRings.Bisimilar 0 2 ∧
    twoRings.Bisimilar 0 1 ∧ twoRings.sameDigest 0 2 = true := by
  obtain ⟨hiff, -, -, hdigest⟩ := equals_iff_bisimilar twoRings
  have hrings : twoRings.equals 0 (.vertex 2) = true := by cbv
  have hnext : twoRings.equals 0 (.vertex 1) = true := by cbv
  exact ⟨hrings, (hiff 0 2 (by decide) (by decide) (by decide)).mp hrings,
    (hiff 0 1 (by decide) (by decide) (by decide)).mp hnext, hdigest 0 2 hrings⟩

end DecisionDiagram
