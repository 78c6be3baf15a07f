import DecisionDiagram.Proofs.BuildFaults
import DecisionDiagram.Proofs.RoundTrip
/-! Documents whose lines come back to themselves. They are never accepted, but only a loop through
several lines is told as such: a line that names itself is left out of the search for loops, and
comes to another fault. -/
namespace DecisionDiagram.Document
open Relation

variable {lines : Lines} {root a b : Int} {ids : List Int} {s s' : Store} {e : Fault}

theorem below_of_waits (ha : Below lines root a) (h : TransGen (Waits lines) a b) :
    Below lines root b :=
  ha.trans (TransGen.mono (fun _ _ hxy => hxy.2) _ _ h).to_reflTransGen

theorem transGen_needs_iff (hmem : ∀ x, x ∈ ids ↔ Below lines root x) (ha : Below lines root a) :
    TransGen (dependencies lines ids).Needs a b ↔ TransGen (Waits lines) a b := by
  have hneeds : ∀ {x y}, Below lines root x → Waits lines x y →
      (dependencies lines ids).Needs x y :=
    fun hx hxy => needs_dependencies.mpr ⟨(hmem _).mpr hx, hxy⟩
  constructor
  · exact fun h => TransGen.mono (fun _ _ hxy => (needs_dependencies.mp hxy).2) _ _ h
  · intro h
    induction h with
    | single hab => exact .single (hneeds ha hab)
    | tail hab hbc ih => exact ih.tail (hneeds (below_of_waits ha hab) hbc)

theorem layers?_of_loop (hids : reachable lines root = .ok ids) (ha : Below lines root a)
    (hloop : TransGen (Waits lines) a a) : (dependencies lines ids).layers? = none := by
  obtain ⟨hmem, -, hnodup⟩ := mem_reachable hids
  have hneeds := (transGen_needs_iff hmem ha).mpr hloop
  rw [Option.eq_none_iff_forall_ne_some]
  intro layers hlayers
  obtain ⟨horder, hitems⟩ := Dependencies.inOrder_of_layers? (nodup_dependencies hnodup) hlayers
  obtain ⟨c, -, hca⟩ := TransGen.tail'_iff.mp hneeds
  have hmemLayers : a ∈ layers.flatten := (hitems a).mpr (.inr ⟨c, hca⟩)
  exact Cycle.not_transGen_self_of_acc (Dependencies.acc_of_inOrder horder (by simp) a hmemLayers)
    hneeds

theorem build_of_loop (hdefined : ∀ x, Below lines root x → (lines.lookup x).isSome)
    (ha : Below lines root a) (hloop : TransGen (Waits lines) a a) (s : Store) :
    build lines root s = .error .cyclicLines s := by
  obtain ⟨ids, hids⟩ := exists_reachable hdefined
  unfold build
  rw [bind_of_ok (observe_of_ok hids), layers?_of_loop hids ha hloop]
  rfl

theorem build_of_circular (hlines : ShortLines lines) (hroot : Numeral.Integer.Short root)
    (hdefined : ∀ x, Below lines root x → (lines.lookup x).isSome) (ha : Below lines root a)
    (hcircular : TransGen (Child lines) a a) (s : Store) :
    ∃ e s', build lines root s = .error e s' ∧
      (e.kind = .reference ↔ ∃ b, Below lines root b ∧ TransGen (Waits lines) b b) ∧
      (e.kind = .reference → e = .cyclicLines ∧ s' = s) ∧
      (e.kind ≠ .reference → e.kind = .configuration ∨
        ∃ b, Below lines root b ∧ Child lines b b ∧ e = .missingLine b) := by
  by_cases hloop : ∃ b, Below lines root b ∧ TransGen (Waits lines) b b
  · obtain ⟨b, hb, hwaits⟩ := hloop
    refine ⟨_, _, build_of_loop hdefined hb hwaits s, ⟨fun _ => ⟨b, hb, hwaits⟩, fun _ => rfl⟩,
      fun _ => ⟨rfl, rfl⟩, ?_⟩
    exact fun hkind => absurd rfl hkind
  · -- A line does not wait for itself, so what is left are cycles of a single line.
    cases hrun : build lines root s with
    | ok d s' => exact absurd hcircular ((sensible_of_build hrun).acyclic a ha)
    | error e s' =>
      have hother : e.kind ≠ .reference ∧ (e.kind = .configuration ∨
          ∃ b, Below lines root b ∧ Child lines b b ∧ e = .missingLine b) := by
        cases (flaw_of_build hlines hroot hrun).1 with
        | undefined below rule => exact absurd (hdefined _ below) (by simp [rule])
        | cyclic below loop => exact absurd ⟨_, below, loop⟩ hloop
        | itself below child => exact ⟨nofun, .inr ⟨_, below, child, rfl⟩⟩
        | repeated | reserved | equal => exact ⟨nofun, .inl rfl⟩
        | constant rule =>
          obtain ⟨b, hab, -⟩ := TransGen.head'_iff.mp hcircular
          exact absurd (eq_of_below_constant rule ha ▸ hab) (not_child_of_constant rule)
      exact ⟨e, s', rfl, ⟨fun hkind => absurd hkind hother.1, fun h => absurd h hloop⟩,
        fun hkind => absurd hkind hother.1, fun _ => hother.2⟩

theorem parse_of_build_error {bytes : Text.Bytes} {document : Document}
    (hread : ofBytes bytes = .ok document) (hroot : document.root = some root)
    (hbuild : build document.lines root s = .error e s') (file : String) :
    parse bytes file s = .error e s' := by
  rw [parse_of_read hread hroot, bind_of_error hbuild]

/-- A file that can be read, in which every line below the root line is defined and some of them
come back to themselves, is refused. A loop through several lines is told as a cyclic reference,
with nothing changed. If lines come back to themselves only by naming themselves, it is not: the
fault then is that such a line is missing, or one of configuration that is met first. -/
theorem parse_of_circular {bytes : Text.Bytes} {document : Document}
    (hread : ofBytes bytes = .ok document) (hroot : document.root = some root)
    (hdefined : ∀ x, Below document.lines root x → (document.lines.lookup x).isSome)
    (ha : Below document.lines root a) (hcircular : TransGen (Child document.lines) a a)
    (file : String) (s : Store) : ∃ e s', parse bytes file s = .error e s' ∧
      (e.kind = .reference ↔
        ∃ b, Below document.lines root b ∧
        TransGen (fun x y => y ≠ x ∧ Child document.lines x y) b b) ∧
      (e.kind = .reference → e = .cyclicLines ∧ s' = s) ∧
      (e.kind ≠ .reference → e.kind = .configuration ∨
        ∃ b, Below document.lines root b ∧ Child document.lines b b ∧ e = .missingLine b) := by
  obtain ⟨hlines, hshort⟩ := short_of_ofBytes hread
  obtain ⟨e, s', hrun, hkinds⟩ :=
    build_of_circular hlines (hshort root hroot) hdefined ha hcircular s
  exact ⟨e, s', parse_of_build_error hread hroot hrun file, hkinds⟩

theorem isSome_of_reachable (hids : reachable lines root = .ok ids) :
    ∀ x, Below lines root x → (lines.lookup x).isSome := by
  obtain ⟨hmem, hdefined, -⟩ := mem_reachable hids
  exact fun x hx => hdefined x ((hmem x).mpr hx)

def pairText : Text := "0:\tF 0\n3:\t2 2 0 0\n2:\t1 3 0 0\n".toList

def pairLines : Lines := [(0, .constant false), (3, .test 2 2 0), (2, .test 1 3 0)]

theorem parse_of_circular_pairText :
    ∃ s', parse (Text.encode pairText) "pair" {} = .error .cyclicLines s' := by
  have hread : ofBytes (Text.encode pairText) = .ok ⟨[], some 2, pairLines⟩ := by
    rw [ofBytes_encode]
    decide +kernel
  have hids : reachable pairLines 2 = .ok [0, 2, 3] := by cbv
  have hthere : Child pairLines 2 3 := (child_of_test rfl).mpr (.inl rfl)
  have hback : Child pairLines 3 2 := (child_of_test rfl).mpr (.inl rfl)
  obtain ⟨e, s', hrun, hkind, hreference, -⟩ :=
    parse_of_circular hread rfl (isSome_of_reachable hids) .refl
    (.tail (.single hthere) hback) "pair" {}
  obtain ⟨rfl, -⟩ := hreference (hkind.mpr
    ⟨2, .refl, .tail (.single ⟨by decide, hthere⟩) ⟨by decide, hback⟩⟩)
  exact ⟨s', hrun⟩

def selfText : Text := "0:\tF 0\n2:\t1 0 2 0\n".toList

def selfLines : Lines := [(0, .constant false), (2, .test 1 0 2)]

theorem ofBytes_selfText : ofBytes (Text.encode selfText) = .ok ⟨[], some 2, selfLines⟩ := by
  rw [ofBytes_encode]
  decide +kernel

theorem build_selfLines : ∃ s', build selfLines 2 {} = .error (.missingLine 2) s' := ⟨_, by cbv⟩

/-- A line that names itself is not told as a cyclic reference: it is said to be missing. -/
theorem parse_selfText :
    ∃ document, ofBytes (Text.encode selfText) = .ok document ∧ document.root = some 2 ∧
    (∀ x, Below document.lines 2 x → (document.lines.lookup x).isSome) ∧ Child document.lines 2 2 ∧
    ∃ s', parse (Text.encode selfText) "self" {} = .error (.missingLine 2) s' ∧
      (Fault.missingLine 2).kind ≠ .reference := by
  have hids : reachable selfLines 2 = .ok [0, 2] := by cbv
  obtain ⟨s', hbuild⟩ := build_selfLines
  exact ⟨_, ofBytes_selfText, rfl, isSome_of_reachable hids, (child_of_test rfl).mpr (.inr rfl), s',
    parse_of_build_error ofBytes_selfText rfl hbuild "self", by decide⟩

end DecisionDiagram.Document
