import DecisionDiagram.Proofs.ReadWrittenLines
/-! Reading without a root line. The root line only says which node line is that of the root: where
that is the last one anyway, the root line can be left out. -/
namespace DecisionDiagram
open Numeral

namespace Text

variable {t u : Text}

theorem unifyLineEnds_append_feed (t : Text) :
    ∃ x, (unifyLineEnds t = x ∨ unifyLineEnds t = x ++ ['\n']) ∧
    ∀ u, unifyLineEnds (t ++ '\n' :: u) = x ++ '\n' :: unifyLineEnds u := by
  induction t using unifyLineEnds.induct with
  | case1 t ih =>
    obtain ⟨x, hx, hu⟩ := ih
    refine ⟨'\n' :: x, ?_, fun u => congrArg ('\n' :: ·) (hu u)⟩
    rw [unifyLineEnds]
    exact hx.imp (congrArg ('\n' :: ·)) (congrArg ('\n' :: ·))
  | case2 t hpair ih =>
    cases t with
    | nil => exact ⟨[], .inr rfl, fun u => rfl⟩
    | cons c t =>
      obtain ⟨x, hx, hu⟩ := ih
      refine ⟨'\n' :: x, ?_, fun u => ?_⟩
      · rw [unifyLineEnds]
        · exact hx.imp (congrArg ('\n' :: ·)) (congrArg ('\n' :: ·))
        · exact hpair
      · rw [List.cons_append, unifyLineEnds, hu u]
        · rfl
        · rintro v hv
          exact hpair t (by simp_all)
  | case3 c t hpair hreturn ih =>
    obtain ⟨x, hx, hu⟩ := ih
    refine ⟨c :: x, ?_, fun u => ?_⟩
    · rw [unifyLineEnds]
      · exact hx.imp (congrArg (c :: ·)) (congrArg (c :: ·))
      · exact hpair
      · exact hreturn
    · rw [List.cons_append, unifyLineEnds, hu u]
      · rfl
      · exact fun _ hc _ => hreturn hc
      · exact hreturn
  | case4 => exact ⟨[], .inl rfl, fun u => rfl⟩

theorem lines_append_feed (t : Text) : ∃ ls, ls <+: lines (unifyLineEnds t) ∧
    ∀ u, lines (unifyLineEnds (t ++ '\n' :: u)) = ls ++ lines (unifyLineEnds u) := by
  have hsplit : ∀ a b : Text, lines (a ++ '\n' :: b) = lines a ++ lines b := fun a b =>
    List.splitOnP_append_cons a b rfl
  obtain ⟨x, hx, hu⟩ := unifyLineEnds_append_feed t
  refine ⟨lines x, ?_, fun u => by rw [hu, hsplit]⟩
  rcases hx with rfl | hx
  · exact List.prefix_rfl
  · rw [hx, hsplit]
    exact List.prefix_append _ _

end Text

namespace Document

variable {root : Int} {entries : List (Int × Rule)} {draft draft' : Draft} {line : Text}
variable {order ls : List Text}

namespace Draft

theorem root_enter (h : draft.enter line = .ok draft')
    (hline : rootHeading.isPrefixOf line = false) : draft'.document.root = draft.document.root := by
  unfold enter at h
  simp only [hline, Bool.false_eq_true, ↓reduceIte] at h
  split at h
  · obtain rfl := Except.ok.inj h
    rfl
  · split at h
    · obtain rfl := Except.ok.inj h
      rfl
    · split at h
      · obtain rfl := Except.ok.inj h
        rfl
      · cases hread : readLine (Text.words line) with
        | error e =>
          rw [hread] at h
          cases h
        | ok l =>
          rw [hread] at h
          obtain rfl := Except.ok.inj h
          rfl

theorem root_foldlM_enter (h : ls.foldlM enter draft = .ok draft')
    (hls : ∀ l ∈ ls, rootHeading.isPrefixOf l = false) :
    draft'.document.root = draft.document.root := by
  induction ls generalizing draft with
  | nil =>
    obtain rfl := Except.ok.inj h
    rfl
  | cons l ls ih =>
    obtain ⟨hl, hrest⟩ := List.forall_mem_cons.mp hls
    rw [List.foldlM_cons] at h
    cases hstep : draft.enter l with
    | error e =>
      rw [hstep] at h
      cases h
    | ok next =>
      rw [hstep] at h
      exact (ih h hrest).trans (root_enter hstep hl)

end Draft

/-- If the last node line is that of the root, then a root line before the node lines makes no
difference. -/
theorem read_root (hls : ∀ l ∈ ls, rootHeading.isPrefixOf l = false)
    (hshort : ∀ e ∈ entries, Integer.Short e.1 ∧ e.2.Short)
    (hlast : entries.getLast?.map (·.1) = some root) (hroot : Integer.Short root) :
    read (ls ++ (entries.map fun e => ruleLine e.1 e.2) ++ [[]]) =
      read (ls ++ (rootHeading ++ ' ' :: Integer.render root) :: (entries.map fun e =>
        ruleLine e.1 e.2) ++ [[]]) := by
  unfold read
  simp only [List.append_assoc, List.foldlM_append]
  cases hrun : ls.foldlM Draft.enter {} with
  | error e => rfl
  | ok draft =>
    have hnone : draft.document.root = none := Draft.root_foldlM_enter hrun hls
    simp only [ok_bind, List.foldlM_cons, Draft.enter_root hroot,
      Draft.foldlM_enter_ruleLine _ hshort, Draft.enter_blank, hlast]
    change Except.ok _ = Except.ok _
    simp [Draft.finish, hnone]

def topText (order : List Text) (size : Int) : Text :=
  orderHeading ++ order.flatMap (' ' :: ·) ++
    '\n' :: sizeHeading ++ ' ' :: Integer.render size ++ ['\n']

theorem getLast?_topText (order : List Text) (size : Int) :
    (topText order size).getLast? = some '\n' :=
  List.getLast?_concat

def rootText (root : Int) : Text := rootHeading ++ ' ' :: Integer.render root ++ ['\n']

theorem headingText_eq_append (order : List Text) (size root : Int) :
    headingText order size root = topText order size ++ rootText root := by
  simp [headingText, topText, rootText]

/-- The text has no root line. -/
def Rootless (t : Text) : Prop :=
  ∀ l ∈ Text.lines (Text.unifyLineEnds t), rootHeading.isPrefixOf l = false

theorem rootless_of_inline (horder : ∀ w ∈ order, Text.Inline w) :
    Rootless (orderHeading ++ order.flatMap (' ' :: ·)) := by
  intro l hl
  rw [(inline_orderLine horder).lines_eq] at hl
  obtain rfl := List.mem_singleton.mp hl
  rfl

/-- The lines of a text that starts with an order and a size. The order can have several lines, as
its texts may have line ends. -/
theorem lines_topText (horder : Rootless (orderHeading ++ order.flatMap (' ' :: ·))) (size : Int) :
    ∃ ls, (∀ l ∈ ls, rootHeading.isPrefixOf l = false) ∧ ∀ rest, (∀ l ∈ rest, Text.Inline l) →
      Text.lines (Text.unifyLineEnds (topText order size ++ rest.flatMap (· ++ ['\n']))) = ls ++
        rest ++ [[]] := by
  obtain ⟨ls, hearlier, hlines⟩ := Text.lines_append_feed (orderHeading ++ order.flatMap (' ' :: ·))
  refine ⟨ls ++ [sizeHeading ++ ' ' :: Integer.render size], fun l hl => ?_, fun rest hrest => ?_⟩
  · rcases List.mem_append.mp hl with hl | hl
    · exact horder l (hearlier.subset hl)
    · obtain rfl := List.mem_singleton.mp hl
      rfl
  · have htext : topText order size ++ rest.flatMap (· ++ ['\n']) =
        orderHeading ++ order.flatMap (' ' :: ·) ++
          '\n' :: ((sizeHeading ++ ' ' :: Integer.render size) :: rest).flatMap (· ++ ['\n']) := by
      simp [topText]
    rw [htext, hlines, Text.lines_unlines (List.forall_mem_cons.mpr ⟨inline_sizeLine size, hrest⟩)]
    simp

theorem flatMap_ruleText (entries : List (Int × Rule)) :
    (entries.flatMap fun e => ruleText e.1 e.2) =
    (entries.map fun e => ruleLine e.1 e.2).flatMap (· ++ ['\n']) := by
  simp only [ruleText_eq, List.flatMap_map]

theorem rootless_topText (horder : Rootless (orderHeading ++ order.flatMap (' ' :: ·))) (size : Int)
    (entries : List (Int × Rule)) :
    Rootless (topText order size ++ entries.flatMap fun e => ruleText e.1 e.2) := by
  obtain ⟨ls, hrootless, hlines⟩ := lines_topText horder size
  intro l hl
  rw [flatMap_ruleText, hlines _ (inline_ruleLines entries), List.mem_append, List.mem_append] at hl
  rcases hl with (hl | hl) | hl
  · exact hrootless l hl
  · obtain ⟨e, -, rfl⟩ := List.mem_map.mp hl
    exact isPrefixOf_ruleLine (by decide)
  · obtain rfl := List.mem_singleton.mp hl
    rfl

/-- A text that ends with the node line of the root is read in the same way without its root line.
-/
theorem ofText_topText (horder : Rootless (orderHeading ++ order.flatMap (' ' :: ·))) (size : Int)
    (hshort : ∀ e ∈ entries, Integer.Short e.1 ∧ e.2.Short)
    (hlast : entries.getLast?.map (·.1) = some root) (hroot : Integer.Short root) :
    ofText (topText order size ++ entries.flatMap fun e => ruleText e.1 e.2) =
      ofText (topText order size ++ rootText root ++ entries.flatMap fun e =>
        ruleText e.1 e.2) := by
  obtain ⟨ls, hrootless, hlines⟩ := lines_topText horder size
  have hwithout := hlines _ (inline_ruleLines entries)
  have hwith := hlines _ (List.forall_mem_cons.mpr ⟨inline_rootLine root, inline_ruleLines entries⟩)
  have hsplit : topText order size ++ rootText
    root ++ (entries.map fun e => ruleLine e.1 e.2).flatMap (· ++ ['\n']) =
      topText order size ++ ((rootHeading ++ ' ' :: Integer.render root) ::
        entries.map fun e => ruleLine e.1 e.2).flatMap (· ++ ['\n']) := by simp [rootText]
  rw [flatMap_ruleText, hsplit, ofText, ofText, hwithout, hwith]
  exact read_root hrootless hshort hlast hroot

end Document

end DecisionDiagram
