import DecisionDiagram.Proofs.MissingRootLine
import DecisionDiagram.Proofs.NumeralMargins
import DecisionDiagram.Text.Lines
import Mathlib
/-! The rows of a text, which are its lines that are not blank. Taking blanks off both ends of a
text takes them off the start of its first row and the end of its last. -/
namespace DecisionDiagram.Text

variable {p : Char → Bool} {t u ws row : Text} {rs : List Text}

theorem splitOnP_append_left (h : ∀ c ∈ ws, p c = false) (t : Text) :
    (ws ++ t).splitOnP p = (t.splitOnP p).modifyHead (ws ++ ·) := by
  induction ws with
  | nil => exact (List.modifyHead_id ▸ rfl)
  | cons c ws ih =>
    obtain ⟨hc, hws⟩ := List.forall_mem_cons.mp h
    rw [List.cons_append, List.splitOnP_cons_eq_if_modifyHead, if_neg (by simp [hc]), ih hws,
      List.modifyHead_modifyHead]
    rfl

theorem modifyLast_cons {α : Type} {f : α → α} {a : α} {l : List α} (h : l ≠ []) :
    (a :: l).modifyLast f = a :: l.modifyLast f :=
  List.modifyLast_append_of_right_ne_nil f [a] l h

theorem splitOnP_append_right (h : ∀ c ∈ ws, p c = false) (t : Text) :
    (t ++ ws).splitOnP p = (t.splitOnP p).modifyLast (· ++ ws) := by
  induction t with
  | nil => rw [List.nil_append, List.splitOnP_eq_singleton h, List.splitOnP_nil]; rfl
  | cons c t ih =>
    rw [List.cons_append, List.splitOnP_cons_eq_if_modifyHead, List.splitOnP_cons_eq_if_modifyHead,
      ih]
    obtain ⟨part, parts, hparts⟩ := List.exists_cons_of_ne_nil (List.splitOnP_ne_nil p t)
    rw [hparts]
    split
    · rw [modifyLast_cons (List.cons_ne_nil _ _)]
    · cases parts with
      | nil => rfl
      | cons part' parts =>
        rw [modifyLast_cons (List.cons_ne_nil _ _), List.modifyHead_cons, List.modifyHead_cons,
          modifyLast_cons (List.cons_ne_nil _ _)]

def rows (t : Text) : List Text := (lines t).filter fun l => !isBlankLine l

theorem not_blank_of_mem_rows (h : row ∈ rows t) : isBlankLine row = false := by
  simpa using (List.mem_filter.mp h).2

theorem rows_append_feed (t u : Text) : rows (t ++ '\n' :: u) = rows t ++ rows u := by
  rw [rows, lines, List.splitOnP_append_cons t u rfl, List.filter_append]
  rfl

theorem rows_nil : rows [] = [] := by decide

theorem rows_feed (t : Text) : rows ('\n' :: t) = rows t := rows_append_feed [] t

theorem rows_concat_feed (t : Text) : rows (t ++ ['\n']) = rows t := by
  rw [rows_append_feed, rows_nil, List.append_nil]

/-- Blanks that are taken off the start of a text are taken off the start of its first row. -/
theorem rows_dropWhile (t : Text) :
    rows (t.dropWhile isBlank) = (rows t).modifyHead (·.dropWhile isBlank) := by
  induction t with
  | nil => rfl
  | cons c t ih =>
    by_cases hfeed : c = '\n'
    · subst hfeed
      rw [List.dropWhile_cons_of_pos (by decide), rows_feed, ih]
    have hlines : lines (c :: t) = (lines t).modifyHead (c :: ·) :=
      @splitOnP_append_left _ [c] (by simpa using hfeed) t
    obtain ⟨line, rest, hline⟩ := List.exists_cons_of_ne_nil (List.splitOnP_ne_nil (· == '\n') t)
    change lines t = line :: rest at hline
    rw [hline, List.modifyHead_cons] at hlines
    cases hc : isBlank c with
    | false =>
      rw [List.dropWhile_cons_of_neg (by simp [hc]), rows, hlines,
        List.filter_cons_of_pos (by simp [isBlankLine, hc]),
        List.modifyHead_cons, List.dropWhile_cons_of_neg (by simp [hc])]
    | true =>
      rw [List.dropWhile_cons_of_pos hc, ih, rows, rows, hlines, hline]
      cases hblank : isBlankLine line with
      | true =>
        rw [List.filter_cons_of_neg (by simp [hblank]),
          List.filter_cons_of_neg (by simp_all [isBlankLine])]
      | false =>
        rw [List.filter_cons_of_pos (by simp [hblank]),
          List.filter_cons_of_pos (by simp_all [isBlankLine]),
          List.modifyHead_cons, List.modifyHead_cons, List.dropWhile_cons_of_pos hc]

theorem dropEnd_concat_of_pos {c : Char} (h : p c = true) : dropEnd p (t ++ [c]) = dropEnd p t :=
  dropEnd_append_right (by simpa using h)

theorem dropEnd_concat_of_neg {c : Char} (h : p c = false) : dropEnd p (t ++ [c]) = t ++ [c] := by
  simp [dropEnd, h]

theorem rows_dropEnd (t : Text) :
    rows (dropEnd isBlank t) = (rows t).modifyLast (dropEnd isBlank) := by
  induction t using List.reverseRecOn with
  | nil => rfl
  | append_singleton t c ih =>
    by_cases hfeed : c = '\n'
    · subst hfeed
      rw [dropEnd_concat_of_pos (by decide), rows_concat_feed, ih]
    have hlines : lines (t ++ [c]) = (lines t).modifyLast (· ++ [c]) :=
      splitOnP_append_right (by simpa using hfeed) t
    obtain ⟨front, line, hline⟩ : ∃ front line, lines t = front ++ [line] :=
      (List.eq_nil_or_concat' _).resolve_left (List.splitOnP_ne_nil (· == '\n') t)
    rw [hline, List.modifyLast_concat] at hlines
    cases hc : isBlank c with
    | false =>
      have hrow : isBlankLine (line ++ [c]) = false := by simp [isBlankLine, hc]
      rw [dropEnd_concat_of_neg hc, rows, hlines, List.filter_append,
        List.filter_cons_of_pos (by simp [hrow]),
        List.filter_nil, List.modifyLast_concat, dropEnd_concat_of_neg hc]
    | true =>
      have hrow : isBlankLine (line ++ [c]) = isBlankLine line := by simp [isBlankLine, hc]
      rw [dropEnd_concat_of_pos hc, ih, rows, rows, hlines, hline, List.filter_append,
        List.filter_append]
      cases hblank : isBlankLine line with
      | true => simp [hrow, hblank]
      | false =>
        simp only [hrow, hblank, List.filter_singleton, Bool.not_false, cond_true]
        rw [List.modifyLast_concat, List.modifyLast_concat, dropEnd_concat_of_pos hc]

theorem dropEnd_cons_of_neg {c : Char} (h : p c = false) :
    dropEnd p (c :: t) = c :: dropEnd p t := by
  rw [dropEnd, List.reverse_cons, List.dropWhile_append, dropEnd]
  split
  · rename_i hnil
    rw [List.isEmpty_iff.mp hnil, List.dropWhile_cons_of_neg (by simp [h])]
    rfl
  · simp

theorem dropEnd_append_left {c : Char} (h : p c = false) (ws : Text) :
    dropEnd p (ws ++ c :: t) = ws ++ c :: dropEnd p t := by
  have hsome : (t.reverse ++ [c]).dropWhile p ≠ [] := by simp [List.dropWhile_eq_nil_iff, h]
  have hrest : ((t.reverse ++ [c]).dropWhile p).reverse = c :: dropEnd p t := by
    rw [← dropEnd_cons_of_neg h, dropEnd, List.reverse_cons]
  rw [dropEnd, List.reverse_append, List.reverse_cons, List.dropWhile_append,
    if_neg (by simpa [List.isEmpty_iff] using hsome), List.reverse_append,
      List.reverse_reverse, hrest]

theorem exists_indent (h : isBlankLine row = false) :
    ∃ lead c rest, row = lead ++ c :: rest ∧ (∀ x ∈ lead, isBlank x = true) ∧
    isBlank c = false := by
  induction row with
  | nil => cases h
  | cons x row ih =>
    cases hx : isBlank x with
    | false => exact ⟨[], x, row, rfl, by simp, hx⟩
    | true =>
      obtain ⟨lead, c, rest, rfl, hlead, hc⟩ := ih (by simpa [isBlankLine, hx] using h)
      exact ⟨x :: lead, c, rest, rfl, List.forall_mem_cons.mpr ⟨hx, hlead⟩, hc⟩

theorem takeWhile_dropEnd (h : isBlankLine row = false) :
    (dropEnd isBlank row).takeWhile isBlank = row.takeWhile isBlank := by
  obtain ⟨lead, c, rest, rfl, hlead, hc⟩ := exists_indent h
  rw [dropEnd_append_left hc, List.takeWhile_append_of_pos hlead,
    List.takeWhile_append_of_pos hlead,
    List.takeWhile_cons_of_neg (by simp [hc]), List.takeWhile_cons_of_neg (by simp [hc])]

theorem takeWhile_reverse_dropWhile (h : isBlankLine row = false) :
    (row.dropWhile isBlank).reverse.takeWhile isBlank = row.reverse.takeWhile isBlank := by
  have hreverse : isBlankLine row.reverse = false := by rwa [isBlankLine, List.all_reverse]
  simpa [dropEnd] using takeWhile_dropEnd hreverse

theorem dropEnd_dropWhile (h : isBlankLine row = false) :
    dropEnd isBlank (row.dropWhile isBlank) = (dropEnd isBlank row).dropWhile isBlank := by
  obtain ⟨lead, c, rest, rfl, hlead, hc⟩ := exists_indent h
  rw [dropEnd_append_left hc, List.dropWhile_append_of_pos hlead,
    List.dropWhile_append_of_pos hlead,
    List.dropWhile_cons_of_neg (by simp [hc]), List.dropWhile_cons_of_neg (by simp [hc]),
      dropEnd_cons_of_neg hc]

/-- What is left of rows if blanks are taken off before the first and after the last. -/
def stripEnds (rs : List Text) : List Text :=
  (rs.modifyHead (·.dropWhile isBlank)).modifyLast (dropEnd isBlank)

theorem rows_strip (t : Text) : rows (strip t) = stripEnds (rows t) := by
  rw [strip, trim, rows_dropEnd, rows_dropWhile, stripEnds]

theorem stripEnds_eq (h : ∀ row ∈ rs, isBlankLine row = false) :
    stripEnds rs = (rs.modifyLast (dropEnd isBlank)).modifyHead (·.dropWhile isBlank) := by
  cases rs with
  | nil => rfl
  | cons row rs =>
    cases rs with
    | nil => exact congrArg (fun r => [r]) (dropEnd_dropWhile (h row List.mem_cons_self))
    | cons row' rs =>
      rw [stripEnds, List.modifyHead_cons, modifyLast_cons (List.cons_ne_nil _ _),
        modifyLast_cons (List.cons_ne_nil _ _), List.modifyHead_cons]

theorem stripEnds_append (hrs : rs ≠ []) {rs' : List Text} (hrs' : rs' ≠ []) :
    stripEnds (rs ++ rs') = rs.modifyHead (·.dropWhile isBlank) ++ rs'.modifyLast
      (dropEnd isBlank) := by
  obtain ⟨row, rest, rfl⟩ := List.exists_cons_of_ne_nil hrs
  rw [stripEnds, List.cons_append, List.modifyHead_cons, List.modifyHead_cons, ← List.cons_append,
    List.modifyLast_append_of_right_ne_nil _ _ _ hrs']

theorem rows_unify_append_feed (t u : Text) : rows (unifyLineEnds (t ++ '\n' :: u)) =
    rows (unifyLineEnds t) ++ rows (unifyLineEnds u) := by
  obtain ⟨x, hx, hu⟩ := unifyLineEnds_append_feed t
  rw [hu, rows_append_feed]
  rcases hx with hx | hx
  · rw [hx]
  · rw [hx, rows_concat_feed]

end DecisionDiagram.Text
