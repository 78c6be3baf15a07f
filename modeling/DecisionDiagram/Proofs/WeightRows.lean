import DecisionDiagram.Proofs.TextRows
import DecisionDiagram.Proofs.Utf8RoundTrip
import Mathlib
/-! Weight files row by row. A file says what its rows say, one after the other: that the whole text
is stripped before it is cut into lines matters for the separators at its two ends only. -/
namespace DecisionDiagram

section Entries

variable {κ α : Type} [DecidableEq κ] {k q : κ} {a b : α} {es entries table : List (κ × α)}

def enterAll (table entries : List (κ × α)) : List (κ × α) :=
  entries.foldl (fun table e => upsert e.1 e.2 table) table

theorem enterAll_concat (table entries : List (κ × α)) (e : κ × α) :
    enterAll table (entries ++ [e]) = upsert e.1 e.2 (enterAll table entries) := by
  rw [enterAll, List.foldl_append]
  rfl

theorem lookup_enterAll (table entries : List (κ × α)) (q : κ) :
    (enterAll table entries).lookup q = (entries.reverse.lookup q).or (table.lookup q) := by
  induction entries using List.reverseRecOn with
  | nil => rfl
  | append_singleton entries e ih =>
    rw [enterAll_concat, lookup_upsert, ih, List.reverse_append, List.reverse_singleton,
      List.singleton_append, lookup_cons_eq_ite]
    split <;> rfl

theorem keys_enterAll (entries : List (κ × α)) :
    (enterAll [] entries).map (·.1) = (entries.map (·.1)).eraseDups := by
  induction entries using List.reverseRecOn with
  | nil => rfl
  | append_singleton entries e ih =>
    rw [enterAll_concat, keys_upsert, ih, List.map_append, List.eraseDups_append]
    simp only [List.mem_eraseDups, List.map_cons, List.map_nil, List.removeAll,
      List.filter_singleton]
    by_cases he : e.1 ∈ entries.map (·.1) <;> simp [he, List.eraseDups_cons]

theorem mem_keys_upsert : k ∈ (upsert k a es).map (·.1) := by
  rw [keys_upsert]
  split
  · assumption
  · simp

theorem nodup_keys_enterAll (entries : List (κ × α)) : ((enterAll [] entries).map (·.1)).Nodup := by
  induction entries using List.reverseRecOn with
  | nil => exact List.nodup_nil
  | append_singleton entries e ih =>
    rw [enterAll_concat, keys_upsert]
    split
    · exact ih
    · rw [← List.concat_eq_append]
      exact ih.concat ‹_›

theorem upsert_upsert_self : upsert k b (upsert k a es) = upsert k b es := by
  induction es with
  | nil => simp [upsert]
  | cons e es ih =>
    by_cases he : e.1 = k
    · simp [upsert, he]
    · simp [upsert, he, ih]

theorem upsert_comm (hk : k ∈ es.map (·.1)) (hne : q ≠ k) :
    upsert q b (upsert k a es) = upsert k a (upsert q b es) := by
  induction es with
  | nil => cases hk
  | cons e es ih =>
    by_cases hek : e.1 = k
    · simp [upsert, hek, hne.symm]
    · have hmem : k ∈ es.map (·.1) := by simpa [Ne.symm hek] using hk
      by_cases heq : e.1 = q
      · simp [upsert, heq, hne]
      · simp [upsert, heq, hek, ih hmem]

theorem enterAll_upsert_comm (hk : k ∈ table.map (·.1)) (hnew : k ∉ entries.map (·.1)) :
    enterAll (upsert k a table) entries = upsert k a (enterAll table entries) := by
  induction entries generalizing table with
  | nil => rfl
  | cons e entries ih =>
    obtain ⟨hne, hrest⟩ : k ≠ e.1 ∧ k ∉ entries.map (·.1) := by simpa using hnew
    have hmem : k ∈ (upsert e.1 e.2 table).map (·.1) := by
      rw [keys_upsert]
      split <;> simp [hk]
    change enterAll (upsert e.1 e.2 (upsert k a table)) entries = upsert k a
      (enterAll (upsert e.1 e.2 table) entries)
    rw [upsert_comm hk hne.symm, ih hmem hrest]

theorem enterAll_upsert (hnodup : (entries.map (·.1)).Nodup) :
    enterAll table (upsert k a entries) = upsert k a (enterAll table entries) := by
  induction entries generalizing table with
  | nil => rfl
  | cons e entries ih =>
    obtain ⟨hnew, hrest⟩ := List.nodup_cons.mp hnodup
    by_cases he : e.1 = k
    · subst he
      rw [upsert, if_pos rfl]
      change enterAll (upsert e.1 a table) entries = upsert e.1 a
        (enterAll (upsert e.1 e.2 table) entries)
      rw [← enterAll_upsert_comm mem_keys_upsert hnew, upsert_upsert_self]
    · rw [upsert, if_neg he]
      exact ih hrest

/-- A table that is entered into another one says the same there as what it was made of. -/
theorem enterAll_enterAll (table entries : List (κ × α)) :
    enterAll table (enterAll [] entries) = enterAll table entries := by
  induction entries using List.reverseRecOn with
  | nil => rfl
  | append_singleton entries e ih =>
    rw [enterAll_concat, enterAll_upsert (nodup_keys_enterAll entries), ih, enterAll_concat]

end Entries

namespace WeightTable
open Numeral Text

variable {file : String} {t row ws : Text} {rs : List Text} {e : Int × Binary64} {table : Table}
variable {entries : List (Int × Binary64)}

theorem ne_comma_of_isMargin (h : ∀ c ∈ ws, isMargin c = true) : ∀ c ∈ ws, (c == ',') = false := by
  intro c hc
  rw [beq_eq_false_iff_ne]
  rintro rfl
  exact absurd (h _ hc) (by decide)

theorem readEntry?_append_left (h : ∀ c ∈ ws, isMargin c = true) (row : Text) :
    readEntry? (ws ++ row) = readEntry? row := by
  unfold readEntry?
  rw [splitOnP_append_left (ne_comma_of_isMargin h)]
  rcases row.splitOnP (· == ',') with _ | ⟨v, _ | ⟨w, _ | ⟨x, rest⟩⟩⟩
  · rfl
  · rfl
  · simp only [List.modifyHead_cons, Integer.read?_congr (normalize?_append_left h)]
  · rfl

theorem readEntry?_append_right (h : ∀ c ∈ ws, isMargin c = true) (row : Text) :
    readEntry? (row ++ ws) = readEntry? row := by
  unfold readEntry?
  rw [splitOnP_append_right (ne_comma_of_isMargin h)]
  rcases row.splitOnP (· == ',') with _ | ⟨v, _ | ⟨w, _ | ⟨x, rest⟩⟩⟩
  · rfl
  · rfl
  · have hlast : [v, w].modifyLast (· ++ ws) = [v, w ++ ws] := rfl
    simp only [hlast, Real.read?_congr (normalize?_append_right h)]
  · obtain ⟨y, rest', hlast⟩ : ∃ y rest', (x :: rest).modifyLast (· ++ ws) = y :: rest' := by
      obtain ⟨front, last, heq⟩ :=
        (List.eq_nil_or_concat' (x :: rest)).resolve_left (List.cons_ne_nil _ _)
      rw [heq, List.modifyLast_concat]
      exact List.exists_cons_of_ne_nil (by simp)
    rw [modifyLast_cons (List.cons_ne_nil _ _), modifyLast_cons (List.cons_ne_nil _ _), hlast]

theorem plain_of_readEntry? (h : readEntry? row = some e) : Plain row := by
  unfold readEntry? at h
  split at h
  · rename_i v w hfields
    obtain ⟨i, hi, h⟩ := Option.bind_eq_some_iff.mp h
    obtain ⟨x, hx, -⟩ := Option.bind_eq_some_iff.mp h
    have hrow : row = v ++ ',' :: w := by
      have hjoin : [','].intercalate (row.splitOn ',') = row := List.intercalate_splitOn ','
      rw [List.splitOn_eq_splitOnP, hfields] at hjoin
      simpa [List.intercalate] using hjoin.symm
    rw [hrow]
    exact plain_append.mpr
      ⟨Integer.plain_of_read? hi, plain_cons (by decide) (Real.plain_of_read? hx)⟩
  · cases h

theorem readEntry?_dropWhile (h : Plain (row.takeWhile isBlank)) :
    readEntry? (row.dropWhile isBlank) = readEntry? row := by
  have hmargin : ∀ c ∈ row.takeWhile isBlank, isMargin c = true := fun c hc =>
    isMargin_of_isBlank (List.mem_takeWhile_imp hc) (h c hc)
  rw [← readEntry?_append_left hmargin, List.takeWhile_append_dropWhile]

theorem readEntry?_dropEnd (h : Plain (row.reverse.takeWhile isBlank)) :
    readEntry? (dropEnd isBlank row) = readEntry? row := by
  have hmargin : ∀ c ∈ (row.reverse.takeWhile isBlank).reverse, isMargin c = true := fun c hc =>
    isMargin_of_isBlank (List.mem_takeWhile_imp (List.mem_reverse.mp hc))
      (h c (List.mem_reverse.mp hc))
  rw [← readEntry?_append_right hmargin, dropEnd, ← List.reverse_append,
    List.takeWhile_append_dropWhile, List.reverse_reverse]

theorem readEntry?_eq_some_iff_start : readEntry? row = some e ↔
    readEntry? (row.dropWhile isBlank) = some e ∧ Plain (row.takeWhile isBlank) := by
  constructor
  · intro h
    have hplain : Plain (row.takeWhile isBlank) := fun c hc =>
      plain_of_readEntry? h c ((List.takeWhile_prefix _).subset hc)
    exact ⟨(readEntry?_dropWhile hplain).trans h, hplain⟩
  · rintro ⟨h, hplain⟩
    exact (readEntry?_dropWhile hplain).symm.trans h

theorem readEntry?_eq_some_iff_end : readEntry? row = some e ↔
    readEntry? (dropEnd isBlank row) = some e ∧ Plain (row.reverse.takeWhile isBlank) := by
  constructor
  · intro h
    have hplain : Plain (row.reverse.takeWhile isBlank) := fun c hc =>
      plain_of_readEntry? h c (List.mem_reverse.mp ((List.takeWhile_prefix _).subset hc))
    exact ⟨(readEntry?_dropEnd hplain).trans h, hplain⟩
  · rintro ⟨h, hplain⟩
    exact (readEntry?_dropEnd hplain).symm.trans h

theorem mapM_readEntry?_start : rs.mapM readEntry? = some entries ↔
    (rs.modifyHead (·.dropWhile isBlank)).mapM readEntry? = some entries ∧
      ∀ row ∈ rs.head?, Plain (row.takeWhile isBlank) := by
  cases rs with
  | nil => simp
  | cons row rs =>
    have hrow : ∀ e, readEntry? row = some e ↔ _ := fun _ => readEntry?_eq_some_iff_start
    simp only [List.modifyHead_cons, List.mapM_cons, Option.bind_eq_bind,
      Option.bind_eq_some_iff, hrow, List.head?_cons, Option.mem_some_iff, forall_eq']
    grind

theorem mapM_readEntry?_end : rs.mapM readEntry? = some entries ↔
    (rs.modifyLast (dropEnd isBlank)).mapM readEntry? = some entries ∧
      ∀ row ∈ rs.getLast?, Plain (row.reverse.takeWhile isBlank) := by
  rcases List.eq_nil_or_concat' rs with rfl | ⟨front, row, rfl⟩
  · simp [List.modifyLast, List.modifyLast.go]
  · have hrow : ∀ e, readEntry? row = some e ↔ _ := fun _ => readEntry?_eq_some_iff_end
    simp only [List.modifyLast_concat, List.mapM_append, List.mapM_cons, List.mapM_nil,
      Option.bind_eq_bind,
      Option.bind_eq_some_iff, hrow, List.getLast?_concat, Option.mem_some_iff, forall_eq']
    grind

theorem enter_row (h : isBlankLine row = false) (table : Table) : enter file table row =
    match readEntry? row with
    | some e => .ok (upsert e.1 e.2 table)
    | none => .error (.malformedWeight (strip row) file) := by
  rw [enter, h]
  cases readEntry? row <;> rfl

theorem foldlM_enter_cases (file : String) (h : ∀ row ∈ rs, isBlankLine row = false) :
    (∃ entries, rs.mapM readEntry? = some entries ∧
      ∀ table, rs.foldlM (enter file) table = .ok (enterAll table entries)) ∨
    ∃ front row back, rs = front ++ row :: back ∧ (∀ r ∈ front, readEntry? r ≠ none) ∧
    readEntry? row = none ∧
      rs.mapM readEntry? = none ∧
      ∀ table, rs.foldlM (enter file) table = .error (.malformedWeight (strip row) file) := by
  -- For every table, since the rows before a bad one have been entered by the time it is read.
  induction rs with
  | nil => exact .inl ⟨[], rfl, fun table => rfl⟩
  | cons row rs ih =>
    obtain ⟨hrow, hrest⟩ := List.forall_mem_cons.mp h
    cases hentry : readEntry? row with
    | none =>
      refine .inr ⟨[], row, rs, rfl, by simp, hentry, by simp [hentry], fun table => ?_⟩
      rw [List.foldlM_cons, enter_row hrow, hentry]
      rfl
    | some e =>
      have hstep : ∀ table, (row :: rs).foldlM (enter file) table = rs.foldlM (enter file)
          (upsert e.1 e.2 table) := by
        intro table
        rw [List.foldlM_cons, enter_row hrow, hentry]
        rfl
      rcases ih hrest with ⟨entries, hmap, hfold⟩ | ⟨front, bad, back, rfl, hfront, hbad,
        hmap, hfold⟩
      · exact .inl
          ⟨e :: entries, by simp [hentry, hmap], fun table => (hstep table).trans (hfold _)⟩
      · refine .inr ⟨row :: front, bad, back, rfl,
          List.forall_mem_cons.mpr ⟨by simp [hentry], hfront⟩, hbad, ?_,
          fun table => (hstep table).trans (hfold _)⟩
        rw [List.mapM_cons, hmap]
        simp [hentry]

theorem foldlM_enter_lines (file : String) (table : Table) (t : Text) :
    (lines t).foldlM (enter file) table = (rows t).foldlM (enter file) table := by
  rw [rows]
  induction lines t generalizing table with
  | nil => rfl
  | cons line rest ih =>
    cases hblank : isBlankLine line with
    | true =>
      rw [List.filter_cons_of_neg (by simp [hblank]), List.foldlM_cons, enter, if_pos hblank]
      exact ih table
    | false =>
      rw [List.filter_cons_of_pos (by simp [hblank]), List.foldlM_cons, List.foldlM_cons]
      exact congrArg _ (funext ih)

def fileRows (t : Text) : List Text := rows (unifyLineEnds t)

theorem not_blank_of_mem_fileRows (h : row ∈ fileRows t) : isBlankLine row = false :=
  not_blank_of_mem_rows h

theorem not_blank_of_mem_stripEnds (t : Text) :
    ∀ row ∈ stripEnds (fileRows t), isBlankLine row = false := by
  intro row h
  rw [fileRows, ← rows_strip] at h
  exact not_blank_of_mem_rows h

theorem ofBytes_encode (file : String) (t : Text) :
    ofBytes file (encode t) = (stripEnds (fileRows t)).foldlM (enter file) [] := by
  have hdecode : decodeAll (encode t) = .ok t := by rw [decodeAll, decode_encode]
  rw [ofBytes, hdecode]
  change (lines (strip (unifyLineEnds t))).foldlM (enter file) [] = _
  rw [foldlM_enter_lines, rows_strip, fileRows]

theorem ofBytes_eq_ok_iff : ofBytes file (encode t) = .ok table ↔
    ∃ entries, (stripEnds (fileRows t)).mapM readEntry? = some entries ∧
    table = enterAll [] entries := by
  rw [ofBytes_encode]
  rcases foldlM_enter_cases file (not_blank_of_mem_stripEnds t) with
    ⟨entries, hmap, hfold⟩ | ⟨front, row, back, -, -, -, hmap, hfold⟩
  · rw [hmap, hfold]
    constructor
    · intro h
      exact ⟨entries, rfl, (Except.ok.inj h).symm⟩
    · rintro ⟨_, hentries, rfl⟩
      rw [Option.some.inj hentries]
  · rw [hmap, hfold]
    simp

/-- Where the last of some rows and the first of others come together, there is no separator among
the blanks. -/
def Joins (rs rs' : List Text) : Prop := rs = [] ∨ rs' = [] ∨
  (∀ row ∈ rs.getLast?, Plain (row.reverse.takeWhile isBlank)) ∧
    ∀ row ∈ rs'.head?, Plain (row.takeWhile isBlank)

instance {rs' : List Text} : Decidable (Joins rs rs') :=
  inferInstanceAs (Decidable (rs = [] ∨ rs' = [] ∨
    (∀ row ∈ rs.getLast?, Plain (row.reverse.takeWhile isBlank)) ∧
      ∀ row ∈ rs'.head?, Plain (row.takeWhile isBlank)))

theorem getLast?_modifyHead (h : ∀ row ∈ rs, isBlankLine row = false) :
    (∀ row ∈ (rs.modifyHead (·.dropWhile isBlank)).getLast?,
      Plain (row.reverse.takeWhile isBlank)) ↔
      ∀ row ∈ rs.getLast?, Plain (row.reverse.takeWhile isBlank) := by
  cases rs with
  | nil => rfl
  | cons row rs =>
    cases rs with
    | nil => simp [takeWhile_reverse_dropWhile (h row List.mem_cons_self)]
    | cons row' rs => simp [List.getLast?_cons_cons]

theorem head?_modifyLast (h : ∀ row ∈ rs, isBlankLine row = false) :
    (∀ row ∈ (rs.modifyLast (dropEnd isBlank)).head?, Plain (row.takeWhile isBlank)) ↔
      ∀ row ∈ rs.head?, Plain (row.takeWhile isBlank) := by
  cases rs with
  | nil => rfl
  | cons row rs =>
    cases rs with
    | nil =>
      have hlast : [row].modifyLast (dropEnd isBlank) = [dropEnd isBlank row] := rfl
      simp [hlast, takeWhile_dropEnd (h row List.mem_cons_self)]
    | cons row' rs => rw [modifyLast_cons (List.cons_ne_nil _ _), List.head?_cons, List.head?_cons]

theorem mapM_readEntry?_append {rs' : List Text} (hrs : ∀ row ∈ rs, isBlankLine row = false)
    (hrs' : ∀ row ∈ rs', isBlankLine row = false) :
    (stripEnds (rs ++ rs')).mapM readEntry? = some entries ↔
      ∃ as bs, (stripEnds rs).mapM readEntry? = some as ∧
      (stripEnds rs').mapM readEntry? = some bs ∧
        Joins rs rs' ∧ entries = as ++ bs := by
  have hnil : (stripEnds []).mapM readEntry? = some [] := rfl
  by_cases hne : rs = []
  · subst hne
    simp [hnil, Joins]
  by_cases hne' : rs' = []
  · subst hne'
    simp [hnil, Joins]
  have hjoins : Joins rs rs' ↔ (∀ row ∈ rs.getLast?, Plain (row.reverse.takeWhile isBlank)) ∧
      ∀ row ∈ rs'.head?, Plain (row.takeWhile isBlank) := by
    simp only [Joins, hne, hne', false_or]
  have hfirst : ∀ as, (rs.modifyHead (·.dropWhile isBlank)).mapM readEntry? = some as ↔
      (stripEnds rs).mapM readEntry? = some as ∧
          ∀ row ∈ rs.getLast?, Plain (row.reverse.takeWhile isBlank) := by
    intro as
    rw [mapM_readEntry?_end, getLast?_modifyHead hrs, stripEnds]
  have hsecond : ∀ bs, (rs'.modifyLast (dropEnd isBlank)).mapM readEntry? = some bs ↔
      (stripEnds rs').mapM readEntry? = some bs ∧
          ∀ row ∈ rs'.head?, Plain (row.takeWhile isBlank) := by
    intro bs
    rw [mapM_readEntry?_start, head?_modifyLast hrs', stripEnds_eq hrs']
  rw [stripEnds_append hne hne', List.mapM_append]
  simp only [Option.bind_eq_bind, Option.bind_eq_some_iff, hfirst, hsecond, hjoins, pure,
    Option.some.injEq]
  grind

theorem ofBytes_append_feed_eq_ok_iff {u : Text} :
    ofBytes file (encode (t ++ '\n' :: u)) = .ok table ↔
    ∃ a b, ofBytes file (encode t) = .ok a ∧ ofBytes file (encode u) = .ok b ∧
      Joins (fileRows t) (fileRows u) ∧ table = enterAll a b := by
  have hrows : fileRows (t ++ '\n' :: u) = fileRows t ++ fileRows u := rows_unify_append_feed t u
  have htables : ∀ as bs : List (Int × Binary64),
      enterAll (enterAll [] as) (enterAll [] bs) = enterAll [] (as ++ bs) := by
    intro as bs
    rw [enterAll_enterAll, enterAll, enterAll, enterAll, List.foldl_append]
  simp only [ofBytes_eq_ok_iff, hrows,
    mapM_readEntry?_append (fun _ => not_blank_of_mem_fileRows)
      (fun _ => not_blank_of_mem_fileRows)]
  constructor
  · rintro ⟨entries, ⟨as, bs, has, hbs, hjoins, rfl⟩, rfl⟩
    exact ⟨_, _, ⟨as, has, rfl⟩, ⟨bs, hbs, rfl⟩, hjoins, (htables as bs).symm⟩
  · rintro ⟨_, _, ⟨as, has, rfl⟩, ⟨bs, hbs, rfl⟩, hjoins, rfl⟩
    exact ⟨as ++ bs, ⟨as, bs, has, hbs, hjoins, rfl⟩, htables as bs⟩

theorem map_strip_stripEnds (rs : List Text) : (stripEnds rs).map strip = rs.map strip := by
  have hstart : ∀ row, strip (row.dropWhile isBlank) = strip row := fun row => by
    conv_rhs => rw [← List.takeWhile_append_dropWhile (p := isBlank) (l := row)]
    exact (trim_append_left fun c hc => List.mem_takeWhile_imp hc).symm
  have hend : ∀ row, strip (dropEnd isBlank row) = strip row := fun row => by
    have hsplit : row = dropEnd isBlank row ++ (row.reverse.takeWhile isBlank).reverse := by
      rw [dropEnd, ← List.reverse_append, List.takeWhile_append_dropWhile, List.reverse_reverse]
    conv_rhs => rw [hsplit]
    exact (trim_append_right fun c hc => List.mem_takeWhile_imp (List.mem_reverse.mp hc)).symm
  have hlast : ∀ rs : List Text, (rs.modifyLast (dropEnd isBlank)).map strip = rs.map strip := by
    intro rs
    rcases List.eq_nil_or_concat' rs with rfl | ⟨front, row, rfl⟩
    · rfl
    · rw [List.modifyLast_concat, List.map_append, List.map_append, List.map_singleton,
        List.map_singleton, hend]
  rw [stripEnds, hlast]
  cases rs with
  | nil => rfl
  | cons row rs => rw [List.modifyHead_cons, List.map_cons, List.map_cons, hstart]

/-- A weight file is read row by row: what counts is what its rows say as they stand, but without
the blanks before the first and behind the last. If a row says nothing, the first such row is
reported in its own words. Otherwise each variable has the weight of its last row, at the place of
its first. The blanks that are taken off make no difference unless there are separators among them.
So two texts with a line feed between them say what the second says after the first, unless
separators stand where their rows come together. -/
theorem ofBytes_row_by_row (file : String) :
    (∀ t, (stripEnds (fileRows t)).map strip = (fileRows t).map strip ∧
      ((∃ front row back, stripEnds (fileRows t) = front ++ row :: back ∧
        (∀ r ∈ front, readEntry? r ≠ none) ∧
          readEntry? row = none ∧
          ofBytes file (encode t) = .error (.malformedWeight (strip row) file) ∧
          (Fault.malformedWeight (strip row) file).kind = .value) ∨
        ∃ entries table, (stripEnds (fileRows t)).mapM readEntry? = some entries ∧
          ofBytes file (encode t) = .ok table ∧ table.map (·.1) = (entries.map (·.1)).eraseDups ∧
          ∀ v, table.lookup v = entries.reverse.lookup v)) ∧
    (∀ row, (Plain (row.takeWhile isBlank) → readEntry? (row.dropWhile isBlank) = readEntry? row) ∧
      (Plain (row.reverse.takeWhile isBlank) → readEntry? (dropEnd isBlank row) = readEntry? row)) ∧
    ∀ t u table, ofBytes file (encode (t ++ '\n' :: u)) = .ok table ↔
      ∃ a b, ofBytes file (encode t) = .ok a ∧ ofBytes file (encode u) = .ok b ∧
        Joins (fileRows t) (fileRows u) ∧ table = enterAll a b := by
  refine ⟨fun t => ⟨map_strip_stripEnds _, ?_⟩, fun row =>
    ⟨readEntry?_dropWhile, readEntry?_dropEnd⟩,
    fun t u table => ofBytes_append_feed_eq_ok_iff⟩
  rcases foldlM_enter_cases file (not_blank_of_mem_stripEnds t) with
    ⟨entries, hmap, hfold⟩ | ⟨front, row, back, hsplit, hfront, hrow, -, hfold⟩
  · refine .inr ⟨entries, enterAll [] entries, hmap, (ofBytes_encode file t).trans (hfold _),
      keys_enterAll entries,
      fun v => ?_⟩
    rw [lookup_enterAll, List.lookup_nil, Option.or_none]
  · exact .inl
      ⟨front, row, back, hsplit, hfront, hrow, (ofBytes_encode file t).trans (hfold _), rfl⟩

def spacedRow : Text := " 1 , 0.5 ".toList

theorem ofBytes_row_by_row_spacedRow : Plain (spacedRow.takeWhile isBlank) ∧
    readEntry? (spacedRow.dropWhile isBlank) = readEntry? spacedRow ∧
    Plain (spacedRow.reverse.takeWhile isBlank) ∧
    readEntry? (dropEnd isBlank spacedRow) = readEntry? spacedRow ∧
    Joins (fileRows spacedRow) (fileRows "1,1".toList) ∧ ∃ table,
      ofBytes "weights.txt" (encode (spacedRow ++ '\n' :: "1,1".toList)) = .ok table ∧
        table = [(1, .finite false 4503599627370496 (-52))] := by
  obtain ⟨-, hrow, hjoin⟩ := ofBytes_row_by_row "weights.txt"
  have hstart : Plain (spacedRow.takeWhile isBlank) := by decide +kernel
  have hend : Plain (spacedRow.reverse.takeWhile isBlank) := by decide +kernel
  have hjoins : Joins (fileRows spacedRow) (fileRows "1,1".toList) := by decide +kernel
  have hfirst : ofBytes "weights.txt" (encode spacedRow) = .ok
      [(1, .finite false 4503599627370496 (-53))] := by
    decide +kernel
  have hsecond : ofBytes "weights.txt" (encode "1,1".toList) = .ok
      [(1, .finite false 4503599627370496 (-52))] := by
    decide +kernel
  exact ⟨hstart, (hrow _).1 hstart, hend, (hrow _).2 hend, hjoins, _,
    (hjoin _ _ _).mpr ⟨_, _, hfirst, hsecond, hjoins, rfl⟩, rfl⟩

/-- A row that says nothing as it stands, since it starts with a separator. -/
def separatedRow : Text := '\x1c' :: "1,0.5".toList

/-- The separator is taken off where the row is the first of a file, so that the file can be read.
Behind another row it stays, and what two files say is lost if a line feed joins them. -/
theorem ofBytes_separatedRow :
    fileRows separatedRow = [separatedRow] ∧ readEntry? separatedRow = none ∧
    ofBytes "weights.txt" (encode separatedRow) = .ok [(1, .finite false 4503599627370496 (-53))] ∧
    ofBytes "weights.txt" (encode "1,0.5".toList) = .ok
      [(1, .finite false 4503599627370496 (-53))] ∧
    ofBytes "weights.txt" (encode ("1,0.5".toList ++ '\n' :: separatedRow)) =
      .error (.malformedWeight "1,0.5".toList "weights.txt") := by
  decide +kernel

end WeightTable

end DecisionDiagram
