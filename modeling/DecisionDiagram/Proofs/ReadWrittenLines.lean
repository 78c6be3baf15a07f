import DecisionDiagram.Document.Write
import DecisionDiagram.Order.Search
import DecisionDiagram.Proofs.DecimalNumerals
/-! Reading what is written: each line of a text that is written is taken in as what it was written
for. -/
namespace DecisionDiagram

open Numeral

namespace Text

variable {c : Char} {t u w : Text} {ws ls : List Text}

def IsWord (w : Text) : Prop := w ≠ [] ∧ ∀ c ∈ w, isBlank c = false

/-- A text that stays within one line. -/
def Inline (t : Text) : Prop := ∀ c ∈ t, c ≠ '\n' ∧ c ≠ '\r'

theorem words_nil : words [] = [] := by simp [words, List.splitOnP_nil]

theorem words_append_blank (hc : isBlank c = true) (t u : Text) :
    words (t ++ c :: u) = words t ++ words u := by
  rw [words, List.splitOnP_append_cons t u hc, List.filter_append, words, words]

theorem IsWord.words_eq (h : IsWord w) : words w = [w] := by
  rw [words, List.splitOnP_eq_singleton h.2]
  simp [h.1]

theorem isWord_of_all (h : w ≠ []) (hall : w.all (fun c => !isBlank c) = true) : IsWord w :=
  ⟨h, fun c hc => by simpa using List.all_eq_true.mp hall c hc⟩

theorem isWord_singleton (hc : isBlank c = false) : IsWord [c] :=
  ⟨List.cons_ne_nil c [], fun _ h => List.mem_singleton.mp h ▸ hc⟩

theorem IsWord.append (ht : IsWord t) (hu : IsWord u) : IsWord (t ++ u) := by
  refine ⟨by simp [ht.1], fun c hc => ?_⟩
  rcases List.mem_append.mp hc with hc | hc
  · exact ht.2 c hc
  · exact hu.2 c hc

theorem isWord_render (i : Int) : IsWord (Integer.render i) :=
  ⟨Integer.render_ne_nil i, fun _ hc => (Integer.isRendered_of_mem_render hc).isBlank_eq⟩

theorem words_append_spaced (t : Text) (hws : ∀ w ∈ ws, IsWord w) :
    words (t ++ ws.flatMap (' ' :: ·)) = words t ++ ws := by
  induction ws generalizing t with
  | nil => simp
  | cons w ws ih =>
    obtain ⟨hw, hrest⟩ := List.forall_mem_cons.mp hws
    rw [List.flatMap_cons, List.cons_append, words_append_blank (by decide), ih w hrest,
      hw.words_eq]
    rfl

theorem inline_append : Inline (t ++ u) ↔ Inline t ∧ Inline u := List.forall_mem_append

theorem inline_cons : Inline (c :: t) ↔ (c ≠ '\n' ∧ c ≠ '\r') ∧ Inline t := List.forall_mem_cons

theorem IsWord.inline (h : IsWord w) : Inline w := by
  intro c hc
  have hblank := h.2 c hc
  constructor
  · rintro rfl
    revert hblank
    decide
  · rintro rfl
    revert hblank
    decide

theorem inline_spaced (hws : ∀ w ∈ ws, Inline w) : Inline (ws.flatMap (' ' :: ·)) := by
  intro c hc
  obtain ⟨w, hw, hmem⟩ := List.mem_flatMap.mp hc
  rcases List.mem_cons.mp hmem with rfl | hmem
  · decide
  · exact hws w hw c hmem

theorem inline_of_all (h : t.all (fun c => c != '\n' && c != '\r') = true) : Inline t := by
  intro c hc
  simpa using List.all_eq_true.mp h c hc

theorem inline_render (i : Int) : Inline (Integer.render i) := (isWord_render i).inline

theorem Inline.lines_eq (h : Inline t) : lines (unifyLineEnds t) = [t] := by
  rw [unifyLineEnds_eq_self fun hmem => (h _ hmem).2 rfl]
  exact List.splitOnP_eq_singleton fun c hc => beq_eq_false_iff_ne.mpr (h c hc).1

theorem lines_unlines (h : ∀ l ∈ ls, Inline l) :
    lines (unifyLineEnds (ls.flatMap (· ++ ['\n']))) = ls ++ [[]] := by
  have hreturn : '\r' ∉ ls.flatMap (· ++ ['\n']) := by
    intro hmem
    obtain ⟨l, hl, hc⟩ := List.mem_flatMap.mp hmem
    rcases List.mem_append.mp hc with hc | hc
    · exact (h l hl _ hc).2 rfl
    · simp at hc
  rw [unifyLineEnds_eq_self hreturn]
  clear hreturn
  induction ls with
  | nil => exact List.splitOnP_nil
  | cons l ls ih =>
    obtain ⟨hl, hrest⟩ := List.forall_mem_cons.mp h
    have hfree : ∀ c ∈ l, (c == '\n') = false := fun c hc => beq_eq_false_iff_ne.mpr (hl c hc).1
    rw [List.flatMap_cons, List.append_assoc, List.singleton_append, lines,
      List.splitOnP_append_cons_of_forall_mem hfree _ rfl, ← lines, ih hrest]
    rfl

theorem dropEnd_concat_colon (h : ':' ∉ t) : dropEnd (· == ':') (t ++ [':']) = t := by
  rw [dropEnd, List.reverse_append, List.reverse_singleton, List.singleton_append,
    List.dropWhile_cons_of_pos (by decide), dropWhile_eq_self, List.reverse_reverse]
  exact fun c hc => beq_eq_false_iff_ne.mpr fun heq => h (heq ▸ List.mem_reverse.mp hc)

end Text

theorem foldl_upsert {κ α : Type} [DecidableEq κ] {es entries : List (κ × α)}
    (h : ((es ++ entries).map (·.1)).Nodup) :
    entries.foldl (fun es e => upsert e.1 e.2 es) es = es ++ entries := by
  induction entries generalizing es with
  | nil => simp
  | cons e entries ih =>
    have hnew : e.1 ∉ es.map (·.1) := by
      rw [List.map_append, List.map_cons] at h
      exact fun hmem => (List.nodup_append.mp h).2.2 _ hmem _ List.mem_cons_self rfl
    rw [List.foldl_cons, upsert_of_not_mem hnew, ih (by simpa using h), List.append_assoc]
    rfl

namespace Document

variable {c : Char} {id root size v lo hi : Int} {rule : Rule} {order : List Text}
variable {entries : List (Int × Rule)} {draft : Draft}

def Rule.Short : Rule → Prop
  | constant _ => True
  | test v lo hi => Integer.Short v ∧ Integer.Short lo ∧ Integer.Short hi

def Rule.typeWord : Rule → Text
  | constant value => if value then ['T'] else ['F']
  | test v _ _ => Integer.render v

def ruleLine (id : Int) (rule : Rule) : Text :=
  Integer.render id ++ [':'] ++ '\t' :: (rule.typeWord ++
    (rule.children.map Integer.render ++ [['0']]).flatMap (' ' :: ·))

def ruleText (id : Int) : Rule → Text
  | .constant value => constantText id value
  | .test v lo hi => testText id (Integer.render v) lo hi

theorem ruleText_eq (id : Int) (rule : Rule) : ruleText id rule = ruleLine id rule ++ ['\n'] := by
  cases rule with
  | constant value =>
    cases value <;> simp [ruleText, constantText, ruleLine, Rule.typeWord, Rule.children]
  | test v lo hi => simp [ruleText, testText, ruleLine, Rule.typeWord, Rule.children]

def headingLines (order : List Text) (size root : Int) : List Text :=
  [orderHeading ++ order.flatMap (' ' :: ·), sizeHeading ++ ' ' :: Integer.render size,
    rootHeading ++ ' ' :: Integer.render root]

theorem headingText_eq (order : List Text) (size root : Int) :
    headingText order size root = (headingLines order size root).flatMap (· ++ ['\n']) := by
  simp [headingText, headingLines]

theorem isWord_typeWord (rule : Rule) : Text.IsWord rule.typeWord := by
  rcases rule with (_ | _) | ⟨v, lo, hi⟩
  · exact Text.isWord_singleton (by decide)
  · exact Text.isWord_singleton (by decide)
  · exact Text.isWord_render v

theorem isWord_rest (rule : Rule) :
    ∀ w ∈ rule.children.map Integer.render ++ [['0']], Text.IsWord w := by
  intro w hw
  rcases List.mem_append.mp hw with hw | hw
  · obtain ⟨i, -, rfl⟩ := List.mem_map.mp hw
    exact Text.isWord_render i
  · obtain rfl := List.mem_singleton.mp hw
    exact Text.isWord_singleton (by decide)

theorem isWord_number (id : Int) : Text.IsWord (Integer.render id ++ [':']) :=
  (Text.isWord_render id).append (Text.isWord_singleton (by decide))

theorem words_ruleLine (id : Int) (rule : Rule) : Text.words (ruleLine id rule) =
    (Integer.render id ++ [':']) :: rule.typeWord ::
      (rule.children.map Integer.render ++ [['0']]) := by
  rw [ruleLine, Text.words_append_blank (by decide), (isWord_number id).words_eq,
    Text.words_append_spaced _ (isWord_rest rule), (isWord_typeWord rule).words_eq]
  rfl

theorem ruleLine_injective {id' : Int} {rule' : Rule} (h : ruleLine id rule = ruleLine id' rule') :
    id = id' ∧ rule = rule' := by
  have hwords := congrArg Text.words h
  rw [words_ruleLine, words_ruleLine] at hwords
  obtain ⟨hid, hrest⟩ := List.cons.inj hwords
  obtain ⟨htype, hchildren⟩ := List.cons.inj hrest
  refine ⟨Integer.render_injective (List.append_cancel_right hid), ?_⟩
  have hnumerals := (List.map_inj_right fun _ _ h => Integer.render_injective h).mp
    (List.append_cancel_right hchildren)
  rcases rule with value | ⟨v, lo, hi⟩ <;> rcases rule' with value' | ⟨v', lo', hi'⟩
  · cases value <;> cases value' <;> simp_all [Rule.typeWord]
  · cases hnumerals
  · cases hnumerals
  · obtain rfl := Integer.render_injective htype
    obtain ⟨rfl, rfl⟩ : lo = lo' ∧ hi = hi' := by simpa [Rule.children] using hnumerals
    rfl

theorem inline_ruleLine (id : Int) (rule : Rule) : Text.Inline (ruleLine id rule) := by
  unfold ruleLine
  refine Text.inline_append.mpr ⟨(isWord_number id).inline, Text.inline_cons.mpr ⟨by decide, ?_⟩⟩
  exact Text.inline_append.mpr
    ⟨(isWord_typeWord rule).inline, Text.inline_spaced fun w hw => (isWord_rest rule w hw).inline⟩

theorem isPrefixOf_ruleLine {heading : Text} (h : heading.head?.any Char.isAlpha = true) :
    heading.isPrefixOf (ruleLine id rule) = false := by
  cases heading with
  | nil => cases h
  | cons c t =>
    obtain ⟨c', t', hrender⟩ := List.exists_cons_of_ne_nil (Integer.render_ne_nil id)
    have hne : c ≠ c' := by
      rintro rfl
      have hrendered : IsRendered c :=
        Integer.isRendered_of_mem_render (hrender ▸ List.mem_cons_self)
      simp [hrendered.isAlpha_eq] at h
    rw [ruleLine, hrender]
    simp [List.isPrefixOf, hne]

theorem render_ne_letter (hc : c.isAlpha = true) (i : Int) : Integer.render i ≠ [c] := by
  intro heq
  have hrendered : IsRendered c :=
    Integer.isRendered_of_mem_render (heq ▸ List.mem_singleton_self c)
  simp [hrendered.isAlpha_eq] at hc

theorem readRule_words (hrule : rule.Short) :
    readRule id (rule.typeWord :: rule.children.map Integer.render) = .ok rule := by
  cases rule with
  | constant value => cases value <;> rfl
  | test v lo hi =>
    obtain ⟨hv, hlo, hhi⟩ := hrule
    rw [readRule, Rule.typeWord, if_neg (render_ne_letter (by decide) v),
      if_neg (render_ne_letter (by decide) v), if_neg (render_ne_letter (by decide) v)]
    simp [Rule.children, Integer.read?_render hv, Integer.read?_render hlo,
      Integer.read?_render hhi]

theorem readLine_words (hid : Integer.Short id) (hrule : rule.Short) :
    readLine (Text.words (ruleLine id rule)) = .ok ⟨id, rule⟩ := by
  have hcolon : ':' ∉ Integer.render id :=
    fun hmem => (Integer.isRendered_of_mem_render hmem).ne_colon rfl
  rw [words_ruleLine, readLine, Text.dropEnd_concat_colon hcolon,
    Integer.read?_render hid, ← List.cons_append, List.dropLast_concat]
  simp only [readRule_words hrule]
  rfl

namespace Draft

theorem enter_ruleLine (draft : Draft) (hid : Integer.Short id) (hrule : rule.Short) :
    draft.enter (ruleLine id rule) = .ok
      ⟨{ draft.document with lines := upsert id rule draft.document.lines }, some id⟩ := by
  have hlast : (Text.words (ruleLine id rule)).getLast? = some ['0'] := by
    rw [words_ruleLine, ← List.cons_append, ← List.cons_append, List.getLast?_concat]
  have horder : orderHeading.isPrefixOf (ruleLine id rule) = false :=
    isPrefixOf_ruleLine (by decide)
  have hsize : sizeHeading.isPrefixOf (ruleLine id rule) = false := isPrefixOf_ruleLine (by decide)
  have hroot : rootHeading.isPrefixOf (ruleLine id rule) = false := isPrefixOf_ruleLine (by decide)
  unfold enter
  simp only [hlast, horder, hsize, hroot, readLine_words hid hrule, Bool.false_eq_true, ↓reduceIte]
  rfl

theorem enter_blank : draft.enter [] = .ok draft := by
  rw [enter, Text.words_nil]
  rfl

theorem enter_order (t : Text) : draft.enter (orderHeading ++ t) =
    .ok { draft with
      document := { draft.document with order := (Text.words (orderHeading ++ t)).drop 2 } } := by
  have hwords :
      Text.words (orderHeading ++ t) = "Variable".toList :: Text.words ("order:".toList ++ t) := by
    change Text.words ("Variable".toList ++ ' ' :: ("order:".toList ++ t)) = _
    rw [Text.words_append_blank (by decide),
      (Text.isWord_of_all (by decide) (by decide +kernel)).words_eq]
    rfl
  have hlast := List.getLast?_eq_some_getLast
    (List.cons_ne_nil "Variable".toList (Text.words ("order:".toList ++ t)))
  have hprefix : orderHeading.isPrefixOf (orderHeading ++ t) = true :=
    List.isPrefixOf_iff_prefix.mpr (List.prefix_append _ _)
  unfold enter
  simp only [hwords, hlast, hprefix, ↓reduceIte]

theorem getLast?_words_heading (heading : Text) (i : Int) :
    (Text.words (heading ++ ' ' :: Integer.render i)).getLast? = some (Integer.render i) := by
  rw [Text.words_append_blank (by decide), (Text.isWord_render i).words_eq, List.getLast?_concat]

theorem enter_size (size : Int) :
    draft.enter (sizeHeading ++ ' ' :: Integer.render size) = .ok draft := by
  have horder : orderHeading.isPrefixOf (sizeHeading ++ ' ' :: Integer.render size) = false := rfl
  have hsize : sizeHeading.isPrefixOf (sizeHeading ++ ' ' :: Integer.render size) = true :=
    List.isPrefixOf_iff_prefix.mpr (List.prefix_append _ _)
  unfold enter
  simp only [getLast?_words_heading, horder, hsize, Bool.false_eq_true, ↓reduceIte]

theorem enter_root (hroot : Integer.Short root) :
    draft.enter (rootHeading ++ ' ' :: Integer.render root) =
    .ok { draft with document := { draft.document with root := some root } } := by
  have horder : orderHeading.isPrefixOf (rootHeading ++ ' ' :: Integer.render root) = false := rfl
  have hsize : sizeHeading.isPrefixOf (rootHeading ++ ' ' :: Integer.render root) = false := rfl
  have hprefix : rootHeading.isPrefixOf (rootHeading ++ ' ' :: Integer.render root) = true :=
    List.isPrefixOf_iff_prefix.mpr (List.prefix_append _ _)
  unfold enter
  simp only [getLast?_words_heading, horder, hsize, hprefix, Integer.read?_render hroot,
    Bool.false_eq_true, ↓reduceIte]

theorem foldlM_enter_ruleLine (draft : Draft)
    (hshort : ∀ e ∈ entries, Integer.Short e.1 ∧ e.2.Short) :
    (entries.map fun e => ruleLine e.1 e.2).foldlM enter draft =
      .ok ⟨{ draft.document with
          lines := entries.foldl (fun lines e => upsert e.1 e.2 lines) draft.document.lines },
        (entries.getLast?.map (·.1)).or draft.last⟩ := by
  induction entries generalizing draft with
  | nil => rfl
  | cons e entries ih =>
    obtain ⟨⟨hid, hrule⟩, hrest⟩ := List.forall_mem_cons.mp hshort
    rw [List.map_cons, List.foldlM_cons, enter_ruleLine draft hid hrule, ok_bind, ih _ hrest,
      List.getLast?_cons]
    cases entries.getLast? <;> rfl

theorem foldlM_enter_headingLines (order : List Text) (size : Int) (hroot : Integer.Short root) :
    (headingLines order size root).foldlM enter {} =
      .ok ⟨⟨(Text.words (orderHeading ++ order.flatMap (' ' :: ·))).drop 2, some root, []⟩,
        none⟩ := by
  rw [headingLines, List.foldlM_cons, enter_order, ok_bind, List.foldlM_cons, enter_size, ok_bind,
    List.foldlM_cons, enter_root hroot, ok_bind]
  rfl

end Draft

theorem inline_orderLine (horder : ∀ w ∈ order, Text.Inline w) :
    Text.Inline (orderHeading ++ order.flatMap (' ' :: ·)) :=
  Text.inline_append.mpr ⟨Text.inline_of_all (by decide), Text.inline_spaced horder⟩

theorem inline_sizeLine (size : Int) : Text.Inline (sizeHeading ++ ' ' :: Integer.render size) :=
  Text.inline_append.mpr
    ⟨Text.inline_of_all (by decide), Text.inline_cons.mpr ⟨by decide, Text.inline_render size⟩⟩

theorem inline_rootLine (root : Int) : Text.Inline (rootHeading ++ ' ' :: Integer.render root) :=
  Text.inline_append.mpr
    ⟨Text.inline_of_all (by decide), Text.inline_cons.mpr ⟨by decide, Text.inline_render root⟩⟩

theorem inline_headingLines (horder : ∀ w ∈ order, Text.Inline w) (size root : Int) :
    ∀ l ∈ headingLines order size root, Text.Inline l := by
  intro l hl
  simp only [headingLines, List.mem_cons, List.not_mem_nil, or_false] at hl
  rcases hl with rfl | rfl | rfl
  · exact inline_orderLine horder
  · exact inline_sizeLine size
  · exact inline_rootLine root

theorem inline_ruleLines (entries : List (Int × Rule)) :
    ∀ l ∈ entries.map fun e => ruleLine e.1 e.2, Text.Inline l := by
  intro l hl
  obtain ⟨e, -, rfl⟩ := List.mem_map.mp hl
  exact inline_ruleLine e.1 e.2

/-- The lines of a text that is written under an order and the number of a root. -/
theorem lines_written (horder : ∀ w ∈ order, Text.Inline w) (size root : Int)
    (entries : List (Int × Rule)) :
    Text.lines (Text.unifyLineEnds
      (headingText order size root ++ entries.flatMap fun e => ruleText e.1 e.2)) =
      headingLines order size root ++ (entries.map fun e => ruleLine e.1 e.2) ++ [[]] := by
  have htext : headingText order size root ++ (entries.flatMap fun e => ruleText e.1 e.2) =
      (headingLines order size root ++ entries.map fun e => ruleLine e.1 e.2).flatMap
          (· ++ ['\n']) := by
    simp only [headingText_eq, ruleText_eq, List.flatMap_append, List.flatMap_map]
  have hinline : ∀ l ∈ headingLines order size root ++ entries.map fun e => ruleLine e.1 e.2,
      Text.Inline l := by
    intro l hl
    rcases List.mem_append.mp hl with hl | hl
    · exact inline_headingLines horder size root l hl
    · exact inline_ruleLines entries l hl
  rw [htext, Text.lines_unlines hinline]

theorem ofText_inline (horder : ∀ w ∈ order, Text.Inline w) (size : Int)
    (hroot : Integer.Short root) (hnodup : (entries.map (·.1)).Nodup)
    (hshort : ∀ e ∈ entries, Integer.Short e.1 ∧ e.2.Short) :
    ofText (headingText order size root ++ entries.flatMap fun e => ruleText e.1 e.2) =
      .ok ⟨(Text.words (orderHeading ++ order.flatMap (' ' :: ·))).drop 2, some root, entries⟩ := by
  rw [ofText, lines_written horder, read, List.foldlM_append, List.foldlM_append,
    Draft.foldlM_enter_headingLines order size hroot, ok_bind,
    Draft.foldlM_enter_ruleLine _ hshort, ok_bind, List.foldlM_cons, Draft.enter_blank,
    foldl_upsert hnodup]
  rfl

/-- Nothing is lost in writing: the text tells the number of the root, and what each node line says.
-/
theorem eq_of_written_eq {order' : List Text} {size' root' : Int} {entries' : List (Int × Rule)}
    (horder : ∀ w ∈ order, Text.Inline w) (horder' : ∀ w ∈ order', Text.Inline w)
    (h : headingText order size root ++ (entries.flatMap fun e => ruleText e.1 e.2) =
      headingText order' size' root' ++ entries'.flatMap fun e => ruleText e.1 e.2) :
    root = root' ∧ entries = entries' := by
  have hlines := lines_written horder size root entries
  rw [h, lines_written horder' size' root' entries', List.append_left_inj, headingLines,
    headingLines] at hlines
  simp only [List.cons_append, List.nil_append, List.cons.injEq, List.append_right_inj,
    true_and] at hlines
  obtain ⟨-, -, hroot, hentries⟩ := hlines
  refine ⟨Integer.render_injective hroot.symm, (List.map_inj_right fun e e' he => ?_).mp
    hentries.symm⟩
  obtain ⟨hid, hrule⟩ := ruleLine_injective he
  exact Prod.ext hid hrule

/-! All integers of a document that was read are short. -/

theorem exists_of_mem_mapM {α β : Type} {f : α → Option β} {l : List α} {out : List β}
    (h : l.mapM f = some out) : ∀ b ∈ out, ∃ a, f a = some b := by
  induction l generalizing out with
  | nil =>
    cases h
    nofun
  | cons a l ih =>
    rw [List.mapM_cons] at h
    obtain ⟨b, hb, hrest⟩ := Option.bind_eq_some_iff.mp h
    obtain ⟨bs, hbs, hout⟩ := Option.bind_eq_some_iff.mp hrest
    obtain rfl := Option.some.inj hout
    exact List.forall_mem_cons.mpr ⟨⟨a, hb⟩, ih hbs⟩

theorem short_of_readRule {words : List Text} (h : readRule id words = .ok rule) : rule.Short := by
  have hread : ∀ {words : List Text} {v lo hi : Int}, words.mapM Integer.read? = some [v, lo, hi] →
      Rule.Short (.test v lo hi) := by
    intro words v lo hi hwords
    have hall : ∀ i ∈ [v, lo, hi], Integer.Short i := fun i hi =>
      (exists_of_mem_mapM hwords i hi).elim fun _ => Integer.short_of_read?
    exact ⟨hall v (by simp), hall lo (by simp), hall hi (by simp)⟩
  unfold readRule at h
  split at h
  · cases h
  · split_ifs at h
    · cases h
      trivial
    · cases h
      trivial
    · split at h
      · rename_i hwords
        cases h
        exact hread hwords
      · cases h
      · cases h

theorem short_of_readLine {words : List Text} {line : Line} (h : readLine words = .ok line) :
    Integer.Short line.id ∧ line.rule.Short := by
  unfold readLine at h
  split at h
  · cases h
  · split at h
    · cases h
    · rename_i hread
      obtain ⟨rule, hrule, rfl⟩ := map_eq_ok_iff.mp h
      exact ⟨Integer.short_of_read? hread, short_of_readRule hrule⟩

def ShortLines (lines : List (Int × Rule)) : Prop :=
  ∀ id rule, lines.lookup id = some rule → Integer.Short id ∧ rule.Short

structure Draft.Short (draft : Draft) : Prop where
  lines : ShortLines draft.document.lines
  root : ∀ n ∈ draft.document.root, Integer.Short n
  last : ∀ n ∈ draft.last, Integer.Short n

namespace Draft

theorem Short.enter {draft draft' : Draft} {line : Text} (h : draft.Short)
    (henter : draft.enter line = .ok draft') : draft'.Short := by
  unfold Draft.enter at henter
  dsimp only at henter
  split at henter
  · cases henter
    exact h
  · split_ifs at henter
    · cases henter
      exact ⟨h.lines, h.root, h.last⟩
    · cases henter
      exact h
    · split at henter
      · rename_i hread
        cases henter
        exact ⟨h.lines, by simpa using Integer.short_of_read? hread, h.last⟩
      · cases henter
    · obtain ⟨entered, hline, hdraft⟩ := Order.exists_of_bind_eq_ok henter
      cases hdraft
      refine ⟨fun id rule hlookup => ?_, h.root, by simpa using (short_of_readLine hline).1⟩
      rw [lookup_upsert] at hlookup
      split at hlookup
      · rename_i hid
        obtain rfl := Option.some.inj hlookup
        exact hid ▸ short_of_readLine hline
      · exact h.lines id rule hlookup

theorem Short.foldlM {ls : List Text} {draft draft' : Draft} (h : draft.Short)
    (hrun : ls.foldlM Draft.enter draft = .ok draft') : draft'.Short := by
  induction ls generalizing draft with
  | nil =>
    cases hrun
    exact h
  | cons line ls ih =>
    rw [List.foldlM_cons] at hrun
    obtain ⟨next, henter, hrest⟩ := Order.exists_of_bind_eq_ok hrun
    exact ih (h.enter henter) hrest

end Draft

theorem short_of_ofText {t : Text} {document : Document} (h : ofText t = .ok document) :
    ShortLines document.lines ∧ ∀ n ∈ document.root, Integer.Short n := by
  obtain ⟨draft, hrun, hfinish⟩ := Order.exists_of_bind_eq_ok h
  cases hfinish
  have hempty : Draft.Short {} := ⟨nofun, nofun, nofun⟩
  have hshort := hempty.foldlM hrun
  exact ⟨hshort.lines, fun n hn => (Option.or_eq_some_iff.mp hn).elim (hshort.root n) fun hlast =>
    hshort.last n hlast.2⟩

theorem short_of_ofBytes {bytes : Text.Bytes} {document : Document}
    (h : ofBytes bytes = .ok document) :
    ShortLines document.lines ∧ ∀ n ∈ document.root, Integer.Short n := by
  obtain ⟨read, hread, hflaw⟩ := Order.exists_of_bind_eq_ok h
  split at hflaw
  · cases hflaw
  · cases hflaw
    exact short_of_ofText hread

end Document

end DecisionDiagram
