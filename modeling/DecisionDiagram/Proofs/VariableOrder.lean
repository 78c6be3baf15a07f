import DecisionDiagram.Document.Write
import DecisionDiagram.Proofs.FaultWording
import DecisionDiagram.Proofs.ReadWrittenLines
/-! The variable order of a document. It is written unless it holds an integer that is too long, or
a text with a lone surrogate. -/
namespace DecisionDiagram

theorem mapM_eq_ok {ε α β : Type} {f : α → Except ε β} {k : α → β} {l : List α}
    (h : ∀ a ∈ l, f a = .ok (k a)) : l.mapM f = .ok (l.map k) := by
  induction l with
  | nil => rfl
  | cons a l ih =>
    obtain ⟨ha, hrest⟩ := List.forall_mem_cons.mp h
    rw [List.mapM_cons, ha, ih hrest]
    rfl

theorem mapM_congr {ε α β : Type} {f k : α → Except ε β} {l : List α} (h : ∀ a ∈ l, f a = k a) :
    l.mapM f = l.mapM k := by
  induction l with
  | nil => rfl
  | cons a l ih =>
    obtain ⟨ha, hrest⟩ := List.forall_mem_cons.mp h
    rw [List.mapM_cons, List.mapM_cons, ha, ih hrest]

namespace Document
open Numeral

variable {items : List Item} {item : Item} {codes : List CodePoint}

theorem char?_ofChar (c : Char) : (CodePoint.ofChar c).char? = some c := by
  have hvalid : c.toNat < 0xD800 ∨ 0xDFFF < c.toNat ∧ c.toNat < 0x110000 := c.valid
  have hval : (CodePoint.ofChar c).val = c.toNat := Nat.mod_eq_of_lt (by omega)
  rw [CodePoint.char?, hval, if_neg (by omega), Char.ofNat_toNat]

theorem encodable_chars (t : Text) : encodable (t.map CodePoint.ofChar) = .ok t := by
  have hmap : (t.map CodePoint.ofChar).mapM CodePoint.char? = some t := by
    induction t with
    | nil => rfl
    | cons c t ih =>
      rw [List.map_cons, List.mapM_cons, char?_ofChar, ih]
      rfl
  rw [encodable, hmap]

namespace Item

def points : Item → List CodePoint
  | number n => (Integer.render n).map CodePoint.ofChar
  | text codes => codes

def word (item : Item) : Text := item.points.filterMap CodePoint.char?

/-- The element can be written: it is an integer that is not too long, or a text without lone
surrogates. -/
def Plain : Item → Prop
  | number n => Integer.Short n
  | text codes => ∃ t : Text, codes = t.map CodePoint.ofChar

def IsWord : Item → Prop
  | number n => Integer.Short n
  | text codes => ∃ t : Text, codes = t.map CodePoint.ofChar ∧ Text.IsWord t

theorem filterMap_chars (t : Text) : (t.map CodePoint.ofChar).filterMap CodePoint.char? = t := by
  have hsome : CodePoint.char? ∘ CodePoint.ofChar = some := funext char?_ofChar
  rw [List.filterMap_map, hsome, List.filterMap_some]

theorem word_number (n : Int) : (number n).word = Integer.render n := filterMap_chars _

theorem shown_of_short (h : ∀ n, item = .number n → Integer.Short n) :
    item.shown = .ok item.points := by
  cases item with
  | number n => rw [shown, Integer.written_of_short (h n rfl)]; rfl
  | text codes => rfl

theorem IsWord.plain (h : item.IsWord) : item.Plain := by
  cases item with
  | number n => exact h
  | text codes => exact h.imp fun t ht => ht.1

theorem Plain.shown (h : item.Plain) : item.shown = .ok item.points :=
  shown_of_short fun n hn => by rwa [hn] at h

theorem Plain.encodable (h : item.Plain) : encodable item.points = .ok item.word := by
  cases item with
  | number n => rw [points, encodable_chars, word_number]
  | text codes =>
    obtain ⟨t, rfl⟩ := h
    rw [Item.points, encodable_chars, word, Item.points, filterMap_chars]

end Item

theorem orderWords_of_plain (h : ∀ item ∈ items, item.Plain) :
    orderWords items = .ok (items.map Item.word) := by
  have hwords : (items.map Item.points).mapM encodable = .ok (items.map Item.word) := by
    rw [List.mapM_map]
    exact mapM_eq_ok fun item hitem => (h item hitem).encodable
  rw [orderWords, mapM_eq_ok fun item hitem => (h item hitem).shown, ok_bind, hwords]

end Document

end DecisionDiagram
