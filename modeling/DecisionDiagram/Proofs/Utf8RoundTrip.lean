import DecisionDiagram.Text.Utf8
/-! Encoding in UTF-8 and decoding block by block: a text comes back whole, wherever a block ends.
-/
namespace DecisionDiagram.Text

variable {c : Char} {t : Text} {block more left rest : Bytes} {payload count offset : Nat}
variable {bounds : List (Nat × Nat)} {bytes front : Bytes}

def encode (t : Text) : Bytes := t.flatMap String.utf8EncodeChar

def Spells (c : Char) : Nat → List (Nat × Nat) → Bytes → Prop
  | payload, [], bytes => bytes = [] ∧ Char.ofNat payload = c
  | _, _ :: _, [] => False
  | payload, (low, high) :: bounds, b :: bytes =>
    (low ≤ b.toNat ∧ b.toNat ≤ high) ∧ Spells c (64 * payload + b.toNat % 64) bounds bytes

theorem extend_of_spells (h : Spells c payload bounds bytes) (rest : Bytes) :
    extend payload count bounds (bytes ++ rest) = .character c (count + bytes.length) := by
  induction bounds generalizing payload count bytes with
  | nil =>
    obtain ⟨rfl, rfl⟩ := h
    rfl
  | cons bound bounds ih =>
    cases bytes with
    | nil => cases h
    | cons b bytes =>
      obtain ⟨hbound, hrest⟩ := h
      rw [List.cons_append, extend, if_pos (by simpa using hbound), ih hrest, List.length_cons]
      congr 1
      omega

theorem extend_of_front (h : Spells c payload bounds (front ++ rest)) (hrest : rest ≠ []) :
    extend payload count bounds front = .unfinished := by
  induction bounds generalizing payload count front with
  | nil => simp [Spells, hrest] at h
  | cons bound bounds ih =>
    cases front with
    | nil => rfl
    | cons b front =>
      obtain ⟨hbound, htail⟩ := h
      rw [extend, if_pos (by simpa using hbound)]
      exact ih htail

theorem lead?_one {b : Nat} (h : b < 0x80) : lead? b = some (b, []) := by
  rw [lead?, if_pos h]

theorem lead?_two {b : Nat} (h : 0xC2 ≤ b) (h' : b < 0xE0) :
    lead? b = some (b - 0xC0, [(0x80, 0xBF)]) := by
  rw [lead?, if_neg (by omega), if_neg (by omega), if_pos h']

theorem lead?_three {b : Nat} (h : 0xE0 ≤ b) (h' : b < 0xF0) : lead? b =
    some (b - 0xE0,
      [(if b = 0xE0 then 0xA0 else 0x80, if b = 0xED then 0x9F else 0xBF), (0x80, 0xBF)]) := by
  rw [lead?, if_neg (by omega), if_neg (by omega), if_neg (by omega)]
  by_cases hlow : b = 0xE0
  · subst hlow
    rfl
  · by_cases hhigh : b = 0xED
    · subst hhigh
      rfl
    · rw [if_neg hlow, if_neg hhigh, if_pos h', if_neg hlow, if_neg hhigh]

theorem lead?_four {b : Nat} (h : 0xF0 ≤ b) (h' : b ≤ 0xF4) : lead? b =
    some (b - 0xF0,
      [(if b = 0xF0 then 0x90 else 0x80, if b = 0xF4 then 0x8F else 0xBF), (0x80, 0xBF),
      (0x80, 0xBF)]) := by
  rw [lead?, if_neg (by omega), if_neg (by omega), if_neg (by omega), if_neg (by omega),
    if_neg (by omega), if_neg (by omega)]
  by_cases hlow : b = 0xF0
  · subst hlow
    rfl
  · by_cases hhigh : b = 0xF4
    · subst hhigh
      rfl
    · rw [if_neg hlow, if_pos (by omega), if_neg hlow, if_neg hhigh]

theorem exists_lead (c : Char) : ∃ b bytes payload bounds, String.utf8EncodeChar c = b :: bytes ∧
    lead? b.toNat = some (payload, bounds) ∧ Spells c payload bounds bytes := by
  have hbyte : ∀ n, (UInt8.ofNat n).toNat = n % 256 := fun n => UInt8.toNat_ofNat'
  have hcode : ∀ n, n = c.val.toNat → Char.ofNat n = c := fun n hn => hn ▸ Char.ofNat_toNat c
  have hvalid : c.val.toNat.isValidChar := c.valid
  unfold Nat.isValidChar at hvalid
  unfold String.utf8EncodeChar
  simp only
  generalize c.val.toNat = v at hvalid hcode
  -- One to four bytes, by the size of the code point.
  split
  · exact ⟨_, _, _, _, rfl, lead?_one (by rw [hbyte]; omega), rfl, hcode _ (by rw [hbyte]; omega)⟩
  split
  · refine ⟨_, _, _, _, rfl, lead?_two (by rw [hbyte]; omega) (by rw [hbyte]; omega), ?_, rfl,
      hcode _ ?_⟩
    · rw [hbyte]
      omega
    · rw [hbyte, hbyte]
      omega
  split
  · refine ⟨_, _, _, _, rfl, lead?_three (by rw [hbyte]; omega) (by rw [hbyte]; omega), ?_, ?_, rfl,
      hcode _ ?_⟩
    · rw [hbyte, hbyte]
      split <;> split <;> omega
    · rw [hbyte]
      omega
    · rw [hbyte, hbyte, hbyte]
      omega
  · refine ⟨_, _, _, _, rfl, lead?_four (by rw [hbyte]; omega) (by rw [hbyte]; omega), ?_, ?_, ?_,
      rfl, hcode _ ?_⟩
    · rw [hbyte, hbyte]
      split <;> split <;> omega
    · rw [hbyte]
      omega
    · rw [hbyte]
      omega
    · rw [hbyte, hbyte, hbyte, hbyte]
      omega

theorem encode_cons (c : Char) (t : Text) : encode (c :: t) = String.utf8EncodeChar c ++ encode t :=
  List.flatMap_cons

theorem decode_character (c : Char) (offset : Nat) (rest : Bytes) :
    decode offset (String.utf8EncodeChar c ++ rest) =
      let result := decode (offset + (String.utf8EncodeChar c).length) rest
      (c :: result.1, result.2) := by
  obtain ⟨b, bytes, payload, bounds, hencode, hlead, hspells⟩ := exists_lead c
  have hsequence : sequence b (bytes ++ rest) = .character c (1 + bytes.length) := by
    rw [sequence, hlead]
    exact extend_of_spells hspells rest
  rw [hencode, List.cons_append, decode, hsequence, List.length_cons, Nat.add_comm bytes.length]
  simp only [Nat.add_sub_cancel_left, List.drop_left]

theorem decode_front (h : String.utf8EncodeChar c = front ++ rest) (hfront : front ≠ [])
    (hrest : rest ≠ []) (offset : Nat) : decode offset front = ([], .unfinished front) := by
  obtain ⟨b, bytes, payload, bounds, hencode, hlead, hspells⟩ := exists_lead c
  cases front with
  | nil => exact absurd rfl hfront
  | cons b' front =>
    obtain ⟨rfl, rfl⟩ := List.cons.inj (hencode.symm.trans h)
    have hsequence : sequence b front = .unfinished := by
      rw [sequence, hlead]
      exact extend_of_front hspells hrest
    rw [decode, hsequence]

theorem decode_encode (t : Text) (offset : Nat) : decode offset (encode t) = (t, .complete) := by
  induction t generalizing offset with
  | nil => simp [encode, decode]
  | cons c t ih => rw [encode_cons, decode_character, ih]

theorem encode_injective : Function.Injective encode := by
  intro t t' h
  have hdecode := congrArg (decode 0) h
  rw [decode_encode, decode_encode] at hdecode
  exact congrArg Prod.fst hdecode

/-- A block holds whole characters, and maybe the start of one more that the next block completes.
-/
theorem decode_block (h : block ++ more = encode t) (offset : Nat) : ∃ t₁ t₂ left, t = t₁ ++ t₂ ∧
    left ++ more = encode t₂ ∧ (decode offset block = (t₁, .complete) ∧ left = [] ∨
      decode offset block = (t₁, .unfinished left)) := by
  induction t generalizing block offset with
  | nil =>
    obtain ⟨rfl, rfl⟩ := List.append_eq_nil_iff.mp h
    exact ⟨[], [], [], rfl, rfl, .inl ⟨decode_encode [] offset, rfl⟩⟩
  | cons c t ih =>
    rw [encode_cons] at h
    rcases List.append_eq_append_iff.mp h with ⟨rest, hchar, hmore⟩ | ⟨tail, rfl, htail⟩
    · -- The block ends within the bytes of `c`: before the first, after the last, or in between.
      by_cases hblock : block = []
      · subst hblock
        refine ⟨[], c :: t, [], rfl, ?_, .inl ⟨decode_encode [] offset, rfl⟩⟩
        rw [encode_cons, hchar, hmore]
        rfl
      · by_cases hrest : rest = []
        · subst hrest
          refine ⟨[c], t, [], rfl, hmore, .inl ⟨?_, rfl⟩⟩
          rw [List.append_nil] at hchar
          rw [← hchar]
          simpa [encode] using decode_encode [c] offset
        · refine ⟨[], c :: t, block, rfl, ?_, .inr (decode_front hchar hblock hrest offset)⟩
          rw [encode_cons, hchar, hmore, List.append_assoc]
    · obtain ⟨t₁, t₂, left, rfl, hleft, hrun⟩ :=
        ih htail.symm (offset + (String.utf8EncodeChar c).length)
      refine ⟨c :: t₁, t₂, left, rfl, hleft, ?_⟩
      rw [decode_character]
      rcases hrun with ⟨hrun, hnil⟩ | hrun
      · exact .inl ⟨by rw [hrun], hnil⟩
      · exact .inr (by rw [hrun])

theorem decodeBlocks_encode {pending bytes : Bytes} (h : pending ++ bytes = encode t) :
    decodeBlocks pending bytes = (t, none) := by
  induction hn : bytes.length using Nat.strongRecOn generalizing pending bytes t with
  | ind n ih =>
    cases bytes with
    | nil =>
      rw [List.append_nil] at h
      rw [decodeBlocks, decodeAll, h, decode_encode]
    | cons b bytes =>
      have hcut : (pending ++ (b :: bytes).take blockSize) ++ (b :: bytes).drop
          blockSize = encode t := by
        rw [List.append_assoc, List.take_append_drop, h]
      have hless : ((b :: bytes).drop blockSize).length < n := by
        rw [← hn, List.length_drop, List.length_cons, blockSize]
        omega
      obtain ⟨t₁, t₂, left, rfl, hleft, hrun⟩ := decode_block hcut 0
      have hrest := ih _ hless hleft rfl
      rw [decodeBlocks, decodeOpen]
      rcases hrun with ⟨hrun, rfl⟩ | hrun
      · rw [hrun]
        simp only [hrest]
      · rw [hrun]
        simp only [hrest]

/-- A text that is encoded is delivered whole. -/
theorem deliver_encode (t : Text) : deliver (encode t) = ⟨t, none⟩ := by
  rw [deliver, decodeBlocks_encode rfl]

end DecisionDiagram.Text
