import AccessPolicy.Text.Utf8

/-! # Decoding encoded texts

An encoded character is decoded with whatever follows it, so an encoded text is decoded to
its end.
-/

namespace AccessPolicy.Text

theorem toNat_ofNat {code : Nat} (isByte : code < 256) : (UInt8.ofNat code).toNat = code :=
  UInt8.toNat_ofNat_of_lt' isByte

theorem continuation?_ofNat {digit : Nat} (isDigit : digit < 64) :
    continuation? (UInt8.ofNat (digit + 128)) = some digit := by
  have value : (UInt8.ofNat (digit + 128)).toNat = digit + 128 := toNat_ofNat (by omega)
  have range : 0x80 ≤ UInt8.ofNat (digit + 128) ∧ UInt8.ofNat (digit + 128) < 0xc0 := by
    rw [UInt8.le_iff_toNat_le, UInt8.lt_iff_toNat_lt, value]
    change 128 ≤ digit + 128 ∧ digit + 128 < 192
    omega
  rw [continuation?, if_pos range, value]
  exact congrArg some (Nat.add_sub_cancel digit 128)

theorem charFrom?_toNat {least : Nat} (c : Char) (large : least ≤ c.val.toNat) :
    charFrom? least c.val.toNat = some c := by
  have valid : c.val.toNat.isValidChar := c.valid
  rw [charFrom?, dif_pos ⟨large, valid⟩]
  rfl

/-- An encoded character is decoded, whatever follows. -/
theorem decodeChar?_encoded (c : Char) (rest : List UInt8) :
    decodeChar? (String.utf8EncodeChar c ++ rest) = some (c, rest) := by
  have bound : c.val.toNat < 0x110000 := by
    have valid := c.valid
    simp only [UInt32.isValidChar, Nat.isValidChar] at valid
    omega
  -- The code is put together again from its digits to base 64.
  have digits (code : Nat) : code / 64 / 64 = code / 4096 ∧ code / 4096 / 64 = code / 262144 :=
    ⟨Nat.div_div_eq_div_mul .., Nat.div_div_eq_div_mul ..⟩
  have parts := digits c.val.toNat
  clear digits
  have found (least code : Nat) (large : least ≤ c.val.toNat) (same : code = c.val.toNat) :
      charFrom? least code = some c := by
    rw [same]
    exact charFrom?_toNat c large
  unfold String.utf8EncodeChar
  extract_lets code
  have isCode : code = c.val.toNat := rfl
  rw [← isCode] at bound parts found
  clear_value code
  split
  · have lead : (UInt8.ofNat code).toNat = code := toNat_ofNat (by omega)
    rw [decodeChar?.eq_def]
    simp only [List.singleton_append, UInt8.lt_iff_toNat_lt, lead]
    rw [if_pos (by change code < 128; omega), found 0 _ (Nat.zero_le _) rfl]
    rfl
  · split
    · have lead : (UInt8.ofNat (code / 64 % 32 + 192)).toNat = code / 64 % 32 + 192 :=
        toNat_ofNat (by omega)
      rw [decodeChar?.eq_def]
      simp only [List.cons_append, List.nil_append, UInt8.lt_iff_toNat_lt, lead]
      rw [if_neg (by change ¬ _ < 128; omega), if_neg (by change ¬ _ < 192; omega),
        if_pos (by change _ < 224; omega), continuation?_ofNat (by omega)]
      change (charFrom? 0x80 ((_ + 192 - 192) * 64 + _)).bind _ = _
      rw [found 0x80 _ (by omega) (by omega)]
      rfl
    · split
      · have lead : (UInt8.ofNat (code / 4096 % 16 + 224)).toNat = code / 4096 % 16 + 224 :=
          toNat_ofNat (by omega)
        rw [decodeChar?.eq_def]
        simp only [List.cons_append, List.nil_append, UInt8.lt_iff_toNat_lt, lead]
        rw [if_neg (by change ¬ _ < 128; omega), if_neg (by change ¬ _ < 192; omega),
          if_neg (by change ¬ _ < 224; omega), if_pos (by change _ < 240; omega),
          continuation?_ofNat (by omega), continuation?_ofNat (by omega)]
        change (charFrom? 0x800 (((_ + 224 - 224) * 64 + _) * 64 + _)).bind _ = _
        rw [found 0x800 _ (by omega) (by omega)]
        rfl
      · have lead : (UInt8.ofNat (code / 262144 % 8 + 240)).toNat = code / 262144 % 8 + 240 :=
          toNat_ofNat (by omega)
        rw [decodeChar?.eq_def]
        simp only [List.cons_append, List.nil_append, UInt8.lt_iff_toNat_lt, lead]
        rw [if_neg (by change ¬ _ < 128; omega), if_neg (by change ¬ _ < 192; omega),
          if_neg (by change ¬ _ < 224; omega), if_neg (by change ¬ _ < 240; omega),
          if_pos (by change _ < 248; omega), continuation?_ofNat (by omega),
          continuation?_ofNat (by omega), continuation?_ofNat (by omega)]
        change (charFrom? 0x10000 ((((_ + 240 - 240) * 64 + _) * 64 + _) * 64 + _)).bind _ = _
        rw [found 0x10000 _ (by omega) (by omega)]
        rfl

/-- An encoded text is decoded to its end. -/
theorem decodeUtf8_utf8 (text : String) : decodeUtf8 (utf8 text) = (text.toList, []) := by
  unfold utf8
  induction text.toList with
  | nil => rw [List.flatMap_nil, decodeUtf8]; rfl
  | cons c rest ih =>
      rw [List.flatMap_cons, decodeUtf8]
      split
      · rename_i none
        rw [decodeChar?_encoded] at none
        cases none
      · rename_i first left decoded
        rw [decodeChar?_encoded] at decoded
        cases decoded
        rw [ih]

end AccessPolicy.Text
