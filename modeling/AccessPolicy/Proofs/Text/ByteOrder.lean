import AccessPolicy.Text.Utf8

/-! # The order of encoded texts

Texts are ordered by their characters, and their encodings by their bytes. Both orders
are the same: of two characters the lesser one has the lesser encoding, and the two
encodings differ at a byte that both of them have.
-/

namespace AccessPolicy.Text

/-- Bytes are compared by the first that differs. -/
theorem ofNat_cons_lt_iff {first second : Nat} (left right : List UInt8) (isByte : first < 256)
    (isOther : second < 256) :
    UInt8.ofNat first :: left < UInt8.ofNat second :: right ↔
      first < second ∨ first = second ∧ left < right := by
  rw [List.cons_lt_cons_iff, UInt8.lt_iff_toNat_lt, ← UInt8.toNat_inj,
    UInt8.toNat_ofNat_of_lt' isByte, UInt8.toNat_ofNat_of_lt' isOther]

/-- The lesser character has the lesser encoding, whatever follows. -/
theorem utf8EncodeChar_append_lt {first second : Char} (less : first < second)
    (left right : List UInt8) :
    String.utf8EncodeChar first ++ left < String.utf8EncodeChar second ++ right := by
  have below : first.val.toNat < second.val.toNat := less
  have bound : second.val.toNat < 0x110000 := by
    have valid := second.valid
    simp only [UInt32.isValidChar, Nat.isValidChar] at valid
    omega
  -- The digits to base 64, of which the leading one of four is below 8.
  have digits (code : Nat) : code / 64 / 64 = code / 4096 ∧ code / 4096 / 64 = code / 262144 :=
    ⟨Nat.div_div_eq_div_mul .., Nat.div_div_eq_div_mul ..⟩
  have leading (code : Nat) (valid : code < 0x110000) : code / 262144 % 8 = code / 262144 :=
    Nat.mod_eq_of_lt (by omega)
  have firstDigits := digits first.val.toNat
  have secondDigits := digits second.val.toNat
  have firstLeading := leading first.val.toNat (Nat.lt_trans below bound)
  have secondLeading := leading second.val.toNat bound
  clear digits leading
  simp only [String.utf8EncodeChar]
  generalize first.val.toNat = m at *
  generalize second.val.toNat = n at *
  -- Either the encoding of the lesser character would be longer, or bytes are compared.
  repeat' split
  all_goals first
    | omega
    | simp (disch := omega) only [List.cons_append, List.nil_append, ofNat_cons_lt_iff]
      omega

/-- Encoding keeps the order of texts. -/
theorem utf8_lt_utf8 {first second : String} (less : first < second) :
    utf8 first < utf8 second := by
  have ordered : first.toList < second.toList := less
  unfold utf8
  generalize first.toList = left at ordered ⊢
  generalize second.toList = right at ordered ⊢
  induction ordered with
  | nil =>
      rename_i c rest
      rw [List.flatMap_nil, List.flatMap_cons]
      obtain ⟨byte, later, encoded⟩ :=
        List.exists_cons_of_ne_nil (String.utf8EncodeChar_ne_nil (c := c))
      rw [encoded]
      exact List.nil_lt_cons ..
  | rel below =>
      rw [List.flatMap_cons, List.flatMap_cons]
      exact utf8EncodeChar_append_lt below ..
  | cons _ ih =>
      rw [List.flatMap_cons, List.flatMap_cons]
      exact List.append_left_lt ih

/-- Texts with the same encoding are the same. -/
theorem utf8_injective : Function.Injective utf8 := by
  intro first second same
  refine String.le_antisymm (String.not_lt.mp fun less => ?_) (String.not_lt.mp fun less => ?_)
  · exact List.lt_irrefl _ (same ▸ utf8_lt_utf8 less)
  · exact List.lt_irrefl _ (same ▸ utf8_lt_utf8 less)

end AccessPolicy.Text
