/-! # UTF-8

Bytes are decoded one encoded character at a time. A sequence counts only in its
shortest form, and no surrogate is a character. Decoding stops at the first byte
that begins no valid sequence, and the bytes from there on are left.
-/

namespace AccessPolicy.Text

def utf8 (text : String) : List UInt8 :=
  text.toList.flatMap String.utf8EncodeChar

def continuation? (byte : UInt8) : Option Nat :=
  if 0x80 ≤ byte ∧ byte < 0xc0 then some (byte.toNat - 0x80) else none

/-- The character of a code point that needs at least the given value, unless it
is a surrogate or too large. -/
def charFrom? (least code : Nat) : Option Char :=
  if h : least ≤ code ∧ code.isValidChar then some (Char.ofNatAux code h.2) else none

/-- The character that an encoding starts with, and the bytes after it. -/
def decodeChar? : List UInt8 → Option (Char × List UInt8)
  | [] => none
  | lead :: rest =>
    if lead < 0x80 then (charFrom? 0 lead.toNat).map (·, rest)
    else if lead < 0xc0 then none
    else if lead < 0xe0 then
      match rest with
      | b :: rest => do
        let b ← continuation? b
        let c ← charFrom? 0x80 ((lead.toNat - 0xc0) * 64 + b)
        some (c, rest)
      | _ => none
    else if lead < 0xf0 then
      match rest with
      | a :: b :: rest => do
        let a ← continuation? a
        let b ← continuation? b
        let c ← charFrom? 0x800 (((lead.toNat - 0xe0) * 64 + a) * 64 + b)
        some (c, rest)
      | _ => none
    else if lead < 0xf8 then
      match rest with
      | a :: b :: d :: rest => do
        let a ← continuation? a
        let b ← continuation? b
        let d ← continuation? d
        let c ← charFrom? 0x10000 ((((lead.toNat - 0xf0) * 64 + a) * 64 + b) * 64 + d)
        some (c, rest)
      | _ => none
    else none

/-- A decoded character takes at least one byte. -/
theorem length_of_decodeChar? {bytes rest : List UInt8} {c : Char}
    (decoded : decodeChar? bytes = some (c, rest)) : rest.length < bytes.length := by
  unfold decodeChar? at decoded
  split at decoded
  · simp at decoded
  · repeat' split at decoded
    all_goals
      simp only [Option.map_eq_some_iff, Option.bind_eq_bind, Option.bind_eq_some_iff,
        Option.some.injEq, Prod.mk.injEq, reduceCtorEq] at decoded
    all_goals grind

/-- The longest decodable beginning of a byte sequence, and the bytes left. -/
def decodeUtf8 (bytes : List UInt8) : List Char × List UInt8 :=
  match _decoded : decodeChar? bytes with
  | none => ([], bytes)
  | some (c, rest) =>
    let (later, left) := decodeUtf8 rest
    (c :: later, left)
termination_by bytes.length
decreasing_by exact length_of_decodeChar? _decoded

end AccessPolicy.Text
