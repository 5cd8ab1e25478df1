import BitSynth.Text.Quoted

namespace BitSynth.Text

/-- Whether a byte continues a UTF-8 sequence within the given bounds. -/
def between (b lo hi : UInt8) : Bool := lo ≤ b && b ≤ hi

/-- The character that a valid UTF-8 sequence starts the bytes with, and the bytes after it;
`none` when the first byte does not start a valid sequence. Overlong forms, surrogates and code
points past U+10FFFF are invalid. -/
def decodeChar? : List UInt8 → Option (Char × List UInt8)
  | [] => none
  | b0 :: rest =>
    if b0 < 0x80 then some (Char.ofNat b0.toNat, rest)
    else if between b0 0xC2 0xDF then
      match rest with
      | b1 :: r => if between b1 0x80 0xBF then
          some (Char.ofNat ((b0.toNat &&& 0x1F) * 64 + (b1.toNat &&& 0x3F)), r) else none
      | _ => none
    else if between b0 0xE0 0xEF then
      let lo : UInt8 := if b0 == 0xE0 then 0xA0 else 0x80
      let hi : UInt8 := if b0 == 0xED then 0x9F else 0xBF
      match rest with
      | b1 :: b2 :: r =>
        if between b1 lo hi && between b2 0x80 0xBF then
          some (Char.ofNat ((b0.toNat &&& 0x0F) * 4096 + (b1.toNat &&& 0x3F) * 64 + (b2.toNat &&& 0x3F)), r)
        else none
      | _ => none
    else if between b0 0xF0 0xF4 then
      let lo : UInt8 := if b0 == 0xF0 then 0x90 else 0x80
      let hi : UInt8 := if b0 == 0xF4 then 0x8F else 0xBF
      match rest with
      | b1 :: b2 :: b3 :: r =>
        if between b1 lo hi && between b2 0x80 0xBF && between b3 0x80 0xBF then
          some (Char.ofNat ((b0.toNat &&& 0x07) * 262144 + (b1.toNat &&& 0x3F) * 4096 +
            (b2.toNat &&& 0x3F) * 64 + (b3.toNat &&& 0x3F)), r)
        else none
      | _ => none
    else none

/-- The bytes as characters and single invalid bytes, each read at the first position it can be. -/
def decodeBytes : Nat → List UInt8 → List (Char ⊕ UInt8)
  | 0, _ => []
  | _, [] => []
  | fuel + 1, b :: rest =>
    match decodeChar? (b :: rest) with
    | some (c, after) => .inl c :: decodeBytes fuel after
    | none => .inr b :: decodeBytes fuel rest

def ofBytes? (bs : List UInt8) : Option String := String.fromUTF8? (ByteArray.mk bs.toArray)

def ofBytesLossy (bs : List UInt8) : String :=
  match ofBytes? bs with
  | some s => s
  | none =>
    String.ofList ((decodeBytes (bs.length + 1) bs).map fun x =>
      match x with
      | .inl c => c
      | .inr _ => '�')

def bytesOf (s : String) : List UInt8 := s.toUTF8.toList

/-- The bytes between double quotes: characters escaped as text is, invalid bytes as `\xNN`. -/
def quoteBytes (bs : List UInt8) : String :=
  let inner := (decodeBytes (bs.length + 1) bs).map fun x =>
    match x with
    | .inl c => escapeChar '"' c
    | .inr b => "\\x" ++ hexDigits 2 b.toNat
  "\"" ++ String.join inner ++ "\""

def hexOf (bs : List UInt8) : String := String.join (bs.map fun b => hexDigits 2 b.toNat)

end BitSynth.Text
