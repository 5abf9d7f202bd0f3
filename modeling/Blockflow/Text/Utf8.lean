/-! # UTF-8 -/

namespace Blockflow.Text.Utf8

/-- The bytes of a text. -/
def encode (text : String) : List UInt8 :=
  text.toList.flatMap String.utf8EncodeChar

def isTail (byte : UInt8) : Bool := 0x80 ≤ byte && byte ≤ 0xBF

def payload (byte : UInt8) : Nat := byte.toNat % 64

def secondOfThree (lead byte : UInt8) : Bool :=
  if lead == 0xE0 then 0xA0 ≤ byte && byte ≤ 0xBF
  else if lead == 0xED then 0x80 ≤ byte && byte ≤ 0x9F
  else isTail byte

def secondOfFour (lead byte : UInt8) : Bool :=
  if lead == 0xF0 then 0x90 ≤ byte && byte ≤ 0xBF
  else if lead == 0xF4 then 0x80 ≤ byte && byte ≤ 0x8F
  else isTail byte

/-- The character at the front, or `none` for an ill-formed piece, and the bytes behind it. -/
def next (lead : UInt8) (rest : List UInt8) : Option Char × List UInt8 :=
  if lead < 0x80 then (some (Char.ofNat lead.toNat), rest)
  else if 0xC2 ≤ lead && lead ≤ 0xDF then
    match rest with
    | b :: tail =>
      if isTail b then (some (Char.ofNat (lead.toNat % 32 * 64 + payload b)), tail)
        else (none, rest)
    | [] => (none, rest)
  else if 0xE0 ≤ lead && lead ≤ 0xEF then
    match rest with
    | b :: c :: tail =>
      if !secondOfThree lead b then (none, rest)
      else if isTail c then
        (some (Char.ofNat (lead.toNat % 16 * 4096 + payload b * 64 + payload c)), tail)
      else (none, c :: tail)
    | [b] => if secondOfThree lead b then (none, []) else (none, rest)
    | [] => (none, rest)
  else if 0xF0 ≤ lead && lead ≤ 0xF4 then
    match rest with
    | b :: c :: d :: tail =>
      if !secondOfFour lead b then (none, rest)
      else if !isTail c then (none, c :: d :: tail)
      else if isTail d then
        (some (Char.ofNat
          (lead.toNat % 8 * 262144 + payload b * 4096 + payload c * 64 + payload d)), tail)
      else (none, d :: tail)
    | [b, c] =>
      if !secondOfFour lead b then (none, rest)
      else if isTail c then (none, []) else (none, [c])
    | [b] => if secondOfFour lead b then (none, []) else (none, rest)
    | [] => (none, rest)
  else (none, rest)

/-- The characters and ill-formed pieces of the bytes; every step takes at least one byte. -/
def pieces : Nat → List UInt8 → List (Option Char)
  | 0, _ => []
  | _ + 1, [] => []
  | fuel + 1, lead :: rest =>
    let (piece, rest) := next lead rest
    piece :: pieces fuel rest

/-- The text of some bytes, if all are valid. -/
def decode? (bytes : List UInt8) : Option String :=
  ((pieces bytes.length bytes).mapM id).map String.ofList

/-- The text of any bytes, with U+FFFD for each ill-formed piece. -/
def decodeLossy (bytes : List UInt8) : String :=
  String.ofList ((pieces bytes.length bytes).map (·.getD (Char.ofNat 0xFFFD)))

end Blockflow.Text.Utf8
