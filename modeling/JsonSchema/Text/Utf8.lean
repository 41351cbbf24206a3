/-!
# Decoding bytes

Text arrives as UTF-8, or as UTF-16 behind a byte order mark. A decoder names the first byte of
the sequence that it cannot read and says why.
-/

namespace JsonSchema

abbrev Bytes := List UInt8

inductive DecodingFault where
  | invalidStart
  | invalidContinuation
  | unexpectedEnd
  | truncatedData
  | loneLowSurrogate
  | loneHighSurrogate
deriving DecidableEq, Repr

def DecodingFault.reason : DecodingFault → String
  | .invalidStart => "invalid start byte"
  | .invalidContinuation => "invalid continuation byte"
  | .unexpectedEnd => "unexpected end of data"
  | .truncatedData => "truncated data"
  | .loneLowSurrogate => "illegal encoding"
  | .loneHighSurrogate => "illegal UTF-16 surrogate"

/-- A sequence that cannot be decoded: its first byte, where it starts and how many bytes it has. -/
structure DecodingError where
  fault : DecodingFault
  byte : UInt8
  position : Nat
  length : Nat
deriving DecidableEq, Repr

/-- One character or one fault, with the number of bytes that it takes. -/
inductive Decoded where
  | char (c : Char) (length : Nat)
  | bad (fault : DecodingFault) (length : Nat)

/-! ## UTF-8 -/

/-- The payload of a continuation byte. -/
def continuation? (b : UInt8) : Option Nat :=
  if 0x80 ≤ b ∧ b < 0xC0 then some (b.toNat - 0x80) else none

/-- The second byte of a longer sequence, which may lie between `low` and `high`. -/
def secondByte? (low high b : UInt8) : Option Nat :=
  if low ≤ b ∧ b ≤ high then continuation? b else none

def decodeTwo (head : Nat) : Bytes → Decoded
  | [] => .bad .unexpectedEnd 1
  | b :: _ =>
    match continuation? b with
    | some x => .char (Char.ofNat (head * 64 + x)) 2
    | none => .bad .invalidContinuation 1

def decodeThree (head : Nat) (low high : UInt8) : Bytes → Decoded
  | [] => .bad .unexpectedEnd 1
  | b :: rest =>
    match secondByte? low high b, rest with
    | none, _ => .bad .invalidContinuation 1
    | some _, [] => .bad .unexpectedEnd 2
    | some x, c :: _ =>
      match continuation? c with
      | some y => .char (Char.ofNat ((head * 64 + x) * 64 + y)) 3
      | none => .bad .invalidContinuation 2

def decodeFour (head : Nat) (low high : UInt8) : Bytes → Decoded
  | [] => .bad .unexpectedEnd 1
  | b :: rest =>
    match secondByte? low high b, rest with
    | none, _ => .bad .invalidContinuation 1
    | some _, [] => .bad .unexpectedEnd 2
    | some x, c :: rest =>
      match continuation? c, rest with
      | none, _ => .bad .invalidContinuation 2
      | some _, [] => .bad .unexpectedEnd 3
      | some y, d :: _ =>
        match continuation? d with
        | some z => .char (Char.ofNat (((head * 64 + x) * 64 + y) * 64 + z)) 4
        | none => .bad .invalidContinuation 3

def decodeUtf8Char (b : UInt8) (rest : Bytes) : Decoded :=
  if b < 0x80 then .char (Char.ofNat b.toNat) 1
  else if b < 0xC2 then .bad .invalidStart 1
  else if b < 0xE0 then decodeTwo (b.toNat - 0xC0) rest
  else if b = 0xE0 then decodeThree 0 0xA0 0xBF rest
  else if b = 0xED then decodeThree 13 0x80 0x9F rest
  else if b < 0xF0 then decodeThree (b.toNat - 0xE0) 0x80 0xBF rest
  else if b = 0xF0 then decodeFour 0 0x90 0xBF rest
  else if b = 0xF4 then decodeFour 4 0x80 0x8F rest
  else if b < 0xF4 then decodeFour (b.toNat - 0xF0) 0x80 0xBF rest
  else .bad .invalidStart 1

/-- Decodes the bytes from `position` on; `done` holds the characters so far, last first. -/
def decodeUtf8From (position : Nat) (done : List Char) (bytes : Bytes) :
    Except DecodingError (List Char) :=
  match bytes with
  | [] => .ok done.reverse
  | b :: rest =>
    match decodeUtf8Char b rest with
    | .char c length => decodeUtf8From (position + length) (c :: done) (rest.drop (length - 1))
    | .bad fault length => .error ⟨fault, b, position, length⟩
termination_by bytes.length

def decodeUtf8 (bytes : Bytes) : Except DecodingError String :=
  (decodeUtf8From 0 [] bytes).map String.ofList

/-- Decodes bytes and puts a replacement character for each sequence that is no text. -/
def decodeUtf8Lossy (bytes : Bytes) : List Char :=
  match bytes with
  | [] => []
  | b :: rest =>
    match decodeUtf8Char b rest with
    | .char c length => c :: decodeUtf8Lossy (rest.drop (length - 1))
    | .bad _ length => '\uFFFD' :: decodeUtf8Lossy (rest.drop (length - 1))
termination_by bytes.length

/-- The bytes without a byte order mark in front. -/
def dropByteOrderMark : Bytes → Bytes
  | 0xEF :: 0xBB :: 0xBF :: rest => rest
  | bytes => bytes

/-! ## UTF-16 -/

/-- The order of the two bytes of a unit. -/
inductive ByteOrder where
  | littleEndian | bigEndian

def ByteOrder.unit (order : ByteOrder) (a b : UInt8) : Nat :=
  match order with
  | .littleEndian => a.toNat + 256 * b.toNat
  | .bigEndian => 256 * a.toNat + b.toNat

/-- The character that starts with the byte `a`. -/
def decodeUtf16Char (order : ByteOrder) (a : UInt8) : Bytes → Decoded
  | [] => .bad .truncatedData 1
  | b :: rest =>
    let unit := order.unit a b
    if unit < 0xD800 ∨ 0xE000 ≤ unit then .char (Char.ofNat unit) 2
    else if 0xDC00 ≤ unit then .bad .loneLowSurrogate 2
    else
      match rest with
      | c :: d :: _ =>
        let low := order.unit c d
        if 0xDC00 ≤ low ∧ low < 0xE000 then
          .char (Char.ofNat (0x10000 + (unit - 0xD800) * 1024 + (low - 0xDC00))) 4
        else .bad .loneHighSurrogate 2
      | _ => .bad .unexpectedEnd 2

/-- Decodes the bytes from `position` on; `done` holds the characters so far, last first. -/
def decodeUtf16From (order : ByteOrder) (position : Nat) (done : List Char) (bytes : Bytes) :
    Except DecodingError (List Char) :=
  match bytes with
  | [] => .ok done.reverse
  | a :: rest =>
    match decodeUtf16Char order a rest with
    | .char c length =>
      decodeUtf16From order (position + length) (c :: done) (rest.drop (length - 1))
    | .bad fault length => .error ⟨fault, a, position, length⟩
termination_by bytes.length

def decodeUtf16 (order : ByteOrder) (bytes : Bytes) : Except DecodingError String :=
  (decodeUtf16From order 0 [] bytes).map String.ofList

end JsonSchema
