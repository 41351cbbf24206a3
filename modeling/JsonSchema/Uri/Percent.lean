import JsonSchema.Json.Read
import JsonSchema.Json.Text
import JsonSchema.Text.Utf8

/-!
# Percent-encoding

A percent sign and two hexadecimal digits stand for a byte. A run of ASCII characters is decoded
as one piece of UTF-8, so the bytes of a character have to stand together.
-/

namespace JsonSchema.Uri

/-- The bytes of a run of ASCII characters; a percent sign without two digits stands for itself. -/
def percentBytes : List Char → Bytes
  | [] => []
  | '%' :: a :: b :: rest =>
    match JsonReader.hexValue? a, JsonReader.hexValue? b with
    | some x, some y => UInt8.ofNat (16 * x + y) :: percentBytes rest
    | _, _ => UInt8.ofNat '%'.toNat :: percentBytes (a :: b :: rest)
  | c :: rest => UInt8.ofNat c.toNat :: percentBytes rest

def isAscii (c : Char) : Bool := decide (c.toNat < 128)

/-- The text without its encoding; bytes that are no UTF-8 become replacement characters. -/
def percentDecodeChars (cs : List Char) : List Char :=
  match cs with
  | [] => []
  | c :: rest =>
    if isAscii c then
      decodeUtf8Lossy (percentBytes (c :: rest.takeWhile isAscii)) ++
        percentDecodeChars (rest.dropWhile isAscii)
    else c :: percentDecodeChars rest
termination_by cs.length
decreasing_by
  · have := (List.dropWhile_suffix (l := rest) isAscii).length_le
    simp only [List.length_cons]; omega
  · simp

def percentDecode (s : String) : String := String.ofList (percentDecodeChars s.toList)

/-! ## Encoding -/

/-- A byte that stands for itself in the path of a URI. -/
def isPathByte (b : UInt8) : Bool :=
  let c := Char.ofNat b.toNat
  isAscii c && (c.isAlpha || c.isDigit || ['/', '_', '.', '-', '~'].contains c)

def encodeByte (b : UInt8) : List Char :=
  if isPathByte b then [Char.ofNat b.toNat]
  else ['%', (hexDigit (b.toNat / 16)).toUpper, (hexDigit (b.toNat % 16)).toUpper]

/-- A path as it stands in a URI. -/
def percentEncode (s : String) : String := String.ofList (s.toUTF8.toList.flatMap encodeByte)

end JsonSchema.Uri
