import JsonSchema.Format.Address
import JsonSchema.Json.Literal

/-!
# Parts of a URI

A URI is cut into scheme, authority, path, query and fragment, and put together again. Cutting
drops leading blanks and controls and every tab and line end. Only an authority can be at fault.
-/

namespace JsonSchema.Uri

abbrev Chars := List Char

/-! ## Faults -/

inductive Fault where
  | unbalancedBrackets
  | badFutureAddress
  | notAnAddress (host : String)
  | dottedInBrackets
  /-- A character that turns into a delimiter when its compatibility form is taken. -/
  | hiddenDelimiter (authority : String)
deriving DecidableEq, Repr

def Fault.message : Fault → String
  | .unbalancedBrackets => "Invalid IPv6 URL"
  | .badFutureAddress => "IPvFuture address is invalid"
  | .notAnAddress host => stringLiteral host ++ " does not appear to be an IPv4 or IPv6 address"
  | .dottedInBrackets => "An IPv4 address cannot be in brackets"
  | .hiddenDelimiter authority =>
    "netloc '" ++ authority ++ "' contains invalid characters under NFKC normalization"

/-! ## Schemes -/

/-- The schemes whose references may be relative; a missing scheme counts among them. -/
def relativeSchemes : List String :=
  ["", "ftp", "http", "gopher", "nntp", "imap", "wais", "file", "https", "shttp", "mms",
    "prospero", "rtsp", "rtsps", "rtspu", "sftp", "svn", "svn+ssh", "ws", "wss"]

/-- The schemes that have an authority. -/
def authoritySchemes : List String :=
  ["", "ftp", "http", "gopher", "nntp", "telnet", "imap", "wais", "file", "mms", "https", "shttp",
    "snews", "prospero", "rtsp", "rtsps", "rtspu", "rsync", "svn", "svn+ssh", "sftp", "nfs", "git",
    "git+ssh", "ws", "wss"]

/-- The schemes whose last path segment may have parameters after a semicolon. -/
def parameterSchemes : List String :=
  ["", "ftp", "hdl", "prospero", "http", "imap", "https", "shttp", "rtsp", "rtsps", "rtspu", "sip",
    "sips", "mms", "sftp", "tel"]

def isAsciiLetter (c : Char) : Bool := c.isAlpha

def isSchemeChar (c : Char) : Bool := c.isAlphanum || c == '+' || c == '-' || c == '.'

/-- The scheme in front of the first colon and the rest; without one the `base` scheme holds. -/
def cutScheme (base : String) (cs : Chars) : String × Chars :=
  match cutChars? ':' cs with
  | some (c :: scheme, rest) =>
    if isAsciiLetter c && scheme.all isSchemeChar then
      (lowerAscii (String.ofList (c :: scheme)), rest)
    else (base, cs)
  | _ => (base, cs)

/-! ## Authorities -/

def isAuthorityEnd (c : Char) : Bool := c == '/' || c == '?' || c == '#'

def cutAuthority (cs : Chars) : Chars × Chars :=
  match cs with
  | '/' :: '/' :: rest =>
    (rest.takeWhile (!isAuthorityEnd ·), rest.dropWhile (!isAuthorityEnd ·))
  | _ => ([], cs)

/-- The compatibility forms of these characters hold a slash or another delimiter. -/
def hiddenDelimiters : List Nat :=
  [8263, 8264, 8265, 65046, 65110, 65311, 8448, 8449, 8453, 8454, 65295, 10868, 65043, 65109, 65306,
    65119, 65283, 65131, 65312]

/-- `v`, a hexadecimal number, a point and anything. -/
def isFutureAddress (cs : Chars) : Bool :=
  match cs with
  | 'v' :: rest =>
    let version := rest.takeWhile fun c => (JsonReader.hexValue? c).isSome
    match rest.dropWhile fun c => (JsonReader.hexValue? c).isSome with
    | '.' :: tail => !version.isEmpty && !tail.isEmpty && !tail.contains '\n'
    | _ => false
  | _ => false

def bracketedHostFault? (host : Chars) : Option Fault :=
  if host.head? == some 'v' then
    if isFutureAddress host then none else some .badFutureAddress
  else if Address.isDotted host then some .dottedInBrackets
  else if Address.isColon host then none
  else some (.notAnAddress (String.ofList host))

def bracketFault? (authority : Chars) : Option Fault :=
  match authority.contains '[', authority.contains ']' with
  | false, false => none
  | true, true =>
    let afterBracket := (authority.dropWhile (· != '[')).drop 1
    bracketedHostFault? (afterBracket.takeWhile (· != ']'))
  | _, _ => some .unbalancedBrackets

/-! ## Cutting and joining -/

structure Parts where
  scheme : String
  authority : Chars
  path : Chars
  query : Chars
  fragment : Chars
deriving DecidableEq, Repr

def isLeadingJunk (c : Char) : Bool := decide (c.toNat ≤ 32)

def isRemoved (c : Char) : Bool := c == '\t' || c == '\r' || c == '\n'

/-- What stands before and after the first `mark`; without one, all of it stands before. -/
def cutAt (mark : Char) (cs : Chars) : Chars × Chars := (cutChars? mark cs).getD (cs, [])

def cleaned (cs : Chars) : Chars := (cs.dropWhile isLeadingJunk).filter (!isRemoved ·)

/-- The parts of a text; `scheme` holds for one that has none of its own. -/
def cutParts (scheme : String) (cs : Chars) : Parts :=
  let (scheme, rest) := cutScheme scheme cs
  let (authority, rest) := cutAuthority rest
  let (rest, fragment) := cutAt '#' rest
  let (path, query) := cutAt '?' rest
  { scheme, authority, path, query, fragment }

def authorityFault? (authority : Chars) : Option Fault :=
  match bracketFault? authority with
  | some fault => some fault
  | none =>
    if authority.any fun c => hiddenDelimiters.contains c.toNat then
      some (.hiddenDelimiter (String.ofList authority))
    else none

/-- Cuts a URI; `scheme` holds for a text that has none of its own. -/
def split (scheme : String) (cs : Chars) : Except Fault Parts :=
  let parts := cutParts scheme (cleaned cs)
  match authorityFault? parts.authority with
  | some fault => .error fault
  | none => .ok parts

def marked (mark : Char) (cs : Chars) : Chars := if cs.isEmpty then [] else mark :: cs

def Parts.chars (parts : Parts) : Chars :=
  let hasAuthority := !parts.authority.isEmpty ||
    (parts.scheme != "" && authoritySchemes.contains parts.scheme) ||
    startsWithChars ['/', '/'] parts.path
  let path :=
    if hasAuthority then
      let rooted := if parts.path.isEmpty || parts.path.head? == some '/' then parts.path
        else '/' :: parts.path
      '/' :: '/' :: parts.authority ++ rooted
    else parts.path
  let start := if parts.scheme == "" then [] else parts.scheme.toList ++ [':']
  start ++ path ++ marked '?' parts.query ++ marked '#' parts.fragment

/-- A path whose parameters stand apart. -/
structure ParameterPath where
  path : Chars
  parameters : Chars

/-- Cuts the parameters off the last segment, where the scheme has them. -/
def cutParameters (scheme : String) (path : Chars) : ParameterPath :=
  if parameterSchemes.contains scheme && path.contains ';' then
    match cutLastChars? '/' path with
    | some (before, last) =>
      match cutChars? ';' last with
      | some (name, parameters) => ⟨before ++ '/' :: name, parameters⟩
      | none => ⟨path, []⟩
    | none => let (name, parameters) := cutAt ';' path; ⟨name, parameters⟩
  else ⟨path, []⟩

/-- Empty parameters leave no mark. -/
def ParameterPath.chars (p : ParameterPath) : Chars := p.path ++ marked ';' p.parameters

/-- All parts but the fragment, put together again. -/
def Parts.withoutFragment (parts : Parts) : String :=
  let path := (cutParameters parts.scheme parts.path).chars
  String.ofList { parts with path, fragment := [] }.chars

/-- The URI without its fragment, and the fragment. -/
def defragment (uri : String) : Except Fault (String × String) :=
  if uri.toList.contains '#' then do
    let parts ← split "" uri.toList
    return (parts.withoutFragment, String.ofList parts.fragment)
  else .ok (uri, "")

end JsonSchema.Uri
