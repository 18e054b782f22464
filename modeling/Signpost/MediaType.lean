import Signpost.Text.Blank

/-!
Media types and the relation between what a request accepts and what a route declares. A type is
read from its text, without parameters, or from the short name of a format; `MediaType.includes` is
the order of acceptance.
-/

namespace Signpost

/-- A media type: kind and subtype, in small ASCII letters. -/
structure MediaType where
  kind : Text
  subtype : Text
  deriving Repr, DecidableEq

namespace MediaType

/-- The star, which stands for any kind or subtype. -/
def wildcard : Text := ['*']

def new (kind subtype : Text) : MediaType :=
  ⟨Text.lowerAscii kind, Text.lowerAscii subtype⟩

def all : MediaType :=
  new wildcard wildcard

def text (m : MediaType) : Text :=
  m.kind ++ '/' :: m.subtype

def join (ms : List MediaType) : Text :=
  Text.join [',', ' '] (ms.map text)

/-- The text in front of the parameters, trimmed. -/
def essence (t : Text) : Text :=
  Text.trim (t.takeWhile (· ≠ ';'))

/-- Reads a media type. Parameters do not count, a lone star accepts everything, and a star for the
kind asks for a star as subtype. -/
def parse? (t : Text) : Option MediaType :=
  let e := essence t
  if e = wildcard then some all
  else match Text.cutFirst '/' e with
    | none => none
    | some (kind, subtype) =>
      let kind := Text.trim kind
      let subtype := Text.trim subtype
      if kind = [] ∨ subtype = [] ∨ '/' ∈ subtype then none
      else if kind = wildcard ∧ subtype ≠ wildcard then none
      else some (new kind subtype)

/-- The media type under the short name of a format; unknown names are kinds of application data. -/
def named (name : Text) : MediaType :=
  let name := Text.lowerAscii name
  match String.ofList name with
  | "html" | "htm" => new "text".toList "html".toList
  | "txt" | "text" => new "text".toList "plain".toList
  | "css" => new "text".toList "css".toList
  | "csv" => new "text".toList "csv".toList
  | "js" => new "application".toList "javascript".toList
  | "atom" => new "application".toList "atom+xml".toList
  | "rss" => new "application".toList "rss+xml".toList
  | "yaml" | "yml" => new "application".toList "yaml".toList
  | _ => new "application".toList name

/-- Reads a format: a media type in full, or a short name. Blank text names none. -/
def ofFormat? (t : Text) : Option MediaType :=
  let t := Text.trim t
  if t = [] then none
  else if '/' ∈ t then parse? t
  else some (named t)

def isWildcardKind (m : MediaType) : Bool :=
  m.kind == wildcard

/-- The subtype is a star, alone or in front of a suffix. -/
def isWildcardSubtype (m : MediaType) : Bool :=
  m.subtype == wildcard || ['*', '+'].isPrefixOf m.subtype

/-- The suffix that a subtype such as `*+xml` asks for. -/
def wantedSuffix? (m : MediaType) : Option Text :=
  match m.subtype with
  | '*' :: '+' :: suffix => some suffix
  | _ => none

/-- The suffix of a subtype such as `atom+xml`: what follows its last plus sign. -/
def suffix? (m : MediaType) : Option Text :=
  (Text.cutLast '+' m.subtype).map (·.2)

/-- A request that accepts `m` accepts `other`. -/
def includes (m other : MediaType) : Bool :=
  if m.isWildcardKind then true
  else if m.kind ≠ other.kind then false
  else if m.subtype = other.subtype ∨ m.subtype = wildcard then true
  else match m.wantedSuffix?, other.suffix? with
    | some wanted, some suffix => wanted == suffix
    | _, _ => false

end MediaType

def MediaType.read (t : Text) : Except String MediaType :=
  match MediaType.parse? t with
  | some m => .ok m
  | none => .error ("invalid media type: " ++ String.ofList t)

end Signpost
