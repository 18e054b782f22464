import Signpost.Http.Target

/-!
The head of an HTTP request: method, target and header fields, as far as routing looks at them.
-/

namespace Signpost.Http

structure Message where
  method : Text
  target : Target
  /-- Names, in small letters, and values, in the order of the request. -/
  headers : List (Text × Text)
  deriving Repr, DecidableEq

namespace Message

def isTokenChar (c : Char) : Bool :=
  c.isAlphanum || "!#$%&'*+-.^_`|~".toList.contains c

def isToken (t : Text) : Bool :=
  !t.isEmpty && t.all isTokenChar

/-- Text that may be the value of a header field: no control characters, save the tab. -/
def isFieldValue (t : Text) : Bool :=
  t.all fun c => (32 ≤ c.toNat && c.toNat ≠ 127) || c == '\t'

def read? (method target : Text) (headers : List (Text × Text)) : Option Message := do
  if !isToken method then none
  else if headers.any fun (name, value) => !isToken name || !isFieldValue value then none
  else return ⟨method, ← Target.read? target, headers.map fun (name, value) =>
    (Text.lowerAscii name, value)⟩

/-- The value of the first header field of a name, given in small letters. -/
def header? (m : Message) (name : Text) : Option Text :=
  (m.headers.find? fun h => h.1 == name).map (·.2)

/-- The same, when the value is plain ASCII and so can be read as text. -/
def readableHeader? (m : Message) (name : String) : Option Text :=
  match m.header? name.toList with
  | some value => if value.all fun c => c.toNat < 128 then some value else none
  | none => none

end Message

end Signpost.Http
