import Signpost.Error
import Signpost.Regex.Reader

/-!
The arguments of a route: a name, and the constraint that a value has to meet. A constraint is a
pattern that has to match the whole value.
-/

namespace Signpost

structure Pattern where
  source : Text
  regex : Regex
  deriving Repr, DecidableEq

namespace Pattern

def read (ignoreCase : Bool) (source : Text) : Except RoutingError Pattern :=
  match Regex.read? ignoreCase source with
  | some regex => .ok ⟨source, regex⟩
  | none => .error (.invalidPattern source)

/-- The pattern text that matches a whole text just when `source` does. -/
def whole (source : Text) : Text :=
  "^(?:".toList ++ source ++ ")$".toList

/-- Some piece of the text matches; for a pattern made by `whole`, the text itself. -/
def isMatch (p : Pattern) (t : Text) : Bool :=
  p.regex.isMatch t

def captures? (p : Pattern) (t : Text) : Option Captures :=
  p.regex.captures? t

end Pattern

/-- The constraint of a placeholder that has none of its own: a piece of a path. -/
def pathConstraint : Text := "[^/]+".toList

/-- The constraint of the placeholder of a host: anything. -/
def hostConstraint : Text := ".*".toList

structure Argument where
  name : Text
  constraint : Text
  pattern : Pattern
  /-- The host template, on the argument that is bound from the host. -/
  default : Option Text := none
  /-- Without a value, the argument takes the empty one. -/
  fallback : Bool := false
  deriving Repr, DecidableEq

namespace Argument

def read (name constraint : Text) : Except RoutingError Argument := do
  return { name, constraint, pattern := ← Pattern.read false (Pattern.whole constraint) }

/-- The argument is bound from the host rather than the path. -/
def isHost (a : Argument) : Bool :=
  a.default.isSome

def accepts (a : Argument) (value : Text) : Bool :=
  a.pattern.isMatch value

/-- The argument may be left out of a path. No template says so. -/
def isOptional (_ : Argument) : Bool :=
  false

end Argument

end Signpost
