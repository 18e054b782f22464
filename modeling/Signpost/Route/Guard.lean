import Signpost.MediaType
import Signpost.Template.Argument

/-!
Conditions on a request that are checked before its path: method, format and host.
-/

namespace Signpost

/-- The parts of a request that a route is matched against. -/
structure Query where
  method : Text
  path : Text
  format : Option MediaType
  host : Option Text
  deriving Repr, DecidableEq

inductive Guard where
  | always
  /-- The method, in capital letters; a star stands for any. -/
  | method (m : Text)
  /-- The format is one of those declared. Nothing declared admits every format, and a request that
  asks for none passes unless a format is required. -/
  | format (declared : List MediaType) (required : Bool)
  /-- The host matches a pattern, if there is one; a request without host passes. -/
  | host (pattern : Option Pattern)
  | both (a b : Guard)
  deriving Repr, DecidableEq

namespace Guard

/-- The condition on a method, however it is written. -/
def ofMethod (m : Text) : Guard :=
  method (Text.upperAscii m)

def allOf (gs : List Guard) : Guard :=
  gs.foldr both always

/-- A route for `declared` serves requests with `asked`: the same method up to case, any for a star,
and `HEAD` as well as `GET`. -/
def servesMethod (declared asked : Text) : Bool :=
  declared == ['*'] || Text.eqIgnoreCase asked declared ||
    (Text.eqIgnoreCase asked "HEAD".toList && declared == "GET".toList)

def holds : Guard → Query → Bool
  | always, _ => true
  | method m, q => servesMethod m q.method
  | format declared required, q =>
    match q.format with
    | some accepted => declared.isEmpty || declared.any accepted.includes
    | none => !required
  | host pattern, q =>
    match pattern, q.host with
    | some p, some h => p.isMatch (Text.lowerAscii h)
    | _, _ => true
  | both a b, q => a.holds q && b.holds q

end Guard

end Signpost
