import Signpost.Route.Guard
import Signpost.Template.Compiled

/-!
Routes. A route is compiled from a definition once; then it tells which requests it serves and with
which arguments. The value of a static argument goes over what the path or the host gives to an
argument of the same name.
-/

namespace Signpost

/-- Where a route was declared: the source, and the line if the source has lines. -/
structure Origin where
  source : Text
  line : Option Nat
  deriving Repr, DecidableEq

structure RouteDefinition where
  /-- The method, or a star for any. -/
  method : Text
  /-- The path template, with a host template in front of it if the route has one. -/
  path : Text
  action : Text
  staticArgs : TextMap Text := ∅
  formats : List MediaType := []
  origin : Option Origin := none
  deriving DecidableEq

namespace RouteDefinition

/-- The definition with a host template, unless it has one. -/
def withHost (d : RouteDefinition) (host : Text) : RouteDefinition :=
  if host ≠ [] ∧ d.path.head? = some '/' then { d with path := host ++ d.path } else d

def withStaticArg (d : RouteDefinition) (name value : Text) : RouteDefinition :=
  { d with staticArgs := d.staticArgs.insert name value }

def withFormat (d : RouteDefinition) (m : MediaType) : RouteDefinition :=
  { d with formats := d.formats ++ [m] }

end RouteDefinition

structure Route where
  /-- The method in capital letters, or a star. -/
  method : Text
  action : Text
  formats : List MediaType
  staticArgs : TextMap Text
  template : CompiledTemplate
  guard : Guard
  origin : Option Origin
  deriving DecidableEq

namespace Route

/-- The static argument that pins the format of a route. -/
def formatArg : Text := "format".toList

/-- The format that a static argument pins, if it names one. -/
def pinnedFormat? (staticArgs : TextMap Text) : Option MediaType :=
  (staticArgs.get? formatArg).bind MediaType.ofFormat?

/-- The formats of a route: those declared and the pinned one. -/
def allFormats (declared : List MediaType) : Option MediaType → List MediaType
  | some m => if m ∈ declared then declared else declared ++ [m]
  | none => declared

/-- Compiles a definition. A pinned format is declared too, and then the route serves only requests
that ask for a format. -/
def compile (d : RouteDefinition) : Except RoutingError Route := do
  let template ← CompiledTemplate.compile d.path d.action
  let pinned := pinnedFormat? d.staticArgs
  let formats := allFormats d.formats pinned
  let method := Text.upperAscii (Text.trim d.method)
  return {
    method, formats, template
    action := d.action
    staticArgs := d.staticArgs
    guard := .allOf [.ofMethod method, .format formats pinned.isSome, .host template.hostPattern]
    origin := d.origin }

def path (r : Route) : Text :=
  r.template.path

/-- The host template, empty for routes on any host. -/
def host (r : Route) : Text :=
  r.template.host.raw

/-- The value that a request gives to an argument, with what the groups of the path pattern took. -/
def boundValue (r : Route) (q : Query) (taken : Captures) (a : Argument) : Option Text :=
  if a.isHost then q.host.map fun h => r.template.host.valueIn (Text.lowerAscii h)
  else taken.get? a.name

/-- The arguments that a request gives to the route, or `none` when the route does not serve it. -/
def argsFor? (r : Route) (q : Query) : Option (TextMap Text) :=
  if r.guard.holds q then
    (r.template.pathPattern.captures? q.path).map fun taken =>
      let bound :=
        r.template.arguments.filterMap fun a => (r.boundValue q taken a).map fun v => (a.name, v)
      (TextMap.ofList bound).overlay r.staticArgs
  else none

def text (r : Route) : Text :=
  r.method ++ [' '] ++ r.host ++ r.path ++ " -> ".toList ++ r.action

def columns (r : Route) : Text :=
  Text.padRight 8 r.method ++ Text.padRight 60 r.path ++ Text.padRight 60 r.action ++
    Text.padRight 22 (MediaType.join r.formats)

end Route

end Signpost
