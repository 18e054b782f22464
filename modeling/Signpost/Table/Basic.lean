import Signpost.Route.Basic
import Signpost.Source.Basic

/-!
Route tables: routes in order of precedence. The first route that serves a request answers it.
-/

namespace Signpost

/-- A table of routes, and when it was loaded from its sources, if it was. -/
structure RouteTable where
  routes : List Route := []
  loadedAt : Option File.Time := none
  deriving DecidableEq

namespace RouteTable

def size (t : RouteTable) : Nat :=
  t.routes.length

/-- The first route of a list that serves a request, with the arguments that the request gives
it. -/
def firstServing (q : Query) : List Route → Option (Route × TextMap Text)
  | [] => none
  | r :: rest =>
    match r.argsFor? q with
    | some args => some (r, args)
    | none => firstServing q rest

/-- The name under which a look-up reports the action. -/
def actionKey : Text := "action".toList

/-- The arguments and the action of the route that serves a request, or nothing when no route
does. -/
def lookup (t : RouteTable) (q : Query) : TextMap Text :=
  match firstServing q t.routes with
  | some (route, args) => args.insert actionKey route.action
  | none => ∅

def resolveActions (t : RouteTable) (action : Text) : List Route :=
  t.routes.filter fun r => r.template.actionPattern.isMatch action

/-- The table with a route at a position, or at the end when the position lies beyond it. -/
def insertAt (t : RouteTable) (position : Nat) (r : Route) : RouteTable :=
  { t with routes := t.routes.take position ++ r :: t.routes.drop position }

def append (t : RouteTable) (r : Route) : RouteTable :=
  { t with routes := t.routes ++ [r] }

def prepend (t : RouteTable) (r : Route) : RouteTable :=
  { t with routes := r :: t.routes }

def listing (t : RouteTable) : Text :=
  Text.join ['\n', '\t'] (t.routes.map Route.columns)

end RouteTable

end Signpost
