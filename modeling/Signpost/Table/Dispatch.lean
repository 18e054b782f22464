import Signpost.Request
import Signpost.Table.Basic

/-!
Dispatching a request to the first route that serves it. The query of a request may override its
method, and a `HEAD` request that no route serves is tried once more as `GET`.
-/

namespace Signpost

/-- The methods that a query may ask for. -/
def overridingMethods : List Text :=
  ["GET".toList, "PUT".toList, "POST".toList, "DELETE".toList, "PATCH".toList]

def overrideMark : Text := "x-http-method-override=".toList

/-- The method that a query asks for: the one behind the first mark that has a method behind it. -/
def overridingMethod? : Text → Option Text
  | [] => none
  | c :: rest =>
    let here := (Text.stripStart? overrideMark (c :: rest)).bind fun behind =>
      overridingMethods.find? fun m => m.isPrefixOf behind
    here <|> overridingMethod? rest

namespace Request

def withOverride (r : Request) : Request :=
  match overridingMethod? r.query with
  | some m => { r with method := m }
  | none => r

def toQuery (r : Request) : Signpost.Query :=
  ⟨r.method, r.routingPath, r.format, r.host⟩

end Request

/-- The action that arguments make of a template: each name between braces gives way to its value,
one name after the other. -/
def fillAction (action : Text) (args : TextMap Text) : Text :=
  if '{' ∈ action then
    args.entries.foldl (fun t e => Text.replaceAll ('{' :: e.1 ++ ['}']) e.2 t) action
  else action

/-- The request with the outcome of dispatching it to a route: a `format` argument sets its
format. -/
def Request.answered (r : Request) (route : Route) (args : TextMap Text) : Request :=
  { r with
    format := match args.get? Route.formatArg with
      | some f => MediaType.ofFormat? f
      | none => r.format
    routeArgs := args
    action := some (fillAction route.action args) }

/-- The methods of requests for a head and for a whole answer. -/
def RouteTable.headMethod : Text := "HEAD".toList

def RouteTable.getMethod : Text := "GET".toList

namespace Request

/-- The request, with the method its query asks for, is for a head. -/
def asksHead (r : Request) : Bool :=
  Text.eqIgnoreCase r.withOverride.method RouteTable.headMethod

/-- The request with the method its query asks for, then with the method for a whole answer. -/
def asGet (r : Request) : Request :=
  { r.withOverride with method := RouteTable.getMethod }

end Request

theorem overridingMethod?_mem {query m : Text} (h : overridingMethod? query = some m) :
    m ∈ overridingMethods := by
  induction query with
  | nil => simp [overridingMethod?] at h
  | cons c rest ih =>
    simp only [overridingMethod?, Option.orElse_eq_orElse, Option.orElse_eq_or,
      Option.or_eq_some_iff] at h
    rcases h with here | ⟨_, later⟩
    · obtain ⟨behind, _, found⟩ := Option.bind_eq_some_iff.mp here
      exact List.mem_of_find?_eq_some found
    · exact ih later

namespace Request

theorem withOverride_method (r : Request) :
    r.withOverride.method = (overridingMethod? r.query).getD r.method := by
  unfold withOverride
  split <;> simp [*]

/-- A request that was turned into one for a whole answer is not for a head, whatever its query asks
for. -/
@[simp]
theorem asksHead_asGet (r : Request) : r.asGet.asksHead = false := by
  unfold asksHead
  rw [withOverride_method]
  cases hm : overridingMethod? r.asGet.query with
  | none =>
    show Text.eqIgnoreCase RouteTable.getMethod RouteTable.headMethod = false
    decide
  | some m =>
    have hverbs : ∀ m ∈ overridingMethods, Text.eqIgnoreCase m RouteTable.headMethod = false := by
      decide
    exact hverbs m (overridingMethod?_mem hm)

end Request

namespace RouteTable

/-- Dispatches a request: the route, or the error, and the request afterwards. A request for a head
that no route serves is dispatched once more as one for a whole answer; afterwards it is for a head
again. -/
def dispatch (t : RouteTable) (request : Request) : Except RoutingError Route × Request :=
  let r := request.withOverride
  match firstServing r.toQuery t.routes with
  | some (route, args) => (.ok route, r.answered route args)
  | none =>
    if _h : request.asksHead then
      let (result, after) := t.dispatch request.asGet
      let after := { after with method := headMethod }
      (result.mapError fun _ => .noRouteFound after.method after.path, after)
    else (.error (.noRouteFound r.method r.path), r)
termination_by request.asksHead.toNat
decreasing_by
  rw [Request.asksHead_asGet, ‹request.asksHead = true›]
  decide

end RouteTable

end Signpost
