import Signpost.Source.Load
import Signpost.Table.Dispatch
import Signpost.Table.Resolve

/-!
The router: a route table that is loaded, changed and asked. Every operation gives its answer
together with the table afterwards and the events that an observer sees, in order. A load that fails
leaves the table as it was.
-/

namespace Signpost

inductive DispatchOutcome where
  | matched
  | headFallback
  | notFound
  deriving Repr, DecidableEq

inductive Metric where
  | dispatch (outcome : DispatchOutcome)
  | resolution (found : Bool)
  | reload (loaded : Bool)
  | routes (count : Nat)
  deriving Repr, DecidableEq

/-- How a metric is reported: a counter by one, a gauge as it stands. -/
def Metric.text : Metric → String
  | dispatch .matched => "router_dispatch_total:matched+1"
  | dispatch .headFallback => "router_dispatch_total:head_fallback+1"
  | dispatch .notFound => "router_dispatch_total:not_found+1"
  | resolution true => "router_reverse_total:resolved+1"
  | resolution false => "router_reverse_total:no_handler+1"
  | reload true => "router_reload_total:loaded+1"
  | reload false => "router_reload_total:failed+1"
  | routes count => String.ofList ("router_routes=".toList ++ Text.decimal count)

/-- What an observer of a router sees. -/
inductive Event where
  | metric (m : Metric)
  /-- A table was loaded; it is listed. -/
  | loaded (listing : Text)
  /-- A change in the sources made the table be loaded again. -/
  | reloaded
  deriving Repr, DecidableEq

def Event.message? : Event → Option String
  | metric _ => none
  | loaded listing => some ("Loaded routes: \n\t" ++ String.ofList listing)
  | reloaded => some "Routes reloaded"

def Event.metric? : Event → Option Metric
  | metric m => some m
  | _ => none

/-- The answer of an operation, the table after it, and what was to be seen. -/
structure Outcome (α : Type) where
  answer : α
  table : RouteTable
  events : List Event := []

namespace RouteTable

/-- The empty table, never loaded. -/
def empty : RouteTable := {}

def ofRoutes (routes : List Route) : RouteTable :=
  { routes }

/-- Loads every source, at the moment `now`, into a new table; the answer is the number of its
routes. -/
def load (t : RouteTable) (sources : List Source) (now : File.Time) :
    Outcome (Except LoadError Nat) :=
  match Source.loadAll sources with
  | .error e => ⟨.error e, t, [.metric (.reload false)]⟩
  | .ok routes =>
    let loaded : RouteTable := ⟨routes, some now⟩
    ⟨.ok loaded.size, loaded,
      [.loaded loaded.listing, .metric (.reload true), .metric (.routes loaded.size)]⟩

/-- Loads the sources again if one is newer than the table, or the table was never loaded; the
answer is whether it was loaded. -/
def detectChanges (t : RouteTable) (sources : List Source) (now : File.Time) :
    Outcome (Except LoadError Bool) :=
  match Source.anyNewer t.loadedAt sources with
  | .error e => ⟨.error e, t, []⟩
  | .ok false => ⟨.ok false, t, []⟩
  | .ok true =>
    let o := t.load sources now
    ⟨o.answer.map fun _ => true, o.table, o.events⟩

inductive Reload where
  | unchanged
  | reloaded (count : Nat)
  | failed (e : LoadError)
  deriving DecidableEq

def reloadIfChanged (t : RouteTable) (sources : List Source) (now : File.Time) : Outcome Reload :=
  let o := t.detectChanges sources now
  match o.answer with
  | .ok true => ⟨.reloaded o.table.size, o.table, o.events ++ [.reloaded]⟩
  | .ok false => ⟨.unchanged, o.table, o.events⟩
  | .error e => ⟨.failed e, o.table, o.events⟩

/-- A changed table, with its size reported. -/
def changed (t : RouteTable) : Outcome Unit :=
  ⟨(), t, [.metric (.routes t.size)]⟩

/-- Removes every route, and forgets when the table was loaded. -/
def clear (_ : RouteTable) : Outcome Unit :=
  changed empty

/-- The request was for a head and a route for whole answers serves it. -/
def servesHead (request : Request) (route : Route) : Bool :=
  Text.eqIgnoreCase request.method headMethod && route.method == getMethod

def dispatchMetric (result : Except RoutingError Route) (request : Request) : Metric :=
  match result with
  | .ok route => if servesHead request route then .dispatch .headFallback else .dispatch .matched
  | .error _ => .dispatch .notFound

def route (t : RouteTable) (request : Request) : Outcome (Except RoutingError Route × Request) :=
  let (result, request) := t.dispatch request
  ⟨(result, request), t, [.metric (dispatchMetric result request)]⟩

def reverse (t : RouteTable) (action : Text) (args : Args) (current : Option Request) :
    Outcome (Except RoutingError Resolution) :=
  let result := t.resolve action args current
  ⟨result, t, [.metric (.resolution result.isOk)]⟩

/-- The whole address of an action, as seen from a request. -/
def fullUrl (t : RouteTable) (action : Text) (args : Args) (current : Request) :
    Outcome (Except RoutingError Text) :=
  let o := t.reverse action args (some current)
  ⟨o.answer.map fun d => current.baseUrl ++ d.url, o.table, o.events⟩

end RouteTable

end Signpost
