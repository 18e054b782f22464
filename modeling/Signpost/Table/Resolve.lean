import Signpost.Request
import Signpost.Table.Basic
import Signpost.Unicode.Lowercase

/-!
Resolving an action to a URL. A route is tried with its own copy of the arguments; the first route
whose action pattern accepts the action, whose arguments all have admissible values, and whose
static arguments agree, gives the URL. Arguments that the route does not use go into the query.
-/

namespace Signpost

namespace Route

/-- The arguments together with those that the action itself gives, in small letters. -/
def withActionArgs (r : Route) (taken : Captures) (args : Args) : Args :=
  r.template.actionArguments.foldl
    (fun working name => match taken.get? name with
      | some v => working.insert name (.single (Unicode.lowercase v))
      | none => working)
    args

/-- Binds arguments of a route in order: each to its first value, which has to be deferred or
admissible, or to the empty text if it falls back on that. Gives the arguments with the empty ones
added, and the values bound. -/
def bindArguments : List Argument → Args → TextMap Text → Option (Args × TextMap Text)
  | [], working, bound => some (working, bound)
  | a :: rest, working, bound =>
    match (working.get? a.name).bind ArgValue.first? with
    | some v =>
      if isDeferred v || a.accepts v then bindArguments rest working (bound.insert a.name v)
      else none
    | none =>
      if a.fallback then bindArguments rest (working.insert a.name (.single []))
        (bound.insert a.name [])
      else none

/-- A static argument agrees with the arguments given; the format agrees with that of the current
request. -/
def staticAgrees (working : Args) (format : Option MediaType) (name expected : Text) : Bool :=
  if name = formatArg then
    match format with
    | some m => MediaType.ofFormat? expected == some m
    | none => false
  else working.get? name == some (.single expected)

/-- Where an application is mounted, as the start of a path. -/
def mountPoint (path : Text) : Text :=
  match path with
  | [] | ['/'] => []
  | '/' :: _ => path
  | _ => '/' :: path

/-- The name and value pairs of the query: the arguments that are neither bound nor static, in order
of their names. -/
def queryPairs (r : Route) (working : Args) (bound : TextMap Text) : List (Text × Text) :=
  (working.entries.filter fun (k, _) => !(bound.contains k || r.staticArgs.contains k)).flatMap
    fun (k, v) => v.values.map fun item => (k, item)

def pairText (pair : Text × Text) : Text :=
  Url.encode pair.1 ++ '=' :: Url.encodeValue pair.2

def withPairs (path : Text) (pairs : List (Text × Text)) : Text :=
  match pairs with
  | [] => path
  | _ => path ++ '?' :: Text.join ['&'] (pairs.map pairText)

/-- The path of a route, where the current request says that it is mounted. -/
def mountedPath (r : Route) (bound : TextMap Text) (current : Option Request) : Text :=
  let path := r.template.renderPath bound
  match current with
  | some c => mountPoint c.contextPath ++ (mountPoint c.servletPath ++ path)
  | none => path

/-- Host and URL of a route for an action and arguments, or `none` when the route cannot stand for
them. -/
def urlFor? (r : Route) (action : Text) (args : Args) (current : Option Request) :
    Option (Text × Text) := do
  let taken ← r.template.actionPattern.captures? action
  let (working, bound) ← bindArguments r.template.arguments (r.withActionArgs taken args) ∅
  if r.staticArgs.entries.all fun (k, v) => staticAgrees working (current.bind (·.format)) k v then
    return (r.template.renderHost bound,
      withPairs (r.mountedPath bound current) (r.queryPairs working bound))
  else none

end Route

/-- An action resolved to a URL. It keeps the table that it was resolved against, so that refining
it does not depend on what has happened to the routes since. -/
structure Resolution where
  /-- The host, empty for routes on any host. -/
  host : Text
  /-- The method of the route; routes for any method are asked for with `GET`. -/
  method : Text
  /-- Path and query, or a whole address once it has been made absolute. -/
  url : Text
  /-- The route takes any method. -/
  anyMethod : Bool
  action : Text
  args : Args
  table : RouteTable
  deriving DecidableEq

namespace RouteTable

def resolveWith? (t : RouteTable) (action : Text) (args : Args) (current : Option Request)
    (r : Route) :
    Option Resolution :=
  (r.urlFor? action args current).map fun (host, url) => {
    host, url, action, args
    method := if r.method = ['*'] then "GET".toList else r.method
    anyMethod := r.method == ['*']
    table := t }

/-- Resolves an action with arguments: the first route that can stand for them gives the URL. -/
def resolve (t : RouteTable) (action : Text) (args : Args) (current : Option Request) :
    Except RoutingError Resolution :=
  match t.routes.findSome? (t.resolveWith? action args current) with
  | some d => .ok d
  | none => .error (.noHandlerFound action args)

end RouteTable

namespace Resolution

def add (d : Resolution) (name : Text) (value : ArgValue) (current : Option Request) :
    Except RoutingError Resolution :=
  d.table.resolve d.action (d.args.insert name value) current

def remove (d : Resolution) (name : Text) (current : Option Request) :
    Except RoutingError Resolution :=
  d.table.resolve d.action (d.args.erase name) current

def addFragment (d : Resolution) (fragment : Text) : Resolution :=
  { d with url := d.url ++ '#' :: fragment }

/-- Makes the URL an address, with the host of the route or else the base address of the current
request. -/
def absolute (d : Resolution) (current : Request) : Resolution :=
  if "http".toList.isPrefixOf d.url then d
  else if d.host = [] then { d with url := current.baseUrl ++ d.url }
  else { d with url := Request.schemeText current.secure ++ d.host ++ d.url }

def secure (d : Resolution) (current : Request) : Resolution :=
  let d :=
    if Text.holds "http://".toList d.url || Text.holds "https://".toList d.url then d
    else d.absolute current
  { d with url := Text.replaceAll "http:".toList "https:".toList d.url }

end Resolution

end Signpost
