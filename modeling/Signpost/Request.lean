import Signpost.Http.Authority
import Signpost.Http.Message
import Signpost.MediaType
import Signpost.Text.Map

/-!
Requests as routing sees them. A request also serves as the current one when an action is resolved:
it says where the application is mounted and under which address it is reached.
-/

namespace Signpost

/-- A request. The last two fields are filled in when it is dispatched. -/
structure Request where
  method : Text := []
  /-- The path, with the path that the application is mounted at. -/
  path : Text := []
  /-- The query without its question mark. -/
  query : Text := []
  format : Option MediaType := none
  host : Option Text := none
  port : Option UInt16 := none
  secure : Bool := false
  /-- Where the application is mounted. -/
  contextPath : Text := []
  /-- Where dispatching is mounted below that. -/
  servletPath : Text := []
  routeArgs : TextMap Text := ∅
  action : Option Text := none
  deriving DecidableEq

namespace Request

/-- The format that the first entry of an accept field asks for; accepting everything is no
preference. -/
def acceptedFormat? (accept : Text) : Option MediaType :=
  (MediaType.parse? (accept.takeWhile (· ≠ ','))).filter (· ≠ MediaType.all)

/-- The request that a message makes. The host comes from its host field or else from its target,
and a proxy may say that the client used a secure connection. -/
def ofMessage (m : Http.Message) : Request :=
  let authority := (m.readableHeader? "host") <|> m.target.authority
  let split := authority.map Http.splitAuthority
  let forwarded :=
    (m.readableHeader? "x-forwarded-proto").any fun proto => Text.eqIgnoreCase proto "https".toList
  { method := m.method
    path := m.target.path
    query := m.target.query.getD []
    format := (m.readableHeader? "accept").bind acceptedFormat?
    host := split.map (·.1)
    port := split.bind (·.2)
    secure := m.target.scheme == some "https".toList || forwarded }

def defaultPort (secure : Bool) : UInt16 :=
  if secure then 443 else 80

def schemeText (secure : Bool) : Text :=
  if secure then "https://".toList else "http://".toList

/-- Scheme, host and port; the port is left out when the scheme implies it. -/
def baseUrl (r : Request) : Text :=
  let address := schemeText r.secure ++ r.host.getD "localhost".toList
  match r.port with
  | some port =>
    if port = defaultPort r.secure then address else address ++ ':' :: Text.decimal port.toNat
  | none => address

/-- The path below the mount point. -/
def routingPath (r : Request) : Text :=
  if r.contextPath = [] ∨ r.contextPath = ['/'] then r.path
  else (Text.stripStart? r.contextPath r.path).getD r.path

end Request

end Signpost
