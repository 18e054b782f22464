import Signpost.Request

/-!
The settings of a router: where its routes are, whether they are watched, what the current request
is taken to be where there is none, and what is logged.
-/

namespace Signpost

structure WatchSettings where
  enabled : Bool := true
  /-- Seconds between two looks at sources that do not tell of their changes. -/
  interval : Nat := 2
  deriving Repr, DecidableEq

/-- What a request has where nothing else is known of it. -/
structure RequestSettings where
  contextPath : Text := []
  servletPath : Text := []
  host : Text := "localhost".toList
  port : Option UInt16 := none
  secure : Bool := false
  /-- A format, by its short name or as a media type. -/
  format : Option Text := none
  deriving Repr, DecidableEq

structure Settings where
  sources : List Text := []
  watch : WatchSettings := {}
  request : RequestSettings := {}
  logLevel : Text := "info".toList
  deriving Repr, DecidableEq

/-- The request with a method and a path that these settings describe. A format that is none is left
out. -/
def RequestSettings.request (s : RequestSettings) (method path : Text) : Request :=
  { method, path
    contextPath := s.contextPath
    servletPath := s.servletPath
    host := some s.host
    port := s.port
    secure := s.secure
    format := s.format.bind MediaType.ofFormat? }

end Signpost
