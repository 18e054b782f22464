import Signpost.Args

/-!
What can go wrong in routing: the causes, and the message of each.
-/

namespace Signpost

/-- What is wrong with the template of a route. -/
inductive TemplateFault where
  | noSlash (template : Text)
  | badName (name template : Text)
  | repeatedName (name template : Text)
  deriving Repr, DecidableEq

def TemplateFault.message : TemplateFault → String
  | noSlash template => "path `" ++ String.ofList template ++ "` must contain '/'"
  | badName name template =>
    "argument `" ++ String.ofList name ++ "` in `" ++ String.ofList template ++
      "` must start with a letter or '_'"
  | repeatedName name template =>
    "argument `" ++ String.ofList name ++ "` appears twice in `" ++ String.ofList template ++ "`"

/-- Why a route cannot be compiled, a request not dispatched or an action not resolved. -/
inductive RoutingError where
  | noRouteFound (method path : Text)
  | noHandlerFound (action : Text) (args : Args)
  | badTemplate (fault : TemplateFault)
  | invalidPattern (pattern : Text)
  deriving DecidableEq

/-- The message of an error. What is wrong with an invalid pattern is left open. -/
def RoutingError.message : RoutingError → String
  | noRouteFound method path =>
    "No route found for " ++ String.ofList method ++ " " ++ String.ofList path
  | noHandlerFound action args =>
    "No handler found for action " ++ String.ofList action ++ " with args " ++
      String.ofList (Args.described args)
  | badTemplate fault => "Route file parsing error: " ++ fault.message
  | invalidPattern pattern => "Invalid pattern `" ++ String.ofList pattern ++ "`"

end Signpost
