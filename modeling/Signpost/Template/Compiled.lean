import Signpost.Template.Argument
import Signpost.Template.Host
import Signpost.Template.Token

/-!
Route templates, compiled. A template is a host template and a path template in a row; an action
template goes with it. Compiling gives the arguments with their constraints and three patterns: one
for paths, one for hosts and one that tells which actions the route can stand for.

Literal text of a path is part of the pattern, so `/?` in it is a slash that may be left out.
Literal text of a host or an action stands for itself.
-/

namespace Signpost

structure CompiledTemplate where
  path : Text
  host : HostTemplate
  /-- The arguments, that of the host first, then those of the path in order. -/
  arguments : List Argument
  pathPattern : Pattern
  hostPattern : Option Pattern
  actionPattern : Pattern
  /-- The arguments that an action gives when it is resolved, in order. -/
  actionArguments : List Text
  pathTokens : List Token
  deriving DecidableEq

namespace CompiledTemplate

/-- Cuts a template into host and path, at its first slash. -/
def cutHost (template : Text) : Except RoutingError (Text × Text) :=
  if '/' ∈ template then .ok (template.takeWhile (· ≠ '/'), template.dropWhile (· ≠ '/'))
  else .error (.badTemplate (.noSlash template))

/-- The name may stand for an argument of a path: it starts with a letter or an underscore. -/
def isArgumentName (name : Text) : Bool :=
  match name with
  | c :: _ => c.isAlpha || c == '_'
  | [] => false

/-- The arguments of the placeholders of a path, after those in `known`. -/
def readArguments (template : Text) (known : List Argument) :
    List Token → Except RoutingError (List Argument)
  | [] => .ok known
  | .literal _ :: tokens => readArguments template known tokens
  | .placeholder name constraint :: tokens =>
    if !isArgumentName name then .error (.badTemplate (.badName name template))
    else if known.any (·.name == name) then .error (.badTemplate (.repeatedName name template))
    else do
      let argument ← Argument.read name (constraint.getD pathConstraint)
      readArguments template (known ++ [argument]) tokens

def namedGroup (name constraint : Text) : Text :=
  "(?P<".toList ++ name ++ ['>'] ++ constraint ++ [')']

/-- What a token of a path adds to the text of the path pattern. -/
def pathPiece : Token → Text
  | .literal t => t
  | .placeholder name constraint => namedGroup name (constraint.getD pathConstraint)

/-- The host itself, without braces, could be a value of an argument with this name: the name is the
host, or a pattern for it. Then the argument takes the empty value when it has none. -/
def fallsBack (stripped name : Text) : Bool :=
  stripped == name ||
    match Regex.read? false (Pattern.whole name) with
    | some regex => regex.isMatch stripped
    | none => false

/-- The argument that a token of an action names. A placeholder with a constraint of its own names
none. -/
def namedArgument? (arguments : List Argument) : Token → Option Argument
  | .placeholder name none => arguments.find? fun a => a.name == name
  | _ => none

/-- The text of the action pattern and the arguments it captures. The first placeholder that names
an argument captures it, later ones have only to meet its constraint, and all else stands for
itself. -/
def actionPieces (arguments : List Argument) :
    (captured : List Text) → List Token → Text × List Text
  | captured, [] => ([], captured)
  | captured, token :: tokens =>
    match namedArgument? arguments token with
    | some a =>
      if captured.contains a.name then
        let (source, names) := actionPieces arguments captured tokens
        ("(?:".toList ++ a.constraint ++ [')'] ++ source, names)
      else
        let (source, names) := actionPieces arguments (captured ++ [a.name]) tokens
        (namedGroup a.name a.constraint ++ source, names)
    | none =>
      let (source, names) := actionPieces arguments captured tokens
      (Regex.escape token.text ++ source, names)

def optionalSlash : Text := ['/', '?']

def dropOptionalSlash : List Token → List Token
  | [] => []
  | [.literal t] =>
    match Text.stripEnd? optionalSlash t with
    | some [] => []
    | some kept => [.literal kept]
    | none => [.literal t]
  | token :: tokens => token :: dropOptionalSlash tokens

/-- The arguments of a host template: one for its placeholder, if it has one. -/
def hostArguments (host : HostTemplate) : Except RoutingError (List Argument) :=
  match host.placeholder with
  | some name => do
    let argument ← Argument.read name hostConstraint
    return [{ argument with default := some host.raw }]
  | none => .ok []

def readHostPattern (host : HostTemplate) : Except RoutingError (Option Pattern) :=
  match host.patternSource? with
  | some source => some <$> Pattern.read true (Pattern.whole source)
  | none => .ok none

def markFallback (host : HostTemplate) (a : Argument) : Argument :=
  { a with fallback := fallsBack host.stripped a.name }

/-- Compiles a template and the action template that goes with it. -/
def compile (template action : Text) : Except RoutingError CompiledTemplate := do
  let (host, path) ← cutHost template
  let host := HostTemplate.read host
  let tokens := tokenize path
  let found ← readArguments template (← hostArguments host) tokens
  let arguments := found.map (markFallback host)
  let pathPattern ← Pattern.read false (Pattern.whole (tokens.flatMap pathPiece))
  let hostPattern ← readHostPattern host
  let (actionSource, actionArguments) := actionPieces arguments [] (tokenize action)
  let actionPattern ← Pattern.read true (Pattern.whole actionSource)
  return {
    path, host, arguments, pathPattern, hostPattern, actionPattern, actionArguments
    pathTokens := dropOptionalSlash tokens }

/-- The path for given values of the arguments. A placeholder without a value stays as it is
written. -/
def renderPath (c : CompiledTemplate) (values : TextMap Text) : Text :=
  c.pathTokens.flatMap fun token =>
    match token with
    | .literal t => t
    | .placeholder name _ =>
      match values.get? name with
      | some value => Url.encodeValue value
      | none => token.text

def renderHost (c : CompiledTemplate) (values : TextMap Text) : Text :=
  c.host.render values

end CompiledTemplate

end Signpost
