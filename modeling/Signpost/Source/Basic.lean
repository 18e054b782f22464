import Signpost.Error
import Signpost.Text.Decimal
import Signpost.File.Tree

/-!
Sources of routes, and what can go wrong when one is loaded. A source is a name with what reading it
gives now; the extension of the name tells in which form the routes are written.
-/

namespace Signpost

open File (Time ReadError)

/-- A source of routes as it is found now. -/
structure Source where
  name : Text
  content : Except ReadError Text
  modified : Except ReadError Time

namespace Source

def ofText (name content : Text) (modified : Time) : Source :=
  ⟨name, .ok content, .ok modified⟩

def ofFile (tree : File.Tree) (path : Text) : Source :=
  ⟨path, tree.read path, tree.modified path⟩

/-- The name has this extension, up to case. -/
def hasExtension (name : Text) (extension : String) : Bool :=
  (File.extension? name).any fun e => Text.eqIgnoreCase e extension.toList

/-- The source is an OpenAPI document rather than a route file. -/
def isOpenApi (name : Text) : Bool :=
  hasExtension name "yml" || hasExtension name "yaml" || hasExtension name "json"

end Source

inductive LineFault where
  | missingMethod
  | invalidMethod (method : Text)
  | missingPath
  | missingAction
  | unterminatedStaticArgs
  | notKeyValue (pair : Text)
  | missingKey (pair : Text)
  | unterminatedFormats
  | invalidFormat (item : Text)
  | trailingInput (rest : Text)
  deriving Repr, DecidableEq

def LineFault.message : LineFault → String
  | missingMethod => "missing method"
  | invalidMethod method => "invalid method `" ++ String.ofList method ++ "`"
  | missingPath => "missing path"
  | missingAction => "missing action"
  | unterminatedStaticArgs => "unterminated static args"
  | notKeyValue pair => "static arg `" ++ String.ofList pair ++ "` is not key:value"
  | missingKey pair => "static arg `" ++ String.ofList pair ++ "` has no key"
  | unterminatedFormats => "unterminated format list"
  | invalidFormat item => "invalid format `" ++ String.ofList item ++ "`"
  | trailingInput rest => "unexpected trailing input `" ++ String.ofList rest ++ "`"

/-- Where in a source a route stands: on a line, or at an operation of a document. -/
inductive Location where
  | line (n : Nat)
  | operation (method path : Text)
  deriving Repr, DecidableEq

def Location.text : Location → Text
  | line n => "line ".toList ++ Text.decimal n
  | operation method path => Text.upperAscii method ++ [' '] ++ path

inductive DocumentFault where
  | unreadable
  | missingPaths
  deriving Repr, DecidableEq

/-- The message of a faulty document. Why it cannot be read is left open. -/
def DocumentFault.message : DocumentFault → String
  | unreadable => "not a document"
  | missingPaths => "missing `paths` object"

inductive LoadError where
  | io (name : Text) (cause : ReadError)
  | syntaxError (name : Text) (line : Nat) (fault : LineFault)
  | route (name : Text) (location : Location) (cause : RoutingError)
  | openApi (name : Text) (fault : DocumentFault)
  deriving DecidableEq

def LoadError.message : LoadError → String
  | io name cause => "Failed to read route source " ++ String.ofList name ++ ": " ++ cause.message
  | syntaxError name line fault =>
    String.ofList (name ++ [':'] ++ Text.decimal line) ++ ": " ++ fault.message
  | route name location cause =>
    String.ofList (name ++ [' ', '('] ++ location.text) ++ "): " ++ cause.message
  | openApi name fault => "Invalid OpenAPI document " ++ String.ofList name ++ ": " ++ fault.message

end Signpost
