import Signpost.Document
import Signpost.Route.Basic
import Signpost.Source.Basic

/-!
OpenAPI documents as sources of routes. Each operation with an identifier is a route; the content
types of its responses are its formats. All else in a document is passed over.
-/

namespace Signpost.OpenApi

/-- The keys of a path that are operations, whatever their case. -/
def operationMethods : List Text :=
  ["get".toList, "put".toList, "post".toList, "delete".toList, "options".toList, "head".toList,
    "patch".toList, "trace".toList]

def staticArgsKey : Text := "x-route-static-args".toList

structure Operation where
  path : Text
  method : Text
  action : Text
  body : Document

/-- The operation under a key of a path, if it is one and has an identifier. -/
def operation? (path : Text) (entry : Document × Document) : Option Operation := do
  let method ← entry.1.text?
  if operationMethods.contains (Text.lowerAscii method) then
    let action ← (entry.2.get? "operationId".toList).bind Document.text?
    return ⟨path, method, action, entry.2⟩
  else none

def operationsOf (entry : Document × Document) : List Operation :=
  match entry.1.text?, entry.2.entries? with
  | some path, some item => item.filterMap (operation? path)
  | _, _ => []

def operations (paths : List (Document × Document)) : List Operation :=
  paths.flatMap operationsOf

/-- The content types that an operation declares: those of its responses, then those it produces. -/
def declaredTypes (body : Document) : List Text :=
  let responses := ((body.get? "responses".toList).bind Document.entries?).getD []
  let contents := responses.flatMap fun (_, response) =>
    (((response.get? "content".toList).bind Document.entries?).getD []).filterMap fun (k, _) =>
      k.text?
  let produced :=
    (((body.get? "produces".toList).bind Document.items?).getD []).filterMap Document.text?
  contents ++ produced

def distinctFormats (seen : List MediaType) : List MediaType → List MediaType
  | [] => []
  | m :: rest =>
    if m ∈ seen then distinctFormats seen rest else m :: distinctFormats (m :: seen) rest

def formats (body : Document) : List MediaType :=
  distinctFormats [] ((declaredTypes body).filterMap MediaType.parse?)

/-- The static arguments of an operation; those that are not scalars do not count. -/
def staticArgs (body : Document) : List (Text × Text) :=
  (((body.get? staticArgsKey).bind Document.entries?).getD []).filterMap fun (k, v) => do
    return (← k.text?, ← v.scalar?)

def definition (name : Text) (o : Operation) : RouteDefinition :=
  { method := o.method, path := o.path, action := o.action
    staticArgs := TextMap.ofList (staticArgs o.body)
    formats := formats o.body
    origin := some ⟨name, none⟩ }

def compileOperation (name : Text) (o : Operation) : Except LoadError Route :=
  match Route.compile (definition name o) with
  | .ok route => .ok route
  | .error cause => .error (.route name (.operation o.method o.path) cause)

/-- The routes of a document, or the first that does not compile. -/
def read (name : Text) (document : Document) : Except LoadError (List Route) :=
  match (document.get? "paths".toList).bind Document.entries? with
  | some paths => (operations paths).mapM (compileOperation name)
  | none => .error (.openApi name .missingPaths)

end Signpost.OpenApi
