import Signpost.Json.Reader
import Signpost.OpenApi
import Signpost.RouteFile.Basic
import Signpost.Yaml.Reader

/-!
Loading sources. The extension of a source's name tells whether it is an OpenAPI document or a route
file. Several sources are loaded one after the other, and the first error ends the loading.
-/

namespace Signpost.Source

/-- Reads a document, as JSON or as YAML. -/
def readDocument (name content : Text) : Except LoadError Document :=
  let document := if hasExtension name "json" then Json.read? content else Yaml.read? content
  match document with
  | some d => .ok d
  | none => .error (.openApi name .unreadable)

def parse (name content : Text) : Except LoadError (List Route) :=
  if isOpenApi name then do OpenApi.read name (← readDocument name content)
  else RouteFile.read name content

def load (s : Source) : Except LoadError (List Route) :=
  match s.content with
  | .ok content => parse s.name content
  | .error cause => .error (.io s.name cause)

def loadAll : List Source → Except LoadError (List Route)
  | [] => .ok []
  | s :: rest => do
    let routes ← s.load
    return routes ++ (← loadAll rest)

/-- Some source is newer than a moment, or there was no such moment. The sources are asked in order
up to the first that is; one whose time cannot be read is an error. -/
def anyNewer (loadedAt : Option File.Time) : List Source → Except LoadError Bool
  | [] => .ok false
  | s :: rest =>
    match s.modified with
    | .error cause => .error (.io s.name cause)
    | .ok modified =>
      match loadedAt with
      | none => .ok true
      | some moment => if moment < modified then .ok true else anyNewer loadedAt rest

end Signpost.Source
