import Signpost.CommandLine.Run

/-!
The program. It reads the files that its arguments and the settings name, and leaves all else to
`CommandLine.ending`. Where sources are watched, it looks at them again and again and loads them
when one has changed.
-/

namespace Signpost.Program

open CommandLine

def readError : IO.Error → File.ReadError
  | .inappropriateType .. => .notDirectory
  | .resourceVanished .. => .notFound
  | _ => .notFound

/-- What is found at a path. Its time is not asked for. -/
def sourceAt (path : Text) : IO Source := do
  let content ← try
      let bytes ← IO.FS.readBinFile (String.ofList path)
      pure (match Text.ofBytes? (bytes.toList.map UInt8.toNat) with
        | some t => .ok t
        | none => .error .notText)
    catch e => pure (.error (readError e))
  return ⟨path, content, .ok 0⟩

def found (sources : List Source) (path : Text) : Source :=
  (sources.find? (·.name == path)).getD ⟨path, .error .notFound, .error .notFound⟩

def gather (i : Invocation) : IO (List Source) := do
  let file ← sourceAt i.settingsFile
  match Settings.load file with
  | .ok settings => return file :: (← settings.sources.mapM sourceAt)
  | .error _ => return [file]

def textOf (s : Source) : Option Text :=
  s.content.toOption

/-- Looks at sources again and again, and loads them when one has changed. -/
partial def watch (settings : Settings) (t : RouteTable) (seen : List Source) : IO Unit := do
  IO.sleep (settings.watch.interval.toUInt32 * 1000)
  let sources ← settings.sources.mapM sourceAt
  if sources.map textOf = seen.map textOf then watch settings t sources
  else
    let o := t.load sources 0
    match o.answer with
    | .ok count => IO.println s!"reloaded: {count} routes"
    | .error e => IO.eprintln s!"reload failed: {e.message}"
    watch settings o.table sources

def watchIfAsked (i : Invocation) (files : List Source) : IO Unit :=
  match i.command, Settings.load (found files i.settingsFile) with
  | .watch, .ok settings =>
    if settings.watch.enabled then
      let sources := settings.sources.map (found files)
      watch settings (RouteTable.empty.load sources 0).table sources
    else pure ()
  | _, _ => pure ()

def finish (e : Ending) : IO UInt32 := do
  IO.print (String.ofList e.output)
  IO.eprint (String.ofList e.errors)
  return e.code

end Signpost.Program

open Signpost in
def main (arguments : List String) : IO UInt32 := do
  let arguments := arguments.map String.toList
  let files ← match CommandLine.Invocation.ofArguments arguments with
    | .ok i => Program.gather i
    | .error _ => pure []
  let e := CommandLine.ending arguments (Program.found files) 0
  let code ← Program.finish e
  match CommandLine.Invocation.ofArguments arguments with
  | .ok i => if e.code = 0 then Program.watchIfAsked i files
  | .error _ => pure ()
  return code
