import Signpost.Settings.Basic

/-!
What can be wrong with settings beyond their kinds. Every fault is reported, in the order of the
settings.
-/

namespace Signpost

inductive SettingsFault where
  | noSources
  | emptySource (index : Nat)
  | noInterval
  | relativeContextPath (path : Text)
  | relativeServletPath (path : Text)
  | unknownLogLevel (level : Text)
  deriving Repr, DecidableEq

namespace SettingsFault

def field : SettingsFault → Text
  | noSources => "routes.sources".toList
  | emptySource i => "routes.sources[".toList ++ Text.decimal i ++ [']']
  | noInterval => "watch.poll_interval_secs".toList
  | relativeContextPath _ => "request.context_path".toList
  | relativeServletPath _ => "request.servlet_path".toList
  | unknownLogLevel _ => "observability.log_level".toList

/-- What is said of a path that does not start at the root. -/
def relativeMessage (path : Text) : Text :=
  ['`'] ++ path ++ "` must start with '/'".toList

def message : SettingsFault → Text
  | noSources => "at least one route source is required".toList
  | emptySource _ => "empty path".toList
  | noInterval => "must be greater than 0 when watching is enabled".toList
  | relativeContextPath path => relativeMessage path
  | relativeServletPath path => relativeMessage path
  | unknownLogLevel level => "unknown level `".toList ++ level ++ ['`']

def text (f : SettingsFault) : Text :=
  f.field ++ [':', ' '] ++ f.message

end SettingsFault

namespace Settings

def logLevels : List Text :=
  ["trace".toList, "debug".toList, "info".toList, "warn".toList, "error".toList]

/-- The empty paths among sources, of which the first has an index. -/
def emptySources (first : Nat) : List Text → List SettingsFault
  | [] => []
  | [] :: rest => .emptySource first :: emptySources (first + 1) rest
  | (_ :: _) :: rest => emptySources (first + 1) rest

/-- The path is there but does not start at the root. -/
def isRelative (path : Text) : Bool :=
  path.head?.any (· != '/')

def sourceFaults (s : Settings) : List SettingsFault :=
  if s.sources = [] then [.noSources] else emptySources 0 s.sources

def faults (s : Settings) : List SettingsFault :=
  s.sourceFaults ++
    (if s.watch.enabled && s.watch.interval == 0 then [.noInterval] else []) ++
    (if isRelative s.request.contextPath then [.relativeContextPath s.request.contextPath]
      else []) ++
    (if isRelative s.request.servletPath then [.relativeServletPath s.request.servletPath]
      else []) ++
    (if logLevels.contains (Text.lowerAscii s.logLevel) then [] else [.unknownLogLevel s.logLevel])

end Settings

end Signpost
