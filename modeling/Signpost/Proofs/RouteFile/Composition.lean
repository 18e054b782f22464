import Signpost.Proofs.Source.InOrder
import Signpost.Proofs.Text.Cut
import Signpost.RouteFile.Basic

/-!
Route files put one behind the other. Reading goes over the lines that have a route, each with its
number, so a file that is made of two is read as its parts are, with the lines of the second as many
further down as the first has. Main statement: `RouteFile.read_composes`.
-/

namespace Signpost

/-- The route with the line that it was declared on `n` lines further down. -/
def Route.movedDown (n : Nat) (r : Route) : Route :=
  { r with origin := r.origin.map fun o => { o with line := o.line.map (· + n) } }

def Location.movedDown (n : Nat) : Location → Location
  | line number => line (number + n)
  | operation method path => operation method path

namespace LoadError

/-- The error with the line that it is about `n` lines further down. -/
def movedDown (n : Nat) : LoadError → LoadError
  | syntaxError name number fault => syntaxError name (number + n) fault
  | route name place cause => route name (place.movedDown n) cause
  | io name cause => io name cause
  | openApi name fault => openApi name fault

/-- The line that an error names. -/
def line? : LoadError → Option Nat
  | syntaxError _ number _ => some number
  | route _ (.line number) _ => some number
  | _ => none

end LoadError

namespace RouteFile

/-- What was read, with all lines `n` further down. -/
def movedDown (n : Nat) (outcome : Except LoadError (List Route)) : Except LoadError (List Route) :=
  (outcome.map (List.map (Route.movedDown n))).mapError (LoadError.movedDown n)

/-- The text has no line without an end. -/
def EndsLine (t : Text) : Prop :=
  t = [] ∨ t.getLast? = some '\n'

/-- The lines that are neither blank nor comments, each with its number, when the first of all lines
has the given one. -/
def routeLines (number : Nat) (lines : List Text) : List (Text × Nat) :=
  (lines.zipIdx number).filter fun line => !isIdle (Text.trim line.1)

def readNumbered (name : Text) (line : Text × Nat) : Except LoadError Route :=
  readRoute name line.2 (Text.trim line.1)

theorem routeLines_append (number : Nat) (front back : List Text) :
    routeLines number (front ++ back) =
      routeLines number front ++ routeLines (number + front.length) back := by
  rw [routeLines, List.zipIdx_append, List.filter_append, routeLines, routeLines]

theorem routeLines_add (number n : Nat) (lines : List Text) :
    routeLines (number + n) lines = (routeLines number lines).map fun line =>
      (line.1, line.2 + n) := by
  have hmoved : lines.zipIdx (number + n) = (lines.zipIdx number).map fun line =>
      (line.1, line.2 + n) := by
    rw [Nat.add_comm, ← List.map_snd_add_zipIdx_eq_zipIdx]
    rfl
  rw [routeLines, hmoved, List.filter_map, routeLines]
  rfl

theorem readLines_eq_mapM (name : Text) (number : Nat) (lines : List Text) :
    readLines name number lines = (routeLines number lines).mapM (readNumbered name) := by
  induction lines generalizing number with
  | nil => rfl
  | cons raw rest ih =>
    have hlines : routeLines number (raw :: rest) =
        if isIdle (Text.trim raw) then routeLines (number + 1) rest
        else (raw, number) :: routeLines (number + 1) rest := by
      rw [routeLines, List.zipIdx_cons, List.filter_cons, routeLines]
      cases isIdle (Text.trim raw) <;> rfl
    rw [readLines, hlines]
    split_ifs
    · exact ih (number + 1)
    · rw [List.mapM_cons, ← ih]
      rfl

theorem readNumbered_add (name : Text) (n : Nat) (line : Text × Nat) :
    readNumbered name (line.1, line.2 + n) =
      ((readNumbered name line).map (Route.movedDown n)).mapError (LoadError.movedDown n) := by
  unfold readNumbered readRoute
  cases readLine (Text.trim line.1) with
  | error fault => rfl
  | ok d =>
    have hplaced := Route.compile_placed d
    simp only [hplaced (some ⟨name, some (line.2 + n)⟩), hplaced (some ⟨name, some line.2⟩)]
    cases Route.compile d <;> rfl

theorem readLines_add (name : Text) (number n : Nat) (lines : List Text) :
    readLines name (number + n) lines = movedDown n (readLines name number lines) := by
  rw [readLines_eq_mapM, readLines_eq_mapM, routeLines_add]
  induction routeLines number lines with
  | nil => rfl
  | cons line rest ih =>
    rw [List.map_cons, List.mapM_cons, List.mapM_cons, ih, readNumbered_add]
    cases readNumbered name line with
    | error e => rfl
    | ok route => cases rest.mapM (readNumbered name) <;> rfl

theorem readLines_append (name : Text) (number : Nat) (front back : List Text) :
    readLines name number (front ++ back) = (do
      let routes ← readLines name number front
      return routes ++ (← movedDown front.length (readLines name number back))) := by
  rw [← readLines_add, readLines_eq_mapM, routeLines_append, List.mapM_append, ← readLines_eq_mapM,
    ← readLines_eq_mapM]

/-- Whatever follows a text that ends in a line feed, its lines come first, and there is one for
each line feed. -/
theorem EndsLine.lines_append {a : Text} (ha : EndsLine a) :
    ∃ front, front.length = a.count '\n' ∧ ∀ b, Text.lines (a ++ b) = front ++ Text.lines b := by
  rcases ha with rfl | hlast
  · exact ⟨[], rfl, fun b => rfl⟩
  · obtain ⟨t, rfl⟩ := List.getLast?_eq_some_iff.mp hlast
    refine ⟨Text.lines t, ?_, fun b => ?_⟩
    · simp [Text.lines]
    · rw [List.append_assoc, List.singleton_append, Text.lines, Text.splitOn_append_cons]
      rfl

theorem readNumbered_origin {name : Text} {line : Text × Nat} {route : Route}
    (h : readNumbered name line = .ok route) :
    route.origin = some ⟨name, some line.2⟩ := by
  unfold readNumbered readRoute at h
  split at h
  · cases h
  · split at h
    · cases h
    · next r hcompile =>
      obtain rfl := Except.ok.inj h
      exact (Route.compile_compiledFrom hcompile).origin

theorem readNumbered_line {name : Text} {line : Text × Nat} {e : LoadError}
    (h : readNumbered name line = .error e) :
    e.line? = some line.2 := by
  unfold readNumbered readRoute at h
  split at h
  · obtain rfl := Except.error.inj h
    rfl
  · split at h
    · obtain rfl := Except.error.inj h
      rfl
    · cases h

/-- Two files, the first of which ends a line, make one. Its reading gives the routes of the first
and then those of the second, or the error of the first that has one, and everything that is told of
the second names a line that is as many lines further down as the first file has. Whatever the file,
it is read with a route for each line that is neither blank nor a comment, in order and each with
the number of its line, or with the error of the first such line that cannot be read, which names
that line. -/
theorem read_composes (name : Text) :
    (∀ a b, EndsLine a → read name (a ++ b) = (do
      let routes ← read name a
      return routes ++ (← movedDown (a.count '\n') (read name b)))) ∧
    ∀ content,
      (∀ routes, read name content = .ok routes ↔
        List.Forall₂ (fun line route =>
          readNumbered name line = .ok route ∧ route.origin = some ⟨name, some line.2⟩)
          (routeLines 1 (Text.lines content)) routes) ∧
      ∀ e, read name content = .error e ↔
        ∃ before line after, routeLines 1 (Text.lines content) = before ++ line :: after ∧
        (∀ l ∈ before, ∃ route, readNumbered name l = .ok route) ∧
        readNumbered name line = .error e ∧ e.line? = some line.2 := by
  refine ⟨fun a b ha => ?_, fun content => ⟨fun routes => ?_, fun e => ?_⟩⟩
  · obtain ⟨front, hlength, hlines⟩ := ha.lines_append
    -- behind the last line feed of `a` there is one more piece, which is blank
    have hfront : read name a = readLines name 1 front := by
      have ha := hlines []
      rw [List.append_nil] at ha
      have hidle : movedDown front.length (readLines name 1 (Text.lines [])) = .ok [] := rfl
      rw [read, ha, readLines_append, hidle]
      cases readLines name 1 front with
      | error e => rfl
      | ok routes => simp [bind, Except.bind, pure, Except.pure]
    rw [hfront, read, hlines, readLines_append, hlength]
    rfl
  · rw [read, readLines_eq_mapM, Except.mapM_eq_ok_iff]
    constructor
    · exact fun h => h.imp fun line route hread => ⟨hread, readNumbered_origin hread⟩
    · exact fun h => h.imp fun line route hread => hread.1
  · rw [read, readLines_eq_mapM, Except.mapM_eq_error_iff]
    constructor
    · rintro ⟨before, line, after, hlines, hbefore, hline⟩
      exact ⟨before, line, after, hlines, hbefore, hline, readNumbered_line hline⟩
    · rintro ⟨before, line, after, hlines, hbefore, hline, -⟩
      exact ⟨before, line, after, hlines, hbefore, hline⟩

/-- A file with a comment and a blank line, and behind it one that fails on its second line. -/
theorem read_composes_faulty :
    EndsLine "# users\r\nGET /users Users.list\n\n".toList ∧
      (∃ routes, read "routes".toList "# users\r\nGET /users Users.list\n\n".toList = .ok routes) ∧
      read "routes".toList ("# users\r\nGET /users Users.list\n\n".toList ++
        "POST /users Users.create\nGET /y\n".toList) =
        .error (.syntaxError "routes".toList 5 .missingAction) := by
  have hends : EndsLine "# users\r\nGET /users Users.list\n\n".toList := .inr (by decide)
  have hreads : (read "routes".toList "# users\r\nGET /users Users.list\n\n".toList).toOption.any
      (·.length == 1) = true := by decide +kernel
  have hfails : read "routes".toList "POST /users Users.create\nGET /y\n".toList =
      .error (.syntaxError "routes".toList 2 .missingAction) := by decide +kernel
  obtain ⟨routes, hroutes, -⟩ := Except.exists_of_any hreads
  obtain ⟨hcomposes, -⟩ := read_composes "routes".toList
  refine ⟨hends, ⟨routes, hroutes⟩, ?_⟩
  rw [hcomposes _ _ hends, hroutes, hfails]
  rfl

end RouteFile

end Signpost
