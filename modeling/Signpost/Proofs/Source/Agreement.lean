import Signpost.Proofs.OpenApi.Written
import Signpost.Proofs.Route.Compiled
import Signpost.Proofs.RouteFile.Reading
import Signpost.Source.Load

/-!
Route files and documents agree. Definitions that can be written in both forms are read from either
as the same routes, but for what is told of where they stand, and if one of them does not compile,
reading either form fails with the error of the first such. Main statement: `Source.readers_agree`.
-/

namespace Signpost

/-- The route without what is told of where it stands. -/
def Route.unplaced (r : Route) : Route :=
  { r with origin := none }

namespace Source

/-- Loading a source of this name had the outcome of compiling definitions: the same routes but for
where they stand, or the error that is the cause of the error. -/
inductive Gives (name : Text) :
    Except RoutingError (List Route) → Except LoadError (List Route) → Prop
  | routes {compiled routes : List Route} :
      routes.map Route.unplaced = compiled.map Route.unplaced →
        Gives name (.ok compiled) (.ok routes)
  | fault {place : Location} {cause : RoutingError} :
    Gives name (.error cause) (.error (.route name place cause))

/-- A definition compiled as part of a source. -/
def compileAt (name : Text) (place : Location) (line : Option Nat) (d : RouteDefinition) :
    Except LoadError Route :=
  match Route.compile { d with origin := some ⟨name, line⟩ } with
  | .error cause => .error (.route name place cause)
  | .ok route => .ok route

/-- One more definition in front. -/
theorem Gives.cons {name : Text} {ds : List RouteDefinition}
    {result : Except LoadError (List Route)} (h : Gives name (ds.mapM Route.compile) result)
    (place : Location) (line : Option Nat) (d : RouteDefinition) :
    Gives name ((d :: ds).mapM Route.compile)
      (do let route ← compileAt name place line d; return route :: (← result)) := by
  have hplaced := Route.compile_placed d (some ⟨name, line⟩)
  rw [List.mapM_cons, compileAt, hplaced]
  cases Route.compile d with
  | error cause => exact .fault
  | ok route =>
    generalize ds.mapM Route.compile = outcome at h
    cases h with
    | fault => exact .fault
    | routes hroutes =>
      refine .routes ?_
      rw [List.map_cons, List.map_cons, hroutes]
      rfl

/-- Two sources that had one outcome give the same routes or fail for the same cause. -/
theorem Gives.agree {name name' : Text} {outcome : Except RoutingError (List Route)}
    {result result' : Except LoadError (List Route)} (h : Gives name outcome result)
    (h' : Gives name' outcome result') :
    (∃ cause place place', outcome = .error cause ∧ result = .error (.route name place cause) ∧
      result' = .error (.route name' place' cause)) ∨
    ∃ compiled routes routes',
      outcome = .ok compiled ∧ result = .ok routes ∧ result' = .ok routes' ∧
      routes.map Route.unplaced = routes'.map Route.unplaced ∧
      routes.map Route.unplaced = compiled.map Route.unplaced := by
  cases h with
  | fault =>
    cases h'
    exact .inl ⟨_, _, _, rfl, rfl, rfl⟩
  | routes hroutes =>
    cases h' with
    | routes hroutes' => exact .inr ⟨_, _, _, rfl, rfl, rfl, hroutes.trans hroutes'.symm, hroutes⟩

theorem readRoute_eq_compileAt {d : RouteDefinition} {line : Text} (hd : RouteFile.Writable d)
    (h : RouteFile.Writes d line) (name : Text) (number : Nat) :
    RouteFile.readRoute name number (Text.trim line) =
      compileAt name (.line number) (some number) d := by
  have hread := RouteFile.readLine_writes hd (h.trim hd).1
  unfold RouteFile.readRoute compileAt
  cases hcompile : Route.compile { d with origin := some ⟨name, some number⟩ } <;>
    simp only [hread, hcompile]

theorem gives_readLines {ds : List RouteDefinition} {lines : List Text}
    (h : RouteFile.WritesLines ds lines) (hds : ∀ d ∈ ds, RouteFile.Writable d) (name : Text)
    (number : Nat) :
    Gives name (ds.mapM Route.compile) (RouteFile.readLines name number lines) := by
  induction h generalizing number with
  | done => exact .routes rfl
  | idle hidle hrest ih =>
    rw [RouteFile.readLines]
    simp only [hidle, if_true]
    exact ih hds (number + 1)
  | @route d ds line lines hline hrest ih =>
    obtain ⟨hd, hds⟩ := List.forall_mem_cons.mp hds
    have hidle := hd.not_isIdle (hline.trim hd).2
    rw [RouteFile.readLines]
    simp only [hidle, Bool.false_eq_true, if_false]
    rw [readRoute_eq_compileAt hd hline]
    exact (ih hds (number + 1)).cons (.line number) (some number) d

/-- A definition that can be written in both forms. -/
structure Portable (d : RouteDefinition) : Prop extends RouteFile.PlainParts d where
  verb : Text.lowerAscii d.method ∈ OpenApi.operationMethods
  distinct : d.formats.Nodup
  args_oneLine : ∀ arg ∈ d.staticArgs.entries, '\n' ∉ arg.1 ∧ '\n' ∉ arg.2
  formats_oneLine : ∀ m ∈ d.formats, '\n' ∉ m.text

instance (d : RouteDefinition) : Decidable (Portable d) :=
  decidable_of_iff (RouteFile.PlainParts d ∧
    OpenApi.operationMethods.contains (Text.lowerAscii d.method) = true ∧
      d.formats.Nodup ∧ (∀ arg ∈ d.staticArgs.entries,
        '\n' ∉ arg.1 ∧ '\n' ∉ arg.2) ∧ ∀ m ∈ d.formats, '\n' ∉ m.text)
    ⟨fun ⟨hparts, hverb, hdistinct, hargs, hformats⟩ =>
        ⟨hparts, List.contains_iff_mem.mp hverb, hdistinct, hargs, hformats⟩,
      fun h => ⟨h.toPlainParts, List.contains_iff_mem.mpr h.verb, h.distinct, h.args_oneLine,
        h.formats_oneLine⟩⟩

theorem Portable.proper {d : RouteDefinition} (h : Portable d) : ∀ m ∈ d.formats, m.Proper :=
  fun m hm => MediaType.proper_iff.mpr (h.formats m hm).1

theorem compileOperation_eq_compileAt {d : RouteDefinition} (hd : Portable d) (name : Text) :
    OpenApi.compileOperation name (OpenApi.operationOf d) =
      compileAt name (.operation d.method d.path) none d := by
  have hdefinition := OpenApi.definition_write hd.proper hd.distinct name
  unfold OpenApi.compileOperation compileAt
  rw [hdefinition]
  cases Route.compile { d with origin := some ⟨name, none⟩ } <;> rfl

theorem gives_mapM_operations {ds : List RouteDefinition} (hds : ∀ d ∈ ds, Portable d)
    (name : Text) :
    Gives name (ds.mapM Route.compile)
      ((ds.map OpenApi.operationOf).mapM (OpenApi.compileOperation name)) := by
  induction ds with
  | nil => exact .routes rfl
  | cons d ds ih =>
    obtain ⟨hd, hds⟩ := List.forall_mem_cons.mp hds
    rw [List.map_cons, List.mapM_cons (f := OpenApi.compileOperation name),
      compileOperation_eq_compileAt hd]
    exact (ih hds).cons _ none d

theorem Portable.isAlpha_method {d : RouteDefinition} (h : Portable d) :
    ∀ c ∈ d.method, c.isAlpha = true := by
  have hverbs : ∀ verb ∈ OpenApi.operationMethods, verb.all Char.isAlpha = true := by decide
  intro c hc
  have hlower := List.all_eq_true.mp (hverbs _ h.verb) c.toLower (List.mem_map_of_mem hc)
  rwa [Char.isAlpha_toLower_eq_isAlpha] at hlower

theorem Portable.writable {d : RouteDefinition} (h : Portable d) : RouteFile.Writable d where
  toPlainParts := h.toPlainParts
  method_ne_nil hnil := by
    have hverb := h.verb
    rw [hnil] at hverb
    revert hverb
    decide
  method := Bool.or_eq_true_iff.mpr (.inr (List.all_eq_true.mpr h.isAlpha_method))

theorem newline_not_mem_writeBlock {opening closing : Char} {pieces : List Text}
    (hopening : opening ≠ '\n') (hclosing : closing ≠ '\n')
    (h : ∀ p ∈ pieces, '\n' ∉ p) : '\n' ∉ RouteFile.writeBlock opening closing pieces := by
  have hjoin : '\n' ∉ Text.join [',', ' '] pieces := by
    intro hmem
    obtain hseparator | ⟨p, hp, hmem⟩ := Text.mem_join hmem
    · revert hseparator
      decide
    · exact h p hp hmem
  unfold RouteFile.writeBlock
  split_ifs
  · exact List.not_mem_nil
  · simp [hopening.symm, hclosing.symm, hjoin]

theorem Portable.newline_not_mem {d : RouteDefinition} (h : Portable d) :
    '\n' ∉ RouteFile.writeLine d := by
  have hblank : Text.isBlank '\n' = true := by decide
  have hmethod : '\n' ∉ d.method := fun hmem => absurd (h.isAlpha_method _ hmem) (by decide)
  have hword : ∀ t, RouteFile.IsWord t → '\n' ∉ t := fun t ht hmem => by
    rw [ht.2 _ hmem] at hblank
    cases hblank
  have hargs :
      '\n' ∉ RouteFile.writeBlock '{' '}' (d.staticArgs.entries.map RouteFile.writeArg) := by
    refine newline_not_mem_writeBlock (by decide) (by decide) fun p hp => ?_
    obtain ⟨arg, harg, rfl⟩ := List.mem_map.mp hp
    obtain ⟨hkey, hvalue⟩ := h.args_oneLine arg harg
    simp [RouteFile.writeArg, hkey, hvalue]
  have hformats : '\n' ∉ RouteFile.writeBlock '(' ')' (d.formats.map MediaType.text) := by
    refine newline_not_mem_writeBlock (by decide) (by decide) fun p hp => ?_
    obtain ⟨m, hm, rfl⟩ := List.mem_map.mp hp
    exact h.formats_oneLine m hm
  simp [RouteFile.writeLine, hmethod, hword _ h.path, hword _ h.action, hargs, hformats]

/-- The two forms agree. Definitions that can be written in both have a route file, and every route
file of theirs is read as their document is: both give the routes that the definitions compile to,
in order and but for where they stand, or both fail with the error of the first definition that does
not compile. -/
theorem readers_agree {ds : List RouteDefinition} (hds : ∀ d ∈ ds, Portable d) :
    RouteFile.WritesFile ds (RouteFile.write ds) ∧
      ∀ name name' content, RouteFile.WritesFile ds content →
        (∃ cause place place', ds.mapM Route.compile = .error cause ∧
          RouteFile.read name content = .error (.route name place cause) ∧
          OpenApi.read name' (OpenApi.write ds) = .error (.route name' place' cause)) ∨
        ∃ compiled routes routes',
          ds.mapM Route.compile = .ok compiled ∧ RouteFile.read name content = .ok routes ∧
          OpenApi.read name' (OpenApi.write ds) = .ok routes' ∧
          routes.map Route.unplaced = routes'.map Route.unplaced ∧
          routes.map Route.unplaced = compiled.map Route.unplaced := by
  refine ⟨RouteFile.writesFile_write fun d hd =>
    (hds d hd).newline_not_mem, fun name name' content hcontent => ?_⟩
  have hfile : Gives name (ds.mapM Route.compile) (RouteFile.read name content) :=
    gives_readLines hcontent (fun d hd => (hds d hd).writable) name 1
  have hdocument : Gives name' (ds.mapM Route.compile) (OpenApi.read name' (OpenApi.write ds)) := by
    rw [OpenApi.read, OpenApi.paths_write]
    simp only [OpenApi.operations_write fun d hd => (hds d hd).verb]
    exact gives_mapM_operations hds name'
  exact hfile.agree hdocument

def userRoutes : List RouteDefinition := [
  { method := "GET".toList, path := "/users/{id}".toList, action := "Users.show".toList
    staticArgs := .ofList [("lang".toList, "en".toList)]
    formats := [.new "text".toList "html".toList] },
  { method := "post".toList, path := "/users".toList, action := "Users.create".toList }]

def userLines : Text :=
  "GET /users/{id} Users.show \x7blang:'en'\x7d (text/html)\npost /users Users.create".toList

/-- Two routes, one with a static argument and a format. -/
theorem readers_agree_users :
    ∃ routes routes', RouteFile.read "routes".toList userLines = .ok routes ∧
      OpenApi.read "api.yaml".toList (OpenApi.write userRoutes) = .ok routes' ∧
      routes.map Route.unplaced = routes'.map Route.unplaced ∧ routes.length = 2 := by
  have hportable : ∀ d ∈ userRoutes, Portable d := by decide +kernel
  have htext : RouteFile.write userRoutes = userLines := by decide +kernel
  have hcompiles : (userRoutes.mapM Route.compile).toOption.any (·.length == 2) = true := by
    decide +kernel
  obtain ⟨compiled, hcompiled, hlength⟩ := Except.exists_of_any hcompiles
  obtain ⟨hwritten, hagree⟩ := readers_agree hportable
  rw [htext] at hwritten
  obtain ⟨cause, -, -, hfault, -⟩ | ⟨found, routes, routes', hfound, hfile, hdocument, hsame,
    hroutes⟩ :=
    hagree "routes".toList "api.yaml".toList _ hwritten
  · cases hcompiled.symm.trans hfault
  · obtain rfl := Except.ok.inj (hcompiled.symm.trans hfound)
    refine ⟨routes, routes', hfile, hdocument, hsame, ?_⟩
    have hsize := congrArg List.length hroutes
    rwa [List.length_map, List.length_map, eq_of_beq hlength] at hsize

end Source

end Signpost
