import Signpost.Proofs.Router.History

/-!
Looking for changes. All sources are loaded again just when one of them is newer than the table;
otherwise nothing happens. So after a load that is as late as every source the table stays as it is,
but for the routes that are inserted, until it is cleared. Main statement:
`RouteTable.detectChanges_reloads_when_needed`.
-/

namespace Signpost

open File (Time)
open Source (FirstAfter FirstFault Settled Newer Unreadable)

namespace Command

/-- The command inserts a route. -/
def IsInsert : Command → Prop
  | add _ | append _ | prepend _ | insertAt _ _ => True
  | _ => False

/-- The command inserts a route, or looks for changes in these sources. -/
def IsQuiet (sources : List Source) (c : Command) : Prop :=
  c.IsInsert ∨ ∃ now, c = .detectChanges sources now ∨ c = .reloadIfChanged sources now

/-- The answer, if the command looks for changes, is that there are none. -/
def FindsNothing (c : Command) (a : Answer) : Prop :=
  (∀ sources now, c = .detectChanges sources now → a = .checked (.ok false)) ∧
    ∀ sources now, c = .reloadIfChanged sources now → a = .watched .unchanged

variable {c : Command} {t : RouteTable} {sources : List Source}

theorem IsInsert.perform (hc : c.IsInsert) (t : RouteTable) :
    (c.perform t).table = { t with routes := c.edit false t.routes } := by
  cases c with
  | load sources now => exact hc.elim
  | detectChanges sources now => exact hc.elim
  | reloadIfChanged sources now => exact hc.elim
  | clear => exact hc.elim
  | insertAt position r =>
    rw [edit, insertIdx_eq_take_drop]
    rfl
  | _ => rfl

theorem IsInsert.findsNothing (hc : c.IsInsert) (a : Answer) : c.FindsNothing a := by
  constructor
  · rintro sources now rfl
    exact hc.elim
  · rintro sources now rfl
    exact hc.elim

/-- On a table that is as late as the sources, such a command keeps the moment of loading, edits
nothing but by inserting, and finds no change. -/
theorem IsQuiet.perform (hc : c.IsQuiet sources) (hsettled : ∀ s ∈ sources, s.Settled t.loadedAt) :
    (c.perform t).table = { t with routes := c.edit false t.routes } ∧
      c.FindsNothing (c.perform t).answer := by
  have hnone := RouteTable.detectChanges_of_settled hsettled
  rcases hc with hinsert | ⟨now, rfl | rfl⟩
  · exact ⟨hinsert.perform t, hinsert.findsNothing _⟩
  · rw [Command.perform, hnone]
    refine ⟨rfl, fun _ _ _ => rfl, fun _ _ h => ?_⟩
    cases h
  · have hunchanged := RouteTable.reloadIfChanged_of_false (congrArg Outcome.answer (hnone now))
    rw [Command.perform, hunchanged, hnone]
    refine ⟨rfl, fun _ _ h => ?_, fun _ _ _ => rfl⟩
    cases h

end Command

namespace RouteTable

/-- What single commands keep, a run of them keeps: the table is as late as the sources all along,
so nothing is found and only the inserted routes come in. -/
theorem after_quiet {sources : List Source} {commands : List Command} {t : RouteTable}
    (hquiet : ∀ c ∈ commands, c.IsQuiet sources) (hsettled : ∀ s ∈ sources, s.Settled t.loadedAt) :
    t.after commands = { t with
      routes := commands.foldl (fun routes c => c.edit false routes) t.routes } ∧
      ∀ s ∈ t.steps commands, s.command.FindsNothing s.outcome.answer := by
  induction commands generalizing t with
  | nil => exact ⟨rfl, by simp [steps]⟩
  | cons c rest ih =>
    obtain ⟨hc, hrest⟩ := List.forall_mem_cons.mp hquiet
    obtain ⟨htable, hanswer⟩ := hc.perform hsettled
    have hlate : (c.perform t).table.loadedAt = t.loadedAt := by rw [htable]
    obtain ⟨hafter, hsteps⟩ := ih hrest (by rwa [hlate])
    refine ⟨?_, List.forall_mem_cons.mpr ⟨hanswer, hsteps⟩⟩
    rw [after, hafter, htable]
    rfl

theorem after_inserts {commands : List Command} {t : RouteTable}
    (hinserts : ∀ c ∈ commands, c.IsInsert) :
    (t.after commands).loadedAt = t.loadedAt := by
  induction commands generalizing t with
  | nil => rfl
  | cons c rest ih =>
    obtain ⟨hc, hrest⟩ := List.forall_mem_cons.mp hinserts
    rw [after, ih hrest, hc.perform]

/-- A table that was never loaded, or cleared since, is loaded once the time of the first source can
be read. -/
theorem detectChanges_of_never_loaded {t : RouteTable} (ht : t.loadedAt = none) {s : Source}
    {rest : List Source} {modified : Time} (hs : s.modified = .ok modified) (now : Time) :
    t.detectChanges (s :: rest) now =
      ⟨(t.load (s :: rest) now).answer.map fun _ => true, (t.load (s :: rest) now).table,
        (t.load (s :: rest) now).events⟩ := by
  refine detectChanges_of_newer
    (Source.firstAfter_cons.mpr (.inl ⟨modified, hs, fun moment hmoment => ?_⟩)) now
  rw [ht] at hmoment
  cases hmoment

section Answers

variable {t : RouteTable} {sources : List Source} {now : Time}

theorem detectChanges_eq_true_iff : (t.detectChanges sources now).answer = .ok true ↔
    FirstAfter (Settled t.loadedAt) (Newer t.loadedAt) sources ∧ ∀ s ∈ sources, s.Loads := by
  constructor
  · intro h
    rcases detectChanges_cases t sources now with
      ⟨hnewer, hloads, -⟩ | ⟨e, -, -, heq⟩ | ⟨-, heq⟩ | ⟨e, -, heq⟩
    · exact ⟨hnewer, hloads⟩
    all_goals
      rw [heq] at h
      cases h
  · rintro ⟨hnewer, hloads⟩
    rw [detectChanges_of_newer hnewer, load_of_loads hloads]
    rfl

theorem detectChanges_eq_false_iff :
    (t.detectChanges sources now).answer = .ok false ↔ ∀ s ∈ sources, s.Settled t.loadedAt := by
  constructor
  · intro h
    rcases detectChanges_cases t sources now with
      ⟨-, -, heq⟩ | ⟨e, -, -, heq⟩ | ⟨hsettled, -⟩ | ⟨e, -, heq⟩
    case inr.inr.inl => exact hsettled
    all_goals
      rw [heq] at h
      cases h
  · intro hsettled
    rw [detectChanges_of_settled hsettled]

theorem detectChanges_eq_error_iff {e : LoadError} :
    (t.detectChanges sources now).answer = .error e ↔
    FirstAfter (Settled t.loadedAt) (Unreadable e) sources ∨
      FirstAfter (Settled t.loadedAt) (Newer t.loadedAt) sources ∧ FirstFault sources e := by
  constructor
  · intro h
    rcases detectChanges_cases t sources now with
      ⟨-, -, heq⟩ | ⟨e', hnewer, hfault, heq⟩ | ⟨-, heq⟩ | ⟨e', hunreadable, heq⟩
    all_goals rw [heq] at h
    · cases h
    · obtain rfl := Except.error.inj h
      exact .inr ⟨hnewer, hfault⟩
    · cases h
    · obtain rfl := Except.error.inj h
      exact .inl hunreadable
  · rintro (hunreadable | ⟨hnewer, hfault⟩)
    · rw [detectChanges_of_unreadable hunreadable]
    · rw [detectChanges_of_newer hnewer, load_of_firstFault hfault]
      rfl

end Answers

/-- Looking for changes loads all sources just when the first that is not settled is newer and each
can be loaded. It finds nothing just when there is no source, or the table was loaded and the time
of every source was read and is not newer. It fails just when a time cannot be read in front of the
first newer source, or when the load fails. Without a load the table stays as it is. -/
structure LoadsWhenNewer (t : RouteTable) (sources : List Source) (now : Time) : Prop where
  loads_iff : (t.detectChanges sources now).answer = .ok true ↔
    FirstAfter (Settled t.loadedAt) (Newer t.loadedAt) sources ∧ ∀ s ∈ sources, s.Loads
  table_of_loads : (t.detectChanges sources now).answer = .ok true →
    (t.detectChanges sources now).table = loaded sources now
  finds_nothing_iff : (t.detectChanges sources now).answer = .ok false ↔
    sources = [] ∨ ∃ moment, t.loadedAt = some moment ∧
      ∀ s ∈ sources, ∃ modified, s.modified = .ok modified ∧ modified ≤ moment
  table_of_nothing : (t.detectChanges sources now).answer = .ok false →
    (t.detectChanges sources now).table = t
  fails_iff : ∀ e, (t.detectChanges sources now).answer = .error e ↔
    FirstAfter (Settled t.loadedAt) (Unreadable e) sources ∨
      FirstAfter (Settled t.loadedAt) (Newer t.loadedAt) sources ∧ FirstFault sources e
  table_of_failure : ∀ e, (t.detectChanges sources now).answer = .error e →
    (t.detectChanges sources now).table = t

/-- The report of reloading tells what looking for changes does: the size of the new table, that
nothing changed, or the failure. -/
structure ReportsChanges (t : RouteTable) (sources : List Source) (now : Time) : Prop where
  table : (t.reloadIfChanged sources now).table = (t.detectChanges sources now).table
  reloaded_iff : ∀ size, (t.reloadIfChanged sources now).answer = .reloaded size ↔
    (t.detectChanges sources now).answer = .ok true ∧
      size = (t.reloadIfChanged sources now).table.size
  unchanged_iff : (t.reloadIfChanged sources now).answer = .unchanged ↔
    (t.detectChanges sources now).answer = .ok false
  failed_iff : ∀ e, (t.reloadIfChanged sources now).answer = .failed e ↔
    (t.detectChanges sources now).answer = .error e

theorem forall_settled_iff {loadedAt : Option Time} {sources : List Source} :
    (∀ s ∈ sources, s.Settled loadedAt) ↔ sources = [] ∨ ∃ moment, loadedAt = some moment ∧
      ∀ s ∈ sources, ∃ modified, s.modified = .ok modified ∧ modified ≤ moment := by
  constructor
  · intro h
    cases sources with
    | nil => exact .inl rfl
    | cons s rest =>
      obtain ⟨moment, -, hmoment, -⟩ := h s List.mem_cons_self
      refine .inr ⟨moment, hmoment, fun u hu => ?_⟩
      obtain ⟨moment', modified, hmoment', hmodified, hle⟩ := h u hu
      obtain rfl := Option.some.inj (hmoment'.symm.trans hmoment)
      exact ⟨modified, hmodified, hle⟩
  · rintro (rfl | ⟨moment, hmoment, h⟩)
    · simp
    · intro s hs
      obtain ⟨modified, hmodified, hle⟩ := h s hs
      exact ⟨moment, modified, hmoment, hmodified, hle⟩

theorem loadsWhenNewer (t : RouteTable) (sources : List Source) (now : Time) :
    t.LoadsWhenNewer sources now where
  loads_iff := detectChanges_eq_true_iff
  table_of_loads h := by
    obtain ⟨hnewer, hloads⟩ := detectChanges_eq_true_iff.mp h
    rw [detectChanges_of_newer hnewer, load_of_loads hloads]
  finds_nothing_iff := detectChanges_eq_false_iff.trans forall_settled_iff
  table_of_nothing h := by
    rw [detectChanges_of_settled (detectChanges_eq_false_iff.mp h)]
  fails_iff _ := detectChanges_eq_error_iff
  table_of_failure e h := by
    rcases detectChanges_eq_error_iff.mp h with hunreadable | ⟨hnewer, hfault⟩
    · rw [detectChanges_of_unreadable hunreadable]
    · rw [detectChanges_of_newer hnewer, load_of_firstFault hfault]

theorem reportsChanges (t : RouteTable) (sources : List Source) (now : Time) :
    t.ReportsChanges sources now := by
  cases hanswer : (t.detectChanges sources now).answer with
  | error e =>
    have hreload := reloadIfChanged_of_error hanswer
    constructor <;> simp [hreload, hanswer, eq_comm]
  | ok changed =>
    cases changed with
    | true =>
      have hreload := reloadIfChanged_of_true hanswer
      constructor <;> simp [hreload, hanswer, eq_comm]
    | false =>
      have hreload := reloadIfChanged_of_false hanswer
      constructor <;> simp [hreload, hanswer]

/-- Change detection reloads just when it is needed and then is stable, whatever the table and the
sources.

It loads all sources when one is newer, and the report of reloading tells which of the cases it was.
After a load that succeeds and is not before the time of any source, every later look at the same
sources finds nothing, however many routes are inserted in between, and the inserted routes stay.
Once the table is cleared, and whatever is inserted then, the next look at sources of which the
first has a time that can be read is a load of all of them, even if nothing changed. -/
theorem detectChanges_reloads_when_needed (t : RouteTable) (sources : List Source) (now : Time) :
    t.LoadsWhenNewer sources now ∧ t.ReportsChanges sources now ∧
      (∀ size, (t.load sources now).answer = .ok size →
        (∀ s ∈ sources, ∃ modified, s.modified = .ok modified ∧ modified ≤ now) →
        ∀ commands, (∀ c ∈ commands, c.IsQuiet sources) →
          (t.load sources now).table.after commands =
            ⟨commands.foldl (fun routes c => c.edit false routes) (sources.flatMap Source.routes),
              some now⟩ ∧
          ∀ s ∈ (t.load sources now).table.steps commands,
            s.command.FindsNothing s.outcome.answer) ∧
      ∀ commands, (∀ c ∈ commands, c.IsInsert) → ∀ s rest modified, s.modified = .ok modified →
        (t.clear.table.after commands).detectChanges (s :: rest) now =
          ⟨((t.clear.table.after commands).load (s :: rest) now).answer.map fun _ => true,
            ((t.clear.table.after commands).load (s :: rest) now).table,
            ((t.clear.table.after commands).load (s :: rest) now).events⟩ := by
  refine ⟨t.loadsWhenNewer sources now, t.reportsChanges sources now, ?_, ?_⟩
  · intro size hsize htimes commands hquiet
    have hloads : ∀ s ∈ sources, s.Loads := by
      rcases Source.loads_or_firstFault sources with hloads | ⟨e, he⟩
      · exact hloads
      · rw [load_eq_error_iff.mpr he] at hsize
        cases hsize
    rw [load_of_loads hloads]
    exact after_quiet hquiet (forall_settled_iff.mpr (.inr ⟨now, rfl, htimes⟩))
  · intro commands hinserts s rest modified hs
    have hnever : (t.clear.table.after commands).loadedAt = none := after_inserts hinserts
    exact detectChanges_of_never_loaded hnever hs now

/-- A table loaded from one source, which is looked at again before and after its route is inserted
once more. -/
theorem detectChanges_reloads_when_needed_twice :
    ∃ sources r, sources = [Source.ofText "routes".toList "GET /a show\n".toList 3] ∧
      (empty.load sources 5).table = ⟨[r], some 5⟩ ∧
      (empty.load sources 5).table.after
        [.detectChanges sources 6, .prepend r, .detectChanges sources 7] = ⟨[r, r], some 5⟩ := by
  have hparsed : ((Source.ofText "routes".toList "GET /a show\n".toList 3).load.toOption.any
      fun routes => routes.length == 1) = true := by decide +kernel
  obtain ⟨routes, hroutes, hlength⟩ := (Option.any_eq_true _ _).mp hparsed
  obtain ⟨r, rfl⟩ := List.length_eq_one_iff.mp (eq_of_beq hlength)
  have hload : (Source.ofText "routes".toList "GET /a show\n".toList 3).load = .ok [r] := by
    cases h : (Source.ofText "routes".toList "GET /a show\n".toList 3).load with
    | error e =>
      rw [h] at hroutes
      cases hroutes
    | ok found =>
      rw [h] at hroutes
      exact congrArg _ (Option.some.inj hroutes)
  have hfound :
      [Source.ofText "routes".toList "GET /a show\n".toList 3].flatMap Source.routes = [r] := by
    simp only [List.flatMap_cons, List.flatMap_nil, List.append_nil, Source.routes, hload]
  have hanswer := load_of_loads (List.forall_mem_singleton.mpr ⟨_, hload⟩) empty 5
  have hquiet :
      ∀ c ∈ [Command.detectChanges [Source.ofText "routes".toList "GET /a show\n".toList 3] 6,
      .prepend r, .detectChanges [Source.ofText "routes".toList "GET /a show\n".toList 3] 7],
      c.IsQuiet [Source.ofText "routes".toList "GET /a show\n".toList 3] :=
    List.forall_mem_cons.mpr ⟨.inr ⟨6, .inl rfl⟩, List.forall_mem_cons.mpr ⟨.inl trivial,
      List.forall_mem_singleton.mpr (.inr ⟨7, .inl rfl⟩)⟩⟩
  obtain ⟨-, -, hstable, -⟩ := detectChanges_reloads_when_needed empty _ 5
  obtain ⟨hafter, -⟩ := hstable _ (congrArg Outcome.answer hanswer)
    (List.forall_mem_singleton.mpr ⟨3, rfl, by decide⟩) _ hquiet
  refine ⟨_, r, rfl, ?_, ?_⟩
  · rw [hanswer, loaded, hfound]
  · rw [hafter, hfound]
    rfl

end RouteTable

end Signpost
