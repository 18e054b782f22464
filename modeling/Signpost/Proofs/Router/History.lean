import Signpost.Proofs.Router.Reload

/-!
A router over a whole run. Whatever a program does to its router, the routes are those of an ordered
list that is replaced by a load and edited in place otherwise, the moment of loading is known just
after a load, and the last size that was reported is the size. What one command can do is told once,
by `Command.Effect`; a run keeps what every command keeps. Main statement:
`RouteTable.run_refines_list`.
-/

namespace Signpost

open File (Time)

/-- What a program does to its router. The sources are those that are found then, and `now` is the
moment. -/
inductive Command where
  | load (sources : List Source) (now : Time)
  | detectChanges (sources : List Source) (now : Time)
  | reloadIfChanged (sources : List Source) (now : Time)
  | clear
  | add (r : Route)
  | append (r : Route)
  | prepend (r : Route)
  | insertAt (position : Nat) (r : Route)

/-- What a command answers. -/
inductive Answer where
  | done
  | loaded (result : Except LoadError Nat)
  | checked (result : Except LoadError Bool)
  | watched (result : RouteTable.Reload)

namespace Answer

/-- The answer tells that the table was loaded. -/
def reportsLoad : Answer → Bool
  | loaded (.ok _) | checked (.ok true) | watched (.reloaded _) => true
  | _ => false

def error? : Answer → Option LoadError
  | loaded (.error e) | checked (.error e) | watched (.failed e) => some e
  | _ => none

end Answer

def Outcome.map {α β : Type} (f : α → β) (o : Outcome α) : Outcome β :=
  ⟨f o.answer, o.table, o.events⟩

namespace Command

def perform (t : RouteTable) : Command → Outcome Answer
  | load sources now => (t.load sources now).map .loaded
  | detectChanges sources now => (t.detectChanges sources now).map .checked
  | reloadIfChanged sources now => (t.reloadIfChanged sources now).map .watched
  | clear => t.clear.map fun _ => .done
  | add r | append r => (t.append r).changed.map fun _ => .done
  | prepend r => (t.prepend r).changed.map fun _ => .done
  | insertAt position r => (t.insertAt position r).changed.map fun _ => .done

/-- The sources that the command reads. -/
def sources : Command → List Source
  | load sources _ | detectChanges sources _ | reloadIfChanged sources _ => sources
  | _ => []

/-- The command as an operation on an ordered list, with what is known of its success: to replace
the list by the routes of all sources in order, to empty it, to add to its end or its front, or to
insert at a position, at the end when the position lies beyond it. -/
def edit (loads : Bool) (routes : List Route) : Command → List Route
  | load sources _ | detectChanges sources _ | reloadIfChanged sources _ =>
    if loads then sources.flatMap Source.routes else routes
  | clear => []
  | add r | append r => routes ++ [r]
  | prepend r => r :: routes
  | insertAt position r => routes.insertIdx (min position routes.length) r

end Command

/-- The size that a gauge reports. -/
def Event.gauge? : Event → Option Nat
  | metric (.routes count) => some count
  | _ => none

/-- The last size that was reported, if any was. -/
def lastGauge (events : List Event) : Option Nat :=
  (events.filterMap Event.gauge?).getLast?

theorem lastGauge_append (a b : List Event) :
    lastGauge (a ++ b) = (lastGauge b).or (lastGauge a) := by
  rw [lastGauge, List.filterMap_append, List.getLast?_append]
  rfl

theorem insertIdx_eq_take_drop {α : Type} (xs : List α) (position : Nat) (x : α) :
    xs.insertIdx (min position xs.length) x = xs.take position ++ x :: xs.drop position := by
  induction xs generalizing position with
  | nil => simp
  | cons y ys ih =>
    cases position with
    | zero => rfl
    | succ n =>
      rw [List.length_cons, Nat.succ_min_succ, List.insertIdx_succ_cons, ih]
      rfl

namespace Command

/-- What a command can do to a table. It edits the routes as its operation on lists says. The moment
of loading is known after it if it loads, or it was known and the command does not clear. A failure
changes nothing, a load means that every source could be loaded, and the size is reported whenever
the table may have changed. -/
structure Effect (c : Command) (t : RouteTable) (o : Outcome Answer) : Prop where
  routes : o.table.routes = c.edit o.answer.reportsLoad t.routes
  loadedAt : o.table.loadedAt.isSome = true ↔
    o.answer.reportsLoad = true ∨ c ≠ .clear ∧ t.loadedAt.isSome = true
  failed : ∀ e, o.answer.error? = some e → o.table = t
  loads : o.answer.reportsLoad = true → ∀ s ∈ c.sources, s.Loads
  gauge : lastGauge o.events = some o.table.size ∨ lastGauge o.events = none ∧ o.table = t

variable {c : Command} {t : RouteTable} {o : Outcome Answer}

/-- The effect of a command that reads sources and loads none of them. -/
theorem Effect.of_kept (hc : ∀ routes, c.edit false routes = routes) (hclear : c ≠ .clear)
    (hload : o.answer.reportsLoad = false) (htable : o.table = t)
    (hgauge : lastGauge o.events = none) :
    c.Effect t o := by
  refine ⟨?_, ?_, fun _ _ => htable, ?_, .inr ⟨hgauge, htable⟩⟩
  · rw [hload, htable, hc]
  · simp [hload, htable, hclear]
  · rw [hload]
    intro h
    cases h

/-- The effect of a command that loads its sources. -/
theorem Effect.of_loaded {now : Time}
    (hc : ∀ routes, c.edit true routes = c.sources.flatMap Source.routes)
    (hloads : ∀ s ∈ c.sources, s.Loads) (hload : o.answer.reportsLoad = true)
    (herror : o.answer.error? = none) (htable : o.table = RouteTable.loaded c.sources now)
    (hgauge : lastGauge o.events = some o.table.size) :
    c.Effect t o := by
  refine ⟨?_, ?_, ?_, fun _ => hloads, .inl hgauge⟩
  · rw [hload, htable, hc]
    rfl
  · simp [hload, htable, RouteTable.loaded]
  · rw [herror]
    intro e he
    cases he

/-- The effect of a command that edits the routes in place. -/
theorem Effect.of_edited {t' : RouteTable} (hroutes : t'.routes = c.edit false t.routes)
    (hloadedAt : t'.loadedAt.isSome = true ↔ c ≠ .clear ∧ t.loadedAt.isSome = true) :
    c.Effect t (t'.changed.map fun _ => .done) := by
  refine ⟨hroutes, ?_, ?_, ?_, .inl rfl⟩
  · rw [RouteTable.changed, Outcome.map, hloadedAt]
    simp [Answer.reportsLoad]
  · intro e he
    cases he
  · intro h
    cases h

theorem effect_load (sources : List Source) (now : Time) (t : RouteTable) :
    (load sources now).Effect t ((load sources now).perform t) := by
  rw [perform]
  rcases Source.loads_or_firstFault sources with hloads | ⟨e, he⟩
  · rw [RouteTable.load_of_loads hloads]
    exact .of_loaded (fun _ => rfl) hloads rfl rfl rfl rfl
  · rw [RouteTable.load_of_firstFault he]
    exact .of_kept (fun _ => rfl) (by simp) rfl rfl rfl

theorem effect_detectChanges (sources : List Source) (now : Time) (t : RouteTable) :
    (detectChanges sources now).Effect t ((detectChanges sources now).perform t) := by
  rw [perform]
  rcases RouteTable.detectChanges_cases t sources now with
    ⟨-, hloads, heq⟩ | ⟨e, -, he, heq⟩ | ⟨-, heq⟩ | ⟨e, -, heq⟩
  · rw [heq, RouteTable.load_of_loads hloads]
    exact .of_loaded (fun _ => rfl) hloads rfl rfl rfl rfl
  · rw [heq, RouteTable.load_of_firstFault he]
    exact .of_kept (fun _ => rfl) (by simp) rfl rfl rfl
  · rw [heq]
    exact .of_kept (fun _ => rfl) (by simp) rfl rfl rfl
  · rw [heq]
    exact .of_kept (fun _ => rfl) (by simp) rfl rfl rfl

theorem effect_reloadIfChanged (sources : List Source) (now : Time) (t : RouteTable) :
    (reloadIfChanged sources now).Effect t ((reloadIfChanged sources now).perform t) := by
  rw [perform]
  rcases RouteTable.detectChanges_cases t sources now with
    ⟨-, hloads, heq⟩ | ⟨e, -, he, heq⟩ | ⟨-, heq⟩ | ⟨e, -, heq⟩
  · rw [RouteTable.reloadIfChanged_of_true (by rw [heq]), heq, RouteTable.load_of_loads hloads]
    exact .of_loaded (fun _ => rfl) hloads rfl rfl rfl rfl
  · rw [RouteTable.reloadIfChanged_of_error (by rw [heq]), heq, RouteTable.load_of_firstFault he]
    exact .of_kept (fun _ => rfl) (by simp) rfl rfl rfl
  · rw [RouteTable.reloadIfChanged_of_false (by rw [heq]), heq]
    exact .of_kept (fun _ => rfl) (by simp) rfl rfl rfl
  · rw [RouteTable.reloadIfChanged_of_error (by rw [heq]), heq]
    exact .of_kept (fun _ => rfl) (by simp) rfl rfl rfl

theorem effect (c : Command) (t : RouteTable) : c.Effect t (c.perform t) := by
  cases c with
  | load sources now => exact effect_load sources now t
  | detectChanges sources now => exact effect_detectChanges sources now t
  | reloadIfChanged sources now => exact effect_reloadIfChanged sources now t
  | clear => exact .of_edited rfl (by simp [RouteTable.empty])
  | add r => exact .of_edited rfl (by simp [RouteTable.append])
  | append r => exact .of_edited rfl (by simp [RouteTable.append])
  | prepend r => exact .of_edited rfl (by simp [RouteTable.prepend])
  | insertAt position r =>
    exact .of_edited (insertIdx_eq_take_drop t.routes position r).symm
      (by simp [RouteTable.insertAt])

end Command

/-- A command of a run, with the table before it and what it gave. -/
structure Step where
  command : Command
  before : RouteTable
  outcome : Outcome Answer

namespace RouteTable

/-- The steps of a run, from a table on. -/
def steps (t : RouteTable) : List Command → List Step
  | [] => []
  | c :: rest => ⟨c, t, c.perform t⟩ :: steps (c.perform t).table rest

/-- The table after a run. -/
def after (t : RouteTable) : List Command → RouteTable
  | [] => t
  | c :: rest => after (c.perform t).table rest

theorem outcome_of_mem_steps {t : RouteTable} {commands : List Command} {s : Step}
    (h : s ∈ t.steps commands) :
    s.outcome = s.command.perform s.before := by
  induction commands generalizing t with
  | nil => simp [steps] at h
  | cons c rest ih =>
    rcases List.mem_cons.mp h with rfl | h
    · rfl
    · exact ih h

theorem effect_of_mem_steps {t : RouteTable} {commands : List Command} {s : Step}
    (h : s ∈ t.steps commands) :
    s.command.Effect s.before s.outcome := by
  rw [outcome_of_mem_steps h]
  exact s.command.effect s.before

/-- Among the steps is one that loads, and none after it clears the table. -/
def LoadedSinceClear (history : List Step) : Prop :=
  ∃ before s later, history = before ++ s :: later ∧ s.outcome.answer.reportsLoad = true ∧
    ∀ l ∈ later, l.command ≠ .clear

theorem loadedSinceClear_cons {s : Step} {history : List Step} :
    LoadedSinceClear (s :: history) ↔ LoadedSinceClear history ∨
      s.outcome.answer.reportsLoad = true ∧ ∀ l ∈ history, l.command ≠ .clear := by
  constructor
  · rintro ⟨before, u, later, h, hload, hlater⟩
    cases before with
    | nil =>
      obtain ⟨rfl, rfl⟩ := List.cons.inj h
      exact .inr ⟨hload, hlater⟩
    | cons b before =>
      obtain ⟨-, rfl⟩ := List.cons.inj h
      exact .inl ⟨before, u, later, rfl, hload, hlater⟩
  · rintro (⟨before, u, later, rfl, hload, hlater⟩ | ⟨hload, hlater⟩)
    · exact ⟨s :: before, u, later, rfl, hload, hlater⟩
    · exact ⟨[], s, history, rfl, hload, hlater⟩

theorem after_routes (t : RouteTable) (commands : List Command) :
    (t.after commands).routes = (t.steps commands).foldl
      (fun routes s => s.command.edit s.outcome.answer.reportsLoad routes) t.routes := by
  induction commands generalizing t with
  | nil => rfl
  | cons c rest ih =>
    rw [after, steps, List.foldl_cons, ih, (c.effect t).routes]

/-- After a run the moment of loading is known just when a step loaded and none after it cleared, or
it was known before and no step cleared. -/
theorem after_loadedAt (t : RouteTable) (commands : List Command) :
    (t.after commands).loadedAt.isSome = true ↔ LoadedSinceClear (t.steps commands) ∨
      (∀ s ∈ t.steps commands, s.command ≠ .clear) ∧ t.loadedAt.isSome = true := by
  induction commands generalizing t with
  | nil =>
    have hnone : ¬LoadedSinceClear [] := by
      rintro ⟨before, s, later, h, -⟩
      simp at h
    simp [after, steps, hnone]
  | cons c rest ih =>
    rw [after, steps, ih, (c.effect t).loadedAt, loadedSinceClear_cons, List.forall_mem_cons]
    tauto

/-- A run reports the size of the table last, or it reports none and leaves the table. -/
theorem after_gauge (t : RouteTable) (commands : List Command) :
    lastGauge ((t.steps commands).flatMap (·.outcome.events)) = some (t.after commands).size ∨
      lastGauge ((t.steps commands).flatMap (·.outcome.events)) = none ∧ t.after commands = t := by
  induction commands generalizing t with
  | nil => exact .inr ⟨rfl, rfl⟩
  | cons c rest ih =>
    rw [after, steps, List.flatMap_cons, lastGauge_append]
    rcases ih (c.perform t).table with hrest | ⟨hrest, htable⟩
    · rw [hrest, Option.some_or]
      exact .inl rfl
    · rw [hrest, htable, Option.none_or]
      exact (c.effect t).gauge

/-- Over every run that starts from the empty table, whatever the sources and routes: the routes are
what the operations on an ordered list make of the empty list; the moment of loading is known just
when a load succeeded since the last clear; a failure changes nothing, a report of a load means that
every source could be loaded, and a load tells their number of routes or the error of the first
source in order that cannot be loaded; and the last size that was reported, if any was, is the size
of the table. A run up to some step is a run, so all this holds after every step. -/
theorem run_refines_list (commands : List Command) :
    (empty.after commands).routes = (empty.steps commands).foldl
        (fun routes s => s.command.edit s.outcome.answer.reportsLoad routes) [] ∧
      ((empty.after commands).loadedAt.isSome = true ↔ LoadedSinceClear (empty.steps commands)) ∧
      (∀ s ∈ empty.steps commands,
        (∀ e, s.outcome.answer.error? = some e → s.outcome.table = s.before) ∧
        (s.outcome.answer.reportsLoad = true → ∀ source ∈ s.command.sources, source.Loads) ∧
        ∀ sources now, s.command = .load sources now →
          ((∀ source ∈ sources, source.Loads) →
            s.outcome.answer = .loaded (.ok (sources.flatMap Source.routes).length)) ∧
          ∀ e, s.outcome.answer = .loaded (.error e) ↔ Source.FirstFault sources e) ∧
      ∀ size, lastGauge ((empty.steps commands).flatMap (·.outcome.events)) = some size →
        size = (empty.after commands).size := by
  refine ⟨after_routes empty commands, ?_, fun s hs => ?_, fun size hsize => ?_⟩
  · rw [after_loadedAt]
    simp [empty]
  · have heffect := effect_of_mem_steps hs
    refine ⟨heffect.failed, heffect.loads, fun sources now hcommand => ?_⟩
    have hanswer : s.outcome.answer = .loaded (s.before.load sources now).answer := by
      rw [outcome_of_mem_steps hs, hcommand]
      rfl
    rw [hanswer]
    refine ⟨fun hloads => ?_, fun e => ?_⟩
    · rw [load_of_loads hloads]
      rfl
    · rw [Answer.loaded.injEq]
      exact load_eq_error_iff
  · rcases after_gauge empty commands with hgauge | ⟨hgauge, -⟩
    · exact Option.some.inj (hsize.symm.trans hgauge)
    · rw [hsize] at hgauge
      cases hgauge

end RouteTable

end Signpost
