import Signpost.Proofs.Template.Tokens
import Signpost.Proofs.Text.Map
import Signpost.Table.Resolve

/-!
What resolving an action binds. The action itself gives some arguments and the caller gives the
others; a route can stand for the action when each of its arguments takes what is given for it and
its static arguments agree. This is said here without working copies, and
`Route.urlFor?_of_satisfied` and `Route.isSome_urlFor?` tie it to how a URL is made.
-/

namespace Signpost

/-- The first value of what is given for an argument, or the empty text that a missing one falls
back on. -/
def Argument.taken (given : Option ArgValue) : Text :=
  (given.bind ArgValue.first?).getD []

/-- An argument takes what is given for it: a first value that is deferred or meets the constraint,
or no value when it falls back on the empty one. -/
def Argument.Takes (a : Argument) (given : Option ArgValue) : Prop :=
  (∃ v, given.bind ArgValue.first? = some v ∧ (isDeferred v = true ∨ a.accepts v = true)) ∨
    given.bind ArgValue.first? = none ∧ a.fallback = true

/-- The arguments after this one has entered the empty value, if it has none. -/
def Argument.enter (a : Argument) (working : Args) : Args :=
  if ((working.get? a.name).bind ArgValue.first?).isNone then working.insert a.name (.single [])
  else working

theorem Argument.get?_enter {a : Argument} (working : Args) {name : Text} (h : name ≠ a.name) :
    (a.enter working).get? name = working.get? name := by
  unfold enter
  split_ifs
  · simp [h]
  · rfl

theorem Argument.get?_enter_self (a : Argument) (working : Args) : (a.enter working).get? a.name =
    if ((working.get? a.name).bind ArgValue.first?).isNone then some (.single [])
      else working.get? a.name := by
  unfold enter
  split_ifs
  · simp
  · rfl

theorem any_name_iff {arguments : List Argument} {name : Text} :
    arguments.any (·.name == name) = true ↔ name ∈ arguments.map (·.name) := by
  simp

namespace Route

/-- What the action gives under a name, in small letters. -/
def fromAction (r : Route) (groups : Captures) (name : Text) : Option ArgValue :=
  if r.template.actionArguments.contains name then
    (groups.get? name).map fun v => .single (Unicode.lowercase v)
  else none

/-- What is given under a name: by the action, or else by the caller. -/
def given (r : Route) (groups : Captures) (args : Args) (name : Text) : Option ArgValue :=
  (r.fromAction groups name).or (args.get? name)

/-- What is given under a name after arguments without a value have fallen back on the empty one. -/
def entered (r : Route) (groups : Captures) (args : Args) (name : Text) : Option ArgValue :=
  if r.template.arguments.any (·.name == name) &&
    ((r.given groups args name).bind ArgValue.first?).isNone then
    some (.single [])
  else r.given groups args name

def boundArgs (r : Route) (groups : Captures) (args : Args) : TextMap Text :=
  .ofList (r.template.arguments.map fun a => (a.name, Argument.taken (r.given groups args a.name)))

/-- With what its action pattern took, the route can stand for an action with these arguments, for a
current request that asks for `format`. -/
structure SatisfiedBy (r : Route) (groups : Captures) (args : Args)
    (format : Option MediaType) : Prop where
  arguments : ∀ a ∈ r.template.arguments, a.Takes (r.given groups args a.name)
  statics : ∀ name v, r.staticArgs.get? name = some v → name ≠ formatArg →
    r.entered groups args name = some (.single v)
  format : ∀ v, r.staticArgs.get? formatArg = some v →
    ∃ m, MediaType.ofFormat? v = some m ∧ format = some m

def Satisfiable (r : Route) (action : Text) (args : Args) (current : Option Request) : Prop :=
  ∃ groups, r.template.actionPattern.captures? action = some groups ∧
    r.SatisfiedBy groups args (current.bind (·.format))

@[simp]
theorem get?_withActionArgs (r : Route) (groups : Captures) (args : Args) (name : Text) :
    (r.withActionArgs groups args).get? name = r.given groups args name := by
  unfold withActionArgs given fromAction
  induction r.template.actionArguments generalizing args with
  | nil => rfl
  | cons first names ih =>
    rw [List.foldl_cons, ih, List.contains_cons]
    by_cases hname : name = first
    · subst hname
      cases groups.get? name with
      | none => simp
      | some v => cases names.contains name <;> simp
    · cases groups.get? first <;> simp [hname]

theorem entered_of_not_mem {r : Route} {name : Text} (h : name ∉ r.template.arguments.map (·.name))
    (groups : Captures) (args : Args) : r.entered groups args name = r.given groups args name := by
  have hnone : r.template.arguments.any (·.name == name) = false := by
    rwa [← any_name_iff, Bool.not_eq_true] at h
  rw [entered, hnone, Bool.false_and, if_neg Bool.false_ne_true]

theorem bindArguments_cons {a : Argument} {working : Args} (h : a.Takes (working.get? a.name))
    (rest : List Argument) (bound : TextMap Text) :
    bindArguments (a :: rest) working bound =
      bindArguments rest (a.enter working)
        (bound.insert a.name (Argument.taken (working.get? a.name))) := by
  rcases h with ⟨v, hv, hadmitted⟩ | ⟨hnone, hfallback⟩
  · have hadmits : (isDeferred v || a.accepts v) = true := Bool.or_eq_true _ _ ▸ hadmitted
    have henter : a.enter working = working := by
      rw [Argument.enter, hv, Option.isNone_some, if_neg Bool.false_ne_true]
    have htaken : Argument.taken (working.get? a.name) = v := by
      rw [Argument.taken, hv, Option.getD_some]
    simp only [bindArguments, hv, hadmits, if_true, henter, htaken]
  · have henter : a.enter working = working.insert a.name (.single []) := by
      rw [Argument.enter, hnone, Option.isNone_none, if_pos rfl]
    have htaken : Argument.taken (working.get? a.name) = [] := by
      rw [Argument.taken, hnone, Option.getD_none]
    simp only [bindArguments, hnone, hfallback, if_true, henter, htaken]

/-- Binding succeeds when each argument takes what is there under its name. Then every argument has
the value it takes, and those without one have the empty one among the arguments too. -/
theorem bindArguments_of_takes {arguments : List Argument} (hnodup : (arguments.map (·.name)).Nodup)
    (working : Args) (bound : TextMap Text) (h : ∀ a ∈ arguments, a.Takes (working.get? a.name)) :
    ∃ working' bound', bindArguments arguments working bound = some (working', bound') ∧
      (∀ name, working'.get? name =
        if arguments.any (·.name == name) &&
          ((working.get? name).bind ArgValue.first?).isNone then some (.single [])
        else working.get? name) ∧
      ∀ name, bound'.get? name =
        if arguments.any (·.name == name) then some (Argument.taken (working.get? name))
          else bound.get? name := by
  induction arguments generalizing working bound with
  | nil => exact ⟨working, bound, rfl, fun _ => rfl, fun _ => rfl⟩
  | cons a rest ih =>
    obtain ⟨hfresh, hrest⟩ := List.nodup_cons.mp hnodup
    obtain ⟨hfirst, h⟩ := List.forall_mem_cons.mp h
    have hother : ∀ b ∈ rest, b.name ≠ a.name :=
      fun b hb heq => hfresh (List.mem_map.mpr ⟨b, hb, heq⟩)
    obtain ⟨working', bound', hbind, hworking, hbound⟩ :=
      ih hrest (a.enter working)
        (bound.insert a.name (Argument.taken (working.get? a.name))) fun b hb => by
        rw [Argument.get?_enter working (hother b hb)]
        exact h b hb
    have hfree : rest.any (·.name == a.name) = false := by
      rwa [← any_name_iff, Bool.not_eq_true] at hfresh
    have htail : ∀ name, name ≠ a.name →
        (a :: rest).any (·.name == name) = rest.any (·.name == name) := by
      intro name hname
      rw [List.any_cons, beq_eq_false_iff_ne.mpr (Ne.symm hname), Bool.false_or]
    refine ⟨working', bound', (bindArguments_cons hfirst rest bound).trans hbind, fun name => ?_,
      fun name => ?_⟩
    · by_cases hname : name = a.name
      · rw [hworking, hname, hfree, Bool.false_and, if_neg Bool.false_ne_true,
          Argument.get?_enter_self, List.any_cons, beq_self_eq_true, Bool.true_or, Bool.true_and]
      · rw [hworking, htail name hname, Argument.get?_enter working hname]
    · by_cases hname : name = a.name
      · rw [hbound, hname, hfree, if_neg Bool.false_ne_true, TextMap.get?_insert, if_pos rfl,
          List.any_cons, beq_self_eq_true, Bool.true_or, if_pos rfl]
      · rw [hbound, htail name hname, Argument.get?_enter working hname, TextMap.get?_insert,
          if_neg hname]

theorem takes_of_bindArguments {arguments : List Argument} (hnodup : (arguments.map (·.name)).Nodup)
    {working : Args} {bound : TextMap Text}
    (h : (bindArguments arguments working bound).isSome = true) :
    ∀ a ∈ arguments, a.Takes (working.get? a.name) := by
  induction arguments generalizing working bound with
  | nil => simp
  | cons a rest ih =>
    obtain ⟨hfresh, hrest⟩ := List.nodup_cons.mp hnodup
    have hother : ∀ b ∈ rest, b.name ≠ a.name :=
      fun b hb heq => hfresh (List.mem_map.mpr ⟨b, hb, heq⟩)
    rw [List.forall_mem_cons]
    cases hfirst : (working.get? a.name).bind ArgValue.first? with
    | some v =>
      simp only [bindArguments, hfirst] at h
      split_ifs at h with hadmits
      · exact ⟨.inl ⟨v, hfirst, Bool.or_eq_true _ _ ▸ hadmits⟩, ih hrest h⟩
      · simp at h
    | none =>
      simp only [bindArguments, hfirst] at h
      split_ifs at h with hfallback
      · refine ⟨.inr ⟨hfirst, hfallback⟩, fun b hb => ?_⟩
        have hb' := ih hrest h b hb
        simpa [hother b hb] using hb'
      · simp at h

theorem staticAgrees_iff {working : Args} {format : Option MediaType} {name expected : Text} :
    staticAgrees working format name expected = true ↔
      (name ≠ formatArg → working.get? name = some (.single expected)) ∧
        (name = formatArg → ∃ m, MediaType.ofFormat? expected = some m ∧ format = some m) := by
  unfold staticAgrees
  split_ifs with hname
  · cases format with
    | none => simp [hname]
    | some m => simp [hname]
  · simp [hname]

variable {r : Route} {action : Text} {args : Args} {current : Option Request} {groups : Captures}

theorem get?_boundArgs (hnodup : (r.template.arguments.map (·.name)).Nodup) {name v : Text} :
    (r.boundArgs groups args).get? name = some v ↔
      name ∈ r.template.arguments.map (·.name) ∧ Argument.taken (r.given groups args name) = v := by
  rw [boundArgs, TextMap.get?_ofList (by simpa [Function.comp_def] using hnodup)]
  constructor
  · intro h
    obtain ⟨a, ha, heq⟩ := List.mem_map.mp h
    obtain ⟨rfl, rfl⟩ := Prod.mk.inj heq
    exact ⟨List.mem_map_of_mem ha, rfl⟩
  · rintro ⟨hname, rfl⟩
    obtain ⟨a, ha, rfl⟩ := List.mem_map.mp hname
    exact List.mem_map_of_mem (f := fun a =>
      (a.name, Argument.taken (r.given groups args a.name))) ha

/-- The URL of a route that can stand for the action: its path with the values bound, and a query of
what is left. -/
theorem urlFor?_of_satisfied (hnodup : (r.template.arguments.map (·.name)).Nodup)
    (hgroups : r.template.actionPattern.captures? action = some groups)
    (h : r.SatisfiedBy groups args (current.bind (·.format))) :
    ∃ working : Args, (∀ name, working.get? name = r.entered groups args name) ∧
      r.urlFor? action args current = some (r.template.renderHost (r.boundArgs groups args),
        withPairs (r.mountedPath (r.boundArgs groups args) current)
          (r.queryPairs working (r.boundArgs groups args))) := by
  obtain ⟨working, bound, hbind, hworking, hbound⟩ :=
    bindArguments_of_takes hnodup (r.withActionArgs groups args) ∅ fun a ha => by
      simpa using h.arguments a ha
  have hentered : ∀ name, working.get? name = r.entered groups args name := fun name => by
    rw [hworking, get?_withActionArgs]
    rfl
  have hmap : bound = r.boundArgs groups args := by
    refine TextMap.eq_of_get? fun name => Option.ext fun v => ?_
    rw [get?_boundArgs hnodup, hbound, get?_withActionArgs]
    split_ifs with hname
    · rw [any_name_iff] at hname
      simp [hname]
    · rw [any_name_iff] at hname
      simp [hname]
  have hstatics : ∀ e ∈ r.staticArgs.entries,
      staticAgrees working (current.bind (·.format)) e.1 e.2 = true := by
    intro e he
    have hget := TextMap.mem_entries.mp he
    refine staticAgrees_iff.mpr ⟨fun hname => ?_, fun hname => ?_⟩
    · rw [hentered]
      exact h.statics e.1 e.2 hget hname
    · exact h.format e.2 (hname ▸ hget)
  subst hmap
  refine ⟨working, hentered, ?_⟩
  simp only [urlFor?, hgroups, Option.bind_eq_bind, Option.bind_some, hbind]
  exact if_pos (List.all_eq_true.mpr hstatics)

/-- A route gives a URL just when it can stand for the action. -/
theorem isSome_urlFor? (hnodup : (r.template.arguments.map (·.name)).Nodup) :
    (r.urlFor? action args current).isSome = true ↔ r.Satisfiable action args current := by
  constructor
  · intro h
    obtain ⟨result, hresult⟩ := Option.isSome_iff_exists.mp h
    obtain ⟨groups, hgroups, hresult⟩ := Option.bind_eq_some_iff.mp hresult
    obtain ⟨⟨working, bound⟩, hbind, hresult⟩ := Option.bind_eq_some_iff.mp hresult
    dsimp only at hresult
    split_ifs at hresult with hstatics
    have htakes := takes_of_bindArguments hnodup (Option.isSome_iff_exists.mpr ⟨_, hbind⟩)
    obtain ⟨working', bound', hbind', hworking, -⟩ :=
      bindArguments_of_takes hnodup (r.withActionArgs groups args) ∅ htakes
    obtain ⟨rfl, rfl⟩ := Prod.mk.inj (Option.some.inj (hbind.symm.trans hbind'))
    have hagrees : ∀ name v, r.staticArgs.get? name = some v →
        staticAgrees working (current.bind (·.format)) name v = true :=
      fun name v hget => List.all_eq_true.mp hstatics (name, v) (TextMap.mem_entries.mpr hget)
    refine ⟨groups, hgroups, fun a ha => ?_, fun name v hget hname => ?_, fun v hget => ?_⟩
    · rw [← get?_withActionArgs]
      exact htakes a ha
    · rw [← (staticAgrees_iff.mp (hagrees name v hget)).1 hname, hworking, get?_withActionArgs]
      rfl
    · exact (staticAgrees_iff.mp (hagrees formatArg v hget)).2 rfl
  · rintro ⟨groups, hgroups, h⟩
    obtain ⟨working, -, hurl⟩ := urlFor?_of_satisfied hnodup hgroups h
    rw [hurl]
    rfl

end Route

end Signpost
