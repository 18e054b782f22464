import Signpost.Proofs.Router.History
import Signpost.Proofs.Text.Map

/-!
A resolved action that is refined while its router goes on. Adding or removing an argument resolves
the action again, with the arguments as the caller has left them and against the table that it was
resolved against at first; what was made of the URL in between, and what became of the router, do
not count. Main statement: `Session.refined_as_afresh`.
-/

namespace Signpost

/-- What a program does to an action that it has resolved. -/
inductive Refinement where
  | add (name : Text) (value : ArgValue) (current : Option Request)
  | remove (name : Text) (current : Option Request)
  | addFragment (fragment : Text)
  | absolute (current : Request)
  | secure (current : Request)

namespace Refinement

def apply (d : Resolution) : Refinement → Except RoutingError Resolution
  | add name value current => d.add name value current
  | remove name current => d.remove name current
  | addFragment fragment => .ok (d.addFragment fragment)
  | absolute current => .ok (d.absolute current)
  | secure current => .ok (d.secure current)

/-- The refinement as an operation on the arguments that the caller gave. -/
def edit (args : Args) : Refinement → Args
  | add name value _ => args.insert name value
  | remove name _ => args.erase name
  | _ => args

/-- The refinement resolves the action again, with this current request. -/
def ResolvesFor (current : Option Request) : Refinement → Prop
  | add _ _ c | remove _ c => c = current
  | _ => False

theorem apply_of_resolvesFor {refinement : Refinement} {current : Option Request}
    (h : refinement.ResolvesFor current) (d : Resolution) :
    refinement.apply d = d.table.resolve d.action (refinement.edit d.args) current := by
  cases refinement with
  | add name value c =>
    obtain rfl : c = current := h
    rfl
  | remove name c =>
    obtain rfl : c = current := h
    rfl
  | addFragment fragment => exact h.elim
  | absolute c => exact h.elim
  | secure c => exact h.elim

end Refinement

/-- A router, and an action that was resolved with it and is at hand. -/
structure Session where
  router : RouteTable
  resolution : Resolution

/-- What a program does next: a command to its router, or a refinement of the action that it has
resolved. -/
inductive Move where
  | command (c : Command)
  | refine (r : Refinement)

def Move.edit (args : Args) : Move → Args
  | command _ => args
  | refine r => r.edit args

/-- The resolution is for this action, with these arguments and against this table. -/
structure Resolution.Concerns (d : Resolution) (action : Text) (args : Args)
    (t : RouteTable) : Prop where
  action : d.action = action
  args : d.args = args
  table : d.table = t

namespace RouteTable

theorem concerns_of_resolve {t : RouteTable} {action : Text} {args : Args}
    {current : Option Request} {d : Resolution}
    (h : t.resolve action args current = .ok d) : d.Concerns action args t := by
  unfold resolve at h
  split at h
  · next found hfound =>
    obtain rfl := Except.ok.inj h
    obtain ⟨r, -, hr⟩ := List.exists_of_findSome?_eq_some hfound
    obtain ⟨url, -, rfl⟩ := Option.map_eq_some_iff.mp hr
    exact ⟨rfl, rfl, rfl⟩
  · cases h

end RouteTable

namespace Resolution

variable {d : Resolution} {action : Text} {args : Args} {t : RouteTable}

theorem Concerns.absolute (h : d.Concerns action args t) (current : Request) :
    (d.absolute current).Concerns action args t := by
  unfold Resolution.absolute
  split_ifs
  · exact h
  · exact ⟨h.action, h.args, h.table⟩
  · exact ⟨h.action, h.args, h.table⟩

theorem Concerns.secure (h : d.Concerns action args t) (current : Request) :
    (d.secure current).Concerns action args t := by
  unfold Resolution.secure
  split_ifs
  · exact ⟨h.action, h.args, h.table⟩
  · have habsolute := h.absolute current
    exact ⟨habsolute.action, habsolute.args, habsolute.table⟩

/-- A refinement that succeeds edits the arguments and keeps action and table. -/
theorem Concerns.refined (h : d.Concerns action args t) {refinement : Refinement} {d' : Resolution}
    (hd' : refinement.apply d = .ok d') : d'.Concerns action (refinement.edit args) t := by
  have hresolved : ∀ c, refinement.ResolvesFor c → d'.Concerns action (refinement.edit args) t := by
    intro c hc
    rw [Refinement.apply_of_resolvesFor hc, h.action, h.args, h.table] at hd'
    exact RouteTable.concerns_of_resolve hd'
  cases refinement with
  | add name value c => exact hresolved c rfl
  | remove name c => exact hresolved c rfl
  | addFragment fragment =>
    obtain rfl := Except.ok.inj hd'
    exact ⟨h.action, h.args, h.table⟩
  | absolute c =>
    obtain rfl := Except.ok.inj hd'
    exact h.absolute c
  | secure c =>
    obtain rfl := Except.ok.inj hd'
    exact h.secure c

end Resolution

namespace Session

def perform (s : Session) : Move → Except RoutingError Session
  | .command c => .ok { s with router := (c.perform s.router).table }
  | .refine r => (r.apply s.resolution).map fun d => { s with resolution := d }

/-- The session after moves, or the error of the first that fails. -/
def run (s : Session) : List Move → Except RoutingError Session
  | [] => .ok s
  | m :: rest => do (← s.perform m).run rest

theorem concerns_perform {s s' : Session} {m : Move} {action : Text} {args : Args} {t : RouteTable}
    (h : s.resolution.Concerns action args t) (hs' : s.perform m = .ok s') :
    s'.resolution.Concerns action (m.edit args) t := by
  cases m with
  | command c =>
    obtain rfl := Except.ok.inj hs'
    exact h
  | refine r =>
    obtain ⟨d, hd, rfl⟩ := Except.map_eq_ok hs'
    exact h.refined hd

/-- What the refinements of a run keep holds after the run. -/
theorem run_keeps {Good : Resolution → Prop} {allowed : Refinement → Prop}
    (hstep : ∀ d d' refinement, Good d → allowed refinement → refinement.apply d = .ok d' → Good d')
    {s s' : Session} {moves : List Move}
    (hmoves : ∀ refinement, .refine refinement ∈ moves → allowed refinement)
    (h : Good s.resolution) (hrun : s.run moves = .ok s') : Good s'.resolution := by
  induction moves generalizing s with
  | nil =>
    obtain rfl := Except.ok.inj hrun
    exact h
  | cons m rest ih =>
    obtain ⟨next, hnext, hrest⟩ := Except.bind_eq_ok hrun
    refine ih (fun refinement hmem => hmoves refinement (List.mem_cons_of_mem m hmem)) ?_ hrest
    cases m with
    | command c =>
      obtain rfl := Except.ok.inj hnext
      exact h
    | refine refinement =>
      obtain ⟨d, hd, rfl⟩ := Except.map_eq_ok hnext
      exact hstep _ _ refinement h (hmoves refinement List.mem_cons_self) hd

/-- Action and table stay over a whole run, and the arguments are those of the caller with the edits
done in order. -/
theorem concerns_run {s s' : Session} {moves : List Move} {action : Text} {args : Args}
    {t : RouteTable} (h : s.resolution.Concerns action args t) (hrun : s.run moves = .ok s') :
    s'.resolution.Concerns action (moves.foldl Move.edit args) t := by
  induction moves generalizing s args with
  | nil =>
    obtain rfl := Except.ok.inj hrun
    exact h
  | cons m rest ih =>
    obtain ⟨next, hnext, hrest⟩ := Except.bind_eq_ok hrun
    exact ih (concerns_perform h hnext) hrest

/-- What is under a name after the edits was there before or was added. -/
theorem get?_edited {moves : List Move} {args : Args} {name : Text} {v : ArgValue}
    (h : (moves.foldl Move.edit args).get? name = some v) :
    args.get? name = some v ∨ ∃ current, .refine (.add name v current) ∈ moves := by
  induction moves generalizing args with
  | nil => exact .inl h
  | cons m rest ih =>
    rcases ih h with hedited | ⟨current, hadded⟩
    · cases m with
      | command c => exact .inl hedited
      | refine r =>
        cases r with
        | add added value c =>
          rw [Move.edit, Refinement.edit, TextMap.get?_insert] at hedited
          split_ifs at hedited with hname
          · obtain rfl := Option.some.inj hedited
            subst hname
            exact .inr ⟨c, List.mem_cons_self⟩
          · exact .inl hedited
        | remove removed c =>
          rw [Move.edit, Refinement.edit, TextMap.get?_erase] at hedited
          split_ifs at hedited
          exact .inl hedited
        | addFragment fragment => exact .inl hedited
        | absolute c => exact .inl hedited
        | secure c => exact .inl hedited
    · exact .inr ⟨current, List.mem_cons_of_mem _ hadded⟩

/-- Refining is resolving afresh. An action is resolved with a router; then it is refined, and the
router goes on, in any order. The next time that an argument is added or removed the result, be it a
resolution or an error, is that of resolving the action against the first table, with the arguments
of the caller as all additions and removals have left them. So to add an argument that was not there
and to remove it gives back the first resolution, and among the arguments is nothing that the caller
did not put there. -/
theorem refined_as_afresh {t : RouteTable} {action : Text} {args : Args} {current : Option Request}
    {d : Resolution} (hd : (t.reverse action args current).answer = .ok d) {moves : List Move}
    {s : Session} (hrun : run ⟨t, d⟩ moves = .ok s) :
    (∀ (last : Refinement) c, last.ResolvesFor c →
        last.apply s.resolution = t.resolve d.action (last.edit (moves.foldl Move.edit d.args)) c) ∧
      (∀ name value c d', d.args.get? name = none → d.add name value c = .ok d' →
        d'.remove name current = .ok d) ∧
      d.args = args ∧ s.resolution.args = moves.foldl Move.edit args ∧
      ∀ name v, s.resolution.args.get? name = some v →
        args.get? name = some v ∨ ∃ c, .refine (.add name v c) ∈ moves := by
  have hresolved : t.resolve action args current = .ok d := hd
  have hfirst : d.Concerns action args t := RouteTable.concerns_of_resolve hresolved
  have hlast : s.resolution.Concerns action (moves.foldl Move.edit args) t :=
    concerns_run hfirst hrun
  refine ⟨fun last c hc => ?_, fun name value c d' hnew hadd => ?_, hfirst.args, hlast.args,
    fun name v hv => ?_⟩
  · rw [Refinement.apply_of_resolvesFor hc, hlast.action, hlast.args, hlast.table, hfirst.action,
      hfirst.args]
  · have happlied : (Refinement.add name value c).apply d = .ok d' := hadd
    have hadded : d'.Concerns action (args.insert name value) t := hfirst.refined happlied
    have hback : (args.insert name value).erase name = args := by
      refine TextMap.eq_of_get? fun k => ?_
      by_cases hk : k = name
      · simp [hk, ← hfirst.args, hnew]
      · simp [hk]
    rw [Resolution.remove, hadded.action, hadded.args, hadded.table, hback, hresolved]
  · exact get?_edited (hlast.args ▸ hv)

/-- Of two routes for one action the second is taken, then the first when there is an argument for
it; after the router is cleared and the URL finished, removing the argument leads back to the
second. -/
theorem refined_as_afresh_switched :
    ∃ r s d, ∃ later : Session,
      Route.compile { method := "GET".toList, path := "/users/{id}".toList,
                      action := "show".toList } = .ok r ∧
      Route.compile { method := "GET".toList, path := "/users".toList, action := "show".toList } =
        .ok s ∧
      (RouteTable.reverse { routes := [r, s] } "show".toList ∅ none).answer = .ok d ∧
      run ⟨{ routes := [r, s] }, d⟩ [.refine (.add "id".toList (.single "7".toList) none),
        .command .clear, .refine (.addFragment "top".toList)] = .ok later ∧
      later.router = .empty ∧ later.resolution.url = "/users/7#top".toList ∧
      later.resolution.remove "id".toList none = .ok d := by
  have hchecked : Route.compilesTo
      { method := "GET".toList, path := "/users/{id}".toList, action := "show".toList } (fun r =>
        Route.compilesTo
          { method := "GET".toList, path := "/users".toList, action := "show".toList } fun s =>
          (RouteTable.reverse
            { routes := [r, s] } "show".toList ∅ none).answer.toOption.any fun d =>
            (run ⟨{ routes := [r, s] }, d⟩ [.refine (.add "id".toList (.single "7".toList) none),
              .command .clear, .refine (.addFragment "top".toList)]).toOption.any fun later =>
                later.router == .empty &&
                  later.resolution.url == "/users/7#top".toList) = true := by
    decide +kernel
  obtain ⟨r, hr, hrest⟩ := Route.exists_of_compilesTo hchecked
  obtain ⟨s, hs, hrest⟩ := Route.exists_of_compilesTo hrest
  obtain ⟨d, hd, hrest⟩ := Except.exists_of_any hrest
  obtain ⟨later, hlater, hfacts⟩ := Except.exists_of_any hrest
  obtain ⟨hrouter, hurl⟩ := Bool.and_eq_true _ _ ▸ hfacts
  obtain ⟨hafresh, -, hargs, -⟩ := refined_as_afresh hd hlater
  have hremoved := hafresh (.remove "id".toList none) none rfl
  have hconcerns : d.Concerns "show".toList ∅ { routes := [r, s] } :=
    RouteTable.concerns_of_resolve hd
  rw [hconcerns.action, hargs] at hremoved
  exact ⟨r, s, d, later, hr, hs, hd, hlater, eq_of_beq hrouter, eq_of_beq hurl, hremoved.trans hd⟩

end Session

end Signpost
