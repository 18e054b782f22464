import Signpost.Proofs.Source.Load
import Signpost.Router

/-!
What each operation that reads sources gives: the answer, the table and the events at once. A load
replaces the table or changes nothing; looking for changes is a load, or nothing at all.
-/

namespace Signpost.RouteTable

open File (Time)
open Source (FirstAfter FirstFault Loads Settled Newer Unreadable)

variable {sources : List Source} {e : LoadError}

/-- The table that a load of these sources makes. -/
def loaded (sources : List Source) (now : Time) : RouteTable :=
  ⟨sources.flatMap Source.routes, some now⟩

theorem load_of_loads (h : ∀ s ∈ sources, s.Loads) (t : RouteTable) (now : Time) :
    t.load sources now = ⟨.ok (loaded sources now).size, loaded sources now,
      [.loaded (loaded sources now).listing, .metric (.reload true),
        .metric (.routes (loaded sources now).size)]⟩ := by
  unfold load
  rw [Source.loadAll_of_loads h]
  rfl

theorem load_of_firstFault (h : FirstFault sources e) (t : RouteTable) (now : Time) :
    t.load sources now = ⟨.error e, t, [.metric (.reload false)]⟩ := by
  unfold load
  rw [Source.loadAll_of_firstFault h]

theorem load_eq_error_iff {t : RouteTable} {now : Time} :
    (t.load sources now).answer = .error e ↔ FirstFault sources e := by
  constructor
  · intro h
    rcases Source.loads_or_firstFault sources with hloads | ⟨e', he'⟩
    · rw [load_of_loads hloads] at h
      cases h
    · rw [load_of_firstFault he'] at h
      exact Except.error.inj h ▸ he'
  · intro h
    rw [load_of_firstFault h]

theorem detectChanges_of_settled {t : RouteTable} (h : ∀ s ∈ sources, s.Settled t.loadedAt)
    (now : Time) :
    t.detectChanges sources now = ⟨.ok false, t, []⟩ := by
  unfold detectChanges
  rw [Source.anyNewer_of_settled h]

theorem detectChanges_of_unreadable {t : RouteTable}
    (h : FirstAfter (Settled t.loadedAt) (Unreadable e) sources) (now : Time) :
    t.detectChanges sources now = ⟨.error e, t, []⟩ := by
  unfold detectChanges
  rw [Source.anyNewer_of_unreadable h]

/-- When a source is newer, all sources are loaded. -/
theorem detectChanges_of_newer {t : RouteTable}
    (h : FirstAfter (Settled t.loadedAt) (Newer t.loadedAt) sources) (now : Time) :
    t.detectChanges sources now = ⟨(t.load sources now).answer.map fun _ => true,
      (t.load sources now).table, (t.load sources now).events⟩ := by
  unfold detectChanges
  rw [Source.anyNewer_of_newer h]

/-- Looking for changes loads all sources, or fails to, or finds nothing newer, or cannot tell. -/
theorem detectChanges_cases (t : RouteTable) (sources : List Source) (now : Time) :
    (FirstAfter (Settled t.loadedAt) (Newer t.loadedAt) sources ∧ (∀ s ∈ sources, s.Loads) ∧
      t.detectChanges sources now = ⟨.ok true, loaded sources now, (t.load sources now).events⟩) ∨
    (∃ e, FirstAfter (Settled t.loadedAt) (Newer t.loadedAt) sources ∧ FirstFault sources e ∧
      t.detectChanges sources now = ⟨.error e, t, (t.load sources now).events⟩) ∨
    ((∀ s ∈ sources, s.Settled t.loadedAt) ∧ t.detectChanges sources now = ⟨.ok false, t, []⟩) ∨
    (∃ e, FirstAfter (Settled t.loadedAt) (Unreadable e) sources ∧
      t.detectChanges sources now = ⟨.error e, t, []⟩) := by
  rcases Source.settled_or_firstAfter t.loadedAt sources with hall | hnewer | ⟨e, he⟩
  · exact .inr (.inr (.inl ⟨hall, detectChanges_of_settled hall now⟩))
  · have hdetect := detectChanges_of_newer hnewer now
    rcases Source.loads_or_firstFault sources with hloads | ⟨e, he⟩
    · refine .inl ⟨hnewer, hloads, ?_⟩
      rw [hdetect, load_of_loads hloads]
      rfl
    · refine .inr (.inl ⟨e, hnewer, he, ?_⟩)
      rw [hdetect, load_of_firstFault he]
      rfl
  · exact .inr (.inr (.inr ⟨e, he, detectChanges_of_unreadable he now⟩))

section Watching

variable {t : RouteTable} {now : Time}

theorem reloadIfChanged_of_true (h : (t.detectChanges sources now).answer = .ok true) :
    t.reloadIfChanged sources now = ⟨.reloaded (t.detectChanges sources now).table.size,
      (t.detectChanges sources now).table,
      (t.detectChanges sources now).events ++ [.reloaded]⟩ := by
  simp only [reloadIfChanged, h]

theorem reloadIfChanged_of_false (h : (t.detectChanges sources now).answer = .ok false) :
    t.reloadIfChanged sources now =
      ⟨.unchanged, (t.detectChanges sources now).table, (t.detectChanges sources now).events⟩ := by
  simp only [reloadIfChanged, h]

theorem reloadIfChanged_of_error (h : (t.detectChanges sources now).answer = .error e) :
    t.reloadIfChanged sources now =
      ⟨.failed e, (t.detectChanges sources now).table, (t.detectChanges sources now).events⟩ := by
  simp only [reloadIfChanged, h]

end Watching

end Signpost.RouteTable
