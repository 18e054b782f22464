import Mathlib.Data.List.Nodup
import Mathlib.Order.Basic
import Signpost.Text.Map

/-!
Maps told by their look-ups. A map holds an entry just when looking up its name gives its value, so
maps that agree on every name are equal, and what overlaying, changing the values or listing entries
does is told by one look-up each.
-/

namespace Signpost.TextMap

variable {α : Type}

theorem nodup_keys (m : TextMap α) : m.keys.Nodup := by
  refine List.pairwise_map.mpr (m.sorted.imp ?_)
  rintro a b hlt heq
  rw [heq] at hlt
  exact List.lt_irrefl _ hlt

theorem lookup_eq_none_iff {k : Text} {es : List (Text × α)} :
    lookup k es = none ↔ k ∉ es.map (·.1) := by
  induction es with
  | nil => simp [lookup]
  | cons e rest ih =>
    obtain ⟨l, w⟩ := e
    rw [lookup, List.map_cons, List.mem_cons, not_or, ← ih]
    split_ifs with hk <;> simp [hk]

theorem mem_of_lookup {k : Text} {v : α} {es : List (Text × α)} (h : lookup k es = some v) :
    (k, v) ∈ es := by
  induction es with
  | nil => cases h
  | cons e rest ih =>
    obtain ⟨l, w⟩ := e
    rw [lookup] at h
    split_ifs at h with hk
    · rw [hk, Option.some.inj h]
      exact List.mem_cons_self
    · exact List.mem_cons_of_mem _ (ih h)

@[simp]
theorem lookup_append {k : Text} {es fs : List (Text × α)} :
    lookup k (es ++ fs) = (lookup k es).or (lookup k fs) := by
  induction es with
  | nil => rfl
  | cons e rest ih =>
    rw [List.cons_append, lookup, lookup, ih]
    split_ifs <;> rfl

theorem lookup_eq_some_iff {k : Text} {v : α} {es : List (Text × α)}
    (hnodup : (es.map (·.1)).Nodup) :
    lookup k es = some v ↔ (k, v) ∈ es := by
  induction es with
  | nil => simp [lookup]
  | cons e rest ih =>
    obtain ⟨l, w⟩ := e
    obtain ⟨hfresh, hrest⟩ := List.nodup_cons.mp hnodup
    rw [lookup, List.mem_cons, ← ih hrest, Prod.mk.injEq]
    split_ifs with hk
    · subst hk
      have hnone : lookup k rest = none := lookup_eq_none_iff.mpr hfresh
      simp [hnone, eq_comm]
    · simp [hk]

@[simp]
theorem mem_entries {m : TextMap α} {k : Text} {v : α} : (k, v) ∈ m.entries ↔ m.get? k = some v :=
  (lookup_eq_some_iff m.nodup_keys).symm

theorem eq_of_get? {m n : TextMap α} (h : ∀ k, m.get? k = n.get? k) : m = n := by
  have hmem : ∀ e, e ∈ m.entries ↔ e ∈ n.entries := fun e => by rw [mem_entries, mem_entries, h]
  have hm : m.entries.Nodup := m.nodup_keys.of_map _
  have hn : n.entries.Nodup := n.nodup_keys.of_map _
  have hperm : m.entries.Perm n.entries := (List.perm_ext_iff_of_nodup hm hn).mpr hmem
  have hentries : m.entries = n.entries :=
    hperm.eq_of_pairwise (fun a b _ _ hab hba =>
      absurd (List.lt_trans hab hba) (List.lt_irrefl _)) m.sorted n.sorted
  cases m
  cases n
  exact (mk.injEq ..).mpr hentries

/-- A new entry stands in one place among the others, whatever its value. -/
theorem exists_insertEntry (k : Text) (es : List (Text × α)) :
    ∃ before after, ∀ v, insertEntry k v es = before ++ (k, v) :: after := by
  induction es with
  | nil => exact ⟨[], [], fun v => rfl⟩
  | cons e rest ih =>
    obtain ⟨l, w⟩ := e
    simp only [insertEntry]
    split_ifs with hlt heq
    · exact ⟨[], (l, w) :: rest, fun v => rfl⟩
    · exact ⟨[], rest, fun v => rfl⟩
    · obtain ⟨before, after, hrest⟩ := ih
      exact ⟨(l, w) :: before, after, fun v => congrArg (List.cons (l, w)) (hrest v)⟩

/-- A new entry stands where the entry of its name was, if there was one, and the others stay. -/
theorem exists_insertEntry_at (k : Text) {es : List (Text × α)}
    (h : es.Pairwise fun a b => a.1 < b.1) :
    ∃ before after, es = before ++ ((lookup k es).map (k, ·)).toList ++ after ∧
      ∀ v, insertEntry k v es = before ++ (k, v) :: after := by
  induction es with
  | nil => exact ⟨[], [], rfl, fun v => rfl⟩
  | cons e rest ih =>
    obtain ⟨l, w⟩ := e
    obtain ⟨hl, hrest⟩ := List.pairwise_cons.mp h
    simp only [insertEntry, lookup]
    split_ifs with heq hlt hlt
    · exact absurd (heq ▸ hlt) (List.lt_irrefl _)
    · exact ⟨[], rest, by rw [heq]; rfl, fun v => rfl⟩
    · -- The name comes before all names of the list, so it is none of them.
      have hfresh : lookup k rest = none := by
        rw [lookup_eq_none_iff]
        intro hmem
        obtain ⟨f, hf, rfl⟩ := List.mem_map.mp hmem
        exact List.lt_irrefl _ (List.lt_trans hlt (hl f hf))
      exact ⟨[], (l, w) :: rest, by rw [hfresh]; rfl, fun v => rfl⟩
    · obtain ⟨before, after, hentries, hinsert⟩ := ih hrest
      exact ⟨(l, w) :: before, after, congrArg (List.cons (l, w)) hentries,
        fun v => congrArg (List.cons (l, w)) (hinsert v)⟩

theorem exists_entries_at (m : TextMap α) (k : Text) :
    ∃ before after, m.entries = before ++ ((m.get? k).map (k, ·)).toList ++ after ∧
      ∀ v, (m.insert k v).entries = before ++ (k, v) :: after :=
  exists_insertEntry_at k m.sorted

theorem exists_entries_insert (m : TextMap α) (k : Text) :
    ∃ before after, ∀ v, (m.insert k v).entries = before ++ (k, v) :: after :=
  exists_insertEntry k m.entries

@[simp]
theorem get?_empty (k : Text) : (∅ : TextMap α).get? k = none :=
  rfl

theorem get?_foldl_insert {es : List (Text × α)} (hnodup : (es.map (·.1)).Nodup) (m : TextMap α)
    (k : Text) :
    (es.foldl (fun m e => m.insert e.1 e.2) m).get? k = (lookup k es).or (m.get? k) := by
  induction es generalizing m with
  | nil => rfl
  | cons e rest ih =>
    obtain ⟨l, w⟩ := e
    obtain ⟨hfresh, hrest⟩ := List.nodup_cons.mp hnodup
    rw [List.foldl_cons, ih hrest, get?_insert, lookup]
    split_ifs with hk
    · subst hk
      rw [lookup_eq_none_iff.mpr hfresh, Option.none_or, Option.some_or]
    · rfl

@[simp]
theorem get?_overlay (m n : TextMap α) (k : Text) :
    (m.overlay n).get? k = (n.get? k).or (m.get? k) :=
  get?_foldl_insert n.nodup_keys m k

theorem get?_ofList {es : List (Text × α)} (hnodup : (es.map (·.1)).Nodup) {k : Text} {v : α} :
    (ofList es).get? k = some v ↔ (k, v) ∈ es := by
  have hget := get?_foldl_insert hnodup ∅ k
  rw [get?_empty, Option.or_none] at hget
  rw [ofList, hget, lookup_eq_some_iff hnodup]

/-- A map that is made of a list has no other entries than the list. -/
theorem mem_of_mem_ofList {es : List (Text × α)} {e : Text × α} (h : e ∈ (ofList es).entries) :
    e ∈ es := by
  have hgeneral : ∀ (es : List (Text × α)) (m : TextMap α),
      e ∈ (es.foldl (fun m e => m.insert e.1 e.2) m).entries → e ∈ m.entries ∨ e ∈ es := by
    intro es
    induction es with
    | nil => exact fun m h => .inl h
    | cons f rest ih =>
      intro m h
      rcases ih _ h with hm | hrest
      · rcases mem_insertEntry hm with rfl | hm
        · exact .inr List.mem_cons_self
        · exact .inl hm
      · exact .inr (List.mem_cons_of_mem f hrest)
  rcases hgeneral es ∅ h with hempty | hes
  · cases hempty
  · exact hes

/-- The entries of a map give it back in any order. -/
theorem ofList_of_perm {es : List (Text × α)} {m : TextMap α} (h : es.Perm m.entries) :
    ofList es = m := by
  have hkeys : (es.map (·.1)).Perm m.keys := h.map (·.1)
  have hnodup : (es.map (·.1)).Nodup := hkeys.nodup_iff.mpr m.nodup_keys
  refine eq_of_get? fun k => Option.ext fun v => ?_
  rw [get?_ofList hnodup, h.mem_iff, mem_entries]

theorem lookup_filter (p : Text → Bool) (k : Text) (es : List (Text × α)) :
    lookup k (es.filter fun e => p e.1) = if p k then lookup k es else none := by
  induction es with
  | nil => simp [lookup]
  | cons e rest ih =>
    obtain ⟨l, w⟩ := e
    rw [List.filter_cons, lookup]
    by_cases hk : k = l
    · subst hk
      rw [if_pos rfl]
      split_ifs with hp
      · rw [lookup, if_pos rfl]
      · rw [ih, if_neg hp]
    · rw [if_neg hk, ← ih]
      split_ifs
      · rw [lookup, if_neg hk]
      · rfl

/-- Maps that agree on some names have the same entries of these names, in the same order. -/
theorem filter_entries_congr {m n : TextMap α} {p : Text → Bool}
    (h : ∀ k, p k = true → m.get? k = n.get? k) :
    m.entries.filter (fun e => p e.1) = n.entries.filter fun e => p e.1 := by
  have heq : (⟨m.entries.filter fun e => p e.1, m.sorted.filter _⟩ : TextMap α) =
      ⟨n.entries.filter fun e => p e.1, n.sorted.filter _⟩ := by
    refine eq_of_get? fun k => ?_
    show lookup k (m.entries.filter fun e => p e.1) = lookup k (n.entries.filter fun e => p e.1)
    rw [lookup_filter, lookup_filter]
    split_ifs with hk
    · exact h k hk
    · rfl
  exact congrArg entries heq

@[simp]
theorem get?_map {β : Type} (f : α → β) (m : TextMap α) (k : Text) :
    (m.map f).get? k = (m.get? k).map f := by
  obtain ⟨es, hes⟩ := m
  show lookup k (es.map fun e => (e.1, f e.2)) = (lookup k es).map f
  clear hes
  induction es with
  | nil => rfl
  | cons e rest ih =>
    obtain ⟨l, w⟩ := e
    rw [List.map_cons, lookup, lookup]
    split_ifs
    · rfl
    · exact ih

end Signpost.TextMap
