import Signpost.Text.Basic

/-!
Maps from names to values, kept in the order of the names. The order of code points is also the
order of the encoded bytes. Two maps with the same entries are equal, because the order leaves one
way to list them.
-/

namespace Signpost

/-- A map from names to values, listed by name. -/
structure TextMap (α : Type) where
  entries : List (Text × α)
  sorted : entries.Pairwise fun a b => a.1 < b.1
  deriving DecidableEq

namespace TextMap

variable {α : Type}

def empty : TextMap α :=
  ⟨[], .nil⟩

instance : EmptyCollection (TextMap α) :=
  ⟨empty⟩

instance : Inhabited (TextMap α) :=
  ⟨empty⟩

def lookup (k : Text) : List (Text × α) → Option α
  | [] => none
  | (l, v) :: rest => if k = l then some v else lookup k rest

def get? (m : TextMap α) (k : Text) : Option α :=
  lookup k m.entries

def contains (m : TextMap α) (k : Text) : Bool :=
  (m.get? k).isSome

def keys (m : TextMap α) : List Text :=
  m.entries.map (·.1)

/-- Puts an entry into its place in a sorted list, over any entry of that name. -/
def insertEntry (k : Text) (v : α) : List (Text × α) → List (Text × α)
  | [] => [(k, v)]
  | (l, w) :: rest =>
    if k < l then (k, v) :: (l, w) :: rest
    else if k = l then (k, v) :: rest
    else (l, w) :: insertEntry k v rest

theorem mem_insertEntry {k : Text} {v : α} {es : List (Text × α)} {e : Text × α}
    (h : e ∈ insertEntry k v es) : e = (k, v) ∨ e ∈ es := by
  induction es with
  | nil => simpa [insertEntry] using h
  | cons f rest ih =>
    obtain ⟨l, w⟩ := f
    by_cases hlt : k < l
    · simpa [insertEntry, hlt] using h
    · by_cases heq : k = l
      · rcases List.mem_cons.1
          (by simpa only [insertEntry, if_neg hlt, if_pos heq] using h) with h | h
        · exact .inl h
        · exact .inr (List.mem_cons_of_mem _ h)
      · rcases List.mem_cons.1 (by simpa [insertEntry, hlt, heq] using h) with h | h
        · exact .inr (by simp [h])
        · rcases ih h with h | h
          · exact .inl h
          · exact .inr (List.mem_cons_of_mem _ h)

theorem sorted_insertEntry (k : Text) (v : α) {es : List (Text × α)}
    (h : es.Pairwise fun a b => a.1 < b.1) : (insertEntry k v es).Pairwise fun a b =>
      a.1 < b.1 := by
  induction es with
  | nil => simp [insertEntry]
  | cons f rest ih =>
    obtain ⟨l, w⟩ := f
    obtain ⟨hl, hrest⟩ := List.pairwise_cons.1 h
    by_cases hlt : k < l
    · simp only [insertEntry, hlt, ↓reduceIte]
      refine List.pairwise_cons.2 ⟨fun e he => ?_, h⟩
      rcases List.mem_cons.1 he with rfl | he
      · exact hlt
      · exact List.lt_trans hlt (hl e he)
    · by_cases heq : k = l
      · subst heq
        simpa [insertEntry, hlt] using h
      · simp only [insertEntry, hlt, heq, ↓reduceIte]
        refine List.pairwise_cons.2 ⟨fun e he => ?_, ih hrest⟩
        rcases mem_insertEntry he with rfl | he
        · exact Classical.byContradiction fun hn => heq (List.le_antisymm hn hlt)
        · exact hl e he

def insert (m : TextMap α) (k : Text) (v : α) : TextMap α :=
  ⟨insertEntry k v m.entries, sorted_insertEntry k v m.sorted⟩

theorem lookup_insertEntry (k l : Text) (v : α) (es : List (Text × α)) :
    lookup l (insertEntry k v es) = if l = k then some v else lookup l es := by
  induction es with
  | nil => rfl
  | cons e rest ih =>
    obtain ⟨j, w⟩ := e
    by_cases hlt : k < j
    · simp [insertEntry, hlt, lookup]
    · by_cases heq : k = j
      · subst heq
        rw [insertEntry, if_neg hlt, if_pos rfl]
        by_cases hl : l = k <;> simp [lookup, hl]
      · by_cases hl : l = j
        · subst hl
          simp [insertEntry, hlt, heq, lookup, Ne.symm heq]
        · simp [insertEntry, hlt, heq, lookup, hl, ih]

@[simp]
theorem get?_insert (m : TextMap α) (k l : Text) (v : α) :
    (m.insert k v).get? l = if l = k then some v else m.get? l :=
  lookup_insertEntry k l v m.entries

def erase (m : TextMap α) (k : Text) : TextMap α :=
  ⟨m.entries.filter fun e => e.1 ≠ k, m.sorted.filter _⟩

theorem lookup_filter_ne (k l : Text) (es : List (Text × α)) :
    lookup l (es.filter fun e => e.1 ≠ k) = if l = k then none else lookup l es := by
  induction es with
  | nil => simp [lookup]
  | cons e rest ih =>
    obtain ⟨j, w⟩ := e
    by_cases hj : j = k
    · subst hj
      by_cases hl : l = j <;> simp_all [lookup]
    · by_cases hl : l = j
      · subst hl
        simp [lookup, hj]
      · simp_all [lookup]

@[simp]
theorem get?_erase (m : TextMap α) (k l : Text) :
    (m.erase k).get? l = if l = k then none else m.get? l :=
  lookup_filter_ne k l m.entries

/-- The map that a list of entries makes, a later entry over an earlier one of its name. -/
def ofList (es : List (Text × α)) : TextMap α :=
  es.foldl (fun m e => m.insert e.1 e.2) ∅

/-- The first map with the entries of the second over it. -/
def overlay (m n : TextMap α) : TextMap α :=
  n.entries.foldl (fun m e => m.insert e.1 e.2) m

def map {β : Type} (f : α → β) (m : TextMap α) : TextMap β :=
  ⟨m.entries.map fun e => (e.1, f e.2), by
    rw [List.pairwise_map]
    exact m.sorted⟩

end TextMap

end Signpost
