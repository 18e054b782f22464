import Mathlib.Data.List.Forall2
import Signpost.OpenApi

/-!
Where the operations of a document stand. Each key of each path is a place; the places with an
operation that has an identifier are told by their entries, and the operations of a document are
those of its places, in order. Main statement: `OpenApi.operations_declared`.
-/

namespace Signpost.OpenApi

abbrev Entry := Document × Document

/-- A key of a path of a document. -/
structure Place where
  path : Document
  entry : Entry

/-- All keys of all paths, in the order of the document. Paths that are not mappings have none. -/
def places (paths : List Entry) : List Place :=
  paths.flatMap fun e => (e.2.entries?.getD []).map fun entry => ⟨e.1, entry⟩

/-- The key is the name of a method, in whatever case, and the value has an identifier. -/
def isOperation (e : Entry) : Bool :=
  e.1.text?.any (fun method => operationMethods.contains (Text.lowerAscii method)) &&
    ((e.2.get? "operationId".toList).bind Document.text?).isSome

def Place.isOperation (p : Place) : Bool :=
  p.path.text?.isSome && OpenApi.isOperation p.entry

/-- The operation is the one at this place. -/
structure Place.Declares (p : Place) (o : Operation) : Prop where
  path : p.path.text? = some o.path
  method : p.entry.1.text? = some o.method
  verb : Text.lowerAscii o.method ∈ operationMethods
  action : (p.entry.2.get? "operationId".toList).bind Document.text? = some o.action
  body : p.entry.2 = o.body

def Place.operation? (p : Place) : Option Operation :=
  p.path.text?.bind fun path => OpenApi.operation? path p.entry

@[simp]
theorem isSome_operation? (path : Text) (e : Entry) :
    (operation? path e).isSome = isOperation e := by
  unfold operation? isOperation
  cases e.1.text? with
  | none => rfl
  | some method =>
    rw [Option.any_some, Option.bind_eq_bind, Option.bind_some]
    cases operationMethods.contains (Text.lowerAscii method) with
    | false => rfl
    | true => cases (e.2.get? "operationId".toList).bind Document.text? <;> rfl

theorem Place.declares_iff {p : Place} {o : Operation} : p.Declares o ↔ p.operation? = some o := by
  constructor
  · rintro ⟨hpath, hmethod, hverb, haction, hbody⟩
    rw [Place.operation?, hpath, Option.bind_some, OpenApi.operation?, hmethod, Option.bind_eq_bind,
      Option.bind_some, if_pos (List.contains_iff_mem.mpr hverb), haction, hbody]
    rfl
  · intro h
    obtain ⟨path, hpath, h⟩ := Option.bind_eq_some_iff.mp h
    obtain ⟨method, hmethod, h⟩ := Option.bind_eq_some_iff.mp h
    split at h
    · next hverb =>
      obtain ⟨action, haction, h⟩ := Option.bind_eq_some_iff.mp h
      obtain rfl := Option.some.inj h
      exact ⟨hpath, hmethod, List.contains_iff_mem.mp hverb, haction, rfl⟩
    · cases h

@[simp]
theorem Place.isSome_operation? (p : Place) : p.operation?.isSome = p.isOperation := by
  unfold Place.operation? Place.isOperation
  cases p.path.text? with
  | none => rfl
  | some path => rw [Option.bind_some, OpenApi.isSome_operation?, Option.isSome_some, Bool.true_and]

theorem operations_eq (paths : List Entry) :
    operations paths = (places paths).filterMap Place.operation? := by
  rw [operations, places, List.filterMap_flatMap]
  congr 1
  funext e
  rw [List.filterMap_map, operationsOf]
  cases hpath : e.1.text? <;> cases e.2.entries? <;>
    simp [Function.comp_def, Place.operation?, hpath]

/-- There is one operation for each place with one, in order. -/
theorem operations_declared (paths : List Entry) :
    List.Forall₂ Place.Declares ((places paths).filter Place.isOperation) (operations paths) := by
  rw [operations_eq]
  induction places paths with
  | nil => exact .nil
  | cons p ps ih =>
    rw [List.filter_cons, ← p.isSome_operation?, List.filterMap_cons]
    cases hp : p.operation? with
    | none => exact ih
    | some o => exact .cons (Place.declares_iff.mpr hp) ih

end Signpost.OpenApi
