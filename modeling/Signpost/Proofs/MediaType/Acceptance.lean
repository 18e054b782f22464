import Signpost.Proofs.Route.Guard

/-!
Acceptance as an order. A media type stands above those that it accepts, with the type of all types
on top, and the condition on formats lets through what stands above something that it lets through.
Main statement: `MediaType.includes_preorder`.
-/

namespace Signpost.MediaType

@[simp]
theorem includes_all (m : MediaType) : all.includes m = true :=
  includes_iff.mpr (.inl rfl)

/-- Acceptance is a preorder with the type of all types on top, and a condition on formats, whatever
it declares and whether or not it requires a format, that holds of a request holds when the request
asks for a format that accepts the one it asked for. -/
theorem includes_preorder :
    (∀ a : MediaType, a.includes a = true) ∧
      (∀ a b c : MediaType, a.includes b = true → b.includes c = true → a.includes c = true) ∧
      (∀ a : MediaType, all.includes a = true) ∧
      ∀ (declared : List MediaType) (required : Bool) (q : Query) (asked wider : MediaType),
        q.format = some asked → wider.includes asked = true →
          (Guard.format declared required).holds q = true →
          (Guard.format declared required).holds { q with format := some wider } = true := by
  refine ⟨includes_self, fun a b c => includes_trans, includes_all, ?_⟩
  intro declared required q asked wider hasked hwider hholds
  have hsame : { q with format := some asked } = q := by rw [← hasked]
  exact Guard.holds_format_wider hwider (hsame.symm ▸ hholds)

/-- `application/*` stands above `application/*+xml`, which stands above a type with two plus signs
in its name, and a condition that declares that type lets through a request for either. -/
theorem includes_preorder_feed :
    (new "application".toList "*".toList).includes
      (new "Application".toList "a+b+XML".toList) = true ∧
      (Guard.format [new "application".toList "a+b+xml".toList] true).holds
        ⟨"GET".toList, ['/'], some (new "application".toList "*".toList), none⟩ = true :=
  have hwide : (new "application".toList "*".toList).includes
      (new "application".toList "*+xml".toList) = true := by decide
  ⟨includes_preorder.2.1 _ _ _ hwide (by decide),
    includes_preorder.2.2.2 _ true ⟨"GET".toList, ['/'],
      some (new "application".toList "*+xml".toList), none⟩ _ _ rfl hwide
      (by decide)⟩

end Signpost.MediaType
