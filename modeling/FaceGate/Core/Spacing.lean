import Mathlib.Algebra.Order.Group.Basic
import Mathlib.Data.List.Basic

/-!
# Spacing in a log

A log of entries with times. Two marked entries with no separator between them
are at least `T` apart (`Spaced`); when every entry is marked or a separator,
appending an entry asks for nothing but its distance from the last one
(`spaced_concat`).
-/
namespace Core

variable {A M : Type*} [AddCommGroup M] [LinearOrder M]

def Spaced (time : A → M) (mark sep : A → Prop) (T : M) (l : List A) : Prop :=
  ∀ xs a ys b zs, l = xs ++ a :: ys ++ b :: zs → mark a → mark b → (∀ y ∈ ys, ¬ sep y) →
    T ≤ time b - time a

variable {time : A → M} {mark sep : A → Prop} {T : M}

theorem spaced_nil : Spaced time mark sep T [] := by
  intro xs a ys b zs h
  simp at h

theorem Spaced.of_append {l m : List A} (h : Spaced time mark sep T (l ++ m)) :
    Spaced time mark sep T l := by
  intro xs a ys b zs hl
  exact h xs a ys b (zs ++ m) (by rw [hl]; simp)

theorem Spaced.last {l : List A} {x y : A} (h : Spaced time mark sep T (l ++ [x]))
    (hy : y ∈ l.getLast?) (my : mark y) (mx : mark x) : T ≤ time x - time y := by
  obtain ⟨xs, rfl⟩ := List.getLast?_eq_some_iff.mp hy
  exact h xs y [] x [] (by simp) my mx (by simp)

/-- Marked entries all the way from `a` to the end: the last one is far enough. -/
theorem Spaced.concat [IsOrderedAddMonoid M] {l : List A} {x : A} (hT : 0 ≤ T)
    (hl : ∀ y ∈ l, mark y ∨ sep y) (h : Spaced time mark sep T l)
    (hx : mark x → ∀ y ∈ l.getLast?, mark y → T ≤ time x - time y) :
    Spaced time mark sep T (l ++ [x]) := by
  intro xs a ys b zs he ma mb hys
  rcases zs.eq_nil_or_concat' with rfl | ⟨zs, z, rfl⟩
  · obtain ⟨rfl, rfl⟩ : l = xs ++ a :: ys ∧ x = b := by
      simpa using List.append_inj' he rfl
    rcases ys.eq_nil_or_concat' with rfl | ⟨ys, y, rfl⟩
    · exact hx mb a (by simp) ma
    · have my : mark y := (hl y (by simp)).resolve_right (hys y (by simp))
      have hy : y ∈ (xs ++ a :: (ys ++ [y])).getLast? :=
        List.getLast?_eq_some_iff.mpr ⟨xs ++ a :: ys, by simp⟩
      have h₁ : T ≤ time x - time y := hx mb y hy my
      have h₂ : T ≤ time y - time a :=
        h xs a ys y [] (by simp) ma my fun k hk => hys k (by simp [hk])
      calc T ≤ T + T := le_add_of_nonneg_right hT
        _ ≤ (time x - time y) + (time y - time a) := add_le_add h₁ h₂
        _ = time x - time a := sub_add_sub_cancel _ _ _
  · have he' : l ++ [x] = (xs ++ a :: ys ++ b :: zs) ++ [z] := by rw [he]; simp
    exact h xs a ys b zs (List.append_inj' he' rfl).1 ma mb hys

theorem spaced_concat [IsOrderedAddMonoid M] {l : List A} {x : A} (hT : 0 ≤ T)
    (hl : ∀ y ∈ l, mark y ∨ sep y) :
    Spaced time mark sep T (l ++ [x]) ↔ Spaced time mark sep T l ∧
      (mark x → ∀ y ∈ l.getLast?, mark y → T ≤ time x - time y) :=
  ⟨fun h => ⟨h.of_append, fun mx _ hy my => h.last hy my mx⟩, fun h => h.1.concat hT hl h.2⟩

end Core
