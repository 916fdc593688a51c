import Mathlib.Data.List.Basic

/-!
# Logs whose entries are justified

A log grows at its end. `Justified Q l`: every entry `x` of `l` stands in the
relation `Q` to the entries before it. An entry appended is the only one to check.
`Followed Q l`: every entry stands in the relation `Q` to the entries after it. An entry
appended is one more for all of them.
-/
namespace Core

variable {E : Type*}

def Justified (Q : List E → E → Prop) (l : List E) : Prop :=
  ∀ pre x post, l = pre ++ x :: post → Q pre x

variable {Q : List E → E → Prop}

theorem justified_nil : Justified Q ([] : List E) := by
  intro pre x post h
  simp at h

theorem justified_concat {l : List E} {x : E} :
    Justified Q (l ++ [x]) ↔ Justified Q l ∧ Q l x := by
  constructor
  · intro h
    exact ⟨fun pre y post e => h pre y (post ++ [x]) (by rw [e]; simp), h l x [] rfl⟩
  · rintro ⟨h, hx⟩ pre y post e
    rcases post.eq_nil_or_concat' with rfl | ⟨post, z, rfl⟩
    · obtain ⟨rfl, he⟩ := List.append_inj' e rfl
      obtain rfl := List.cons.inj he |>.1
      exact hx
    · have e' : l ++ [x] = (pre ++ y :: post) ++ [z] := by rw [e]; simp
      exact h pre y post (List.append_inj' e' rfl).1

/-- At most one entry more. -/
theorem Justified.append_option {l : List E} {o : Option E} (h : Justified Q l)
    (ho : ∀ x ∈ o, Q l x) : Justified Q (l ++ o.toList) := by
  cases o with
  | none => simpa using h
  | some x => exact justified_concat.mpr ⟨h, ho x rfl⟩

def Followed (Q : E → List E → Prop) (l : List E) : Prop :=
  ∀ pre x post, l = pre ++ x :: post → Q x post

theorem followed_nil (Q : E → List E → Prop) : Followed Q [] := by
  intro pre x post h
  simp at h

theorem Followed.append_option {Q R : E → List E → Prop} {l : List E} {o : Option E}
    (h : Followed Q l) (hold : ∀ x post, Q x post → R x (post ++ o.toList))
    (hnew : ∀ x ∈ o, R x []) : Followed R (l ++ o.toList) := by
  intro pre x post e
  cases o with
  | none =>
    simp only [Option.toList_none, List.append_nil] at e hold
    exact hold x post (h pre x post e)
  | some y =>
    rcases post.eq_nil_or_concat' with rfl | ⟨post, z, rfl⟩
    · obtain ⟨-, he⟩ := List.append_inj' e rfl
      exact hnew x (congrArg some (List.cons.inj he).1)
    · have e' : l ++ [y] = (pre ++ x :: post) ++ [z] := by
        rw [List.append_assoc, List.cons_append]
        exact e
      obtain ⟨hl, hz⟩ := List.append_inj' e' rfl
      rw [← hz]
      exact hold x post (h pre x post hl)

end Core
