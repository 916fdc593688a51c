import FaceGate.Core.Log
import Mathlib.Data.List.Destutter
import Mathlib.Data.List.SplitBy

/-!
# Collapsing repetitions, segment by segment

`List.destutter R` keeps an element if it is in relation `R` to the last one kept.
A relation that rejects only repetitions keeps the last element of the list, so
appending an element asks only for the last one (`destutter_concat`).

`destutter_emitted`: a log answers each value that is new with the value itself,
and a repetition with nothing or with one that `R` rejects. Its answers, less the
rejected ones, are its values collapsed.

`exists_segment`: a part cut by `List.splitBy` is a chain, and is cut off from the
element in front of it.
-/
namespace Core

variable {A : Type*}

/-! ## One element more -/

section Destutter
variable {R : A → A → Prop} [DecidableRel R]

theorem destutter'_concat (hR : ∀ a b, ¬ R a b → a = b) (l : List A) (a x : A) :
    (l ++ [x]).destutter' R a =
      l.destutter' R a ++ if ∀ b ∈ (a :: l).getLast?, R b x then [x] else [] := by
  induction l generalizing a with
  | nil => by_cases h : R a x <;> simp [h]
  | cons b l ih =>
    by_cases h : R a b
    · rw [List.cons_append, List.destutter'_cons_pos _ h, List.destutter'_cons_pos _ h, ih,
        List.getLast?_cons_cons, List.cons_append]
    · obtain rfl := hR a b h
      rw [List.cons_append, List.destutter'_cons_neg _ h, List.destutter'_cons_neg _ h, ih,
        List.getLast?_cons_cons]

theorem destutter_concat (hR : ∀ a b, ¬ R a b → a = b) (l : List A) (x : A) :
    (l ++ [x]).destutter R = l.destutter R ++ if ∀ b ∈ l.getLast?, R b x then [x] else [] := by
  cases l with
  | nil => simp
  | cons a l => exact destutter'_concat hR l a x

end Destutter

/-! ## A log of answers -/

section Emitted
variable {B : Type*} [DecidableEq A]

/-- The values of a log and its answers. -/
def Answers (R : A → A → Prop) (value : B → A) (out : B → List A) (pre : List B) (x : B) : Prop :=
  (out x = [value x] ∧ ((pre.map value).getLast? = some (value x) → ¬ R (value x) (value x))) ∨
    (out x = [] ∧ (pre.map value).getLast? = some (value x))

theorem destutter_emitted {R : A → A → Prop} [DecidableRel R] (hR : ∀ a b, ¬ R a b → a = b)
    {value : B → A} {out : B → List A} {l : List B} (h : Justified (Answers R value out) l) :
    (l.flatMap out).getLast? = (l.map value).getLast? ∧
      (l.flatMap out).destutter R = (l.map value).destutter (· ≠ ·) := by
  induction l using List.reverseRecOn with
  | nil => exact ⟨rfl, rfl⟩
  | append_singleton l x ih =>
    obtain ⟨hl, hx⟩ := justified_concat.mp h
    obtain ⟨hlast, heq⟩ := ih hl
    have hne : ∀ a b : A, ¬ a ≠ b → a = b := fun a b => not_not.mp
    simp only [List.flatMap_append, List.map_append, List.flatMap_singleton, List.map_singleton]
    rw [destutter_concat hne]
    rcases hx with ⟨hout, hrep⟩ | ⟨hout, hrep⟩
    · rw [hout, destutter_concat hR, heq, hlast]
      refine ⟨by simp, ?_⟩
      congr 1
      refine if_congr ⟨?_, ?_⟩ rfl rfl
      · rintro hall b hb rfl
        exact hrep hb (hall _ hb)
      · intro hall b hb
        by_contra hn
        exact hall b hb (hR b _ hn)
    · rw [hout, List.append_nil, hlast, hrep, heq]
      simp

end Emitted

/-! ## Segments -/

theorem exists_segment {r : A → A → Bool} {l seg : List A} (h : seg ∈ l.splitBy r) :
    ∃ pre post, l = pre ++ seg ++ post ∧ seg.IsChain (fun x y => r x y = true) ∧
      ∀ x ∈ pre.getLast?, ∀ y ∈ seg.head?, r x y = false := by
  obtain ⟨before, after, hs⟩ := List.append_of_mem h
  have hl : l = before.flatten ++ seg ++ after.flatten := by
    rw [← List.flatten_splitBy r l, hs]
    simp
  refine ⟨_, _, hl, List.isChain_of_mem_splitBy h, ?_⟩
  intro x hx y hy
  rcases before.eq_nil_or_concat' with rfl | ⟨before, last, rfl⟩
  · cases hx
  · have hchain := List.isChain_getLast_head_splitBy r l
    rw [hs] at hchain
    obtain ⟨hlast, hseg, hcut⟩ := (List.isChain_append.mp hchain).2.2 last (by simp) seg (by simp)
    have hx' : x = last.getLast hlast := by
      rw [List.flatten_concat, List.getLast?_append_of_ne_nil _ hlast,
        List.getLast?_eq_some_getLast hlast] at hx
      exact (Option.some.inj hx).symm
    have hy' : y = seg.head hseg := by
      rw [List.head?_eq_some_head hseg] at hy
      exact (Option.some.inj hy).symm
    rw [hx', hy']
    exact hcut

end Core
