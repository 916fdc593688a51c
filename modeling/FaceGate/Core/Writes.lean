import Mathlib.Logic.Function.Basic
import Mathlib.Data.List.Nodup

/-!
# Writes to a map

A replica of a map `A → Option B` is kept up to date by a sequence of writes,
each to one key: a value, or `none` for a deletion.

If the writes agree (one value per key), the result does not depend on their
order or on repetitions (`applyAll_agree`). A snapshot, one write per key that
is present, leaves the keys it does not mention as they were
(`applyAll_snapshot`): it never deletes.
-/
namespace Core

variable {A B : Type*} [DecidableEq A]

structure Write (A B : Type*) where
  key : A
  value : Option B
  deriving DecidableEq

namespace Write

def apply (w : Write A B) (m : A → Option B) : A → Option B := Function.update m w.key w.value

def applyAll (ws : List (Write A B)) (m : A → Option B) : A → Option B :=
  ws.foldl (fun m w => w.apply m) m

theorem apply_self (w : Write A B) (m : A → Option B) : w.apply m w.key = w.value :=
  Function.update_self ..

theorem apply_of_ne (w : Write A B) (m : A → Option B) {k : A} (h : k ≠ w.key) :
    w.apply m k = m k :=
  Function.update_of_ne h ..

@[simp] theorem applyAll_nil (m : A → Option B) : applyAll [] m = m := rfl

@[simp] theorem applyAll_cons (w : Write A B) (ws : List (Write A B)) (m : A → Option B) :
    applyAll (w :: ws) m = applyAll ws (w.apply m) := rfl

theorem applyAll_append (ws vs : List (Write A B)) (m : A → Option B) :
    applyAll (ws ++ vs) m = applyAll vs (applyAll ws m) :=
  List.foldl_append ..

/-- Keys that are not written keep their value. -/
theorem applyAll_of_forall_ne {ws : List (Write A B)} {k : A} (h : ∀ w ∈ ws, w.key ≠ k)
    (m : A → Option B) : applyAll ws m k = m k := by
  induction ws generalizing m with
  | nil => rfl
  | cons w ws ih =>
    rw [applyAll_cons, ih (fun v hv => h v (List.mem_cons_of_mem _ hv)),
      apply_of_ne w m (Ne.symm (h w List.mem_cons_self))]

/-- A key that is written forgets its value. -/
theorem applyAll_congr {ws : List (Write A B)} {k : A} {m m' : A → Option B}
    (h : (∃ w ∈ ws, w.key = k) ∨ m k = m' k) : applyAll ws m k = applyAll ws m' k := by
  induction ws generalizing m m' with
  | nil =>
    rcases h with ⟨w, hw, -⟩ | h
    · cases hw
    · exact h
  | cons w ws ih =>
    rw [applyAll_cons, applyAll_cons]
    by_cases hk : w.key = k
    · subst hk
      exact ih (Or.inr (by rw [apply_self, apply_self]))
    · refine ih ?_
      rcases h with ⟨v, hv, hvk⟩ | h
      · rcases List.mem_cons.mp hv with rfl | hv
        · exact absurd hvk hk
        · exact Or.inl ⟨v, hv, hvk⟩
      · right
        rw [apply_of_ne w m (Ne.symm hk), apply_of_ne w m' (Ne.symm hk), h]

/-- If every write to `k` writes `v`, and one does, the result at `k` is `v`. -/
theorem applyAll_agree {ws : List (Write A B)} {k : A} {v : Option B}
    (h : ∀ w ∈ ws, w.key = k → w.value = v) (hk : ∃ w ∈ ws, w.key = k) (m : A → Option B) :
    applyAll ws m k = v := by
  induction ws generalizing m with
  | nil => obtain ⟨w, hw, -⟩ := hk; cases hw
  | cons w ws ih =>
    rw [applyAll_cons]
    by_cases ht : ∃ w' ∈ ws, w'.key = k
    · exact ih (fun v hv => h v (List.mem_cons_of_mem _ hv)) ht _
    · rw [applyAll_of_forall_ne (fun w' hw' e => ht ⟨w', hw', e⟩)]
      obtain ⟨w', hw', hk'⟩ := hk
      rcases List.mem_cons.mp hw' with rfl | hw'
      · rw [← hk', apply_self, h _ List.mem_cons_self hk']
      · exact absurd ⟨w', hw', hk'⟩ ht

/-- A snapshot of `r` (one write for each key of `r`, in any order) sets the keys
of `r` and leaves the others alone. -/
theorem applyAll_snapshot {ws : List (Write A B)} {r : A → Option B}
    (hv : ∀ w ∈ ws, ∃ b, w.value = some b ∧ r w.key = some b)
    (hc : ∀ k b, r k = some b → ∃ w ∈ ws, w.key = k) (m : A → Option B) (k : A) :
    applyAll ws m k = (r k).or (m k) := by
  cases hr : r k with
  | some b =>
    refine applyAll_agree (fun w hw e => ?_) (hc k b hr) m
    obtain ⟨b', h1, h2⟩ := hv w hw
    rw [e, hr] at h2
    cases h2
    exact h1
  | none =>
    refine applyAll_of_forall_ne (fun w hw e => ?_) m
    obtain ⟨b, -, h2⟩ := hv w hw
    rw [e, hr] at h2
    cases h2

end Write
end Core
