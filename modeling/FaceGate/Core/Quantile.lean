import FaceGate.Core.Paging
import Mathlib.Algebra.Order.BigOperators.Group.List
import Mathlib.Algebra.Order.Field.Rat

/-!
# Quantiles of a list

The `percent`-quantile read off a sorted list: the element with `percent` of the list
before it, counted down to a whole number. `isQuantile_of_sorted`: no more than that
share of the list is below it, and no less is at most it, ties included.
-/
namespace Core

variable {T : Type*} [LinearOrder T] {l l' : List T} {percent : ℕ} {v : T}

/-- At least `percent` of the elements are at most `v`, at most `percent` below it. -/
structure IsQuantile (percent : ℕ) (l : List T) (v : T) : Prop where
  mem : v ∈ l
  atMost : percent * l.length ≤ 100 * l.countP (· ≤ v)
  below : 100 * l.countP (· < v) ≤ percent * l.length

theorem IsQuantile.perm (h : IsQuantile percent l v) (hl : l.Perm l') :
    IsQuantile percent l' v where
  mem := hl.mem_iff.mp h.mem
  atMost := by
    rw [← hl.length_eq, ← hl.countP_eq]
    exact h.atMost
  below := by
    rw [← hl.length_eq, ← hl.countP_eq]
    exact h.below

/-! ## Ranks in a sorted list -/

theorem lt_countP_atMost (hl : l.Pairwise (· ≤ ·)) {i : ℕ} (hi : i < l.length) :
    i < l.countP (· ≤ l[i]) := by
  have hdown : l.Pairwise fun x y => decide (y ≤ l[i]) = true → decide (x ≤ l[i]) = true :=
    hl.imp fun hxy hy => decide_eq_true (hxy.trans (of_decide_eq_true hy))
  exact (Paging.getElem_iff hdown hi).mp (decide_eq_true le_rfl)

theorem countP_below_le (hl : l.Pairwise (· ≤ ·)) {i : ℕ} (hi : i < l.length) :
    l.countP (· < l[i]) ≤ i := by
  have hdown : l.Pairwise fun x y => decide (y < l[i]) = true → decide (x < l[i]) = true :=
    hl.imp fun hxy hy => decide_eq_true (hxy.trans_lt (of_decide_eq_true hy))
  by_contra hlt
  have hself := (Paging.getElem_iff hdown hi).mpr (not_le.mp hlt)
  exact lt_irrefl _ (of_decide_eq_true hself)

/-- Where the quantile stands in a sorted list of `n` elements. -/
def quantileIndex (percent n : ℕ) : ℕ := min (n - 1) (percent * n / 100)

theorem quantileIndex_lt {n : ℕ} (percent : ℕ) (hn : 0 < n) : quantileIndex percent n < n := by
  unfold quantileIndex
  omega

theorem isQuantile_of_sorted (hl : l.Pairwise (· ≤ ·)) (hp : percent ≤ 100)
    (hi : quantileIndex percent l.length < l.length) :
    IsQuantile percent l l[quantileIndex percent l.length] := by
  have hatMost := lt_countP_atMost hl hi
  have hbelow := countP_below_le hl hi
  have hshare : percent * l.length ≤ 100 * l.length := Nat.mul_le_mul_right _ hp
  refine ⟨List.getElem_mem hi, ?_, ?_⟩
  · unfold quantileIndex at hatMost ⊢
    omega
  · unfold quantileIndex at hbelow ⊢
    omega

/-! ## The mean -/

theorem mean_bounds {l : List ℤ} {lo hi : ℤ} (hne : l ≠ []) (hlo : ∀ x ∈ l, lo ≤ x)
    (hhi : ∀ x ∈ l, x ≤ hi) : (lo : ℚ) ≤ (l.sum : ℚ) / l.length ∧ (l.sum : ℚ) / l.length ≤ hi := by
  have hpos : (0 : ℚ) < l.length := Nat.cast_pos.mpr (List.length_pos_iff.mpr hne)
  have hsumLo : (l.length : ℤ) * lo ≤ l.sum := by
    simpa using List.card_nsmul_le_sum l lo hlo
  have hsumHi : l.sum ≤ (l.length : ℤ) * hi := by
    simpa using List.sum_le_card_nsmul l hi hhi
  constructor
  · rw [le_div_iff₀ hpos, mul_comm]
    exact_mod_cast hsumLo
  · rw [div_le_iff₀ hpos, mul_comm]
    exact_mod_cast hsumHi

end Core
