import FaceGate.Core.Similarity
import Mathlib.Analysis.Real.Sqrt
import Mathlib.LinearAlgebra.UnitaryGroup

/-!
# Similarities as matrices

A 2x3 matrix over the reals is a similarity that keeps the orientation if its linear
part is a rotation times a positive scale. `isSimilarity_iff`: these are the matrices
`[a -b tx; b a ty]` with `a` and `b` not both zero.
-/
namespace Core

open Matrix

/-- A rotation, a positive uniform scale, a translation. -/
def IsSimilarity (M : Matrix (Fin 2) (Fin 3) ℝ) : Prop :=
  ∃ s > 0, ∃ R ∈ specialOrthogonalGroup (Fin 2) ℝ, ∀ i j : Fin 2, M i j.castSucc = s * R i j

theorem mem_rotation_iff {R : Matrix (Fin 2) (Fin 2) ℝ} :
    R ∈ specialOrthogonalGroup (Fin 2) ℝ ↔
      R 0 0 ^ 2 + R 1 0 ^ 2 = 1 ∧ R 1 1 = R 0 0 ∧ R 0 1 = -R 1 0 := by
  rw [mem_specialOrthogonalGroup_iff, mem_orthogonalGroup_iff', det_fin_two, ← Matrix.ext_iff]
  simp only [Fin.forall_fin_two, mul_apply, transpose_apply, Fin.sum_univ_two, one_apply,
    Fin.isValue]
  constructor
  · rintro ⟨⟨⟨h00, h01⟩, h10, h11⟩, hdet⟩
    simp only [if_true, zero_ne_one, if_false] at h00 h01 h10 h11
    -- the columns have length 1 and span a unit square: they differ by a quarter turn
    have hsum : (R 1 1 - R 0 0) ^ 2 + (R 0 1 + R 1 0) ^ 2 = 0 := by
      linear_combination h00 + h11 - 2 * hdet
    have hdiag := sq_nonneg (R 1 1 - R 0 0)
    have hoff := sq_nonneg (R 0 1 + R 1 0)
    have h1 : R 1 1 - R 0 0 = 0 := pow_eq_zero_iff two_ne_zero |>.mp (by linarith)
    have h2 : R 0 1 + R 1 0 = 0 := pow_eq_zero_iff two_ne_zero |>.mp (by linarith)
    exact ⟨by linear_combination h00, by linarith, by linarith⟩
  · rintro ⟨hunit, h11, h01⟩
    rw [h11, h01]
    simp only [if_true, zero_ne_one, one_ne_zero, if_false]
    exact ⟨⟨⟨by linear_combination hunit, by ring⟩, by ring, by linear_combination hunit⟩,
      by linear_combination hunit⟩

theorem isSimilarity_iff {M : Matrix (Fin 2) (Fin 3) ℝ} : IsSimilarity M ↔
    0 < M 0 0 ^ 2 + M 1 0 ^ 2 ∧ M 1 1 = M 0 0 ∧ M 0 1 = -M 1 0 := by
  constructor
  · rintro ⟨s, hs, R, hR, hM⟩
    obtain ⟨hunit, h11, h01⟩ := mem_rotation_iff.mp hR
    have h00 : M 0 0 = s * R 0 0 := hM 0 0
    have h10 : M 1 0 = s * R 1 0 := hM 1 0
    refine ⟨?_, ?_, ?_⟩
    · have hnorm : M 0 0 ^ 2 + M 1 0 ^ 2 = s ^ 2 := by
        rw [h00, h10]
        linear_combination s ^ 2 * hunit
      rw [hnorm]
      exact pow_pos hs 2
    · rw [h00, ← h11]
      exact hM 1 1
    · rw [h10, ← mul_neg, ← h01]
      exact hM 0 1
  · rintro ⟨hpos, h11, h01⟩
    let s := Real.sqrt (M 0 0 ^ 2 + M 1 0 ^ 2)
    have hs : 0 < s := Real.sqrt_pos.mpr hpos
    have hsq : s ^ 2 = M 0 0 ^ 2 + M 1 0 ^ 2 := Real.sq_sqrt hpos.le
    refine ⟨s, hs, of fun i j => M i j.castSucc / s, mem_rotation_iff.mpr ⟨?_, ?_, ?_⟩, ?_⟩
    · change (M 0 0 / s) ^ 2 + (M 1 0 / s) ^ 2 = 1
      rw [div_pow, div_pow, ← add_div, ← hsq, div_self (pow_pos hs 2).ne']
    · change M 1 1 / s = M 0 0 / s
      rw [h11]
    · change M 0 1 / s = -(M 1 0 / s)
      rw [h01, neg_div]
    · intro i j
      exact (mul_div_cancel₀ (M i j.castSucc) hs.ne').symm

end Core
