import FaceGate.Core.Flt
import Mathlib.Data.EReal.Basic
import Mathlib.Analysis.SpecialFunctions.Pow.NNReal
import Mathlib.Geometry.Euclidean.Angle.Unoriented.Basic
import Mathlib.Analysis.InnerProductSpace.PiL2

/-!
# Exact arithmetic on the reals

The reals between two infinities, with operations that do not round: what a computation over
`Flt` stands for. `ofReal` is the number of a real, and each operation on such numbers is
that of the reals, so that dividing by zero gives 0.

`cosDist` is the cosine distance of two vectors, `1 - cos` of the angle between them: it grows
with the angle (`cosDist_le_iff`) and does not see the lengths (`cosDist_smul`).
-/
namespace Core

open InnerProductGeometry

/-! ## Arithmetic -/

namespace ExactReal

/-- The number of a real. -/
def ofReal (x : ℝ) : Flt EReal := .num x

/-- An operation on finite numbers; anything else gives NaN. -/
noncomputable def lift₂ (f : ℝ → ℝ → ℝ) : Flt EReal → Flt EReal → Flt EReal
  | .num x, .num y =>
    if (Flt.num x).isFinite && (Flt.num y).isFinite then ofReal (f x.toReal y.toReal) else .nan
  | _, _ => .nan

noncomputable instance : FloatArith EReal where
  lit q := ofReal q
  add := lift₂ (· + ·)
  sub := lift₂ (· - ·)
  mul := lift₂ (· * ·)
  div := lift₂ (· / ·)
  sqrt
    | .num x => if (Flt.num x).isFinite && decide (0 ≤ x) then ofReal (√x.toReal) else .nan
    | .nan => .nan
  narrow := id
  toInt
    | .num x => ⌊x.toReal⌋
    | .nan => 0

instance : LawfulFloatArith EReal where
  lit_ne_nan _ := by
    intro h
    cases h
  narrow_eq_nan _ := Iff.rfl

theorem isFinite_ofReal (x : ℝ) : (ofReal x).isFinite = true := by
  simp [ofReal, Flt.isFinite]

theorem lift₂_ofReal (f : ℝ → ℝ → ℝ) (x y : ℝ) :
    lift₂ f (ofReal x) (ofReal y) = ofReal (f x y) := by
  have hfinite : ((ofReal x).isFinite && (ofReal y).isFinite) = true := by
    rw [isFinite_ofReal, isFinite_ofReal, Bool.and_self]
  dsimp only [lift₂, ofReal] at hfinite ⊢
  rw [if_pos hfinite, EReal.toReal_coe, EReal.toReal_coe]

@[simp] theorem lit_eq (q : ℚ) : (FloatArith.lit q : Flt EReal) = ofReal q := rfl

@[simp] theorem narrow_eq (x : Flt EReal) : FloatArith.narrow x = x := rfl

@[simp] theorem add_ofReal (x y : ℝ) : FloatArith.add (ofReal x) (ofReal y) = ofReal (x + y) :=
  lift₂_ofReal _ x y

@[simp] theorem sub_ofReal (x y : ℝ) : FloatArith.sub (ofReal x) (ofReal y) = ofReal (x - y) :=
  lift₂_ofReal _ x y

@[simp] theorem mul_ofReal (x y : ℝ) : FloatArith.mul (ofReal x) (ofReal y) = ofReal (x * y) :=
  lift₂_ofReal _ x y

@[simp] theorem div_ofReal (x y : ℝ) : FloatArith.div (ofReal x) (ofReal y) = ofReal (x / y) :=
  lift₂_ofReal _ x y

theorem sqrt_ofReal {x : ℝ} (h : 0 ≤ x) : FloatArith.sqrt (ofReal x) = ofReal √x := by
  have hpos : ((ofReal x).isFinite && decide (0 ≤ (x : EReal))) = true := by
    rw [isFinite_ofReal, decide_eq_true (EReal.coe_nonneg.mpr h), Bool.and_self]
  dsimp only [FloatArith.sqrt, ofReal] at hpos ⊢
  rw [if_pos hpos, EReal.toReal_coe]

@[simp] theorem ofReal_lt_ofReal {x y : ℝ} : ofReal x < ofReal y ↔ x < y := EReal.coe_lt_coe_iff

@[simp] theorem ofReal_inj {x y : ℝ} : ofReal x = ofReal y ↔ x = y := by
  rw [ofReal, ofReal, Flt.num.injEq, EReal.coe_eq_coe_iff]

end ExactReal

/-! ## The cosine distance -/

section CosDist
variable {V : Type*} [NormedAddCommGroup V] [InnerProductSpace ℝ V]

noncomputable def cosDist (x y : V) : ℝ := 1 - Real.cos (angle x y)

theorem cosDist_lt_iff {x y z : V} : cosDist x y < cosDist x z ↔ angle x y < angle x z := by
  have hmem : ∀ w : V, angle x w ∈ Set.Icc 0 Real.pi := fun w =>
    ⟨angle_nonneg x w, angle_le_pi x w⟩
  rw [cosDist, cosDist, sub_lt_sub_iff_left, Real.strictAntiOn_cos.lt_iff_gt (hmem z) (hmem y)]

theorem cosDist_le_iff {x y z : V} : cosDist x y ≤ cosDist x z ↔ angle x y ≤ angle x z := by
  rw [← not_lt, cosDist_lt_iff, not_lt]

theorem cosDist_self {x : V} (h : x ≠ 0) : cosDist x x = 0 := by
  rw [cosDist, angle_self h, Real.cos_zero, sub_self]

theorem cosDist_smul {x y : V} {r s : ℝ} (hr : 0 < r) (hs : 0 < s) :
    cosDist (r • x) (s • y) = cosDist x y := by
  rw [cosDist, angle_smul_left_of_pos _ _ hr, angle_smul_right_of_pos _ _ hs, cosDist]

end CosDist

/-! ## Sums over coordinates -/

section Sums
variable {n : ℕ}

theorem sum_mul_eq_inner (x y : EuclideanSpace ℝ (Fin n)) : ∑ i, x i * y i = inner ℝ x y := by
  rw [PiLp.inner_apply]
  exact Finset.sum_congr rfl fun i _ => mul_comm _ _

theorem sqrt_sum_mul_self (x : EuclideanSpace ℝ (Fin n)) : √(∑ i, x i * x i) = ‖x‖ := by
  rw [sum_mul_eq_inner, real_inner_self_eq_norm_sq, Real.sqrt_sq (norm_nonneg x)]

end Sums
end Core
