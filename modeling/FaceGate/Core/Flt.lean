import Mathlib.Order.WithBot
import Mathlib.Data.Rat.Sqrt
import Mathlib.Algebra.Order.Ring.Rat

/-!
# Floating-point values with NaN

`Flt K` is a floating-point type up to the sign of zero: NaN, or a number of an
ordered type `K` whose greatest element is `+∞`. Every comparison with NaN is
false, so `¬ a < b` does not give `b ≤ a`.

The arithmetic is a parameter (`FloatArith`): what is proved for every instance
holds for IEEE arithmetic with its roundings. `ExtRat` is an instance to compute
with: the rationals between two infinities, with exact operations.
-/
namespace Core

inductive Flt (K : Type*) where
  | nan
  | num (x : K)
  deriving DecidableEq, Repr

namespace Flt
variable {K : Type*}

def inf [LE K] [OrderTop K] : Flt K := num ⊤

/-- Neither NaN nor an infinity. -/
def isFinite [LinearOrder K] [BoundedOrder K] : Flt K → Bool
  | nan => false
  | num x => x ≠ ⊤ ∧ x ≠ ⊥

section Order
variable [LinearOrder K]

instance : LT (Flt K) where
  lt
    | num x, num y => x < y
    | _, _ => False

instance : LE (Flt K) where
  le
    | num x, num y => x ≤ y
    | _, _ => False

@[simp] theorem num_lt_num {x y : K} : num x < num y ↔ x < y := Iff.rfl
@[simp] theorem not_nan_lt (a : Flt K) : ¬ nan < a := id
@[simp] theorem not_lt_nan (a : Flt K) : ¬ a < nan := by cases a <;> exact id
@[simp] theorem not_nan_le (a : Flt K) : ¬ nan ≤ a := id
@[simp] theorem not_le_nan (a : Flt K) : ¬ a ≤ nan := by cases a <;> exact id

instance : DecidableLT (Flt K)
  | num x, num y => inferInstanceAs (Decidable (x < y))
  | nan, _ => isFalse id
  | num _, nan => isFalse id

instance : DecidableLE (Flt K)
  | num x, num y => inferInstanceAs (Decidable (x ≤ y))
  | nan, _ => isFalse id
  | num _, nan => isFalse id

/-- Away from NaN the order is total. -/
theorem le_of_not_lt {a b : Flt K} (ha : a ≠ nan) (hb : b ≠ nan) (h : ¬ a < b) : b ≤ a := by
  cases a with
  | nan => exact absurd rfl ha
  | num x =>
    cases b with
    | nan => exact absurd rfl hb
    | num y => exact not_lt.mp h

theorem exists_num_of_lt {a b : Flt K} (h : a < b) : ∃ x y, a = num x ∧ b = num y ∧ x < y := by
  cases a with
  | nan => exact absurd h (not_nan_lt b)
  | num x =>
    cases b with
    | nan => exact absurd h (not_lt_nan _)
    | num y => exact ⟨x, y, rfl, rfl, h⟩

end Order
end Flt

/-- The operations of a floating-point type and its conversions: `lit` rounds a
literal or an integer, `narrow` is `static_cast<float>` of a double, `toInt` is
`static_cast<int64_t>` of a double. -/
class FloatArith (K : Type*) where
  lit : ℚ → Flt K
  add : Flt K → Flt K → Flt K
  sub : Flt K → Flt K → Flt K
  mul : Flt K → Flt K → Flt K
  div : Flt K → Flt K → Flt K
  sqrt : Flt K → Flt K
  narrow : Flt K → Flt K
  toInt : Flt K → ℤ

/-- What IEEE arithmetic promises of a literal and of `static_cast<float>`. -/
class LawfulFloatArith (K : Type*) [FloatArith K] : Prop where
  lit_ne_nan : ∀ q : ℚ, (FloatArith.lit q : Flt K) ≠ .nan
  narrow_eq_nan : ∀ x : Flt K, FloatArith.narrow x = .nan ↔ x = .nan

/-! ## Exact arithmetic -/

abbrev ExtRat := WithBot (WithTop ℚ)

def ExtRat.ofRat (q : ℚ) : ExtRat := some (some q)

/-- An operation on finite numbers; anything else gives NaN. -/
def ExtRat.lift₂ (f : ℚ → ℚ → ℚ) : Flt ExtRat → Flt ExtRat → Flt ExtRat
  | .num (some (some a)), .num (some (some b)) => .num (ofRat (f a b))
  | _, _ => .nan

/-- `sqrt` is exact on the squares of rationals. -/
instance : FloatArith ExtRat where
  lit q := .num (.ofRat q)
  add := ExtRat.lift₂ (· + ·)
  sub := ExtRat.lift₂ (· - ·)
  mul := ExtRat.lift₂ (· * ·)
  div := ExtRat.lift₂ (· / ·)
  sqrt
    | .num (some (some a)) => .num (.ofRat (Rat.sqrt a))
    | _ => .nan
  narrow := id
  toInt
    | .num (some (some a)) => a.floor
    | _ => 0

instance : LawfulFloatArith ExtRat where
  lit_ne_nan _ h := nomatch h
  narrow_eq_nan _ := Iff.rfl

end Core
