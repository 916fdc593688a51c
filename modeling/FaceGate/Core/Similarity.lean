import Mathlib.Tactic.FieldSimp
import Mathlib.Tactic.LinearCombination
import Mathlib.Tactic.Ring

/-!
# Similarities of the plane

Rotation, uniform scale and translation: `(x, y) ↦ (a x - b y + tx, b x + a y + ty)`.
`Similarity.ofPoints` is the one that takes two given points to two others: it does
(`apply_ofPoints_fst`, `apply_ofPoints_snd`), and no other does (`eq_ofPoints`).
-/
namespace Core

structure Point (K : Type*) where
  x : K
  y : K
  deriving DecidableEq, Repr

@[ext] structure Similarity (K : Type*) where
  a : K
  b : K
  tx : K
  ty : K
  deriving DecidableEq, Repr

namespace Similarity

variable {K : Type*} [Field K]

def apply (T : Similarity K) (p : Point K) : Point K :=
  ⟨T.a * p.x - T.b * p.y + T.tx, T.b * p.x + T.a * p.y + T.ty⟩

/-- The squared distance of two points. -/
def distSq (p q : Point K) : K := (q.x - p.x) * (q.x - p.x) + (q.y - p.y) * (q.y - p.y)

/-- `p` goes to `p'` and `q` to `q'`. -/
def ofPoints (p q p' q' : Point K) : Similarity K :=
  let a := ((q.x - p.x) * (q'.x - p'.x) + (q.y - p.y) * (q'.y - p'.y)) / distSq p q
  let b := ((q.x - p.x) * (q'.y - p'.y) - (q.y - p.y) * (q'.x - p'.x)) / distSq p q
  ⟨a, b, p'.x - (a * p.x - b * p.y), p'.y - (b * p.x + a * p.y)⟩

variable {p q p' q' : Point K}

theorem apply_ofPoints_fst (p q p' q' : Point K) : (ofPoints p q p' q').apply p = p' := by
  simp [apply, ofPoints]

/-- The linear part takes the difference of the points to that of their images. -/
theorem ofPoints_diff (p' q' : Point K) (h : distSq p q ≠ 0) :
    (ofPoints p q p' q').a * (q.x - p.x) - (ofPoints p q p' q').b * (q.y - p.y) = q'.x - p'.x ∧
      (ofPoints p q p' q').b * (q.x - p.x) + (ofPoints p q p' q').a * (q.y - p.y) =
        q'.y - p'.y := by
  simp only [ofPoints]
  constructor
  · field_simp
    simp only [distSq]
    ring
  · field_simp
    simp only [distSq]
    ring

theorem apply_ofPoints_snd (h : distSq p q ≠ 0) : (ofPoints p q p' q').apply q = q' := by
  obtain ⟨hx, hy⟩ := ofPoints_diff p' q' h
  have hp := apply_ofPoints_fst p q p' q'
  simp only [apply] at hp ⊢
  have hpx := congrArg Point.x hp
  have hpy := congrArg Point.y hp
  simp only at hpx hpy
  congr 1
  · linear_combination hx + hpx
  · linear_combination hy + hpy

/-- Two points and their images leave no choice. -/
theorem eq_ofPoints {T : Similarity K} (h : distSq p q ≠ 0) (hp : T.apply p = p')
    (hq : T.apply q = q') : T = ofPoints p q p' q' := by
  subst hp hq
  have ha : (ofPoints p q (T.apply p) (T.apply q)).a = T.a := by
    simp only [ofPoints, apply]
    rw [div_eq_iff h]
    simp only [distSq]
    ring
  have hb : (ofPoints p q (T.apply p) (T.apply q)).b = T.b := by
    simp only [ofPoints, apply]
    rw [div_eq_iff h]
    simp only [distSq]
    ring
  ext
  · exact ha.symm
  · exact hb.symm
  · change T.tx = (T.apply p).x - ((ofPoints p q (T.apply p) (T.apply q)).a * p.x -
      (ofPoints p q (T.apply p) (T.apply q)).b * p.y)
    rw [ha, hb]
    simp [apply]
  · change T.ty = (T.apply p).y - ((ofPoints p q (T.apply p) (T.apply q)).b * p.x +
      (ofPoints p q (T.apply p) (T.apply q)).a * p.y)
    rw [ha, hb]
    simp [apply]

end Similarity
end Core
