import Mathlib.Algebra.Group.Nat.Defs
import Mathlib.Data.Nat.Log
import Mathlib.Algebra.Order.Group.Unbundled.Abs
import Mathlib.Algebra.Order.Group.Int
import Mathlib.Algebra.Order.Group.Abs

/-!
# Integers as doubles

`ofInt n` is the double nearest to `n`, ties to even: what a reader makes of the decimal
digits of an integer below 2^1024. From 2^53 on doubles are integers further apart than 1.

* `ofInt_eq_self`: an integer of at most 53 bits is kept.
* `ofInt_mono`: reading never reorders two integers, but it can make them equal.
-/
namespace Core.Double

/-- The distance between doubles of the size of `m`. -/
def spacing (m : ℕ) : ℕ := 2 ^ (m.log2 - 52)

def roundNat (m : ℕ) : ℕ :=
  let q := m / spacing m
  let r := m % spacing m
  if 2 * r < spacing m ∨ 2 * r = spacing m ∧ q % 2 = 0 then q * spacing m
  else (q + 1) * spacing m

def ofInt (n : ℤ) : ℤ := if 0 ≤ n then roundNat n.toNat else -(roundNat (-n).toNat : ℤ)

theorem spacing_pos (m : ℕ) : 0 < spacing m := Nat.two_pow_pos _

theorem spacing_dvd {a b : ℕ} (h : a ≤ b) : spacing a ∣ spacing b := by
  refine Nat.pow_dvd_pow 2 (Nat.sub_le_sub_right ?_ 52)
  rw [Nat.log2_eq_log_two, Nat.log2_eq_log_two]
  exact Nat.log_mono_right h

theorem roundNat_cases (m : ℕ) : roundNat m = m / spacing m * spacing m ∨
    roundNat m = (m / spacing m + 1) * spacing m := by
  unfold roundNat
  dsimp only
  split
  · exact Or.inl rfl
  · exact Or.inr rfl

/-- A multiple of the spacing at or below `m` stays at or below. -/
theorem le_roundNat {m p : ℕ} (hp : spacing m ∣ p) (h : p ≤ m) : p ≤ roundNat m := by
  have hle : p ≤ m / spacing m * spacing m := by
    obtain ⟨k, rfl⟩ := hp
    rw [Nat.mul_comm]
    exact Nat.mul_le_mul_right _ ((Nat.le_div_iff_mul_le (spacing_pos m)).mpr (by
      rw [Nat.mul_comm]
      exact h))
  rcases roundNat_cases m with he | he <;> rw [he]
  · exact hle
  · exact hle.trans (Nat.mul_le_mul_right _ (Nat.le_succ _))

/-- And one above `m` stays at or above. -/
theorem roundNat_le {m p : ℕ} (hp : spacing m ∣ p) (h : m < p) : roundNat m ≤ p := by
  have hle : (m / spacing m + 1) * spacing m ≤ p := by
    obtain ⟨k, rfl⟩ := hp
    rw [Nat.mul_comm (spacing m)]
    have hlt : m / spacing m < k := (Nat.div_lt_iff_lt_mul (spacing_pos m)).mpr (by
      rw [Nat.mul_comm]
      exact h)
    exact Nat.mul_le_mul_right _ hlt
  rcases roundNat_cases m with he | he <;> rw [he]
  · exact (Nat.mul_le_mul_right _ (Nat.le_succ _)).trans hle
  · exact hle

theorem roundNat_eq_self {m : ℕ} (h : m ≤ 2 ^ 53) : roundNat m = m := by
  have hdvd : spacing m ∣ m := by
    rcases Nat.lt_or_eq_of_le h with hlt | rfl
    · have hlog : m.log2 - 52 = 0 := by
        rcases Nat.eq_zero_or_pos m with rfl | hpos
        · rfl
        · have hlog := (Nat.log2_lt (Nat.pos_iff_ne_zero.mp hpos)).mpr hlt
          omega
      rw [spacing, hlog]
      exact ⟨m, (Nat.one_mul m).symm⟩
    · decide +kernel
  have hzero : m % spacing m = 0 := Nat.mod_eq_zero_of_dvd hdvd
  unfold roundNat
  dsimp only
  rw [hzero, if_pos (Or.inl (by simpa using spacing_pos m)), Nat.div_mul_cancel hdvd]

theorem roundNat_mono_of_eq {a b : ℕ} (h : a ≤ b) (hs : spacing a = spacing b) :
    roundNat a ≤ roundNat b := by
  have hq : a / spacing b ≤ b / spacing b := Nat.div_le_div_right h
  rcases Nat.lt_or_eq_of_le hq with hlt | heq
  · have ha : roundNat a ≤ (a / spacing b + 1) * spacing b := by
      rcases roundNat_cases a with he | he <;> rw [he, hs]
      exact Nat.mul_le_mul_right _ (Nat.le_succ _)
    have hb : b / spacing b * spacing b ≤ roundNat b :=
      le_roundNat (Nat.dvd_mul_left ..) (Nat.div_mul_le_self ..)
    exact (ha.trans (Nat.mul_le_mul_right _ hlt)).trans hb
  · -- the same quotient: the remainders decide
    have hda := Nat.div_add_mod a (spacing b)
    have hdb := Nat.div_add_mod b (spacing b)
    rw [heq] at hda
    have hr : a % spacing b ≤ b % spacing b := by omega
    have hstep : b / spacing b * spacing b ≤ (b / spacing b + 1) * spacing b :=
      Nat.mul_le_mul_right _ (Nat.le_succ _)
    unfold roundNat
    dsimp only
    rw [hs, heq]
    split
    · split
      · exact le_refl _
      · exact hstep
    · rename_i hup
      rw [if_neg]
      intro hdown
      exact hup (by omega)

theorem roundNat_mono {a b : ℕ} (h : a ≤ b) : roundNat a ≤ roundNat b := by
  by_cases hs : spacing a = spacing b
  · exact roundNat_mono_of_eq h hs
  · -- a power of two lies between
    have hlog : a.log2 ≤ b.log2 := by
      rw [Nat.log2_eq_log_two, Nat.log2_eq_log_two]
      exact Nat.log_mono_right h
    have hne : a.log2 - 52 ≠ b.log2 - 52 := fun he => hs (congrArg (2 ^ ·) he)
    have hdvd : spacing b ∣ 2 ^ b.log2 := Nat.pow_dvd_pow 2 (Nat.sub_le ..)
    have hab : a < 2 ^ b.log2 :=
      Nat.lt_of_lt_of_le Nat.lt_log2_self (Nat.pow_le_pow_right (by omega) (by omega))
    have hb : 2 ^ b.log2 ≤ b := by
      refine Nat.log2_self_le fun hzero => hne ?_
      rw [hzero, Nat.le_zero] at h
      rw [hzero, h]
    exact (roundNat_le (Nat.dvd_trans (spacing_dvd h) hdvd) hab).trans (le_roundNat hdvd hb)

theorem ofInt_eq_self {n : ℤ} (h : |n| ≤ 2 ^ 53) : ofInt n = n := by
  rw [abs_le] at h
  unfold ofInt
  split
  · rw [roundNat_eq_self (by omega)]
    omega
  · rw [roundNat_eq_self (by omega)]
    omega

theorem ofInt_mono {a b : ℤ} (h : a ≤ b) : ofInt a ≤ ofInt b := by
  unfold ofInt
  split <;> split
  · exact Int.ofNat_le.mpr (roundNat_mono (by omega))
  · omega
  · omega
  · exact neg_le_neg (Int.ofNat_le.mpr (roundNat_mono (by omega)))

end Core.Double
