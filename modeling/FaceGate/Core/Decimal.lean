import Mathlib.Data.List.Basic
import Mathlib.Data.Nat.Init

/-!
# Decimal numerals

A string of digits that does not begin with `0` is the decimal form of its value. A
printed integer, with a sign if it is negative, is read back (`readInt_intChars`).
-/
namespace Core

/-- Digits, the first one not `0`. -/
def Numeral (l : List Char) : Prop := (∀ c ∈ l, c.isDigit = true) ∧ l.head? ≠ some '0'

theorem digitChar_of_isDigit {c : Char} (h : c.isDigit = true) :
    ∃ d < 10, c.toNat - '0'.toNat = d ∧ d.digitChar = c := by
  obtain ⟨hlo, hhi⟩ := Char.isDigit_iff_toNat.mp h
  have h0 : '0'.toNat = 48 := rfl
  have h9 : '9'.toNat = 57 := rfl
  refine ⟨c.toNat - '0'.toNat, by omega, rfl, ?_⟩
  apply Char.toNat_inj.mp
  rw [Nat.toNat_digitChar_of_lt_ten (by omega)]
  omega

theorem numeral_toDigits {n : ℕ} (h : 0 < n) : Numeral (Nat.toDigits 10 n) := by
  refine ⟨fun c hc => Nat.isDigit_of_mem_toDigits (by decide) (by decide) hc, ?_⟩
  induction n using Nat.base_induction 10 (by decide) with
  | single m hm =>
    rw [Nat.toDigits_of_lt_base hm]
    simp
    omega
  | digit m k hk hm ih =>
    rw [← Nat.toDigits_append_toDigits (by decide) hm hk]
    rw [List.head?_append, Option.or_of_isSome]
    · exact ih hm
    · simp [List.isSome_head?]

/-- Digits after a positive number go on with its decimal form. -/
theorem toDigits_append_of_pos {acc : ℕ} (hacc : 0 < acc) {l : List Char}
    (hl : ∀ c ∈ l, c.isDigit = true) :
    Nat.toDigits 10 (Nat.ofDigitChars 10 l acc) = Nat.toDigits 10 acc ++ l := by
  induction l generalizing acc with
  | nil => simp
  | cons c l ih =>
    obtain ⟨d, hd, hvalue, hchar⟩ := digitChar_of_isDigit (hl c List.mem_cons_self)
    rw [Nat.ofDigitChars_cons, hvalue, ih (by omega) fun c hc => hl c (List.mem_cons_of_mem _ hc),
      ← Nat.toDigits_append_toDigits (by decide) hacc hd, Nat.toDigits_of_lt_base hd, hchar,
      List.append_assoc, List.singleton_append]

theorem le_ofDigitChars (l : List Char) (acc : ℕ) : acc ≤ Nat.ofDigitChars 10 l acc := by
  induction l generalizing acc with
  | nil => simp
  | cons c l ih =>
    have := ih (10 * acc + (c.toNat - '0'.toNat))
    rw [Nat.ofDigitChars_cons]
    omega

theorem ofDigitChars_eq_zero {l : List Char} (h : ∀ c ∈ l, c.isDigit = true) :
    Nat.ofDigitChars 10 l 0 = 0 ↔ ∀ c ∈ l, c = '0' := by
  induction l with
  | nil => simp
  | cons c l ih =>
    obtain ⟨d, hd, hvalue, hchar⟩ := digitChar_of_isDigit (h c List.mem_cons_self)
    have hl := ih fun c hc => h c (List.mem_cons_of_mem _ hc)
    rw [Nat.ofDigitChars_cons, hvalue, Nat.mul_zero, Nat.zero_add, List.forall_mem_cons, ← hl,
      ← hchar, Nat.digitChar_eq_zero]
    constructor
    · intro hzero
      have hle := le_ofDigitChars l d
      obtain rfl : d = 0 := by omega
      exact ⟨rfl, hzero⟩
    · rintro ⟨rfl, hzero⟩
      exact hzero

/-- **A numeral is the decimal form of its value.** -/
theorem Numeral.toDigits_value {l : List Char} (h : Numeral l) (hne : l ≠ []) :
    0 < Nat.ofDigitChars 10 l 0 ∧ Nat.toDigits 10 (Nat.ofDigitChars 10 l 0) = l := by
  obtain ⟨c, l, rfl⟩ := List.exists_cons_of_ne_nil hne
  obtain ⟨d, hd, hvalue, hchar⟩ := digitChar_of_isDigit (h.1 c List.mem_cons_self)
  have hpos : 0 < d := by
    refine Nat.pos_of_ne_zero fun h0 => h.2 ?_
    rw [← hchar, h0]
    rfl
  rw [Nat.ofDigitChars_cons, hvalue, Nat.mul_zero, Nat.zero_add]
  refine ⟨Nat.lt_of_lt_of_le hpos (le_ofDigitChars l d), ?_⟩
  rw [toDigits_append_of_pos hpos fun c hc => h.1 c (List.mem_cons_of_mem _ hc),
    Nat.toDigits_of_lt_base hd, hchar, List.singleton_append]

/-! ## Reading and printing -/

def readNat (l : List Char) : Option ℕ :=
  if !l.isEmpty && l.all Char.isDigit then some (Nat.ofDigitChars 10 l 0) else none

def readInt : List Char → Option ℤ
  | '-' :: digits => (readNat digits).map fun n : ℕ => -(n : ℤ)
  | digits => (readNat digits).map Int.ofNat

def intChars (n : ℤ) : List Char := (toString n).toList

theorem intChars_eq (n : ℤ) : intChars n =
    if 0 ≤ n then Nat.toDigits 10 n.toNat else '-' :: Nat.toDigits 10 (-n).toNat := by
  rw [intChars, Int.toString_eq_repr, Int.repr_eq_if]
  split
  · exact Nat.toList_repr
  · rw [String.toList_append, Nat.toList_repr]
    rfl

theorem isDigit_of_mem_toDigits {n : ℕ} {c : Char} (h : c ∈ Nat.toDigits 10 n) :
    c.isDigit = true :=
  Nat.isDigit_of_mem_toDigits (by decide) (by decide) h

theorem readNat_toDigits (n : ℕ) : readNat (Nat.toDigits 10 n) = some n := by
  have hne : (Nat.toDigits 10 n).isEmpty = false :=
    List.isEmpty_eq_false_iff.mpr (List.length_pos_iff.mp Nat.length_toDigits_pos)
  have hall : (Nat.toDigits 10 n).all Char.isDigit = true :=
    List.all_eq_true.mpr fun _ => isDigit_of_mem_toDigits
  rw [readNat, hne, hall, Nat.ofDigitChars_toDigits (by decide) (by decide)]
  rfl

theorem mem_intChars {n : ℤ} {c : Char} (h : c ∈ intChars n) : c = '-' ∨ c.isDigit = true := by
  rw [intChars_eq] at h
  split at h
  · exact Or.inr (isDigit_of_mem_toDigits h)
  · exact (List.mem_cons.mp h).imp_right isDigit_of_mem_toDigits

theorem intChars_ne_nil (n : ℤ) : intChars n ≠ [] := by
  rw [intChars_eq]
  split
  · exact List.length_pos_iff.mp Nat.length_toDigits_pos
  · exact List.cons_ne_nil _ _

/-- Digits do not begin with a sign. -/
theorem readInt_toDigits (n : ℕ) : readInt (Nat.toDigits 10 n) = some (n : ℤ) := by
  have hdigits : ∀ c ∈ Nat.toDigits 10 n, c.isDigit = true := fun _ => isDigit_of_mem_toDigits
  have hread := readNat_toDigits n
  unfold readInt
  split
  · rename_i heq
    rw [heq] at hdigits
    exact absurd (hdigits '-' List.mem_cons_self) (by decide)
  · rw [hread]
    rfl

/-- **A printed integer is read back.** -/
theorem readInt_intChars (n : ℤ) : readInt (intChars n) = some n := by
  rw [intChars_eq]
  split
  · have hpos : (n.toNat : ℤ) = n := by omega
    rw [readInt_toDigits, hpos]
  · have hneg : -((-n).toNat : ℤ) = n := by omega
    rw [readInt, readNat_toDigits, Option.map_some, hneg]

end Core
