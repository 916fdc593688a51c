import Mathlib.Algebra.Order.Ring.Int

/-!
# Days and dates

The proleptic Gregorian calendar over day numbers since 1970-01-01, and the times an
ECMAScript `Date` can hold.

Years are counted from March, so that a leap day is the last of its year: 400 years are
146097 days, a century 36524 and four years 1461, the last century and the last of four
years a day longer. `dayMonth_near`: a date without its year tells the days of a week apart.
-/
namespace Core.Calendar

/-- ECMAScript `TimeClip`: what is farther from 1970 than 100 million days is no time. -/
def timeClip (ms : ℤ) : Option ℤ :=
  if -8640000000000000 ≤ ms ∧ ms ≤ 8640000000000000 then some ms else none

structure Civil where
  year : ℤ
  month : ℤ
  day : ℤ
  deriving DecidableEq, Repr

/-- The day of the year, from 1 March on. -/
def monthDay (doy : ℤ) : ℤ × ℤ :=
  let mp := (5 * doy + 2) / 153
  (if mp < 10 then mp + 3 else mp - 9, doy - (153 * mp + 2) / 5 + 1)

/-- A day since 0000-03-01 as eras, centuries, four-year cycles, years and days. -/
structure Split where
  era : ℤ
  century : ℤ
  cycle : ℤ
  year : ℤ
  doy : ℤ
  deriving DecidableEq, Repr

def split (z : ℤ) : Split :=
  let doe := z % 146097
  let century := min (doe / 36524) 3
  let doc := doe - 36524 * century
  let cycle := doc / 1461
  let doq := doc - 1461 * cycle
  let year := min (doq / 365) 3
  ⟨z / 146097, century, cycle, year, doq - 365 * year⟩

def civil (n : ℤ) : Civil :=
  let s := split (n + 719468)
  let md := monthDay s.doy
  let year := 400 * s.era + 100 * s.century + 4 * s.cycle + s.year
  ⟨if md.1 ≤ 2 then year + 1 else year, md.1, md.2⟩

example : [civil (-1), civil 0, civil 11016, civil 19782].map (fun c => (c.year, c.month, c.day)) =
    [(1969, 12, 31), (1970, 1, 1), (2000, 2, 29), (2024, 2, 29)] := by decide

theorem split_spec (z : ℤ) : let s := split z
    z = 146097 * s.era + 36524 * s.century + 1461 * s.cycle + 365 * s.year + s.doy ∧
      (0 ≤ s.century ∧ s.century ≤ 3) ∧ (0 ≤ s.cycle ∧ s.cycle ≤ 24) ∧
      (0 ≤ s.year ∧ s.year ≤ 3) ∧ 0 ≤ s.doy ∧ s.doy ≤ 365 := by
  simp only [split]
  omega

/-- The day and the month say which day of the year it is. -/
theorem doy_of_monthDay {a b : ℤ} (ha : 0 ≤ a ∧ a ≤ 365) (hb : 0 ≤ b ∧ b ≤ 365)
    (h : monthDay a = monthDay b) : a = b := by
  simp only [monthDay, Prod.mk.injEq] at h
  omega

theorem civil_ne_of_near {m n : ℤ} (h : m < n) (hn : n < m + 9) :
    ¬ ((civil m).month = (civil n).month ∧ (civil m).day = (civil n).day) := by
  rintro ⟨hmonth, hday⟩
  have hm := split_spec (m + 719468)
  have hs := split_spec (n + 719468)
  simp only at hm hs
  have hdoy : (split (m + 719468)).doy = (split (n + 719468)).doy :=
    doy_of_monthDay hm.2.2.2.2 hs.2.2.2.2 (Prod.ext hmonth hday)
  -- what lies below a unit is less than the unit, so the units agree one by one
  have hera : (split (m + 719468)).era = (split (n + 719468)).era := by omega
  have hcentury : (split (m + 719468)).century = (split (n + 719468)).century := by omega
  have hcycle : (split (m + 719468)).cycle = (split (n + 719468)).cycle := by omega
  omega

theorem civil_bounds (n : ℤ) : (1 ≤ (civil n).month ∧ (civil n).month ≤ 12) ∧
    1 ≤ (civil n).day ∧ (civil n).day ≤ 31 := by
  have hdoy := (split_spec (n + 719468)).2.2.2.2
  simp only [civil, monthDay]
  omega

/-! ## Dates without a year -/

def twoDigits (n : ℤ) : List Char := [(n / 10).toNat.digitChar, (n % 10).toNat.digitChar]

theorem digitChar_inj {a b : ℕ} (ha : a < 10) (hb : b < 10) (h : a.digitChar = b.digitChar) :
    a = b := by
  have hcode := congrArg Char.toNat h
  rw [Nat.toNat_digitChar_of_lt_ten ha, Nat.toNat_digitChar_of_lt_ten hb] at hcode
  omega

theorem twoDigits_inj {m n : ℤ} (hm : 0 ≤ m ∧ m < 100) (hn : 0 ≤ n ∧ n < 100)
    (h : twoDigits m = twoDigits n) : m = n := by
  simp only [twoDigits, List.cons.injEq, and_true] at h
  have htens := digitChar_inj (by omega) (by omega) h.1
  have hunits := digitChar_inj (by omega) (by omega) h.2
  omega

/-- `dd/MM` -/
def dayMonth (n : ℤ) : String :=
  .ofList (twoDigits (civil n).day ++ '/' :: twoDigits (civil n).month)

theorem dayMonth_near {m n : ℤ} (hmn : m < n + 9) (hnm : n < m + 9)
    (h : dayMonth m = dayMonth n) : m = n := by
  have hm := civil_bounds m
  have hn := civil_bounds n
  have hchars := String.ofList_injective h
  simp only [twoDigits, List.cons_append, List.nil_append, List.cons.injEq, and_true] at hchars
  obtain ⟨hd₁, hd₂, -, hm₁, hm₂⟩ := hchars
  have hday : (civil m).day = (civil n).day :=
    twoDigits_inj (by omega) (by omega) (by simp [twoDigits, hd₁, hd₂])
  have hmonth : (civil m).month = (civil n).month :=
    twoDigits_inj (by omega) (by omega) (by simp [twoDigits, hm₁, hm₂])
  rcases lt_trichotomy m n with hlt | heq | hgt
  · exact absurd ⟨hmonth, hday⟩ (civil_ne_of_near hlt hnm)
  · exact heq
  · exact absurd ⟨hmonth.symm, hday.symm⟩ (civil_ne_of_near hgt hmn)

end Core.Calendar
