import FaceGate.L4Backend.Lateness

/-!
# The night shift in `GET /analytics/avg-delay`

The query takes the first entry of each calendar date and normalises its delay to
a window around 22:00, which crosses midnight. A night is that window: from 10:00
to 10:00 on the next date.

`nights_counted_iff`: a night worker's row counts nights, and averages the first
entry of each, exactly if the entries fall into dates as they fall into nights.
An entry past midnight and one on the evening of the same date do not.

The local clock is Postgres' table. Where it is set back, the local date must not go
back with it, nor the night (`Orderly`): in São Paulo it goes from 0:00 to 23:00,
and the hour it repeats lies within one date and one night.
-/
namespace FaceGate.L4.NightShift

open Core Core.Keyed Core.Grouping FaceGate.L4.Analytics FaceGate.L4.Lateness

variable {K : Type}

/-! ## Nights -/

/-- By the date of its evening. -/
def night (zone : Zone) (ms : ℤ) : ℤ := (zone ms - 10 * hourMs) / dayMs

/-- Minutes since 22:00 of the night. -/
def lateness (zone : Zone) (ms : ℤ) : ℚ := (zone ms - (night zone ms * dayMs + 22 * hourMs)) / 60000

/-- Later is not of an earlier date, nor of an earlier night. -/
structure Orderly (zone : Zone) : Prop where
  date_le : ∀ x y, x ≤ y → date zone x ≤ date zone y
  night_le : ∀ x y, x ≤ y → night zone x ≤ night zone y

variable {zone : Zone} {x y : ℤ}

theorem date_bounds (zone : Zone) (ms : ℤ) :
    date zone ms * 86400000 ≤ zone ms ∧ zone ms < date zone ms * 86400000 + 86400000 := by
  unfold date dayMs
  omega

theorem night_bounds (zone : Zone) (ms : ℤ) :
    night zone ms * 86400000 + 36000000 ≤ zone ms ∧
      zone ms < night zone ms * 86400000 + 122400000 := by
  unfold night dayMs hourMs
  omega

theorem le_lateness_iff (zone : Zone) (ms c : ℤ) : (c : ℚ) ≤ lateness zone ms ↔
    night zone ms * 86400000 + 79200000 + c * 60000 ≤ zone ms := by
  rw [lateness, le_div_iff₀ (by norm_num)]
  norm_cast
  unfold dayMs hourMs
  omega

theorem lateness_lt_iff (zone : Zone) (ms c : ℤ) : lateness zone ms < c ↔
    zone ms < night zone ms * 86400000 + 79200000 + c * 60000 := by
  have h := le_lateness_iff zone ms c
  rw [← not_le, h]
  omega

theorem lateness_bounds (zone : Zone) (ms : ℤ) :
    -720 ≤ lateness zone ms ∧ lateness zone ms < 720 := by
  obtain ⟨hlo, hhi⟩ := night_bounds zone ms
  constructor
  · exact_mod_cast (le_lateness_iff zone ms (-720)).mpr (by omega)
  · exact_mod_cast (lateness_lt_iff zone ms 720).mpr (by omega)

/-- The code's delay is counted from the start of the night. -/
theorem normalisedDelay_eq_lateness (zone : Zone) (ms : ℤ) :
    normalisedDelay (localTime zone ms) .noite = lateness zone ms := by
  obtain ⟨⟨k, hk⟩, hge, hlt⟩ := normalisedDelay_spec (localTime zone ms) .noite
  obtain ⟨hge', hlt'⟩ := lateness_bounds zone ms
  have hday : timeOfDay zone ms = zone ms - 86400000 * date zone ms := by
    unfold timeOfDay date dayMs
    omega
  have hsec : (localTime zone ms).sec = (zone ms - 86400000 * date zone ms : ℚ) / 1000 := by
    rw [localTime_sec, hday]
    push_cast
    rfl
  -- both lie in one window of a day
  refine eq_of_congruent (c := 1440) (k := k + night zone ms - date zone ms) (by norm_num) ?_
    (by linarith) (by linarith)
  rw [hsec, ShiftStart.time] at hk
  unfold lateness dayMs hourMs
  push_cast
  linarith

/-- On the second date of a night the delay is two hours at least. -/
theorem late_of_second_date (hn : night zone y = night zone x) (hd : date zone y < date zone x) :
    120 ≤ lateness zone x := by
  obtain ⟨hy, -⟩ := night_bounds zone y
  obtain ⟨hx, -⟩ := date_bounds zone x
  obtain ⟨-, hyd⟩ := date_bounds zone y
  exact_mod_cast (le_lateness_iff zone x 120).mpr (by omega)

/-- On the evening of a date it is less. -/
theorem early_of_second_night (hd : date zone y = date zone x) (hn : night zone y < night zone x) :
    lateness zone x < 120 := by
  obtain ⟨-, hyn⟩ := night_bounds zone y
  obtain ⟨-, hx⟩ := date_bounds zone x
  obtain ⟨hyd, -⟩ := date_bounds zone y
  exact_mod_cast (lateness_lt_iff zone x 120).mpr (by omega)

/-! ## First entries of dates, and of nights -/

/-- Two entries lie on one date exactly if they lie in one night. -/
def SameNights (zone : Zone) (db : Database K) (id : ℤ) : Prop :=
  ∀ x ∈ arrivals db id, ∀ y ∈ arrivals db id,
    date zone x = date zone y ↔ night zone x = night zone y

def nights (zone : Zone) (db : Database K) (id : ℤ) : Finset ℤ :=
  (arrivals db id).toFinset.image (night zone)

/-- The first entry of each night. -/
def firstNights (zone : Zone) (db : Database K) (id : ℤ) : Finset ℤ :=
  firsts (night zone) (arrivals db id).toFinset

variable {db : Database K} {id : ℤ}

theorem firstDays_eq_firstNights_iff (ho : Orderly zone) :
    (firstDays zone db id).toFinset = firstNights zone db id ↔ SameNights zone db id := by
  rw [toFinset_firstDays, firstNights, firsts_eq_iff ho.date_le ho.night_le]
  simp only [List.mem_toFinset]
  rfl

theorem late_of_not_firstNight (ho : Orderly zone)
    (hx : x ∈ (firstDays zone db id).toFinset \ firstNights zone db id) :
    120 ≤ lateness zone x := by
  rw [toFinset_firstDays] at hx
  obtain ⟨y, -, hn, hd⟩ := exists_earlier ho.date_le hx
  exact late_of_second_date hn hd

theorem early_of_not_firstDay (ho : Orderly zone)
    (hx : x ∈ firstNights zone db id \ (firstDays zone db id).toFinset) :
    lateness zone x < 120 := by
  rw [toFinset_firstDays] at hx
  obtain ⟨y, -, hd, hn⟩ := exists_earlier ho.night_le hx
  exact early_of_second_night hd hn

/-! ## The row -/

/-- A night worker who has come in has one row: the nights, and the mean lateness of
their first entries. -/
def NightsCounted (zone : Zone) (db : Database K) (emp : EmployeeRow) : Prop :=
  ∀ r : AvgDelay, r ∈ avgDelayRows zone db ∧ r.employeeId = emp.id ↔
    nights zone db emp.id ≠ ∅ ∧
      r = ⟨emp.id, emp.name,
        (∑ ms ∈ firstNights zone db emp.id, lateness zone ms) / (nights zone db emp.id).card,
        (nights zone db emp.id).card⟩

theorem rowOf_noite (zone : Zone) (db : Database K) (emp : EmployeeRow) :
    rowOf zone db emp "noite" = ⟨emp.id, emp.name,
      (∑ ms ∈ (firstDays zone db emp.id).toFinset, lateness zone ms) /
        (firstDays zone db emp.id).toFinset.card,
      (firstDays zone db emp.id).toFinset.card⟩ := by
  have hdelays : (firstDays zone db emp.id).filterMap (delayAt zone "noite") =
      (firstDays zone db emp.id).map (lateness zone) := by
    rw [← List.filterMap_eq_map]
    refine List.filterMap_congr fun ms _ => ?_
    rw [delayAt, Function.comp_apply, ← normalisedDelay_eq_lateness]
    rfl
  have hnodup := nodup_firstDays zone db emp.id
  rw [rowOf, hdelays, List.toFinset_card_of_nodup hnodup, List.sum_toFinset _ hnodup]
  unfold avg
  split
  · rename_i hnil
    rw [hnil, List.map_eq_nil_iff.mp hnil]
    simp
  · rw [Option.getD_some, List.length_map]

theorem mem_avgDelayRows_noite {emp : EmployeeRow} (hemp : emp ∈ db.employees.rows)
    (hshift : emp.shift = some "noite") (r : AvgDelay) :
    r ∈ avgDelayRows zone db ∧ r.employeeId = emp.id ↔
      nights zone db emp.id ≠ ∅ ∧ r = rowOf zone db emp "noite" := by
  have hnights : nights zone db emp.id ≠ ∅ ↔ arrivals db emp.id ≠ [] := by
    rw [nights, Ne, Finset.image_eq_empty, List.toFinset_eq_empty_iff]
  rw [hnights, mem_avgDelayRows]
  constructor
  · rintro ⟨⟨emp', hemp', shift, hs, hne, rfl⟩, hid⟩
    obtain rfl : emp' = emp := List.inj_on_of_nodup_map db.employees.distinctKeys hemp' hemp hid
    rw [hshift] at hs
    cases hs
    exact ⟨hne, rfl⟩
  · rintro ⟨hne, rfl⟩
    exact ⟨⟨emp, hemp, "noite", hshift, hne, rfl⟩, rfl⟩

/-- **Nights.** The row counts nights and averages the first entry of each, and the
entries averaged are those, exactly if the entries fall into dates as into nights. -/
theorem nights_counted_iff (zone : Zone) (ho : Orderly zone) (db : Database K)
    (emp : EmployeeRow) (hemp : emp ∈ db.employees.rows) (hshift : emp.shift = some "noite") :
    (NightsCounted zone db emp ↔ SameNights zone db emp.id) ∧
      ((firstDays zone db emp.id).toFinset = firstNights zone db emp.id ↔
        SameNights zone db emp.id) := by
  have hcard : (firstNights zone db emp.id).card = (nights zone db emp.id).card := card_firsts
  refine ⟨?_, firstDays_eq_firstNights_iff ho⟩
  rw [← firstDays_eq_firstNights_iff ho]
  constructor
  · intro h
    by_cases hempty : nights zone db emp.id = ∅
    · have hnone : (arrivals db emp.id).toFinset = ∅ := Finset.image_eq_empty.mp hempty
      rw [toFinset_firstDays, firstNights, hnone]
      rfl
    · obtain ⟨-, hrow⟩ := (h _).mp ((mem_avgDelayRows_noite hemp hshift _).mpr ⟨hempty, rfl⟩)
      rw [rowOf_noite, ← hcard] at hrow
      obtain ⟨-, -, hmean, hcount⟩ := AvgDelay.mk.inj hrow
      have hpos : ((firstNights zone db emp.id).card : ℚ) ≠ 0 := by
        rw [hcard, Nat.cast_ne_zero, Finset.card_ne_zero, Finset.nonempty_iff_ne_empty]
        exact hempty
      rw [hcount, div_left_inj' hpos] at hmean
      -- one size and one sum leave no room for entries of both kinds
      exact eq_of_card_eq_of_sum_eq (fun x hx => late_of_not_firstNight ho hx)
        (fun x hx => early_of_not_firstDay ho hx) hcount hmean
  · intro h r
    rw [mem_avgDelayRows_noite hemp hshift, rowOf_noite, h, hcard]

/-! ## Two nights on one date -/

theorem orderly_utcMinus3 : Orderly utcMinus3 where
  date_le x y h := by
    unfold date utcMinus3 hourMs dayMs
    omega
  night_le x y h := by
    unfold night utcMinus3 hourMs dayMs
    omega

/-- In at 00:30, and for the next night at 22:05 on the same date. -/
def twoNights : Database Unit :=
  soleEmployee "noite"
    ((Serial.empty.insert (grantedAt 1 12600000) (by decide)).insert (grantedAt 2 90300000)
      (by decide)) (by decide)

/-- In at 00:30, and at 22:05 on the date after. -/
def nightsApart : Database Unit :=
  soleEmployee "noite"
    ((Serial.empty.insert (grantedAt 1 12600000) (by decide)).insert (grantedAt 2 176700000)
      (by decide)) (by decide)

/-- Two nights are counted, the one past midnight too. -/
theorem nights_counted_apart : NightsCounted utcMinus3 nightsApart ⟨1, "Ana", some "noite"⟩ ∧
    (nights utcMinus3 nightsApart 1).card = 2 := by
  have hiff := nights_counted_iff utcMinus3 orderly_utcMinus3 nightsApart
    ⟨1, "Ana", some "noite"⟩ (List.mem_singleton.mpr rfl) rfl
  have harrivals : arrivals nightsApart 1 = [12600000, 176700000] := by decide +kernel
  refine ⟨hiff.1.mpr ?_, by decide +kernel⟩
  rw [SameNights, harrivals]
  decide

/-- The second night is not counted, and its arrival not averaged. -/
theorem second_night_lost : avgDelayRows utcMinus3 twoNights = [⟨1, "Ana", 150, 1⟩] ∧
    (nights utcMinus3 twoNights 1).card = 2 ∧
    ¬ NightsCounted utcMinus3 twoNights ⟨1, "Ana", some "noite"⟩ := by
  have hrows : avgDelayRows utcMinus3 twoNights = [⟨1, "Ana", 150, 1⟩] := by decide +kernel
  have hnights : (nights utcMinus3 twoNights 1).card = 2 := by decide +kernel
  refine ⟨hrows, hnights, fun h => ?_⟩
  have hmem : (⟨1, "Ana", 150, 1⟩ : AvgDelay) ∈ avgDelayRows utcMinus3 twoNights := by
    rw [hrows]
    exact List.mem_singleton.mpr rfl
  obtain ⟨-, hrow⟩ := (h _).mp ⟨hmem, rfl⟩
  obtain ⟨-, -, -, hdays⟩ := AvgDelay.mk.inj hrow
  rw [hnights] at hdays
  exact absurd hdays (by decide)

end FaceGate.L4.NightShift
