import Mathlib.Algebra.Order.Floor.Ring
import Mathlib.Data.Rat.Floor
import Mathlib.Tactic.FieldSimp
import Mathlib.Tactic.Linarith
import FaceGate.L4Backend.Analytics

/-!
# `GET /analytics/avg-delay`

The first granted entry of each employee on each local date is set against the
start of the shift, and the delays are averaged. Numbers are exact (`ℚ`): the
rounding of `float8` is left out.

* `window_iff`: the normalised delay is congruent to the raw one and lies in
  (-12 h, +12 h], unless the two times are exactly 12 hours apart: then it is -12 h.
* `mem_avgDelayRows`: the row of an employee, from the first entries alone.
* `averages_counted_iff`: `COUNT(*)` counts rows and `AVG` averages delays; they
  speak of the same ones exactly if no employee with an unknown shift has come in.
-/
namespace FaceGate.L4.Lateness

open Core Core.Keyed Core.Grouping Core.Paging FaceGate.L4.Analytics

variable {K : Type}

/-! ## Delay normalisation -/

/-- A `TIME`, in seconds. -/
structure TimeOfDay where
  sec : ℚ
  nonneg : 0 ≤ sec
  lt : sec < 86400

/-- The shifts with a start time. -/
inductive ShiftStart where
  | manha
  | tarde
  | noite
  deriving DecidableEq, Repr

/-- `TIME '08:00'`, `TIME '14:00'`, `TIME '22:00'` -/
def ShiftStart.time : ShiftStart → ℚ
  | .manha => 8 * 3600
  | .tarde => 14 * 3600
  | .noite => 22 * 3600

/-- `CASE emp.shift ... ELSE NULL` -/
def shiftStart (shift : String) : Option ShiftStart :=
  if shift = "manhã" then some .manha
  else if shift = "tarde" then some .tarde
  else if shift = "noite" then some .noite
  else none

/-- The quotient of `MOD`, rounded towards zero. -/
def trunc (q : ℚ) : ℤ := if 0 ≤ q then ⌊q⌋ else ⌈q⌉

/-- `MOD` on `numeric`: the remainder has the sign of the dividend. -/
def sqlMod (a b : ℚ) : ℚ := a - b * trunc (a / b)

/-- In minutes.
mirrors backend/src/routes/analytics.rs:219-229 -/
def normalisedDelay (t : TimeOfDay) (s : ShiftStart) : ℚ :=
  (sqlMod (t.sec - s.time + 43200 + 86400) 86400 - 43200) / 60

theorem sqlMod_of_nonneg {a b : ℚ} (ha : 0 ≤ a) (hb : 0 < b) :
    (∃ k : ℤ, sqlMod a b = a - b * k) ∧ 0 ≤ sqlMod a b ∧ sqlMod a b < b := by
  have hq : 0 ≤ a / b := div_nonneg ha hb.le
  have hmod : sqlMod a b = a - b * ⌊a / b⌋ := by rw [sqlMod, trunc, if_pos hq]
  have hfloor := Int.floor_le (a / b)
  have hlt := Int.lt_floor_add_one (a / b)
  rw [le_div_iff₀ hb] at hfloor
  rw [div_lt_iff₀ hb] at hlt
  refine ⟨⟨⌊a / b⌋, hmod⟩, ?_, ?_⟩
  · rw [hmod]
    linarith
  · rw [hmod]
    linarith

theorem time_bounds (s : ShiftStart) : 28800 ≤ s.time ∧ s.time ≤ 79200 := by
  cases s <;> norm_num [ShiftStart.time]

/-- The delay is the raw difference moved by whole days into [-12 h, +12 h). -/
theorem normalisedDelay_spec (t : TimeOfDay) (s : ShiftStart) :
    (∃ k : ℤ, normalisedDelay t s * 60 = t.sec - s.time + 86400 * k) ∧
      -720 ≤ normalisedDelay t s ∧ normalisedDelay t s < 720 := by
  obtain ⟨hlo, hhi⟩ := time_bounds s
  have ht := t.nonneg
  obtain ⟨⟨k, hk⟩, hge, hlt⟩ := sqlMod_of_nonneg (a := t.sec - s.time + 43200 + 86400)
    (b := 86400) (by linarith) (by norm_num)
  refine ⟨⟨1 - k, ?_⟩, ?_, ?_⟩
  · rw [normalisedDelay, hk]
    push_cast
    ring
  · rw [normalisedDelay, le_div_iff₀ (by norm_num)]
    linarith
  · rw [normalisedDelay, div_lt_iff₀ (by norm_num)]
    linarith

/-- Congruent modulo 24 hours, and in the documented window. -/
def InWindow (t : TimeOfDay) (s : ShiftStart) (delay : ℚ) : Prop :=
  (∃ k : ℤ, delay * 60 = t.sec - s.time + 86400 * k) ∧ -720 < delay ∧ delay ≤ 720

/-- Less than `c` apart, and by whole multiples of `c`. -/
theorem eq_of_congruent {x y c : ℚ} (hc : 0 < c) {k : ℤ} (h : x = y + c * k)
    (hlo : y - c < x) (hhi : x < y + c) : x = y := by
  have hk₁ : c * (-1 : ℤ) < c * k := by
    push_cast
    linarith
  have hk₂ : c * k < c * (1 : ℤ) := by
    push_cast
    linarith
  have hk₁ := Int.cast_lt.mp (lt_of_mul_lt_mul_left hk₁ hc.le)
  have hk₂ := Int.cast_lt.mp (lt_of_mul_lt_mul_left hk₂ hc.le)
  obtain rfl : k = 0 := by omega
  rw [h, Int.cast_zero, mul_zero, add_zero]

/-- The lower end of the window is taken exactly by the times 12 hours from the start. -/
theorem normalisedDelay_eq_iff (t : TimeOfDay) (s : ShiftStart) :
    normalisedDelay t s = -720 ↔ t.sec - s.time = 43200 ∨ t.sec - s.time = -43200 := by
  obtain ⟨⟨k, hk⟩, hge, hlt⟩ := normalisedDelay_spec t s
  obtain ⟨hlo, hhi⟩ := time_bounds s
  have htlo := t.nonneg
  have hthi := t.lt
  constructor
  · intro hd
    rw [hd] at hk
    -- less than a day on either side leaves two values
    rcases lt_or_ge (t.sec - s.time) 43200 with hx | hx
    · right
      refine eq_of_congruent (c := 86400) (k := -k) (by norm_num) ?_ (by linarith) (by linarith)
      push_cast
      linarith
    · left
      refine eq_of_congruent (c := 86400) (k := -1 - k) (by norm_num) ?_ (by linarith) (by linarith)
      push_cast
      linarith
  · rintro (hx | hx)
    · refine eq_of_congruent (c := 1440) (k := k + 1) (by norm_num) ?_ (by linarith) (by linarith)
      push_cast
      linarith
    · exact eq_of_congruent (c := 1440) (k := k) (by norm_num) (by linarith) (by linarith)
        (by linarith)

/-- **The window.** The delay lies in (-12 h, +12 h], congruent to the raw difference,
unless that is 12 hours one way or the other. -/
theorem window_iff (t : TimeOfDay) (s : ShiftStart) : InWindow t s (normalisedDelay t s) ↔
    ¬ (t.sec - s.time = 43200 ∨ t.sec - s.time = -43200) := by
  obtain ⟨hcongr, hge, hlt⟩ := normalisedDelay_spec t s
  rw [← normalisedDelay_eq_iff]
  constructor
  · intro h heq
    have hgt := h.2.1
    rw [heq] at hgt
    exact lt_irrefl _ hgt
  · intro hne
    exact ⟨hcongr, lt_of_le_of_ne hge (Ne.symm hne), hlt.le⟩

/-- 20:00 -/
def evening : TimeOfDay := ⟨20 * 3600, by norm_num, by norm_num⟩

/-- On the morning shift that is 12 hours late, and read as 12 hours early. -/
theorem half_day_early : normalisedDelay evening .manha = -720 ∧
    ¬ InWindow evening .manha (normalisedDelay evening .manha) := by
  have hd : normalisedDelay evening .manha = -720 := by decide +kernel
  refine ⟨hd, ?_⟩
  rintro ⟨-, hgt, -⟩
  rw [hd] at hgt
  exact lt_irrefl _ hgt

/-! ## The query -/

theorem timeOfDay_nonneg (zone : Zone) (ms : ℤ) : 0 ≤ timeOfDay zone ms :=
  Int.emod_nonneg _ (by decide)

theorem timeOfDay_lt (zone : Zone) (ms : ℤ) : timeOfDay zone ms < dayMs :=
  Int.emod_lt_of_pos _ (by decide)

/-- `(to_timestamp(first_ms / 1000.0) AT TIME ZONE $1)::time` -/
def localTime (zone : Zone) (ms : ℤ) : TimeOfDay where
  sec := timeOfDay zone ms / 1000
  nonneg := div_nonneg (Int.cast_nonneg (timeOfDay_nonneg zone ms)) (by norm_num)
  lt := by
    have hlt : (timeOfDay zone ms : ℚ) < 86400000 := by exact_mod_cast timeOfDay_lt zone ms
    rw [div_lt_iff₀ (by norm_num)]
    linarith

@[simp] theorem localTime_sec (zone : Zone) (ms : ℤ) :
    (localTime zone ms).sec = timeOfDay zone ms / 1000 := rfl

structure FirstPerDay where
  employeeId : ℤ
  day : ℤ
  firstMs : ℤ
  deriving DecidableEq, Repr

/-- `MIN(e.timestamp_ms) ... GROUP BY e.employee_id, day`; a group is not empty.
mirrors backend/src/routes/analytics.rs:198-211 -/
def firstPerDay (zone : Zone) (db : Database K) : List FirstPerDay :=
  (groupBy (fun p => (p.1, date zone p.2)) (grantedEvents "in" db)).map fun p =>
    ⟨p.1.1, p.1.2, (p.2.map Prod.snd).min?.getD 0⟩

/-- A row of `delays`; `none` is NULL. -/
structure Delay where
  employeeId : ℤ
  name : String
  delayMin : Option ℚ
  deriving DecidableEq

/-- NULL for a shift without a start time. -/
def delayAt (zone : Zone) (shift : String) (ms : ℤ) : Option ℚ :=
  (shiftStart shift).map (normalisedDelay (localTime zone ms))

/-- `JOIN employees ... WHERE emp.shift IS NOT NULL`.
mirrors backend/src/routes/analytics.rs:212-234 -/
def delays (zone : Zone) (db : Database K) : List Delay :=
  (firstPerDay zone db).filterMap fun f =>
    (db.employees.find f.employeeId).bind fun emp =>
      emp.shift.map fun shift => ⟨f.employeeId, emp.name, delayAt zone shift f.firstMs⟩

/-- `AVG`, of values that are not NULL: NULL of none. -/
def avg (l : List ℚ) : Option ℚ := if l = [] then none else some (l.sum / l.length)

/-- mirrors backend/src/routes/analytics.rs:171-178 -/
structure AvgDelay where
  employeeId : ℤ
  name : String
  avgDelayMinutes : ℚ
  daysObserved : ℕ
  deriving DecidableEq

/-- `COALESCE(AVG(delay_min), 0.0)` and `COUNT(*)`.
mirrors backend/src/routes/analytics.rs:235-242 -/
def avgDelayRows (zone : Zone) (db : Database K) : List AvgDelay :=
  (groupBy (fun d => (d.employeeId, d.name)) (delays zone db)).map fun p =>
    ⟨p.1.1, p.1.2, (avg (p.2.filterMap Delay.delayMin)).getD 0, p.2.length⟩

/-- `ORDER BY avg_delay_minutes DESC` -/
def avgDelay (zone : Zone) (db : Database K) : List AvgDelay → Prop :=
  Answer AvgDelay.avgDelayMinutes (avgDelayRows zone db)

/-! ## The first entries of an employee -/

/-- The times at which the employee has come in. -/
def arrivals (db : Database K) (id : ℤ) : List ℤ :=
  ((grantedEvents "in" db).filter fun p => p.1 = id).map Prod.snd

/-- The first arrival of each day that has one. -/
def firstDays (zone : Zone) (db : Database K) (id : ℤ) : List ℤ :=
  ((firstPerDay zone db).filter fun f => f.employeeId = id).map FirstPerDay.firstMs

variable {zone : Zone} {db : Database K} {id : ℤ}

theorem mem_arrivals {ms : ℤ} : ms ∈ arrivals db id ↔ (id, ms) ∈ grantedEvents "in" db := by
  unfold arrivals
  rw [List.mem_map]
  constructor
  · rintro ⟨p, hp, rfl⟩
    obtain ⟨hp, hid⟩ := List.mem_filter.mp hp
    rw [← of_decide_eq_true hid]
    exact hp
  · intro h
    exact ⟨(id, ms), List.mem_filter.mpr ⟨h, decide_eq_true rfl⟩, rfl⟩

theorem mem_firstPerDay {f : FirstPerDay} : f ∈ firstPerDay zone db ↔
    f.firstMs ∈ arrivals db f.employeeId ∧ f.day = date zone f.firstMs ∧
      ∀ ms ∈ arrivals db f.employeeId, date zone ms = f.day → f.firstMs ≤ ms := by
  have hgroup : ∀ e d ms, ms ∈ ((grantedEvents "in" db).filter fun r =>
      (r.1, date zone r.2) = (e, d)).map Prod.snd ↔ ms ∈ arrivals db e ∧ date zone ms = d := by
    intro e d ms
    rw [mem_arrivals, List.mem_map]
    constructor
    · rintro ⟨⟨e', m⟩, hp, rfl⟩
      obtain ⟨hmem, hk⟩ := List.mem_filter.mp hp
      cases of_decide_eq_true hk
      exact ⟨hmem, rfl⟩
    · rintro ⟨hp, rfl⟩
      exact ⟨(e, ms), List.mem_filter.mpr ⟨hp, decide_eq_true rfl⟩, rfl⟩
  unfold firstPerDay
  rw [List.mem_map]
  constructor
  · rintro ⟨p, hp, rfl⟩
    have hne := ne_nil_of_mem_groupBy hp
    rw [(mem_groupBy.mp hp).2] at hne ⊢
    cases hm : (((grantedEvents "in" db).filter fun r =>
        (r.1, date zone r.2) = p.1).map Prod.snd).min? with
    | none => exact absurd (List.map_eq_nil_iff.mp (List.min?_eq_none_iff.mp hm)) hne
    | some m =>
      obtain ⟨hmem, hle⟩ := List.min?_eq_some_iff.mp hm
      obtain ⟨harr, hday⟩ := (hgroup p.1.1 p.1.2 m).mp hmem
      exact ⟨harr, hday.symm, fun ms hms hd => hle ms ((hgroup p.1.1 p.1.2 ms).mpr ⟨hms, hd⟩)⟩
  · rintro ⟨harr, hday, hle⟩
    refine ⟨((f.employeeId, f.day), (grantedEvents "in" db).filter fun r =>
      (r.1, date zone r.2) = (f.employeeId, f.day)), mem_groupBy.mpr ⟨?_, rfl⟩, ?_⟩
    · exact ⟨(f.employeeId, f.firstMs), mem_arrivals.mp harr, by rw [hday]⟩
    · have hm : (((grantedEvents "in" db).filter fun r =>
          (r.1, date zone r.2) = (f.employeeId, f.day)).map Prod.snd).min? = some f.firstMs := by
        refine List.min?_eq_some_iff.mpr ⟨(hgroup _ _ _).mpr ⟨harr, hday.symm⟩, ?_⟩
        intro ms hms
        obtain ⟨hms, hd⟩ := (hgroup _ _ _).mp hms
        exact hle ms hms hd
      dsimp only
      rw [hm]
      rfl

theorem mem_firstDays {ms : ℤ} : ms ∈ firstDays zone db id ↔ ms ∈ arrivals db id ∧
    ∀ y ∈ arrivals db id, date zone y = date zone ms → ms ≤ y := by
  unfold firstDays
  rw [List.mem_map]
  constructor
  · rintro ⟨f, hf, rfl⟩
    obtain ⟨hmem, hid⟩ := List.mem_filter.mp hf
    obtain ⟨harr, hday, hle⟩ := mem_firstPerDay.mp hmem
    rw [of_decide_eq_true hid] at harr hle
    rw [hday] at hle
    exact ⟨harr, hle⟩
  · rintro ⟨harr, hle⟩
    refine ⟨⟨id, date zone ms, ms⟩, List.mem_filter.mpr ⟨?_, decide_eq_true rfl⟩, rfl⟩
    exact mem_firstPerDay.mpr ⟨harr, rfl, hle⟩

theorem nodup_firstDays (zone : Zone) (db : Database K) (id : ℤ) :
    (firstDays zone db id).Nodup := by
  have hkeys : ((firstPerDay zone db).map fun f => (f.employeeId, f.day)).Nodup := by
    unfold firstPerDay
    refine nodup_map_groupBy ?_ _
    exact fun _ => rfl
  refine (hkeys.of_map.filter _).map_on ?_
  intro f hf g hg hms
  obtain ⟨hf, hfid⟩ := List.mem_filter.mp hf
  obtain ⟨hg, hgid⟩ := List.mem_filter.mp hg
  refine List.inj_on_of_nodup_map hkeys hf hg ?_
  rw [of_decide_eq_true hfid, of_decide_eq_true hgid, (mem_firstPerDay.mp hf).2.1,
    (mem_firstPerDay.mp hg).2.1, hms]

theorem toFinset_firstDays (zone : Zone) (db : Database K) (id : ℤ) :
    (firstDays zone db id).toFinset = firsts (date zone) (arrivals db id).toFinset := by
  ext ms
  rw [List.mem_toFinset, mem_firstDays, mem_firsts]
  simp only [List.mem_toFinset]

/-- There is a first arrival if there is one. -/
theorem firstDays_eq_nil_iff : firstDays zone db id = [] ↔ arrivals db id = [] := by
  rw [← List.toFinset_eq_empty_iff, ← List.toFinset_eq_empty_iff, toFinset_firstDays]
  constructor
  · intro h
    rw [Finset.eq_empty_iff_forall_notMem] at h ⊢
    intro ms hms
    obtain ⟨m, hm, -⟩ := exists_first (f := date zone) hms
    exact h m hm
  · intro h
    rw [h]
    rfl

/-! ## The row of an employee -/

/-- From the first arrivals alone. -/
def rowOf (zone : Zone) (db : Database K) (emp : EmployeeRow) (shift : String) : AvgDelay :=
  let firsts := firstDays zone db emp.id
  ⟨emp.id, emp.name, (avg (firsts.filterMap (delayAt zone shift))).getD 0, firsts.length⟩

theorem mem_delays {d : Delay} : d ∈ delays zone db ↔ ∃ emp ∈ db.employees.rows,
    ∃ shift ∈ emp.shift, ∃ ms ∈ firstDays zone db emp.id,
      d = ⟨emp.id, emp.name, delayAt zone shift ms⟩ := by
  unfold delays
  rw [List.mem_filterMap]
  constructor
  · rintro ⟨f, hf, hd⟩
    obtain ⟨emp, hemp, hd⟩ := Option.bind_eq_some_iff.mp hd
    obtain ⟨shift, hshift, rfl⟩ := Option.map_eq_some_iff.mp hd
    have hid : emp.id = f.employeeId := Table.key_of_find hemp
    refine ⟨emp, mem_of_lookup hemp, shift, hshift, f.firstMs, ?_, by rw [hid]⟩
    exact List.mem_map.mpr ⟨f, List.mem_filter.mpr ⟨hf, decide_eq_true hid.symm⟩, rfl⟩
  · rintro ⟨emp, hemp, shift, hshift, ms, hms, rfl⟩
    obtain ⟨f, hf, rfl⟩ := List.mem_map.mp hms
    obtain ⟨hmem, hid⟩ := List.mem_filter.mp hf
    have hid := of_decide_eq_true hid
    refine ⟨f, hmem, ?_⟩
    rw [hid, Table.mem_rows_iff.mp hemp, Option.bind_some, Option.mem_def.mp hshift]
    rfl

/-- The delays of an employee are those of the first arrivals. -/
theorem delays_of_employee (zone : Zone) {emp : EmployeeRow} {shift : String}
    (hemp : emp ∈ db.employees.rows) (hshift : emp.shift = some shift) :
    (delays zone db).filter (fun d => (d.employeeId, d.name) = (emp.id, emp.name)) =
      (firstDays zone db emp.id).map fun ms => ⟨emp.id, emp.name, delayAt zone shift ms⟩ := by
  have hfind := Table.mem_rows_iff.mp hemp
  unfold delays firstDays
  rw [List.filter_filterMap, List.map_map, ← List.filterMap_eq_map, List.filterMap_filter]
  refine List.filterMap_congr fun f _ => ?_
  by_cases hid : f.employeeId = emp.id
  · rw [if_pos (decide_eq_true hid), hid, hfind, Option.bind_some, hshift, Option.map_some]
    exact Option.filter_some_pos (decide_eq_true rfl)
  · rw [if_neg (by simpa using hid)]
    refine Option.filter_eq_none_iff.mpr ?_
    intro d hd
    obtain ⟨e, -, hd⟩ := Option.bind_eq_some_iff.mp hd
    obtain ⟨_, -, rfl⟩ := Option.map_eq_some_iff.mp hd
    simp [hid]

/-- An employee has a row if there is a shift and the employee has come in. -/
theorem mem_avgDelayRows {r : AvgDelay} : r ∈ avgDelayRows zone db ↔
    ∃ emp ∈ db.employees.rows, ∃ shift ∈ emp.shift, arrivals db emp.id ≠ [] ∧
      r = rowOf zone db emp shift := by
  unfold avgDelayRows
  rw [List.mem_map]
  constructor
  · rintro ⟨p, hp, rfl⟩
    obtain ⟨⟨d, hd, hkey⟩, hrows⟩ := mem_groupBy.mp hp
    obtain ⟨emp, hemp, shift, hshift, ms, hms, rfl⟩ := mem_delays.mp hd
    rw [← hkey, delays_of_employee zone hemp hshift] at hrows
    refine ⟨emp, hemp, shift, hshift, ?_, ?_⟩
    · intro hnone
      rw [firstDays_eq_nil_iff.mpr hnone] at hms
      cases hms
    · rw [hrows, ← hkey, rowOf, List.filterMap_map, List.length_map]
      rfl
  · rintro ⟨emp, hemp, shift, hshift, hne, rfl⟩
    have hrows := delays_of_employee zone hemp hshift
    obtain ⟨ms, hms⟩ := List.exists_mem_of_ne_nil _ (mt firstDays_eq_nil_iff.mp hne)
    have hd := mem_delays.mpr ⟨emp, hemp, shift, hshift, ms, hms, rfl⟩
    refine ⟨((emp.id, emp.name), _), mem_groupBy.mpr ⟨⟨_, hd, rfl⟩, hrows.symm⟩, ?_⟩
    rw [rowOf, List.filterMap_map, List.length_map]
    rfl

/-- One row at most for each employee. -/
theorem nodup_avgDelayRows (zone : Zone) (db : Database K) :
    ((avgDelayRows zone db).map AvgDelay.employeeId).Nodup := by
  have hkeys : ((avgDelayRows zone db).map fun r => (r.employeeId, r.name)).Nodup := by
    unfold avgDelayRows
    refine nodup_map_groupBy ?_ _
    exact fun _ => rfl
  refine hkeys.of_map.map_on ?_
  intro r hr r' hr' hid
  obtain ⟨emp, hemp, shift, hshift, -, rfl⟩ := mem_avgDelayRows.mp hr
  obtain ⟨emp', hemp', shift', hshift', -, rfl⟩ := mem_avgDelayRows.mp hr'
  obtain rfl : emp = emp' := List.inj_on_of_nodup_map db.employees.distinctKeys hemp hemp' hid
  rw [Option.mem_unique hshift hshift']

/-! ## What is averaged, and what is counted -/

/-- The delays that are not NULL. -/
def definedDelays (zone : Zone) (db : Database K) (emp : EmployeeRow) : List ℚ :=
  emp.shift.elim [] fun shift => (firstDays zone db emp.id).filterMap (delayAt zone shift)

/-- An employee is listed who has a defined delay; the average is theirs, and the count. -/
def AveragesCounted (zone : Zone) (db : Database K) : Prop :=
  (∀ emp ∈ db.employees.rows, (∃ r ∈ avgDelayRows zone db, r.employeeId = emp.id) ↔
    definedDelays zone db emp ≠ []) ∧
  ∀ r ∈ avgDelayRows zone db, ∃ emp ∈ db.employees.rows, emp.id = r.employeeId ∧
    r.daysObserved = (definedDelays zone db emp).length ∧
    avg (definedDelays zone db emp) = some r.avgDelayMinutes

theorem definedDelays_of_none {emp : EmployeeRow} {shift : String}
    (hshift : emp.shift = some shift) (hnone : shiftStart shift = none) :
    definedDelays zone db emp = [] := by
  rw [definedDelays, hshift, Option.elim_some, List.filterMap_eq_nil_iff]
  intro ms _
  rw [delayAt, hnone, Option.map_none]

/-- With a start time every first arrival has its delay. -/
theorem definedDelays_of_some {emp : EmployeeRow} {shift : String} {start : ShiftStart}
    (hshift : emp.shift = some shift) (hstart : shiftStart shift = some start) :
    definedDelays zone db emp =
      (firstDays zone db emp.id).map fun ms => normalisedDelay (localTime zone ms) start := by
  rw [definedDelays, hshift, Option.elim_some, ← List.filterMap_eq_map]
  refine List.filterMap_congr fun ms _ => ?_
  rw [delayAt, hstart, Option.map_some, Function.comp_apply]

theorem rowOf_eq {emp : EmployeeRow} {shift : String} (hshift : emp.shift = some shift) :
    rowOf zone db emp shift = ⟨emp.id, emp.name, (avg (definedDelays zone db emp)).getD 0,
      (firstDays zone db emp.id).length⟩ := by
  rw [rowOf, definedDelays, hshift, Option.elim_some]

/-- Without an employee of an unknown shift who has come in, a row speaks of its delays. -/
theorem counted_of_known (zone : Zone) (h : ∀ emp ∈ db.employees.rows, ∀ shift ∈ emp.shift,
    shiftStart shift = none → arrivals db emp.id = []) {emp : EmployeeRow} {shift : String}
    (hemp : emp ∈ db.employees.rows) (hshift : emp.shift = some shift)
    (hne : arrivals db emp.id ≠ []) : definedDelays zone db emp ≠ [] ∧
      (definedDelays zone db emp).length = (firstDays zone db emp.id).length := by
  cases hstart : shiftStart shift with
  | none => exact absurd (h emp hemp shift hshift hstart) hne
  | some start =>
    rw [definedDelays_of_some hshift hstart, List.length_map]
    exact ⟨mt List.map_eq_nil_iff.mp (mt firstDays_eq_nil_iff.mp hne), rfl⟩

/-- **What is averaged is what is counted**, exactly if no employee has come in whose
shift is none of the three. -/
theorem averages_counted_iff (zone : Zone) (db : Database K) : AveragesCounted zone db ↔
    ∀ emp ∈ db.employees.rows, ∀ shift ∈ emp.shift, shiftStart shift = none →
      arrivals db emp.id = [] := by
  constructor
  · intro h emp hemp shift hshift hnone
    by_contra hne
    have hrow : rowOf zone db emp shift ∈ avgDelayRows zone db :=
      mem_avgDelayRows.mpr ⟨emp, hemp, shift, hshift, hne, rfl⟩
    exact (h.1 emp hemp).mp ⟨_, hrow, rfl⟩ (definedDelays_of_none hshift hnone)
  · intro h
    refine ⟨fun emp hemp => ⟨?_, ?_⟩, ?_⟩
    · rintro ⟨r, hr, hid⟩
      obtain ⟨emp', hemp', shift, hshift, hne, rfl⟩ := mem_avgDelayRows.mp hr
      obtain rfl : emp' = emp := List.inj_on_of_nodup_map db.employees.distinctKeys hemp' hemp hid
      exact (counted_of_known zone h hemp hshift hne).1
    · intro hdef
      cases hshift : emp.shift with
      | none =>
        rw [definedDelays, hshift] at hdef
        exact absurd rfl hdef
      | some shift =>
        have hne : arrivals db emp.id ≠ [] := by
          intro hnone
          rw [definedDelays, hshift, Option.elim_some, firstDays_eq_nil_iff.mpr hnone] at hdef
          exact hdef rfl
        exact ⟨_, mem_avgDelayRows.mpr ⟨emp, hemp, shift, hshift, hne, rfl⟩, rfl⟩
    · intro r hr
      obtain ⟨emp, hemp, shift, hshift, hne, rfl⟩ := mem_avgDelayRows.mp hr
      obtain ⟨hdef, hlen⟩ := counted_of_known zone h hemp hshift hne
      rw [rowOf_eq hshift]
      refine ⟨emp, hemp, rfl, hlen.symm, ?_⟩
      rw [avg, if_neg hdef, Option.getD_some]

/-! ## A shift without a start time -/

def utcMinus3 : Zone := fun ms => ms - 3 * hourMs

def grantedAt (id ts : ℤ) : AccessEventRow Unit := ⟨id, some 1, "granted", none, ts, none, "in"⟩

/-- One employee, and events of theirs. -/
def soleEmployee (shift : String) (events : Serial (AccessEventRow Unit) AccessEventRow.id)
    (h : ∀ r ∈ events.rows, r.employeeId = some 1 ∧ r.Checked) : Database Unit where
  employees := Serial.empty.insert ⟨1, "Ana", some shift⟩ Int.one_pos
  embeddings := .empty
  accessEvents := events
  embedding_fk _ h := absurd h List.not_mem_nil
  event_fk r hr e he := by
    rw [(h r hr).1] at he
    cases he
    rfl
  event_check r hr := (h r hr).2

/-- An employee of shift `madrugada` comes in once. -/
def dawnShift : Database Unit :=
  soleEmployee "madrugada" (Serial.empty.insert (grantedAt 1 0) (by decide)) (by decide)

/-- One day counted, no delay defined: punctual on average. -/
theorem punctual_without_start : avgDelayRows utcMinus3 dawnShift = [⟨1, "Ana", 0, 1⟩] ∧
    definedDelays utcMinus3 dawnShift ⟨1, "Ana", some "madrugada"⟩ = [] ∧
    ¬ AveragesCounted utcMinus3 dawnShift := by
  have hrows : avgDelayRows utcMinus3 dawnShift = [⟨1, "Ana", 0, 1⟩] := by decide +kernel
  have hdef : definedDelays utcMinus3 dawnShift ⟨1, "Ana", some "madrugada"⟩ = [] := by
    decide +kernel
  refine ⟨hrows, hdef, fun h => ?_⟩
  refine (h.1 ⟨1, "Ana", some "madrugada"⟩ (List.mem_singleton.mpr rfl)).mp ?_ hdef
  rw [hrows]
  exact ⟨_, List.mem_singleton.mpr rfl, rfl⟩

end FaceGate.L4.Lateness
