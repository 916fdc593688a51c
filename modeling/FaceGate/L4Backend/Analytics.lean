import FaceGate.Core.Grouping
import FaceGate.Core.Paging
import FaceGate.L4Backend.Database

/-!
# The aggregate queries of the analytics endpoints

`zone` turns epoch milliseconds into local wall-clock milliseconds
(`to_timestamp(ms / 1000.0) AT TIME ZONE $1`); its table is Postgres' own. It is total,
where `to_timestamp` fails outside 4713 BC to 294276 AD: then so does the query. A query
that leaves the order of equal rows open is given by its rows and their sort key
(`Core.Paging.Answer`). `NOW()` is the argument `today`, a day number.

A query reads the events through the columns it names: `accessByHour_map` and the
like say of a change of the rows that keeps those columns that the result stays.
`presentToday` reads them employee by employee (`mem_presentTodayRows`).
-/
namespace FaceGate.L4.Analytics

open Core Core.Keyed Core.Grouping Core.Paging

variable {K : Type}

/-! ## Local time -/

abbrev Zone := ℤ → ℤ

def dayMs : ℤ := 86400000
def hourMs : ℤ := 3600000

/-- `DATE(...)`, as days since 1970-01-01. -/
def date (zone : Zone) (ms : ℤ) : ℤ := zone ms / dayMs

/-- `(...)::time`, in milliseconds. -/
def timeOfDay (zone : Zone) (ms : ℤ) : ℤ := zone ms % dayMs

/-- `EXTRACT(HOUR FROM ...)` -/
def hour (zone : Zone) (ms : ℤ) : ℤ := timeOfDay zone ms / hourMs

/-- `EXTRACT(DOW FROM ...)`: 0 is Sunday, and 1970-01-01 was a Thursday. -/
def dow (zone : Zone) (ms : ℤ) : ℤ := (date zone ms + 4) % 7

/-! ## access-by-hour -/

/-- mirrors backend/src/routes/analytics.rs:32-36 -/
structure HourCount where
  hour : ℕ
  count : ℕ
  deriving DecidableEq, Repr

def hourRows (zone : Zone) (events : List (AccessEventRow K)) : List (ℤ × ℕ) :=
  ((groupBy (fun e => hour zone e.timestampMs) events).map fun p => (p.1, p.2.length)).mergeSort
    fun a b => a.1 ≤ b.1

/-- `counts[hour] = count`, out of range ignored. -/
def zeroFill (rows : List (ℤ × ℕ)) : List ℕ :=
  rows.foldl
    (fun counts r => if 0 ≤ r.1 ∧ r.1 < 24 then counts.set r.1.toNat r.2 else counts)
    (List.replicate 24 0)

/-- mirrors backend/src/routes/analytics.rs:48-84 -/
def accessByHour (zone : Zone) (events : List (AccessEventRow K)) : List HourCount :=
  let counts := zeroFill (hourRows zone events)
  (List.range 24).map fun h => ⟨h, counts.getD h 0⟩

/-! ## presence-heatmap -/

/-- mirrors backend/src/routes/analytics.rs:260-267 -/
structure HeatmapCell where
  day : ℤ
  hour : ℤ
  count : ℕ
  deriving DecidableEq, Repr

/-- mirrors backend/src/routes/analytics.rs:279-306 -/
def presenceHeatmap (zone : Zone) (events : List (AccessEventRow K)) : List HeatmapCell :=
  let granted := events.filter fun e => e.status = "granted"
  let cells := (groupBy (fun e => (dow zone e.timestampMs, hour zone e.timestampMs)) granted).map
    fun p => (⟨p.1.1, p.1.2, p.2.length⟩ : HeatmapCell)
  cells.mergeSort fun a b => a.day < b.day ∨ a.day = b.day ∧ a.hour ≤ b.hour

/-! ## summary-today -/

/-- mirrors backend/src/routes/analytics.rs:387-392 -/
structure SummaryToday where
  total : ℕ
  granted : ℕ
  unknown : ℕ
  deriving DecidableEq, Repr

/-- mirrors backend/src/routes/analytics.rs:404-429 -/
def summaryToday (zone : Zone) (today : ℤ) (events : List (AccessEventRow K)) : SummaryToday :=
  let rows := events.filter fun e => date zone e.timestampMs = today
  { total := rows.length
    granted := (rows.filter fun e => e.status = "granted").length
    unknown := (rows.filter fun e => e.status = "unknown").length }

/-! ## present-today -/

/-- mirrors backend/src/routes/analytics.rs:320-325 -/
structure PresentEmployee where
  employeeId : ℤ
  name : String
  lastEntryMs : ℤ
  deriving DecidableEq, Repr

/-- Employee and time of the granted events of one direction that have an employee. -/
def grantedEvents (direction : String) (db : Database K) : List (ℤ × ℤ) :=
  db.accessEvents.rows.filterMap fun e =>
    if e.status = "granted" ∧ e.direction = direction then
      e.employeeId.map fun id => (id, e.timestampMs)
    else none

/-- `MAX(timestamp_ms) ... GROUP BY employee_id`; a group is not empty. -/
def lastByEmployee (events : List (ℤ × ℤ)) : List (ℤ × ℤ) :=
  (groupBy Prod.fst events).map fun p => (p.1, (p.2.map Prod.snd).max?.getD 0)

/-- The rows of `today_in` and of `today_out`. -/
def todayEvents (zone : Zone) (today : ℤ) (direction : String) (db : Database K) :
    List (ℤ × ℤ) :=
  lastByEmployee ((grantedEvents direction db).filter fun p => date zone p.2 = today)

/-- The rows, to be ordered by `last_entry_ms DESC`.
mirrors backend/src/routes/analytics.rs:337-382 -/
def presentTodayRows (zone : Zone) (today : ℤ) (db : Database K) : List PresentEmployee :=
  (todayEvents zone today "in" db).filterMap fun ti =>
    (db.employees.find ti.1).bind fun emp =>
      match lookup Prod.fst ti.1 (todayEvents zone today "out" db) with
      | none => some ⟨ti.1, emp.name, ti.2⟩
      | some o => if o.2 < ti.2 then some ⟨ti.1, emp.name, ti.2⟩ else none

def presentToday (zone : Zone) (today : ℤ) (db : Database K) :
    List PresentEmployee → Prop :=
  Answer PresentEmployee.lastEntryMs (presentTodayRows zone today db)

/-! ## What the queries read -/

section Columns
variable {f : AccessEventRow K → AccessEventRow K} (zone : Zone)
  (hts : ∀ e, (f e).timestampMs = e.timestampMs)

include hts

theorem accessByHour_map (events : List (AccessEventRow K)) :
    accessByHour zone (events.map f) = accessByHour zone events := by
  have hrows : hourRows zone (events.map f) = hourRows zone events := by
    unfold hourRows
    rw [groupBy_map (fun e => hour zone e.timestampMs) (fun e => by rw [hts]), List.map_map]
    simp only [Function.comp_def, List.length_map]
  unfold accessByHour
  rw [hrows]

theorem presenceHeatmap_map (hstatus : ∀ e, (f e).status = e.status)
    (events : List (AccessEventRow K)) :
    presenceHeatmap zone (events.map f) = presenceHeatmap zone events := by
  have hfilter : (events.map f).filter (fun e => e.status = "granted") =
      (events.filter fun e => e.status = "granted").map f := by
    rw [List.filter_map]
    simp only [Function.comp_def, hstatus]
  unfold presenceHeatmap
  dsimp only
  rw [hfilter, groupBy_map (fun e => (dow zone e.timestampMs, hour zone e.timestampMs))
    (fun e => by rw [hts]), List.map_map]
  simp only [Function.comp_def, List.length_map]

theorem summaryToday_map (hstatus : ∀ e, (f e).status = e.status) (today : ℤ)
    (events : List (AccessEventRow K)) :
    summaryToday zone today (events.map f) = summaryToday zone today events := by
  unfold summaryToday
  simp only [List.filter_map, List.length_map, Function.comp_def, hts, hstatus]

end Columns

/-! ## present-today, employee by employee -/

/-- The last of an employee's events. -/
def lastOf (events : List (ℤ × ℤ)) (id : ℤ) : Option ℤ :=
  ((events.filter fun p => p.1 = id).map Prod.snd).max?

theorem mem_lastByEmployee {events : List (ℤ × ℤ)} {p : ℤ × ℤ} :
    p ∈ lastByEmployee events ↔ lastOf events p.1 = some p.2 := by
  unfold lastByEmployee lastOf
  rw [List.mem_map]
  constructor
  · rintro ⟨q, hq, rfl⟩
    have hne := ne_nil_of_mem_groupBy hq
    rw [(mem_groupBy.mp hq).2] at hne ⊢
    cases hm : ((events.filter fun p => p.1 = q.1).map Prod.snd).max? with
    | none => exact absurd (List.map_eq_nil_iff.mp (List.max?_eq_none_iff.mp hm)) hne
    | some m => rfl
  · intro h
    refine ⟨(p.1, events.filter fun q => q.1 = p.1), mem_groupBy.mpr ⟨?_, rfl⟩, ?_⟩
    · obtain ⟨r, hr, -⟩ := List.mem_map.mp (List.max?_mem h)
      obtain ⟨hr, hk⟩ := List.mem_filter.mp hr
      exact ⟨r, hr, of_decide_eq_true hk⟩
    · dsimp only
      rw [h]
      rfl

theorem distinct_lastByEmployee (events : List (ℤ × ℤ)) :
    DistinctKeys Prod.fst (lastByEmployee events) := by
  unfold DistinctKeys lastByEmployee
  refine nodup_map_groupBy ?_ events
  exact fun _ => rfl

theorem lookup_lastByEmployee (events : List (ℤ × ℤ)) (id : ℤ) :
    lookup Prod.fst id (lastByEmployee events) = (lastOf events id).map fun m => (id, m) := by
  cases h : lastOf events id with
  | none =>
    refine lookup_eq_none.mpr ?_
    intro p hp hid
    rw [mem_lastByEmployee, hid, h] at hp
    cases hp
  | some m =>
    have hmem : (id, m) ∈ lastByEmployee events := mem_lastByEmployee.mpr h
    exact (mem_iff_lookup (distinct_lastByEmployee events)).mp hmem

variable {zone : Zone} {today : ℤ} {db : Database K}

/-- The events of one day. -/
def onDay (zone : Zone) (today : ℤ) (events : List (ℤ × ℤ)) : List (ℤ × ℤ) :=
  events.filter fun p => date zone p.2 = today

/-- An employee is present who has come in today, and not gone out since. -/
theorem mem_presentTodayRows {r : PresentEmployee} : r ∈ presentTodayRows zone today db ↔
    ∃ emp, db.employees.find r.employeeId = some emp ∧ r.name = emp.name ∧
      lastOf (onDay zone today (grantedEvents "in" db)) r.employeeId = some r.lastEntryMs ∧
      ∀ o ∈ lastOf (onDay zone today (grantedEvents "out" db)) r.employeeId,
        o < r.lastEntryMs := by
  unfold presentTodayRows todayEvents
  rw [List.mem_filterMap]
  simp only [lookup_lastByEmployee]
  constructor
  · rintro ⟨ti, hti, hrow⟩
    obtain ⟨emp, hemp, hrow⟩ := Option.bind_eq_some_iff.mp hrow
    have hin := mem_lastByEmployee.mp hti
    cases hout : lastOf (onDay zone today (grantedEvents "out" db)) ti.1 with
    | none =>
      rw [onDay] at hout
      rw [hout] at hrow
      cases hrow
      exact ⟨emp, hemp, rfl, hin, fun o ho => by rw [onDay, hout] at ho; cases ho⟩
    | some o =>
      rw [onDay] at hout
      rw [hout] at hrow
      simp only [Option.map_some] at hrow
      split at hrow
      · rename_i hlt
        cases hrow
        refine ⟨emp, hemp, rfl, hin, fun o' ho' => ?_⟩
        rw [onDay, hout] at ho'
        cases ho'
        exact hlt
      · cases hrow
  · rintro ⟨emp, hemp, hname, hin, hout⟩
    refine ⟨(r.employeeId, r.lastEntryMs), mem_lastByEmployee.mpr hin, ?_⟩
    refine Option.bind_eq_some_iff.mpr ⟨emp, hemp, ?_⟩
    rw [onDay] at hout
    split
    · rw [← hname]
    · rename_i o ho
      obtain ⟨m, hm, rfl⟩ := Option.map_eq_some_iff.mp ho
      rw [if_pos (hout m hm), ← hname]

/-- One row at most for each employee. -/
theorem nodup_presentTodayRows (zone : Zone) (today : ℤ) (db : Database K) :
    ((presentTodayRows zone today db).map PresentEmployee.employeeId).Nodup := by
  refine nodup_filterMap Prod.fst (distinct_lastByEmployee _) ?_
  intro ti r hr
  obtain ⟨emp, -, hr⟩ := Option.bind_eq_some_iff.mp hr
  split at hr
  · cases hr
    rfl
  · split at hr
    · cases hr
      rfl
    · cases hr

end FaceGate.L4.Analytics
