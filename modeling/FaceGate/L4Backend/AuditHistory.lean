import FaceGate.L4Backend.Employees
import FaceGate.L4Backend.Lateness

/-!
# The analytics after DELETE /employees/:id

The employee goes, with the embeddings (`ON DELETE CASCADE`); the events stay, and
lose their link (`ON DELETE SET NULL`). Three of the aggregates do not read the
link. The other two join the employee, and answer employee by employee.

`delete_keeps_audit`: the former answer as before, the latter without the row of the
employee that is gone.
-/
namespace FaceGate.L4.AuditHistory

open Core Core.Keyed Core.Grouping Core.Paging
open FaceGate.L4.Employees FaceGate.L4.Analytics FaceGate.L4.Lateness

variable {K : Type}

/-- The database after, and the embeddings to be tombstoned; `before` is the database
at the SELECT.
mirrors backend/src/routes/employees.rs:257-288 -/
def delete (selectUp deleteUp : Bool) (before db : Database K) (id : ℤ) :
    Except HttpError (Database K × List ℤ) :=
  if !selectUp then .error (500, "db error")
  else if !deleteUp then .error (500, "db error")
  else
    match db.employees.find id with
    | none => .error (404, "employee not found")
    | some _ => .ok (db.deleteEmployee id,
        (before.embeddings.rows.filter fun r => r.employeeId = id).map EmbeddingRow.id)

variable {zone : Zone} {today : ℤ} {before db db' : Database K} {id e : ℤ}

theorem delete_ok {selectUp deleteUp : Bool} {ids : List ℤ}
    (h : delete selectUp deleteUp before db id = .ok (db', ids)) : db' = db.deleteEmployee id := by
  unfold delete at h
  split at h
  · cases h
  · split at h
    · cases h
    · split at h
      · cases h
      · cases h
        rfl

/-! ## What is left of an employee -/

theorem mem_employees_delete {emp : EmployeeRow} :
    emp ∈ (db.deleteEmployee id).employees.rows ↔ emp ∈ db.employees.rows ∧ emp.id ≠ id := by
  refine (Serial.mem_deleteWhere (t := db.employees)).trans ?_
  rw [decide_eq_true_iff]

theorem find_delete (k : ℤ) : (db.deleteEmployee id).employees.find k =
    if k = id then none else db.employees.find k :=
  Table.find_erase _ _ _

/-- The events of the employee are nobody's. -/
theorem grantedEvents_delete (direction : String) (db : Database K) (id : ℤ) :
    grantedEvents direction (db.deleteEmployee id) =
      (grantedEvents direction db).filter fun p => p.1 ≠ id := by
  unfold grantedEvents
  have hrows : (db.deleteEmployee id).accessEvents.rows =
      db.accessEvents.rows.map (AccessEventRow.forget id) := rfl
  rw [hrows, List.filterMap_map, List.filter_filterMap]
  refine List.filterMap_congr fun r _ => ?_
  rw [Function.comp_apply, AccessEventRow.forget_eq]
  by_cases hg : r.status = "granted" ∧ r.direction = direction
  · rw [if_pos hg, if_pos hg]
    cases hlink : r.employeeId with
    | none => rfl
    | some k =>
      by_cases hk : k = id
      · simp [hk, Option.filter]
      · simp [hk, Option.filter]
  · rw [if_neg hg, if_neg hg]
    rfl

theorem filter_delete (he : e ≠ id) (l : List (ℤ × ℤ)) :
    (l.filter fun p => p.1 ≠ id).filter (fun p => p.1 = e) = l.filter fun p => p.1 = e := by
  rw [List.filter_filter]
  refine List.filter_congr fun p _ => ?_
  by_cases hp : p.1 = e
  · simp [hp, he]
  · simp [hp]

theorem arrivals_delete (he : e ≠ id) : arrivals (db.deleteEmployee id) e = arrivals db e := by
  rw [arrivals, grantedEvents_delete, filter_delete he]
  rfl

theorem lastOf_delete (direction : String) (he : e ≠ id) :
    lastOf (onDay zone today (grantedEvents direction (db.deleteEmployee id))) e =
      lastOf (onDay zone today (grantedEvents direction db)) e := by
  unfold lastOf onDay
  rw [grantedEvents_delete, List.filter_comm, filter_delete he, List.filter_comm]

/-! ## avg-delay -/

theorem avg_perm {l m : List ℚ} (h : l.Perm m) : avg l = avg m := by
  have hnil : l = [] ↔ m = [] := by
    rw [← List.length_eq_zero_iff, h.length_eq, List.length_eq_zero_iff]
  unfold avg
  rw [h.sum_eq, h.length_eq]
  simp only [hnil]

/-- A row depends on the employee's own arrivals. -/
theorem rowOf_congr {emp : EmployeeRow} (h : arrivals db' emp.id = arrivals db emp.id)
    (shift : String) : rowOf zone db' emp shift = rowOf zone db emp shift := by
  have hperm : (firstDays zone db' emp.id).Perm (firstDays zone db emp.id) := by
    refine (List.perm_ext_iff_of_nodup (nodup_firstDays _ _ _) (nodup_firstDays _ _ _)).mpr ?_
    intro ms
    rw [mem_firstDays, mem_firstDays, h]
  rw [rowOf, avg_perm (hperm.filterMap _), hperm.length_eq]
  rfl

theorem avgDelayRows_delete (zone : Zone) (db : Database K) (id : ℤ) :
    (avgDelayRows zone (db.deleteEmployee id)).Perm
      ((avgDelayRows zone db).filter fun r => r.employeeId ≠ id) := by
  have hnodup := (nodup_avgDelayRows zone db).of_map
  have hnodup' := (nodup_avgDelayRows zone (db.deleteEmployee id)).of_map
  refine (List.perm_ext_iff_of_nodup hnodup' (hnodup.filter _)).mpr fun r => ?_
  rw [List.mem_filter, decide_eq_true_iff, mem_avgDelayRows, mem_avgDelayRows]
  constructor
  · rintro ⟨emp, hemp, shift, hshift, hne, rfl⟩
    obtain ⟨hemp, hid⟩ := mem_employees_delete.mp hemp
    rw [arrivals_delete hid] at hne
    exact ⟨⟨emp, hemp, shift, hshift, hne, rowOf_congr (arrivals_delete hid) shift⟩, hid⟩
  · rintro ⟨⟨emp, hemp, shift, hshift, hne, rfl⟩, hid⟩
    have hid : emp.id ≠ id := hid
    rw [← arrivals_delete hid] at hne
    exact ⟨emp, mem_employees_delete.mpr ⟨hemp, hid⟩, shift, hshift, hne,
      (rowOf_congr (arrivals_delete hid) shift).symm⟩

/-! ## present-today -/

theorem presentTodayRows_delete (zone : Zone) (today : ℤ) (db : Database K) (id : ℤ) :
    (presentTodayRows zone today (db.deleteEmployee id)).Perm
      ((presentTodayRows zone today db).filter fun r => r.employeeId ≠ id) := by
  have hnodup := (nodup_presentTodayRows zone today db).of_map
  have hnodup' := (nodup_presentTodayRows zone today (db.deleteEmployee id)).of_map
  refine (List.perm_ext_iff_of_nodup hnodup' (hnodup.filter _)).mpr fun r => ?_
  rw [List.mem_filter, decide_eq_true_iff, mem_presentTodayRows, mem_presentTodayRows]
  by_cases hid : r.employeeId = id
  · refine iff_of_false ?_ fun h => h.2 hid
    rintro ⟨emp, hemp, -⟩
    rw [find_delete, if_pos hid] at hemp
    cases hemp
  · rw [find_delete, if_neg hid, lastOf_delete "in" hid, lastOf_delete "out" hid]
    exact (and_iff_left hid).symm

/-! ## The endpoints -/

/-- The events lose their link; the answers lose the row of the employee. -/
structure AuditKept (zone : Zone) (today : ℤ) (db : Database K) (id : ℤ) (db' : Database K) :
    Prop where
  events : db'.accessEvents.rows = db.accessEvents.rows.map fun r =>
    { r with employeeId := if r.employeeId = some id then none else r.employeeId }
  accessByHour :
    accessByHour zone db'.accessEvents.rows = accessByHour zone db.accessEvents.rows
  presenceHeatmap :
    presenceHeatmap zone db'.accessEvents.rows = presenceHeatmap zone db.accessEvents.rows
  summaryToday :
    summaryToday zone today db'.accessEvents.rows = summaryToday zone today db.accessEvents.rows
  one_delay : ((avgDelayRows zone db).map AvgDelay.employeeId).Nodup
  avgDelay : ∀ answer, avgDelay zone db' answer ↔ Answer AvgDelay.avgDelayMinutes
    ((avgDelayRows zone db).filter fun r => r.employeeId ≠ id) answer
  one_presence : ((presentTodayRows zone today db).map PresentEmployee.employeeId).Nodup
  presentToday : ∀ answer, presentToday zone today db' answer ↔ Answer PresentEmployee.lastEntryMs
    ((presentTodayRows zone today db).filter fun r => r.employeeId ≠ id) answer

/-- **The audit stays.** -/
theorem delete_keeps_audit (zone : Zone) (today : ℤ) {selectUp deleteUp : Bool}
    {before db db' : Database K} {id : ℤ} {ids : List ℤ}
    (h : delete selectUp deleteUp before db id = .ok (db', ids)) :
    AuditKept zone today db id db' := by
  obtain rfl := delete_ok h
  have hts : ∀ r : AccessEventRow K, (AccessEventRow.forget id r).timestampMs = r.timestampMs :=
    fun r => by rw [AccessEventRow.forget_eq]
  have hstatus : ∀ r : AccessEventRow K, (AccessEventRow.forget id r).status = r.status :=
    fun r => by rw [AccessEventRow.forget_eq]
  exact {
    events := List.map_congr_left fun r _ => AccessEventRow.forget_eq id r
    accessByHour := accessByHour_map zone hts _
    presenceHeatmap := presenceHeatmap_map zone hts hstatus _
    summaryToday := summaryToday_map zone hts hstatus today _
    one_delay := nodup_avgDelayRows zone db
    avgDelay := fun _ => answer_congr (avgDelayRows_delete zone db id)
    one_presence := nodup_presentTodayRows zone today db
    presentToday := fun _ => answer_congr (presentTodayRows_delete zone today db id) }

/-- Ana and Bia came in. -/
def twoArrivals : Database Unit :=
  { (Database.empty.insertEmployee ⟨1, "Ana", some "manhã"⟩ Int.one_pos).insertEmployee
      ⟨2, "Bia", some "tarde"⟩ (by decide) with
    accessEvents := (Serial.empty.insert (grantedAt 1 36000000) (by decide)).insert
      { grantedAt 2 57600000 with employeeId := some 2 } (by decide)
    event_fk := by decide +kernel
    event_check := by decide +kernel }

/-- Ana is deleted: both events stay, and so does Bia's presence. -/
theorem delete_keeps_audit_example :
    AuditKept utcMinus3 0 twoArrivals 1 (twoArrivals.deleteEmployee 1) ∧
    (twoArrivals.deleteEmployee 1).accessEvents.rows.map AccessEventRow.employeeId =
      [none, some 2] ∧
    (presentTodayRows utcMinus3 0 (twoArrivals.deleteEmployee 1)).map PresentEmployee.employeeId =
      [2] := by
  have hdelete : delete true true twoArrivals twoArrivals 1 =
      .ok (twoArrivals.deleteEmployee 1, []) := rfl
  refine ⟨delete_keeps_audit utcMinus3 0 hdelete, ?_, ?_⟩
  · decide +kernel
  · decide +kernel

end FaceGate.L4.AuditHistory
