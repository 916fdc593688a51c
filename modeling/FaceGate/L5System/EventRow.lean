import FaceGate.L1Domain.Serialization
import FaceGate.L3Edge.Actuations
import FaceGate.L4Backend.Ingest

/-!
# From an event of the edge to a row of the backend

`serialize` on the edge and `handle_publish` on the backend agree on the events
that the recognition loop gives: the decoder's narrower employee id is that of the
`SERIAL` column, the two fields the edge does not send have their defaults, and the
statuses it sends are the ones the table admits.

* `events_emitted`: the loop gives Granted events with the employee and the
  distance of a match, and Unknown events with neither.
* `event_to_row`: each of them becomes exactly one row, with its values.
* `fault_ignored`: a fault the loop reports leaves the database alone.
-/
namespace FaceGate.L5.EventRow

open Core Core.Keyed FaceGate.L1 FaceGate.L1.Domain FaceGate.L3.MainLoop FaceGate.L3.Actuations
  FaceGate.L4 FaceGate.L4.Ingest

variable {K : Type}

/-! ## What the backend reads -/

/-- The values of the event, and the defaults. -/
def received (event : Domain.AccessEvent K) : Ingest.AccessEvent K :=
  ⟨toEpochMs event.timestamp, statusToString event.status, event.employee, event.distance, none,
    defaultDirection⟩

/-- In the range of an `INTEGER` column. -/
def IsInt32 (i : ℤ) : Prop := -2 ^ 31 ≤ i ∧ i < 2 ^ 31

/-- Ids are `SERIAL` columns. -/
def SerialIds (db : Database K) : Prop := ∀ r ∈ db.employees.rows, IsInt32 r.id

theorem isInt32_of_find {db : Database K} (hdb : SerialIds db) {e : ℤ}
    (he : (db.employees.find e).isSome) : IsInt32 e := by
  obtain ⟨r, hr⟩ := Option.isSome_iff_exists.mp he
  obtain rfl := Table.key_of_find hr
  exact hdb r (Table.mem_rows_iff.mpr hr)

variable [LinearOrder K] [BoundedOrder K] {db : Database K} {event : Domain.AccessEvent K}

/-! ## What the loop sends -/

/-- The events of the recognition loop: Granted, for an employee of the backend at
a finite distance, or Unknown. -/
inductive Emitted (db : Database K) : Domain.AccessEvent K → Prop where
  | granted (timestamp : Timestamp) (employee : ℤ) (distance : Flt K) :
      (db.employees.find employee).isSome → distance.isFinite = true →
      Emitted db ⟨timestamp, .granted, some employee, some distance⟩
  | unknown (timestamp : Timestamp) : Emitted db ⟨timestamp, .unknown, none, none⟩

theorem Emitted.employee (h : Emitted db event) :
    ∀ e ∈ event.employee, (db.employees.find e).isSome := by
  cases h with
  | granted timestamp employee distance hemp =>
    intro e he
    obtain rfl := Option.some.inj he
    exact hemp
  | unknown timestamp => exact fun _ he => nomatch he

theorem Emitted.printable (h : Emitted db event) (hdb : SerialIds db)
    (ht : IsInt64 event.timestamp) : Printable event := by
  refine ⟨ht, ?_, ?_⟩
  · intro e he
    have hi := isInt32_of_find hdb (h.employee e he)
    unfold IsInt32 at hi
    unfold IsInt64
    omega
  · cases h with
    | granted timestamp employee distance _ hfin =>
      intro x hx
      obtain rfl := Option.some.inj hx
      exact hfin
    | unknown timestamp => exact fun _ hx => nomatch hx

/-- Granted exactly if there is an employee and a distance. -/
theorem Emitted.granted_iff (h : Emitted db event) :
    statusToString event.status = "granted" ↔
      event.employee.isSome = true ∧ event.distance.isSome = true := by
  cases h with
  | granted timestamp employee distance => simp [statusToString]
  | unknown timestamp => simp [statusToString]

theorem Emitted.insertable (h : Emitted db event) : (received event).Insertable db := by
  refine ⟨?_, rfl, h.employee⟩
  cases h <;> rfl

variable [FloatArith K]

/-- The events of an iteration: those of its actuation. -/
theorem events_emitted {F D : Type} {p : Pipeline K} {s : LoopState} {c : Cycle K F D}
    (hm : ∀ m : Match K, verdict p s c = some (some m) →
      (db.employees.find m.employee).isSome ∧ m.distance.isFinite = true) :
    ∀ e ∈ events (iterate p s c).2, Emitted db e := by
  rcases iterate_cases p s c with ⟨hq, -⟩ | ⟨a, hv, ha⟩
  · rw [hq.events]
    exact fun _ he => nomatch he
  · rw [ha.events]
    intro e he
    obtain rfl := List.mem_singleton.mp he
    cases a with
    | granted m =>
      obtain ⟨hemp, hfin⟩ := hm m hv
      exact .granted c.wall m.employee m.distance hemp hfin
    | denied => exact .unknown c.wall

/-! ## The row -/

omit [LinearOrder K] [BoundedOrder K] in
/-- The backend reads back the values of the event. -/
theorem ofJson_eventJson (ht : IsInt64 event.timestamp)
    (he : ∀ e ∈ event.employee, IsInt32 e) :
    Ingest.AccessEvent.ofJson (eventJson event).rereadMembers = .ok (received event) := by
  have hms := Json.toI64_ofInt (K := K) (isInt64_toEpochMs ht).2
  have hid : (event.employee.elim (.null : Json K) .numberInteger).reread.toOption Json.toI32 =
      .ok event.employee := by
    cases hemp : event.employee with
    | none => rfl
    | some e =>
      show (Json.ofInt e : Json K).toOption Json.toI32 = _
      rw [Json.toOption_ofInt, Json.toI32_ofInt (he e hemp)]
      rfl
  have hdist : (event.distance.elim (.null : Json K) .numberFloat).reread.toOption Json.toF64 =
      .ok event.distance := by
    cases event.distance <;> rfl
  show Ingest.AccessEvent.ofObject
    [("distance", (event.distance.elim (.null : Json K) .numberFloat).reread),
      ("employee_id", (event.employee.elim (.null : Json K) .numberInteger).reread),
      ("status", .string (statusToString event.status)),
      ("timestamp_ms", .ofInt (toEpochMs event.timestamp))] = _
  simp only [Ingest.AccessEvent.ofObject, Json.required, Json.withDefault, Json.field]
  simp [hms, hid, hdist, bind, Except.bind, received, Json.toStr, pure, Except.pure]

/-- **An event becomes one row**: what `handle_publish` does with the message is
the INSERT of the row with the event's values. -/
theorem event_to_row {text : JsonText K} (hdb : SerialIds db) (ht : IsInt64 event.timestamp)
    (he : Emitted db event) (hc : text.CarriesEvent event) (gap : ℕ) :
    ∃ db', handlePublish text.parse (serialize text event) true gap db = (.stored, db') ∧
      db.insertAccessEvent _ ((received event).fresh_row db gap) = .ok db' ∧
      db'.accessEvents.rows = db.accessEvents.rows ++
        [⟨db.accessEvents.last + 1 + gap, event.employee, statusToString event.status,
          event.distance, toEpochMs event.timestamp, none, "in"⟩] ∧
      (statusToString event.status = "granted" ↔
        event.employee.isSome = true ∧ event.distance.isSome = true) := by
  have hj := ofJson_eventJson ht fun e hm => isInt32_of_find hdb (he.employee e hm)
  have hp := hc (he.printable hdb ht)
  obtain ⟨db', hins⟩ := Database.insertAccessEvent_ok ((received event).fresh_row db gap)
    (he.insertable.checked _) he.insertable.employee
  refine ⟨db', ?_, hins, ?_, he.granted_iff⟩
  · unfold handlePublish serialize
    simp only [hp, hj, he.insertable.status, he.insertable.direction, hins]
    rfl
  · rw [Database.accessEvents_of_insertAccessEvent hins]
    rfl

omit [LinearOrder K] [BoundedOrder K] in
/-- A fault is logged and no more. -/
theorem fault_ignored (text : JsonText K) (fault : DeviceFault) (deviceId : String) (dbUp : Bool)
    (gap : ℕ) (db : Database K) :
    handlePublish text.parse (serializeFault text fault deviceId) dbUp gap db = (.health, db) := by
  have ht : kDeviceFault ≠ TOPIC_ACCESS := by decide
  have hh : kDeviceFault.startsWith "facegate/health/" = true := by decide +kernel
  unfold handlePublish serializeFault
  rw [if_neg ht, if_pos hh]

/-! ## One event -/

def exampleEvent : Domain.AccessEvent ExtRat :=
  ⟨1704067200000000001, .granted, some 7, some (.num (.ofRat 0))⟩

def exampleDb : Database ExtRat := Database.empty.insertEmployee ⟨7, "Ana", none⟩ (by decide)

/-- Employee 7 is in the table, and the row is there. -/
theorem event_to_row_example :
    ∃ db', handlePublish (JsonText.compact [(eventJson exampleEvent).rereadMembers]).parse
        (serialize (.compact [(eventJson exampleEvent).rereadMembers]) exampleEvent) true 0
        exampleDb = (.stored, db') ∧
      db'.accessEvents.rows =
        [⟨1, some 7, "granted", some (.num (.ofRat 0)), 1704067200000, none, "in"⟩] := by
  have hids : SerialIds exampleDb := by
    intro r hr
    obtain rfl := List.mem_singleton.mp hr
    exact ⟨by decide, by decide⟩
  have hcarries : (JsonText.compact [(eventJson exampleEvent).rereadMembers]).CarriesEvent
      exampleEvent := by
    intro _
    unfold JsonText.compact
    dsimp only
    rw [List.find?_cons_of_pos]
    decide +kernel
  obtain ⟨db', hstored, -, hrows, -⟩ := event_to_row hids ⟨by decide, by decide⟩
    (.granted 1704067200000000001 7 (.num (.ofRat 0)) (by decide) (by decide)) hcarries 0
  exact ⟨db', hstored, hrows⟩

end FaceGate.L5.EventRow
