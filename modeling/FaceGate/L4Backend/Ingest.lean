import FaceGate.Core.LTS
import FaceGate.L1Domain.Json
import FaceGate.L4Backend.Database

/-!
# The backend's MQTT subscriber

`run_loop` polls the event loop and hands every publish to `handle_publish`,
which turns an access event into a row. The session is persistent
(`clean_session = false`), so the broker queues what the backend has not
acknowledged; rumqttc acknowledges a QoS 1 publish when it is polled, before the
handler runs. An acknowledgement may be lost with the connection: the broker then
delivers the message again.

`mqtt/mod.rs:82-84` calls this "the no event lost guarantee". The error path only
logs, so an INSERT that fails once loses an acknowledged event
(`event_lost_on_db_failure`).

* `handlePublish_cases`: a call stores the row of its event, or nothing.
* `events_kept`: in runs where no INSERT of an acknowledged event fails, every
  event is queued, in the handler, or stored.
* `balance_step`: rows, handlers and queue entries are at most the arrivals and
  the lost acknowledgements, over any set of messages.
-/
namespace FaceGate.L4.Ingest

open Core Core.Keyed FaceGate.L1 FaceGate.L1.Domain

variable {K : Type}

/-- mirrors backend/src/mqtt/mod.rs:26 -/
def TOPIC_ACCESS : String := "facegate/events/access"

/-- mirrors backend/src/mqtt/mod.rs:49-61 -/
structure AccessEvent (K : Type) where
  timestampMs : ℤ
  status : String
  employeeId : Option ℤ
  distance : Option (Flt K)
  deviceId : Option String
  direction : String
  deriving DecidableEq

/-- mirrors backend/src/mqtt/mod.rs:63-65 -/
def defaultDirection : String := "in"

/-- The row it becomes. -/
def AccessEvent.row (evt : AccessEvent K) (id : ℤ) : AccessEventRow K :=
  ⟨id, evt.employeeId, evt.status, evt.distance, evt.timestampMs, evt.deviceId, evt.direction⟩

theorem AccessEvent.fresh_row (evt : AccessEvent K) (db : Database K) (gap : ℕ) :
    db.accessEvents.last < (evt.row (db.accessEvents.last + 1 + gap)).id := by
  simp only [AccessEvent.row]
  omega

variable [FloatArith K]

namespace AccessEvent

/-- The derived `visit_map`. Unknown members are ignored. -/
def ofObject (m : List (String × Json K)) : Except SerdeError (AccessEvent K) := do
  let timestampMs ← Json.required m "timestamp_ms" Json.toI64
  let status ← Json.required m "status" Json.toStr
  let employeeId ← Json.withDefault m "employee_id" none (Json.toOption Json.toI32)
  let distance ← Json.withDefault m "distance" none (Json.toOption Json.toF64)
  let deviceId ← Json.withDefault m "device_id" none (Json.toOption Json.toStr)
  let direction ← Json.withDefault m "direction" defaultDirection Json.toStr
  return ⟨timestampMs, status, employeeId, distance, deviceId, direction⟩

/-- The derived `visit_seq`: the fields in order; the two with `serde(default)`
may be missing at the end. -/
def ofSeq (l : List (Json K)) : Except SerdeError (AccessEvent K) := do
  match l with
  | t :: s :: e :: d :: rest =>
    let timestampMs ← t.toI64
    let status ← s.toStr
    let employeeId ← e.toOption Json.toI32
    let distance ← d.toOption Json.toF64
    match rest with
    | [] => return ⟨timestampMs, status, employeeId, distance, none, defaultDirection⟩
    | [v] =>
      return ⟨timestampMs, status, employeeId, distance, ← v.toOption Json.toStr, defaultDirection⟩
    | [v, r] =>
      return ⟨timestampMs, status, employeeId, distance, ← v.toOption Json.toStr, ← r.toStr⟩
    | _ => .error .invalidLength
  | _ => .error .invalidLength

/-- `serde_json::from_slice` after parsing. -/
def ofJson : Json K → Except SerdeError (AccessEvent K)
  | .object m => ofObject m
  | .array l => ofSeq l
  | _ => .error .invalidType

end AccessEvent

/-! ## handle_publish -/

/-- How a call ends: `malformed` and `dbError` are its `Err`. -/
inductive HandleOutcome where
  | stored
  | droppedStatus
  | droppedDirection
  | health
  | ignored
  | malformed (e : SerdeError)
  | dbError (e : DbError)
  deriving DecidableEq, Repr

/-- mirrors backend/src/mqtt/mod.rs:152-155 -/
def statusOk (s : String) : Bool := !(s ≠ "granted" && s ≠ "unknown")

/-- mirrors backend/src/mqtt/mod.rs:156-159 -/
def directionOk (s : String) : Bool := !(s ≠ "in" && s ≠ "out")

/-- `gap` numbers of the sequence were lost since the last row; `dbUp = false`:
the statement fails for a reason of the server's.
mirrors backend/src/mqtt/mod.rs:146-192 -/
def handlePublish (parse : Bytes → Option (Json K)) (msg : SerializedMessage) (dbUp : Bool)
    (gap : ℕ) (db : Database K) : HandleOutcome × Database K :=
  if msg.topic = TOPIC_ACCESS then
    match parse msg.payload with
    | none => (.malformed .syntax', db)
    | some j =>
      match AccessEvent.ofJson j with
      | .error e => (.malformed e, db)
      | .ok evt =>
        if !statusOk evt.status then (.droppedStatus, db)
        else if !directionOk evt.direction then (.droppedDirection, db)
        else if !dbUp then (.dbError .unavailable, db)
        else
          match db.insertAccessEvent (evt.row (db.accessEvents.last + 1 + gap))
              (evt.fresh_row db gap) with
          | .error e => (.dbError e, db)
          | .ok db' => (.stored, db')
  else if msg.topic.startsWith "facegate/health/" then (.health, db)
  else (.ignored, db)

/-- The database takes the row of the event. -/
structure AccessEvent.Insertable (evt : AccessEvent K) (db : Database K) : Prop where
  status : statusOk evt.status = true
  direction : directionOk evt.direction = true
  employee : ∀ e ∈ evt.employeeId, (db.employees.find e).isSome

omit [FloatArith K] in
theorem AccessEvent.Insertable.checked {evt : AccessEvent K} {db : Database K}
    (h : evt.Insertable db) (id : ℤ) : (evt.row id).Checked := by
  have h1 := h.status
  have h2 := h.direction
  simp only [statusOk, directionOk, ne_eq, Bool.not_eq_true', Bool.and_eq_false_iff,
    decide_eq_false_iff_not, not_not] at h1 h2
  exact ⟨h1, h2⟩

/-- A call stores the row of the event, or leaves the database alone. -/
theorem handlePublish_cases (parse : Bytes → Option (Json K)) (msg : SerializedMessage)
    (dbUp : Bool) (gap : ℕ) (db : Database K) :
    ((handlePublish parse msg dbUp gap db).1 ≠ .stored ∧
        (handlePublish parse msg dbUp gap db).2 = db) ∨
      (handlePublish parse msg dbUp gap db).1 = .stored ∧ dbUp = true ∧
        msg.topic = TOPIC_ACCESS ∧ ∃ j evt, parse msg.payload = some j ∧
          AccessEvent.ofJson j = .ok evt ∧ evt.Insertable db ∧
          (handlePublish parse msg dbUp gap db).2.accessEvents =
            db.accessEvents.insert (evt.row (db.accessEvents.last + 1 + gap))
              (evt.fresh_row db gap) := by
  unfold handlePublish
  split
  · rename_i ht
    cases hp : parse msg.payload with
    | none => exact Or.inl ⟨by simp, rfl⟩
    | some j =>
      simp only
      cases he : AccessEvent.ofJson j with
      | error e => exact Or.inl ⟨by simp, rfl⟩
      | ok evt =>
        simp only
        split
        · exact Or.inl ⟨by simp, rfl⟩
        · rename_i hst
          split
          · exact Or.inl ⟨by simp, rfl⟩
          · rename_i hdir
            cases dbUp with
            | false => exact Or.inl ⟨by simp, rfl⟩
            | true =>
              simp only [Bool.not_true, Bool.false_eq_true, if_false]
              split
              · exact Or.inl ⟨by simp, rfl⟩
              · rename_i db' hi
                refine Or.inr ⟨rfl, trivial, ht, j, evt, rfl, he, ⟨?_, ?_, ?_⟩,
                  Database.accessEvents_of_insertAccessEvent hi⟩
                · simpa using hst
                · simpa using hdir
                · exact Database.fk_of_insertAccessEvent hi
  · split
    · exact Or.inl ⟨by simp, rfl⟩
    · exact Or.inl ⟨by simp, rfl⟩

/-- An event that can be stored is stored when the database is up. -/
theorem handlePublish_stored {parse : Bytes → Option (Json K)} {msg : SerializedMessage}
    {j : Json K} {evt : AccessEvent K} {db : Database K} (ht : msg.topic = TOPIC_ACCESS)
    (hp : parse msg.payload = some j) (he : AccessEvent.ofJson j = .ok evt)
    (hi : evt.Insertable db) (gap : ℕ) : (handlePublish parse msg true gap db).1 = .stored := by
  obtain ⟨db', hdb⟩ := Database.insertAccessEvent_ok (evt.fresh_row db gap)
    (hi.checked _) hi.employee
  unfold handlePublish
  simp only [ht, if_true, hp, he, hi.status, hi.direction, Bool.not_true, Bool.false_eq_true,
    if_false, hdb]

/-! ## run_loop -/

/-- `arrived`: the messages the broker has taken for the session; a message is
named by its position. `queue`: those not acknowledged. `handling`: polled, in
`handle_publish`. `origin` (the message a row comes from) and `lostAcks` are
ghosts. -/
structure State (K : Type) where
  arrived : List SerializedMessage
  queue : List ℕ
  handling : Option ℕ
  db : Database K
  origin : ℤ → Option ℕ
  lostAcks : List ℕ

/-- `poll i ackArrives`: the `i`-th queued message is delivered and acknowledged.
Employees come and go through the HTTP handlers. -/
inductive Label where
  | arrive (msg : SerializedMessage)
  | poll (i : ℕ) (ackArrives : Bool)
  | handle (dbUp : Bool) (gap : ℕ)
  | createEmployee (r : EmployeeRow)
  | deleteEmployee (id : ℤ)
  deriving DecidableEq, Repr

/-- mirrors backend/src/mqtt/mod.rs:113-140 -/
def step (parse : Bytes → Option (Json K)) (s : State K) : Label → Option (State K)
  | .arrive msg => some { s with
      arrived := s.arrived ++ [msg]
      queue := s.queue ++ [s.arrived.length] }
  | .poll i ackArrives =>
    match s.handling, s.queue[i]? with
    | none, some n =>
      if ackArrives then some { s with handling := some n, queue := s.queue.eraseIdx i }
      else some { s with handling := some n, lostAcks := n :: s.lostAcks }
    | _, _ => none
  | .handle dbUp gap =>
    match s.handling with
    | some n =>
      match s.arrived[n]? with
      | some msg =>
        match handlePublish parse msg dbUp gap s.db with
        | (.stored, db) => some { s with
            handling := none
            db := db
            origin := Function.update s.origin (s.db.accessEvents.last + 1 + gap) (some n) }
        | (_, _) => some { s with handling := none }  -- logged
      | none => none
    | none => none
  | .createEmployee r =>
    if h : s.db.employees.last < r.id then some { s with db := s.db.insertEmployee r h } else none
  | .deleteEmployee id => some { s with db := s.db.deleteEmployee id }

/-- Nothing has arrived. The database holds anything; its rows have no origin here. -/
structure Initial (s : State K) : Prop where
  arrived : s.arrived = []
  queue : s.queue = []
  handling : s.handling = none
  origin : ∀ r ∈ s.db.accessEvents.rows, s.origin r.id = none
  lostAcks : s.lostAcks = []

def system (parse : Bytes → Option (Json K)) : LTS (State K) Label := .ofStep Initial (step parse)

/-! ## What a step does to the rows -/

/-- Rows that come from a message with `p`. -/
def State.rowsOf (s : State K) (p : ℕ → Bool) : ℕ :=
  s.db.accessEvents.rows.countP fun r => (s.origin r.id).any p

/-- The row of an event, whose employee may have been deleted since. -/
structure Records (r : AccessEventRow K) (evt : AccessEvent K) : Prop where
  timestampMs : r.timestampMs = evt.timestampMs
  status : r.status = evt.status
  employeeId : r.employeeId = evt.employeeId ∨ r.employeeId = none
  distance : r.distance = evt.distance
  deviceId : r.deviceId = evt.deviceId
  direction : r.direction = evt.direction

def Holds (parse : Bytes → Option (Json K)) (s : State K) (n : ℕ) (r : AccessEventRow K) : Prop :=
  ∃ msg j evt, s.arrived[n]? = some msg ∧ parse msg.payload = some j ∧
    AccessEvent.ofJson j = .ok evt ∧ Records r evt

/-- Some row holds the event. -/
def Stored (parse : Bytes → Option (Json K)) (s : State K) (n : ℕ) : Prop :=
  ∃ r ∈ s.db.accessEvents.rows, s.origin r.id = some n ∧ Holds parse s n r

/-- What a step can do. A handler that returns has stored nothing, or one row. -/
inductive Step (parse : Bytes → Option (Json K)) (s : State K) : Label → State K → Prop where
  | arrive (msg : SerializedMessage) :
      Step parse s (.arrive msg) { s with
        arrived := s.arrived ++ [msg]
        queue := s.queue ++ [s.arrived.length] }
  | acked {i n : ℕ} : s.handling = none → s.queue[i]? = some n →
      Step parse s (.poll i true) { s with handling := some n, queue := s.queue.eraseIdx i }
  | unacked {i n : ℕ} : s.handling = none → s.queue[i]? = some n →
      Step parse s (.poll i false) { s with handling := some n, lostAcks := n :: s.lostAcks }
  | rejected {n gap : ℕ} {dbUp : Bool} {msg : SerializedMessage} : s.handling = some n →
      s.arrived[n]? = some msg → (handlePublish parse msg dbUp gap s.db).1 ≠ .stored →
      Step parse s (.handle dbUp gap) { s with handling := none }
  | stored {n gap : ℕ} {msg : SerializedMessage} {j : Json K} {evt : AccessEvent K}
      {db : Database K} : s.handling = some n → s.arrived[n]? = some msg →
      parse msg.payload = some j → AccessEvent.ofJson j = .ok evt →
      db.accessEvents = s.db.accessEvents.insert (evt.row (s.db.accessEvents.last + 1 + gap))
        (evt.fresh_row s.db gap) →
      Step parse s (.handle true gap) { s with
        handling := none
        db := db
        origin := Function.update s.origin (s.db.accessEvents.last + 1 + gap) (some n) }
  | createEmployee (r : EmployeeRow) (h : s.db.employees.last < r.id) :
      Step parse s (.createEmployee r) { s with db := s.db.insertEmployee r h }
  | deleteEmployee (id : ℤ) :
      Step parse s (.deleteEmployee id) { s with db := s.db.deleteEmployee id }

theorem step_cases {parse : Bytes → Option (Json K)} {s s' : State K} {l : Label}
    (hs : step parse s l = some s') : Step parse s l s' := by
  cases l with
  | arrive msg =>
    cases hs
    exact .arrive msg
  | poll i ackArrives =>
    simp only [step] at hs
    split at hs
    · rename_i n hnone hn
      split at hs
      · rename_i hack
        cases hs
        rw [hack]
        exact .acked hnone hn
      · rename_i hack
        cases hs
        rw [Bool.eq_false_iff.mpr hack]
        exact .unacked hnone hn
    · cases hs
  | handle dbUp gap =>
    simp only [step] at hs
    split at hs
    · rename_i n hn
      split at hs
      · rename_i msg hm
        have hc := handlePublish_cases parse msg dbUp gap s.db
        split at hs
        · rename_i db hh
          rw [hh] at hc
          rcases hc with ⟨hne, -⟩ | ⟨-, rfl, -, j, evt, hp, he, -, hdb⟩
          · exact absurd rfl hne
          · cases hs
            exact .stored hn hm hp he hdb
        · rename_i o db hne hh
          cases hs
          refine .rejected hn hm ?_
          rw [hh]
          exact hne
      · cases hs
    · cases hs
  | createEmployee r =>
    simp only [step] at hs
    split at hs <;> cases hs
    exact .createEmployee r ‹_›
  | deleteEmployee id =>
    cases hs
    exact .deleteEmployee id

section Stored
variable {s : State K} {n gap : ℕ} {db : Database K} {evt : AccessEvent K}

omit [FloatArith K] in
theorem origin_of_old (s : State K) (n gap : ℕ) {r : AccessEventRow K}
    (hr : r ∈ s.db.accessEvents.rows) :
    Function.update s.origin (s.db.accessEvents.last + 1 + gap) (some n) r.id = s.origin r.id := by
  have hle := s.db.accessEvents.le_last r hr
  exact Function.update_of_ne (by omega) _ _

omit [FloatArith K] in
theorem rowsOf_stored (hdb : db.accessEvents = s.db.accessEvents.insert
      (evt.row (s.db.accessEvents.last + 1 + gap)) (evt.fresh_row s.db gap)) (p : ℕ → Bool) :
    State.rowsOf { s with
      handling := none
      db := db
      origin := Function.update s.origin (s.db.accessEvents.last + 1 + gap) (some n) } p =
      s.rowsOf p + if p n then 1 else 0 := by
  set id := s.db.accessEvents.last + 1 + gap with hid
  have hold : (s.db.accessEvents.rows.countP fun r =>
      (Function.update s.origin id (some n) r.id).any p) = s.rowsOf p :=
    List.countP_congr fun r hr => by rw [hid, origin_of_old s n gap hr]
  have hnew : (Function.update s.origin id (some n) (evt.row id).id).any p = p n := by
    rw [show Function.update s.origin id (some n) (evt.row id).id = some n from
      Function.update_self ..]
    rfl
  show db.accessEvents.rows.countP (fun r =>
    (Function.update s.origin id (some n) r.id).any p) = _
  rw [hdb]
  show (s.db.accessEvents.rows ++ [evt.row id]).countP _ = _
  rw [List.countP_append, List.countP_singleton, hold, hnew]

end Stored

omit [FloatArith K] in
theorem rowsOf_deleteEmployee (s : State K) (id : ℤ) (p : ℕ → Bool) :
    State.rowsOf { s with db := s.db.deleteEmployee id } p = s.rowsOf p := by
  show (s.db.accessEvents.rows.map (AccessEventRow.forget id)).countP _ = _
  rw [List.countP_map]
  exact List.countP_congr fun r _ => by simp only [Function.comp_apply, AccessEventRow.forget_id]

/-! ## The rows are the events' -/

/-- Every row with an origin holds its event. -/
def RowsHold (parse : Bytes → Option (Json K)) (s : State K) : Prop :=
  ∀ r ∈ s.db.accessEvents.rows, ∀ n, s.origin r.id = some n → Holds parse s n r

theorem rowsHold_step {parse : Bytes → Option (Json K)} {s s' : State K} {l : Label}
    (h : RowsHold parse s) (hs : step parse s l = some s') : RowsHold parse s' := by
  cases step_cases hs with
  | arrive msg =>
    intro r hr n ho
    obtain ⟨m, j, evt, hm, hrest⟩ := h r hr n ho
    refine ⟨m, j, evt, ?_, hrest⟩
    show (s.arrived ++ [msg])[n]? = some m
    rw [List.getElem?_append_left (List.getElem?_eq_some_iff.mp hm).1]
    exact hm
  | acked | unacked | rejected | createEmployee => exact h
  | @stored n gap msg j evt db hn hm hp he hdb =>
    intro r hr k ho
    have hmem : r ∈ s.db.accessEvents.rows ∨
        r = evt.row (s.db.accessEvents.last + 1 + gap) := by
      rw [← Serial.mem_insert (h := evt.fresh_row s.db gap), ← hdb]
      exact hr
    rcases hmem with hr | rfl
    · have hok : s.origin r.id = some k := (origin_of_old s n gap hr).symm.trans ho
      exact h r hr k hok
    · have hself : Function.update s.origin (s.db.accessEvents.last + 1 + gap) (some n)
          (s.db.accessEvents.last + 1 + gap) = some n := Function.update_self ..
      have hok : some n = some k := hself.symm.trans ho
      cases hok
      exact ⟨msg, j, evt, hm, hp, he, rfl, rfl, Or.inl rfl, rfl, rfl, rfl⟩
  | deleteEmployee id =>
    intro r hr n ho
    obtain ⟨a, ha, rfl⟩ := List.mem_map.mp hr
    unfold AccessEventRow.forget at ho ⊢
    split at ho
    · rename_i hid
      rw [if_pos hid]
      obtain ⟨m, j, evt, hm, hp, he, hrec⟩ := h a ha n ho
      exact ⟨m, j, evt, hm, hp, he, hrec.timestampMs, hrec.status, Or.inr rfl, hrec.distance,
        hrec.deviceId, hrec.direction⟩
    · rename_i hid
      rw [if_neg hid]
      exact h a ha n ho

/-! ## No event lost -/

/-- Every message that arrived is queued, in the handler, or stored. -/
def Kept (parse : Bytes → Option (Json K)) (s : State K) : Prop :=
  ∀ n < s.arrived.length, n ∈ s.queue ∨ s.handling = some n ∨ Stored parse s n

/-- The message handled is an event that a database in working order stores. -/
def ValidForInsertion (parse : Bytes → Option (Json K)) (s : State K) : Label → Prop
  | .handle _ _ => ∀ n ∈ s.handling, ∀ msg ∈ s.arrived[n]?,
      (handlePublish parse msg true 0 s.db).1 = .stored
  | _ => True

/-- The condition on a step: the INSERT of an event that has been acknowledged
does not fail. -/
def InsertSucceeds (s : State K) : Label → Prop
  | .handle dbUp _ => dbUp = true ∨ ∀ n ∈ s.handling, n ∈ s.queue
  | _ => True

omit [FloatArith K] in
theorem mem_eraseIdx_or {l : List ℕ} {i n m : ℕ} (h : l[i]? = some n) (hm : m ∈ l) :
    m = n ∨ m ∈ l.eraseIdx i :=
  Pool.mem_advance_of_mem h none hm

/-- What `Kept` says of one message, short of the content of its row. -/
def Placed (s : State K) (n : ℕ) : Prop :=
  n ∈ s.queue ∨ s.handling = some n ∨ ∃ r ∈ s.db.accessEvents.rows, s.origin r.id = some n

theorem placed_step {parse : Bytes → Option (Json K)} {s s' : State K} {l : Label} {n : ℕ}
    (h : Placed s n) (hs : step parse s l = some s') (hv : ValidForInsertion parse s l)
    (hc : InsertSucceeds s l) : Placed s' n := by
  cases step_cases hs with
  | arrive msg => exact h.imp_left (List.mem_append_left _)
  | acked hnone hk =>
    rcases h with hq | hq | hq
    · rcases mem_eraseIdx_or hk hq with rfl | hq
      · exact Or.inr (Or.inl rfl)
      · exact Or.inl hq
    · rw [hnone] at hq
      cases hq
    · exact Or.inr (Or.inr hq)
  | unacked hnone hk =>
    rcases h with hq | hq | hq
    · exact Or.inl hq
    · rw [hnone] at hq
      cases hq
    · exact Or.inr (Or.inr hq)
  | @rejected k gap dbUp msg hk hm hne =>
    rcases h with hq | hq | hq
    · exact Or.inl hq
    · rw [hk] at hq
      cases hq
      rcases hc with rfl | hq
      · rcases handlePublish_cases parse msg true 0 s.db with ⟨hn, -⟩ |
          ⟨-, -, ht, j, evt, hp, he, hi, -⟩
        · exact absurd (hv n hk msg hm) hn
        · exact absurd (handlePublish_stored ht hp he hi gap) hne
      · exact Or.inl (hq n hk)
    · exact Or.inr (Or.inr hq)
  | @stored k gap msg j evt db hk hm hp he hdb =>
    have hrows : ∀ r, r ∈ db.accessEvents.rows ↔ r ∈ s.db.accessEvents.rows ∨
        r = evt.row (s.db.accessEvents.last + 1 + gap) := by
      intro r
      rw [hdb]
      exact Serial.mem_insert (h := evt.fresh_row s.db gap)
    rcases h with hq | hq | ⟨r, hr, ho⟩
    · exact Or.inl hq
    · rw [hk] at hq
      cases hq
      exact Or.inr (Or.inr ⟨_, (hrows _).mpr (Or.inr rfl), Function.update_self ..⟩)
    · exact Or.inr (Or.inr ⟨r, (hrows r).mpr (Or.inl hr), (origin_of_old s k gap hr).trans ho⟩)
  | createEmployee r => exact h
  | deleteEmployee id =>
    refine h.imp_right (Or.imp_right ?_)
    rintro ⟨r, hr, ho⟩
    refine ⟨AccessEventRow.forget id r, List.mem_map_of_mem hr, ?_⟩
    rw [AccessEventRow.forget_id]
    exact ho

theorem placed_arrival {parse : Bytes → Option (Json K)} {s s' : State K} {l : Label} {n : ℕ}
    (hs : step parse s l = some s') (hn : n < s'.arrived.length) :
    n < s.arrived.length ∨ Placed s' n := by
  cases step_cases hs with
  | arrive msg =>
    rw [List.length_append, List.length_singleton] at hn
    by_cases hlt : n < s.arrived.length
    · exact Or.inl hlt
    · right
      left
      have he : n = s.arrived.length := by omega
      rw [he]
      exact List.mem_append_right _ (List.mem_singleton.mpr rfl)
  | acked | unacked | rejected | stored | createEmployee | deleteEmployee => exact Or.inl hn

/-- **No event lost, if no INSERT fails.** -/
theorem events_kept (parse : Bytes → Option (Json K)) {s : State K}
    (hr : ((system parse).guard fun s l =>
      ValidForInsertion parse s l ∧ InsertSucceeds s l).Reachable s) : Kept parse s := by
  have hind : ((system parse).guard fun s l =>
      ValidForInsertion parse s l ∧ InsertSucceeds s l).Inductive
        fun s => RowsHold parse s ∧ ∀ n < s.arrived.length, Placed s n := by
    refine ⟨fun s hi => ⟨fun r hr n ho => ?_, fun n hn => ?_⟩, fun s l s' hi hs => ⟨?_, ?_⟩⟩
    · rw [hi.origin r hr] at ho
      cases ho
    · rw [hi.arrived] at hn
      cases hn
    · exact rowsHold_step hi.1 hs.1
    · intro n hn
      rcases placed_arrival hs.1 hn with hlt | hp
      · exact placed_step (hi.2 n hlt) hs.1 hs.2.1 hs.2.2
      · exact hp
  obtain ⟨hrows, hplaced⟩ := hind.reachable s hr
  intro n hn
  refine (hplaced n hn).imp_right (Or.imp_right ?_)
  rintro ⟨r, hmem, ho⟩
  exact ⟨r, hmem, ho, hrows r hmem n ho⟩

instance (parse : Bytes → Option (Json K)) (s : State K) :
    (l : Label) → Decidable (ValidForInsertion parse s l)
  | .handle _ _ => inferInstanceAs (Decidable (∀ n ∈ s.handling, ∀ msg ∈ s.arrived[n]?, _ = _))
  | .arrive _ | .poll _ _ | .createEmployee _ | .deleteEmployee _ => isTrue trivial

omit [FloatArith K] in
instance (s : State K) : (l : Label) → Decidable (InsertSucceeds s l)
  | .handle _ _ => inferInstanceAs (Decidable (_ ∨ ∀ n ∈ s.handling, n ∈ s.queue))
  | .arrive _ | .poll _ _ | .createEmployee _ | .deleteEmployee _ => isTrue trivial

/-- An unknown face, as the edge serialises it. -/
def unknownEvent : Json ExtRat :=
  .object [("distance", .null), ("employee_id", .null), ("status", .string "unknown"),
    ("timestamp_ms", .numberUnsigned 1700000001000)]

def eventText : JsonText ExtRat := .compact [unknownEvent]

def unknownMsg : SerializedMessage := ⟨TOPIC_ACCESS, eventText.toVec unknownEvent⟩

def idle : State ExtRat := ⟨[], [], none, .empty, fun _ => none, []⟩

theorem initial_idle : Initial idle := ⟨rfl, rfl, rfl, fun _ h => absurd h List.not_mem_nil, rfl⟩

/-- The database is down for a delivery whose acknowledgement got lost, and up again
for the next. -/
theorem events_kept_example :
    ∃ s : State ExtRat, Kept eventText.parse s ∧ s.arrived.length = 1 ∧ s.queue = [] := by
  obtain ⟨s, hr, hl, hq⟩ := LTS.exists_reachable_where Initial (step eventText.parse)
    (fun s l => ValidForInsertion eventText.parse s l ∧ InsertSucceeds s l)
    [.arrive unknownMsg, .poll 0 false, .handle false 0, .poll 0 true, .handle true 0]
    initial_idle (fun s => s.arrived.length = 1 ∧ s.queue = []) (by decide +kernel)
  exact ⟨s, events_kept eventText.parse hr, hl, hq⟩

/-- One failed INSERT, and an acknowledged event is gone. -/
theorem event_lost_on_db_failure :
    ∃ s : State ExtRat, ((system eventText.parse).guard
      (ValidForInsertion eventText.parse)).Reachable s ∧ ¬ Kept eventText.parse s := by
  obtain ⟨s, hr, hl, hq, hh, hn⟩ := LTS.exists_reachable_where Initial (step eventText.parse)
    (ValidForInsertion eventText.parse)
    [.arrive unknownMsg, .poll 0 true, .handle false 0]
    initial_idle (fun s => s.arrived.length = 1 ∧ s.queue = [] ∧ s.handling = none ∧
      s.db.accessEvents.rows = []) (by decide +kernel)
  refine ⟨s, hr, fun hk => ?_⟩
  rcases hk 0 (by omega) with hm | hm | ⟨r, hm, -⟩
  · rw [hq] at hm
    cases hm
  · rw [hh] at hm
    cases hm
  · rw [hn] at hm
    cases hm

/-! ## How many rows -/

def holding (p : ℕ → Bool) (h : Option ℕ) : ℕ := if h.any p then 1 else 0

/-- Over any set of messages: what is queued, handled or stored is at most what
arrived, and one more for each acknowledgement that was lost. -/
def Balance (s : State K) : Prop :=
  ∀ p, s.queue.countP p + holding p s.handling + s.rowsOf p ≤
    (List.range s.arrived.length).countP p + s.lostAcks.countP p

theorem countP_eraseIdx {l : List ℕ} {i n : ℕ} (h : l[i]? = some n) (p : ℕ → Bool) :
    (l.eraseIdx i).countP p + (if p n then 1 else 0) = l.countP p := by
  obtain ⟨hi, rfl⟩ := List.getElem?_eq_some_iff.mp h
  rw [← (List.getElem_cons_eraseIdx_perm hi).countP_eq p, List.countP_cons]

theorem balance_step {parse : Bytes → Option (Json K)} {s s' : State K} {l : Label}
    (h : Balance s) (hs : step parse s l = some s') : Balance s' := by
  intro p
  have hp := h p
  cases step_cases hs with
  | arrive msg =>
    show (s.queue ++ [s.arrived.length]).countP p + holding p s.handling + s.rowsOf p ≤
      (List.range (s.arrived ++ [msg]).length).countP p + s.lostAcks.countP p
    rw [List.length_append, List.length_singleton, List.range_succ, List.countP_append,
      List.countP_append]
    omega
  | @acked i n hnone hn =>
    rw [hnone] at hp
    have he := countP_eraseIdx hn p
    simp only [holding, Option.any_some, Option.any_none, Bool.false_eq_true, if_false] at hp ⊢
    show (s.queue.eraseIdx i).countP p + _ + s.rowsOf p ≤ _
    omega
  | unacked hnone hn =>
    rw [hnone] at hp
    simp only [holding, Option.any_some, Option.any_none, Bool.false_eq_true, if_false,
      List.countP_cons] at hp ⊢
    show s.queue.countP p + _ + s.rowsOf p ≤ _
    omega
  | rejected hn hm hne =>
    simp only [holding, Option.any_none, Bool.false_eq_true, if_false] at hp ⊢
    show s.queue.countP p + 0 + s.rowsOf p ≤ _
    omega
  | stored hn hm hparse he hdb =>
    rw [rowsOf_stored hdb p]
    rw [hn] at hp
    simp only [holding, Option.any_some, Option.any_none, Bool.false_eq_true, if_false] at hp ⊢
    omega
  | createEmployee r => exact hp
  | deleteEmployee id =>
    rw [rowsOf_deleteEmployee]
    exact hp

omit [FloatArith K] in
theorem balance_initial {s : State K} (h : Initial s) : Balance s := by
  intro p
  have hrows : s.rowsOf p = 0 := by
    refine List.countP_eq_zero.mpr fun r hr => ?_
    simp [h.origin r hr]
  rw [h.queue, h.handling, h.arrived, h.lostAcks, hrows]
  exact Nat.le_refl 0

end FaceGate.L4.Ingest
