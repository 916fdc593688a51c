import FaceGate.Core.Keyed
import FaceGate.L1Domain.Types

/-!
# The backend's Postgres tables

Three tables with `SERIAL` keys, their foreign keys and their CHECK constraints
(`infra/migrations/`). The constraints are fields of `Database`, so a value of
the type is a database the schema admits, and each statement carries the proof
that it keeps them.

A statement is atomic and either takes effect or leaves the database as it was.
The id an INSERT takes from its sequence is an argument: any id above the last
one, since a failed INSERT uses one up. What the server adds to a failed
statement (a lost connection, a timeout) is `DbError.unavailable`.
-/
namespace FaceGate.L4

open Core Core.Keyed FaceGate.L1.Domain

inductive DbError where
  | foreignKeyViolation
  | checkViolation
  | unavailable
  deriving DecidableEq, Repr

/-! ## Rows -/

/-- mirrors infra/migrations/00_init.sql:15-20 -/
structure EmployeeRow where
  id : ℤ
  name : String
  shift : Option String
  deriving DecidableEq, Repr

/-- `SET name = $2, shift = $3 WHERE id = $1`, on one row. -/
def EmployeeRow.set (id : ℤ) (name : String) (shift : Option String) (r : EmployeeRow) :
    EmployeeRow :=
  if r.id = id then { r with name := name, shift := shift } else r

@[simp] theorem EmployeeRow.set_id (id : ℤ) (name : String) (shift : Option String)
    (r : EmployeeRow) : (EmployeeRow.set id name shift r).id = r.id := by
  unfold EmployeeRow.set
  split <;> rfl

/-- mirrors infra/migrations/00_init.sql:78-83 and 02_upgrade_to_arcface.sql:6 -/
structure EmbeddingRow (K : Type) where
  id : ℤ
  employeeId : ℤ
  vector : EmbeddingVector K
  createdAt : Timestamp
  deriving DecidableEq

/-- mirrors infra/migrations/00_init.sql:31-39 and 01_add_direction.sql:18-20 -/
structure AccessEventRow (K : Type) where
  id : ℤ
  employeeId : Option ℤ
  status : String
  distance : Option (Flt K)
  timestampMs : ℤ
  deviceId : Option String
  direction : String
  deriving DecidableEq

/-- `CHECK (status IN ...)` and `CHECK (direction IN ...)`. -/
def AccessEventRow.Checked {K : Type} (r : AccessEventRow K) : Prop :=
  (r.status = "granted" ∨ r.status = "unknown") ∧ (r.direction = "in" ∨ r.direction = "out")

instance {K : Type} (r : AccessEventRow K) : Decidable r.Checked :=
  inferInstanceAs (Decidable (_ ∧ _))

/-- `ON DELETE SET NULL`. -/
def AccessEventRow.forget {K : Type} (id : ℤ) (r : AccessEventRow K) : AccessEventRow K :=
  if r.employeeId = some id then { r with employeeId := none } else r

/-- The link to the employee is all that changes. -/
theorem AccessEventRow.forget_eq {K : Type} (id : ℤ) (r : AccessEventRow K) :
    AccessEventRow.forget id r =
      { r with employeeId := if r.employeeId = some id then none else r.employeeId } := by
  unfold AccessEventRow.forget
  split
  · rfl
  · rfl

@[simp] theorem AccessEventRow.forget_id {K : Type} (id : ℤ) (r : AccessEventRow K) :
    (AccessEventRow.forget id r).id = r.id := by
  unfold AccessEventRow.forget
  split <;> rfl

/-! ## The database -/

structure Database (K : Type) where
  employees : Serial EmployeeRow EmployeeRow.id
  embeddings : Serial (EmbeddingRow K) EmbeddingRow.id
  accessEvents : Serial (AccessEventRow K) AccessEventRow.id
  /-- `employee_id REFERENCES employees(id)` -/
  embedding_fk : ∀ r ∈ embeddings.rows, (employees.find r.employeeId).isSome
  event_fk : ∀ r ∈ accessEvents.rows, ∀ e ∈ r.employeeId, (employees.find e).isSome
  event_check : ∀ r ∈ accessEvents.rows, r.Checked

namespace Database

variable {K : Type}

def empty : Database K where
  employees := .empty
  embeddings := .empty
  accessEvents := .empty
  embedding_fk _ h := absurd h List.not_mem_nil
  event_fk _ h := absurd h List.not_mem_nil
  event_check _ h := absurd h List.not_mem_nil

theorem isSome_find_insert {R : Type} {key : R → ℤ} {t : Serial R key} {r : R}
    {h : t.last < key r} {k : ℤ} (hk : (t.find k).isSome) : ((t.insert r h).find k).isSome := by
  rw [Serial.find_insert]
  split
  · rfl
  · exact hk

/-! ## Statements -/

/-- `INSERT INTO employees`.
mirrors backend/src/routes/employees.rs:153-166 -/
def insertEmployee (db : Database K) (r : EmployeeRow) (h : db.employees.last < r.id) :
    Database K where
  employees := db.employees.insert r h
  embeddings := db.embeddings
  accessEvents := db.accessEvents
  embedding_fk a ha := isSome_find_insert (db.embedding_fk a ha)
  event_fk a ha e he := isSome_find_insert (db.event_fk a ha e he)
  event_check := db.event_check

/-- `UPDATE employees`.
mirrors backend/src/routes/employees.rs:219-227 -/
def updateEmployee (db : Database K) (id : ℤ) (name : String) (shift : Option String) :
    Database K where
  employees := db.employees.update (EmployeeRow.set id name shift)
    (EmployeeRow.set_id id name shift)
  embeddings := db.embeddings
  accessEvents := db.accessEvents
  embedding_fk a ha := by
    rw [Serial.find_update, Option.isSome_map]
    exact db.embedding_fk a ha
  event_fk a ha e he := by
    rw [Serial.find_update, Option.isSome_map]
    exact db.event_fk a ha e he
  event_check := db.event_check

theorem find_updateEmployee (db : Database K) (id : ℤ) (name : String) (shift : Option String)
    (k : ℤ) : (db.updateEmployee id name shift).employees.find k =
      (db.employees.find k).map (EmployeeRow.set id name shift) :=
  Serial.find_update _ _ _ k

/-- `INSERT INTO embeddings`.
mirrors backend/src/routes/embeddings.rs:134-144 -/
def insertEmbedding (db : Database K) (r : EmbeddingRow K) (h : db.embeddings.last < r.id) :
    Except DbError (Database K) :=
  if hfk : (db.employees.find r.employeeId).isSome then
    .ok { db with
      embeddings := db.embeddings.insert r h
      embedding_fk := fun a ha => by
        rcases Serial.mem_insert.mp ha with ha | rfl
        · exact db.embedding_fk a ha
        · exact hfk }
  else .error .foreignKeyViolation

theorem embeddings_of_insertEmbedding {db db' : Database K} {r : EmbeddingRow K}
    {h : db.embeddings.last < r.id} (he : db.insertEmbedding r h = .ok db') :
    db'.embeddings = db.embeddings.insert r h := by
  unfold insertEmbedding at he
  split at he
  · cases he
    rfl
  · cases he

/-- `INSERT INTO access_events`.
mirrors backend/src/mqtt/mod.rs:161-174 -/
def insertAccessEvent (db : Database K) (r : AccessEventRow K)
    (h : db.accessEvents.last < r.id) : Except DbError (Database K) :=
  if hc : r.Checked then
    if hfk : ∀ e ∈ r.employeeId, (db.employees.find e).isSome then
      .ok { db with
        accessEvents := db.accessEvents.insert r h
        event_fk := fun a ha => by
          rcases Serial.mem_insert.mp ha with ha | rfl
          · exact db.event_fk a ha
          · exact hfk
        event_check := fun a ha => by
          rcases Serial.mem_insert.mp ha with ha | rfl
          · exact db.event_check a ha
          · exact hc }
    else .error .foreignKeyViolation
  else .error .checkViolation

theorem accessEvents_of_insertAccessEvent {db db' : Database K} {r : AccessEventRow K}
    {h : db.accessEvents.last < r.id} (he : db.insertAccessEvent r h = .ok db') :
    db'.accessEvents = db.accessEvents.insert r h := by
  unfold insertAccessEvent at he
  split at he
  · split at he
    · cases he
      rfl
    · cases he
  · cases he

theorem employees_of_insertAccessEvent {db db' : Database K} {r : AccessEventRow K}
    {h : db.accessEvents.last < r.id} (he : db.insertAccessEvent r h = .ok db') :
    db'.employees = db.employees := by
  unfold insertAccessEvent at he
  split at he
  · split at he
    · cases he
      rfl
    · cases he
  · cases he

/-- The statement succeeds when the constraints hold of the row. -/
theorem insertAccessEvent_ok {db : Database K} {r : AccessEventRow K}
    (h : db.accessEvents.last < r.id) (hc : r.Checked)
    (hfk : ∀ e ∈ r.employeeId, (db.employees.find e).isSome) :
    ∃ db', db.insertAccessEvent r h = .ok db' := by
  unfold insertAccessEvent
  rw [dif_pos hc, dif_pos hfk]
  exact ⟨_, rfl⟩

theorem fk_of_insertAccessEvent {db db' : Database K} {r : AccessEventRow K}
    {h : db.accessEvents.last < r.id} (he : db.insertAccessEvent r h = .ok db') :
    ∀ e ∈ r.employeeId, (db.employees.find e).isSome := by
  unfold insertAccessEvent at he
  split at he
  · split at he
    · assumption
    · cases he
  · cases he

/-- `DELETE FROM employees WHERE id = $1`: the row, with it the employee's
embeddings, and the link of the employee's events.
mirrors backend/src/routes/employees.rs:268-275 -/
def deleteEmployee (db : Database K) (id : ℤ) : Database K where
  employees := db.employees.erase id
  embeddings := db.embeddings.deleteWhere fun r => r.employeeId ≠ id
  accessEvents := db.accessEvents.update (AccessEventRow.forget id) (AccessEventRow.forget_id id)
  embedding_fk a ha := by
    obtain ⟨ha, hne⟩ := Serial.mem_deleteWhere.mp ha
    rw [show (db.employees.erase id).find a.employeeId = _ from Table.find_erase ..,
      if_neg (of_decide_eq_true hne)]
    exact db.embedding_fk a ha
  event_fk a ha e he := by
    obtain ⟨r, hr, rfl⟩ := List.mem_map.mp ha
    unfold AccessEventRow.forget at he
    split at he
    · cases he
    · rename_i hne
      rw [show (db.employees.erase id).find e = _ from Table.find_erase ..,
        if_neg (fun h : e = id => hne (by rw [← h]; exact he))]
      exact db.event_fk r hr e he
  event_check a ha := by
    obtain ⟨r, hr, rfl⟩ := List.mem_map.mp ha
    have h := db.event_check r hr
    unfold AccessEventRow.forget
    split <;> exact h

end Database
end FaceGate.L4
