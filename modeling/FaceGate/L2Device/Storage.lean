import FaceGate.Core.Keyed
import FaceGate.L1Domain.Json

/-!
# The edge's SQLite store

`Storage` serialises every call on one mutex, so each operation is a function
on the tables. A call that throws leaves its table as it was: each is a single
statement. Whether SQLite accepts the statement is an argument (`sqliteOk`).

* `embeddings`: `id INTEGER PRIMARY KEY`, the rowid, so the rows lie in id order.
* `pending_events`: `AUTOINCREMENT` ids, one above the last one ever used.
-/
namespace FaceGate.L2.Storage

open Core Core.Keyed FaceGate.L1 FaceGate.L1.Domain

inductive StorageError where
  | zeroId
  | sqlite
  deriving DecidableEq, Repr

variable {K : Type}

/-! ## embeddings -/

/-- mirrors edge/migrations/schema.sql:14-19 -/
structure EmbeddingRow (K : Type) where
  id : ℤ
  employeeId : ℤ
  vector : EmbeddingVector K
  createdAt : Timestamp
  deriving DecidableEq

abbrev EmbeddingsTable (K : Type) := Table (EmbeddingRow K) EmbeddingRow.id

def EmbeddingRow.toEmbedding (r : EmbeddingRow K) : Embedding K := ⟨r.id, r.employeeId, r.vector⟩

/-- `SELECT ... ORDER BY id ASC`. The blob size it checks is the type of `vector`.
mirrors edge/src/storage/storage.cpp:60-98 -/
def loadAllEmbeddings (t : EmbeddingsTable K) : List (Embedding K) :=
  t.rows.map EmbeddingRow.toEmbedding

/-- The largest rowid. -/
def maxRowid : ℤ := 2 ^ 63 - 1

/-- The rowid of a row inserted without one: one more than the largest in the table.
Beyond `maxRowid` SQLite tries unused ids at random (`random`), and gives up. -/
def newRowid (random : Option ℤ) (t : EmbeddingsTable K) : Option ℤ :=
  match t.rows.getLast? with
  | none => some 1
  | some r =>
    if r.id < maxRowid then some (r.id + 1)
    else random.filter fun id => (t.find id).isNone

/-- `INSERT`, the id left to SQLite.
mirrors edge/src/storage/storage.cpp:100-124 -/
def insertEmbedding (sqliteOk : Bool) (random : Option ℤ) (nowMs : Timestamp) (e : Embedding K)
    (t : EmbeddingsTable K) : Except StorageError (EmbeddingsTable K) :=
  if sqliteOk then
    match newRowid random t with
    | some id => .ok (t.upsert ⟨id, e.owner, e.vector, nowMs⟩)
    | none => .error .sqlite
  else .error .sqlite

/-- `INSERT OR REPLACE`.
mirrors edge/src/storage/storage.cpp:126-156 -/
def upsertEmbedding (sqliteOk : Bool) (nowMs : Timestamp) (e : Embedding K)
    (t : EmbeddingsTable K) : Except StorageError (EmbeddingsTable K) :=
  if e.id = 0 then .error .zeroId
  else if sqliteOk then .ok (t.upsert ⟨e.id, e.owner, e.vector, nowMs⟩)
  else .error .sqlite

/-- mirrors edge/src/storage/storage.cpp:158-171 -/
def deleteEmbedding (sqliteOk : Bool) (id : ℤ) (t : EmbeddingsTable K) :
    Except StorageError (EmbeddingsTable K) :=
  if sqliteOk then .ok (t.erase id) else .error .sqlite

/-- mirrors edge/src/storage/storage.cpp:173-186 -/
def deleteEmployeeEmbeddings (sqliteOk : Bool) (employeeId : ℤ) (t : EmbeddingsTable K) :
    Except StorageError (EmbeddingsTable K) :=
  if sqliteOk then .ok (t.deleteWhere fun r => r.employeeId ≠ employeeId) else .error .sqlite

theorem newRowid_unused {random : Option ℤ} {t : EmbeddingsTable K} {id : ℤ}
    (h : newRowid random t = some id) : t.find id = none := by
  unfold newRowid at h
  cases hlast : t.rows.getLast? with
  | none =>
    have hrows : t.rows = [] := List.getLast?_eq_none_iff.mp hlast
    unfold Table.find
    rw [hrows, lookup_nil]
  | some r =>
    rw [hlast] at h
    dsimp only at h
    split at h
    · cases h
      refine lookup_eq_none.mpr ?_
      intro a ha
      have hle := Table.key_le_getLast hlast a ha
      omega
    · obtain ⟨-, hid⟩ := Option.filter_eq_some_iff.mp h
      exact Option.isNone_iff_eq_none.mp hid

theorem insertEmbedding_ok {sqliteOk : Bool} {random : Option ℤ} {nowMs : Timestamp}
    {e : Embedding K} {t t' : EmbeddingsTable K}
    (h : insertEmbedding sqliteOk random nowMs e t = .ok t') :
    ∃ id, t.find id = none ∧ t' = t.upsert ⟨id, e.owner, e.vector, nowMs⟩ := by
  unfold insertEmbedding at h
  split at h
  · split at h
    · rename_i id hid
      cases h
      exact ⟨id, newRowid_unused hid, rfl⟩
    · cases h
  · cases h

theorem upsertEmbedding_ok {sqliteOk : Bool} {nowMs : Timestamp} {e : Embedding K}
    {t t' : EmbeddingsTable K} (h : upsertEmbedding sqliteOk nowMs e t = .ok t') :
    sqliteOk = true ∧ t' = t.upsert ⟨e.id, e.owner, e.vector, nowMs⟩ := by
  unfold upsertEmbedding at h
  split at h
  · cases h
  · split at h
    · rename_i hok
      cases h
      exact ⟨hok, rfl⟩
    · cases h

theorem deleteEmbedding_ok {sqliteOk : Bool} {id : ℤ} {t t' : EmbeddingsTable K}
    (h : deleteEmbedding sqliteOk id t = .ok t') : sqliteOk = true ∧ t' = t.erase id := by
  unfold deleteEmbedding at h
  split at h
  · rename_i hok
    cases h
    exact ⟨hok, rfl⟩
  · cases h

theorem deleteEmployeeEmbeddings_ok {sqliteOk : Bool} {employeeId : ℤ}
    {t t' : EmbeddingsTable K} (h : deleteEmployeeEmbeddings sqliteOk employeeId t = .ok t') :
    sqliteOk = true ∧ t' = t.deleteWhere fun r => r.employeeId ≠ employeeId := by
  unfold deleteEmployeeEmbeddings at h
  split at h
  · rename_i hok
    cases h
    exact ⟨hok, rfl⟩
  · cases h

/-- The embedding stored under an id, as `load_all_embeddings` shows it. -/
def stored (t : EmbeddingsTable K) (id : ℤ) : Option (Embedding K) :=
  (t.find id).map EmbeddingRow.toEmbedding

theorem stored_upsert (t : EmbeddingsTable K) (e : Embedding K) (nowMs : Timestamp) (id : ℤ) :
    stored (t.upsert ⟨e.id, e.owner, e.vector, nowMs⟩) id =
      if e.id = id then some e else stored t id := by
  unfold stored
  rw [Table.find_upsert]
  split <;> rfl

theorem stored_erase (t : EmbeddingsTable K) (j id : ℤ) :
    stored (t.erase j) id = if id = j then none else stored t id := by
  unfold stored
  rw [Table.find_erase]
  split <;> rfl

theorem lookup_load (t : EmbeddingsTable K) (id : ℤ) :
    lookup Embedding.id id (loadAllEmbeddings t) = stored t id :=
  lookup_map (fun _ => rfl) id t.rows

theorem distinct_load (t : EmbeddingsTable K) :
    DistinctKeys Embedding.id (loadAllEmbeddings t) := by
  have h : (loadAllEmbeddings t).map Embedding.id = t.rows.map EmbeddingRow.id := by
    simp [loadAllEmbeddings, EmbeddingRow.toEmbedding]
  unfold DistinctKeys
  rw [h]
  exact t.distinctKeys

/-! ## pending_events -/

/-- mirrors edge/src/storage/storage.hpp:13-18 and
edge/migrations/schema.sql:29-34 -/
structure PendingEvent where
  id : ℤ
  topic : String
  payload : Bytes
  createdAt : Timestamp
  deriving DecidableEq, Repr

abbrev PendingTable := Serial PendingEvent PendingEvent.id

def PendingEvent.message (e : PendingEvent) : SerializedMessage := ⟨e.topic, e.payload⟩

/-- mirrors edge/src/storage/storage.cpp:188-210 -/
def enqueuePendingEvent (sqliteOk : Bool) (nowMs : Timestamp) (m : SerializedMessage)
    (t : PendingTable) : Except StorageError PendingTable :=
  if sqliteOk then
    .ok (t.insert ⟨t.last + 1, m.topic, m.payload, nowMs⟩ (Int.lt_succ t.last))
  else .error .sqlite

/-- `SELECT ... ORDER BY id ASC LIMIT ?`.
mirrors edge/src/storage/storage.cpp:212-243 -/
def fetchPendingEvents (sqliteOk : Bool) (limit : ℕ) (t : PendingTable) :
    Except StorageError (List PendingEvent) :=
  if sqliteOk then .ok (t.rows.take limit) else .error .sqlite

/-- mirrors edge/src/storage/storage.cpp:245-255 -/
def deletePendingEvent (sqliteOk : Bool) (id : ℤ) (t : PendingTable) :
    Except StorageError PendingTable :=
  if sqliteOk then .ok (t.erase id) else .error .sqlite

end FaceGate.L2.Storage
