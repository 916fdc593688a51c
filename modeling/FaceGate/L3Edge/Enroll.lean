import FaceGate.Core.LTS
import FaceGate.L3Edge.Subscriber

/-!
# Local enrolments under synchronisation

The enroll CLI and the subscriber of the running edge write one `embeddings` table.
The CLI leaves the id to SQLite, the subscriber takes it from the backend's
`SERIAL`: two counters, one key space. An upsert is `INSERT OR REPLACE`, so the
backend's first embedding replaces the first row enrolled locally, and its tombstone
deletes it (`enrolled_row_lost`).

* `enrolled_until_named`: an enrolled row stays as it is until
  `delete_employee_embeddings` of its owner, or an upsert or tombstone of its id.
* `process_keeps`: messages on the topics of other ids leave it alone.
-/
namespace FaceGate.L3.Enroll

open Core Core.Keyed FaceGate.L1 FaceGate.L1.Domain FaceGate.L2.Storage FaceGate.L3.Subscriber

variable {K : Type}

/-! ## Histories of calls -/

/-- A call of `Storage` that writes the table, and what SQLite and the clock give. -/
inductive Call (K : Type) where
  /-- mirrors edge/apps/enroll/main.cpp:171-177 -/
  | insert (sqliteOk : Bool) (random : Option ℤ) (nowMs : Timestamp) (e : Embedding K)
  /-- mirrors edge/src/mqtt/mqtt_subscriber.cpp:168 -/
  | upsert (sqliteOk : Bool) (nowMs : Timestamp) (e : Embedding K)
  /-- mirrors edge/src/mqtt/mqtt_subscriber.cpp:124 -/
  | delete (sqliteOk : Bool) (id : ℤ)
  /-- mirrors edge/apps/enroll/main.cpp:116-120 -/
  | deleteEmployee (sqliteOk : Bool) (employeeId : ℤ)

def Call.run (t : EmbeddingsTable K) : Call K → Except StorageError (EmbeddingsTable K)
  | .insert sqliteOk random nowMs e => insertEmbedding sqliteOk random nowMs e t
  | .upsert sqliteOk nowMs e => upsertEmbedding sqliteOk nowMs e t
  | .delete sqliteOk id => deleteEmbedding sqliteOk id t
  | .deleteEmployee sqliteOk employeeId => deleteEmployeeEmbeddings sqliteOk employeeId t

/-- A call that throws leaves the table as it was. -/
def step (t : EmbeddingsTable K) (c : Call K) : Option (EmbeddingsTable K) :=
  match c.run t with
  | .ok t' => some t'
  | .error _ => some t

/-- The calls of both programs, in any order, on any table. -/
def system (K : Type) : LTS (EmbeddingsTable K) (Call K) := .ofStep (fun _ => True) step

/-- The call is about the row: about its owner, or its id. -/
def Call.Names (r : EmbeddingRow K) : Call K → Prop
  | .insert .. => False
  | .upsert _ _ e => e.id = r.id
  | .delete _ id => id = r.id
  | .deleteEmployee _ employeeId => employeeId = r.employeeId

variable {t t' : EmbeddingsTable K} {r : EmbeddingRow K} {c : Call K}

/-! ## One call -/

/-- A row stays through the calls that do not name it. -/
theorem find_run (h : c.run t = .ok t') (hr : t.find r.id = some r) (hn : ¬ c.Names r) :
    t'.find r.id = some r := by
  cases c with
  | insert sqliteOk random nowMs e =>
    obtain ⟨id, hid, rfl⟩ := insertEmbedding_ok h
    have hne : id ≠ r.id := by
      intro he
      rw [he, hr] at hid
      cases hid
    rw [Table.find_upsert, if_neg hne]
    exact hr
  | upsert sqliteOk nowMs e =>
    obtain ⟨-, rfl⟩ := upsertEmbedding_ok h
    have hne : e.id ≠ r.id := hn
    rw [Table.find_upsert, if_neg hne]
    exact hr
  | delete sqliteOk id =>
    obtain ⟨-, rfl⟩ := deleteEmbedding_ok h
    rw [Table.find_erase, if_neg fun he => hn he.symm]
    exact hr
  | deleteEmployee sqliteOk employeeId =>
    obtain ⟨-, rfl⟩ := deleteEmployeeEmbeddings_ok h
    have hkeep : r.employeeId ≠ employeeId := fun he => hn he.symm
    rw [Table.find_deleteWhere, hr]
    simp [hkeep]

/-- A call that changes the table has not thrown. -/
theorem run_of_step (h : step t c = some t') : c.run t = .ok t' ∨ t' = t := by
  unfold step at h
  split at h
  · rename_i hrun
    cases h
    exact Or.inl hrun
  · cases h
    exact Or.inr rfl

/-! ## Histories -/

/-- `r` is the row the CLI has added to `t`. -/
theorem enrolled_until_named {u : EmbeddingsTable K} {sqliteOk : Bool} {random : Option ℤ}
    {nowMs : Timestamp} {e : Embedding K} {cs : List (Call K)}
    (hins : insertEmbedding sqliteOk random nowMs e t = .ok t') (hr : r ∈ t'.rows)
    (hnew : r ∉ t.rows) (hrun : (system K).Run t' cs u) :
    r.employeeId = e.owner ∧ r.vector = e.vector ∧
      (u.find r.id = some r ∨
        ∃ cs₁ c cs₂ m m', cs = cs₁ ++ c :: cs₂ ∧ (system K).Run t' cs₁ m ∧ m.find r.id = some r ∧
          c.run m = .ok m' ∧ m'.find r.id ≠ some r ∧ c.Names r) := by
  have hfind : t'.find r.id = some r := Table.mem_rows_iff.mp hr
  obtain ⟨id, -, rfl⟩ := insertEmbedding_ok hins
  have hrow : r = ⟨id, e.owner, e.vector, nowMs⟩ := by
    rw [Table.find_upsert] at hfind
    split at hfind
    · exact (Option.some.inj hfind).symm
    · exact absurd (Table.mem_rows_iff.mpr hfind) hnew
  refine ⟨by rw [hrow], by rw [hrow], ?_⟩
  by_cases hu : u.find r.id = some r
  · exact Or.inl hu
  · obtain ⟨cs₁, c, cs₂, m, m', hcs, hrun₁, hm, hstep, hm'⟩ :=
      hrun.exists_leaving (P := fun t => t.find r.id = some r) hfind hu
    rcases run_of_step hstep with hc | rfl
    · refine Or.inr ⟨cs₁, c, cs₂, m, m', hcs, hrun₁, hm, hc, hm', ?_⟩
      by_contra hn
      exact hm' (find_run hc hm hn)
    · exact absurd hm hm'

def enrolledRow : EmbeddingRow ExtRat := ⟨1, 5, axis, 0⟩

/-- The first row enrolled on a new device, then two messages of the backend. -/
theorem enrolled_until_tombstone : ∃ t' u : EmbeddingsTable ExtRat,
    insertEmbedding true none 0 ⟨0, 5, axis⟩ Table.empty = .ok t' ∧ enrolledRow ∈ t'.rows ∧
      (system ExtRat).Run t' [.upsert true 0 ⟨2, 7, axis⟩, .delete true 1] u ∧ u.find 1 = none ∧
      ∃ cs₁ c cs₂ m m', [.upsert true 0 ⟨2, 7, axis⟩, .delete true 1] = cs₁ ++ c :: cs₂ ∧
        (system ExtRat).Run t' cs₁ m ∧ m.find 1 = some enrolledRow ∧ c.run m = .ok m' ∧
        m'.find 1 ≠ some enrolledRow ∧ c.Names enrolledRow := by
  let t' : EmbeddingsTable ExtRat := Table.empty.upsert enrolledRow
  have hins : insertEmbedding true none 0 ⟨0, 5, axis⟩ Table.empty = .ok t' := rfl
  have hmem : enrolledRow ∈ t'.rows := List.mem_singleton_self _
  have hrun : (system ExtRat).Run t' [.upsert true 0 ⟨2, 7, axis⟩, .delete true 1]
      ((t'.upsert ⟨2, 7, axis, 0⟩).erase 1) := LTS.run_of_exec rfl
  have hgone : ((t'.upsert ⟨2, 7, axis, 0⟩).erase 1).find 1 = none := by
    rw [Table.find_erase, if_pos rfl]
  obtain ⟨-, -, hkept | hnamed⟩ := enrolled_until_named hins hmem List.not_mem_nil hrun
  · exact absurd (hgone.symm.trans hkept) (nofun)
  · exact ⟨t', _, hins, hmem, hrun, hgone, hnamed⟩

/-- The backend's first embedding, of another employee, has the id of the first row
enrolled on a new device: its upsert replaces that row, its tombstone deletes it. -/
theorem enrolled_row_lost : ∃ t t' : EmbeddingsTable ExtRat,
    insertEmbedding true none 0 ⟨0, 5, axis⟩ t = .ok t' ∧ enrolledRow ∉ t.rows ∧
      enrolledRow ∈ t'.rows ∧
      (∃ u, (system ExtRat).Run t' [.upsert true 0 ⟨1, 7, axis⟩] u ∧ u.rows = [⟨1, 7, axis, 0⟩]) ∧
      ∃ u, (system ExtRat).Run t' [.delete true 1] u ∧ u.rows = [] := by
  refine ⟨Table.empty, Table.empty.upsert enrolledRow, rfl, List.not_mem_nil,
    List.mem_singleton_self _, ?_, ?_⟩
  · exact ⟨_, LTS.run_of_exec rfl, rfl⟩
  · exact ⟨_, LTS.run_of_exec rfl, rfl⟩

/-! ## Messages -/

variable [FloatArith K]

/-- A message leads to one call at most, about the id of its topic. -/
theorem onMessage_call (parse : Bytes → Option (Json K)) (d : Delivery) (s : SyncState K) :
    (onMessage parse d s).2.storage = s.storage ∨
      ∃ c : Call K, c.run s.storage = .ok (onMessage parse d s).2.storage ∧
        ∀ r : EmbeddingRow K, c.Names r → d.About r.id := by
  rcases onMessage_cases parse d s with ⟨-, he⟩ | ⟨id, t, hid, hd, he⟩ | ⟨emb, t, hid, hu, he⟩
  · exact Or.inl (by rw [he])
  · rw [he]
    refine Or.inr ⟨.delete d.sqliteOk id, hd, fun r hn => ?_⟩
    obtain rfl : id = r.id := hn
    exact hid
  · rw [he]
    refine Or.inr ⟨.upsert d.sqliteOk d.nowMs emb, hu, fun r hn => ?_⟩
    have hemb : emb.id = r.id := hn
    rwa [← hemb]

/-- A row stays through any messages on the topics of other ids. -/
theorem process_keeps (parse : Bytes → Option (Json K)) {r : EmbeddingRow K} (ds : List Delivery)
    (s : SyncState K) (hr : s.storage.find r.id = some r) (hd : ∀ d ∈ ds, ¬ d.About r.id) :
    (process parse ds s).storage.find r.id = some r := by
  induction ds generalizing s with
  | nil => exact hr
  | cons d ds ih =>
    obtain ⟨hd, hds⟩ := List.forall_mem_cons.mp hd
    refine ih _ ?_ hds
    rcases onMessage_call parse d s with hsame | ⟨c, hrun, hc⟩
    · rw [hsame]
      exact hr
    · exact find_run hrun hr fun hn => hd (hc r hn)

end FaceGate.L3.Enroll
