import FaceGate.Core.LTS
import FaceGate.L1Domain.Json
import FaceGate.L4Backend.Database

/-!
# Enrolment and deletion: Postgres against the retained catalogue

`POST /employees/:id/embeddings` inserts a row and then publishes it retained;
`DELETE /employees/:id` selects the employee's embedding ids, deletes the
employee (the cascade takes the rows) and then publishes one tombstone per
selected id. No transaction spans the two steps of the one or the three of the
other, and requests run concurrently: `system` interleaves their statements and
publishes. A publish always succeeds and reaches the broker in order.

`delete` captures the ids before the cascade so that edges drop them
(`employees.rs:257-258`). Two orders defeat that: a row inserted between the SELECT and the
DELETE gets no tombstone (`deleted_face_retained`), and an upsert published after
the tombstone of its row stays (`late_upsert_retained`). `InOrder` excludes exactly these.

* `Inv`: a row is retained or about to be published; what is retained or about
  to be published is a row or has a tombstone to come.
* `catalogue_matches_table`: in runs in order, with no request in progress, the
  retained messages are the rows.
-/
namespace FaceGate.L5.EnrollDelete

open Core Core.Keyed FaceGate.L1 FaceGate.L1.Domain FaceGate.L4

variable {K : Type}

/-- What `create` publishes for a row it has inserted.
mirrors backend/src/routes/embeddings.rs:151-159 -/
def syncMsg (r : EmbeddingRow K) : EmbeddingSyncMsg K :=
  ⟨r.id, r.employeeId, r.vector, r.createdAt⟩

/-! ## Requests -/

/-- A request between two of its steps. -/
inductive Request (K : Type) where
  /-- `create`: the row is in. mirrors backend/src/routes/embeddings.rs:151 -/
  | publishing (msg : EmbeddingSyncMsg K)
  /-- `delete`: after the SELECT. mirrors backend/src/routes/employees.rs:268 -/
  | selected (employee : ℤ) (ids : List ℤ)
  /-- `delete`: in the loop. mirrors backend/src/routes/employees.rs:281 -/
  | tombstoning (ids : List ℤ)

/-- The id an upsert is about to be published for. -/
def Request.upserting : Request K → Option ℤ
  | publishing m => some m.embeddingId
  | _ => none

/-- The loop over the ids that are left: over when there are none. -/
def tombstones (ids : List ℤ) : Option (Request K) :=
  if ids = [] then none else some (.tombstoning ids)

structure State (K : Type) where
  db : Database K
  retained : List (EmbeddingSyncMsg K)
  requests : List (Request K)

/-- `i` is the request that takes the step; `dbOk` is false when the statement
fails for a reason of the server's own. -/
inductive Label (K : Type) where
  | createEmployee (r : EmployeeRow)
  | insertEmbedding (r : EmbeddingRow K)
  | publishUpsert (i : ℕ)
  | selectIds (employee : ℤ)
  | deleteEmployee (i : ℕ) (dbOk : Bool)
  | publishTombstone (i : ℕ)

def step (s : State K) : Label K → Option (State K)
  | .createEmployee r =>
    if h : s.db.employees.last < r.id then some { s with db := s.db.insertEmployee r h } else none
  | .insertEmbedding r =>
    if h : s.db.embeddings.last < r.id then
      match s.db.insertEmbedding r h with
      | .ok db => some { s with db := db, requests := s.requests ++ [.publishing (syncMsg r)] }
      | .error _ => some s  -- 404 or 500
    else none
  | .publishUpsert i =>
    match s.requests[i]? with
    | some (.publishing m) => some { s with
        retained := replaceOrPush EmbeddingSyncMsg.embeddingId m s.retained
        requests := Pool.advance s.requests i none }
    | _ => none
  | .selectIds e => some { s with
      requests := s.requests ++
        [.selected e
          ((s.db.embeddings.rows.filter fun r => r.employeeId = e).map EmbeddingRow.id)] }
  | .deleteEmployee i dbOk =>
    match s.requests[i]? with
    | some (.selected e ids) =>
      if dbOk = true ∧ (s.db.employees.find e).isSome then some { s with
          db := s.db.deleteEmployee e
          requests := Pool.advance s.requests i (tombstones ids) }
      else some { s with requests := Pool.advance s.requests i none }  -- 500 or 404
    | _ => none
  | .publishTombstone i =>
    match s.requests[i]? with
    | some (.tombstoning (id :: rest)) => some { s with
        retained := eraseKey EmbeddingSyncMsg.embeddingId id s.retained
        requests := Pool.advance s.requests i (tombstones rest) }
    | _ => none

/-- The retained message of an id. -/
def State.retainedAt (s : State K) (id : ℤ) : Option (EmbeddingSyncMsg K) :=
  lookup EmbeddingSyncMsg.embeddingId id s.retained

/-- The retained messages are the rows, with their employee and vector. -/
def Matches (s : State K) : Prop :=
  ∀ id, s.retainedAt id = (s.db.embeddings.find id).map syncMsg

/-- No request yet, and the broker in step with the table. -/
structure Initial (s : State K) : Prop where
  requests : s.requests = []
  distinct : DistinctKeys EmbeddingSyncMsg.embeddingId s.retained
  matches' : Matches s

def system (K : Type) : LTS (State K) (Label K) := .ofStep Initial step

/-- The condition on a step: a DELETE that takes effect takes only rows whose id
was selected, and a tombstone is published after the upsert of its id. -/
def InOrder (s : State K) : Label K → Prop
  | .deleteEmployee i dbOk =>
    match s.requests[i]? with
    | some (.selected e ids) =>
      dbOk = true → ∀ r ∈ s.db.embeddings.rows, r.employeeId = e → r.id ∈ ids
    | _ => True
  | .publishTombstone i =>
    match s.requests[i]? with
    | some (.tombstoning (id :: _)) => ∀ q ∈ s.requests, q.upserting ≠ some id
    | _ => True
  | _ => True

instance (s : State K) (l : Label K) : Decidable (InOrder s l) := by
  unfold InOrder
  split
  · split <;> infer_instance
  · split <;> infer_instance
  · infer_instance

/-! ## The invariant -/

/-- An upsert of `m` has been or will be published. -/
def State.Upserts (s : State K) (m : EmbeddingSyncMsg K) : Prop :=
  s.retainedAt m.embeddingId = some m ∨ .publishing m ∈ s.requests

/-- A tombstone of `id` will be published. -/
def State.Tombstones (s : State K) (id : ℤ) : Prop :=
  ∃ ids, .tombstoning ids ∈ s.requests ∧ id ∈ ids

structure Inv (s : State K) : Prop where
  distinct : DistinctKeys EmbeddingSyncMsg.embeddingId s.retained
  row : ∀ r ∈ s.db.embeddings.rows, s.Upserts (syncMsg r)
  upsert : ∀ m, s.Upserts m → (∃ r ∈ s.db.embeddings.rows, syncMsg r = m) ∨
    s.Tombstones m.embeddingId
  tombstone : ∀ id, s.Tombstones id → id ≤ s.db.embeddings.last ∧ s.db.embeddings.find id = none
  selected : ∀ e ids, .selected e ids ∈ s.requests → ∀ id ∈ ids, id ≤ s.db.embeddings.last ∧
    ∀ r ∈ s.db.embeddings.rows, r.id = id → r.employeeId = e

theorem inv_initial {s : State K} (h : Initial s) : Inv s where
  distinct := h.distinct
  row r hr := by
    left
    show s.retainedAt r.id = _
    rw [h.matches', Table.mem_rows_iff.mp hr]
    rfl
  upsert m hm := by
    left
    rcases hm with hm | hm
    · rw [h.matches'] at hm
      obtain ⟨r, hr, he⟩ := Option.map_eq_some_iff.mp hm
      exact ⟨r, mem_of_lookup hr, he⟩
    · rw [h.requests] at hm
      cases hm
  tombstone id ht := by
    obtain ⟨ids, hi, -⟩ := ht
    rw [h.requests] at hi
    cases hi
  selected e ids hi := by
    rw [h.requests] at hi
    cases hi

theorem mem_tombstones {ids : List ℤ} {q : Request K} (h : tombstones ids = some q) :
    q = .tombstoning ids := by
  unfold tombstones at h
  split at h
  · cases h
  · cases h
    rfl

theorem tombstones_of_mem {ids : List ℤ} {id : ℤ} (h : id ∈ ids) :
    (tombstones ids : Option (Request K)) = some (.tombstoning ids) :=
  if_neg (List.ne_nil_of_mem h)

/-- Rows and retained messages are compared by id. -/
theorem Inv.row_unique {s : State K} (h : Inv s) {m : EmbeddingSyncMsg K} (hm : s.Upserts m)
    {r : EmbeddingRow K} (hr : r ∈ s.db.embeddings.rows) (hid : r.id = m.embeddingId) :
    syncMsg r = m := by
  have hf : s.db.embeddings.find m.embeddingId = some r := hid ▸ Table.mem_rows_iff.mp hr
  rcases h.upsert m hm with ⟨r', hr', rfl⟩ | ht
  · have hf' : s.db.embeddings.find r'.id = some r' := Table.mem_rows_iff.mp hr'
    have he : some r' = some r := hf'.symm.trans hf
    cases he
    rfl
  · rw [(h.tombstone _ ht).2] at hf
    cases hf

theorem inv_insert {s : State K} {r : EmbeddingRow K} {db : Database K} (h : Inv s)
    (hlast : s.db.embeddings.last < r.id) (hdb : s.db.insertEmbedding r hlast = .ok db) :
    Inv { s with db := db, requests := s.requests ++ [.publishing (syncMsg r)] } := by
  have he : db.embeddings = s.db.embeddings.insert r hlast :=
    Database.embeddings_of_insertEmbedding hdb
  have hrows : ∀ a, a ∈ db.embeddings.rows ↔ a ∈ s.db.embeddings.rows ∨ a = r := by
    intro a
    rw [he]
    exact Serial.mem_insert
  have hle : ∀ id, id ≤ s.db.embeddings.last → id ≤ db.embeddings.last := by
    intro id hid
    rw [he]
    exact hid.trans hlast.le
  refine ⟨h.distinct, fun a ha => ?_, fun m hm => ?_, fun id ht => ?_, fun e ids hi id hid => ?_⟩
  · rcases (hrows a).mp ha with ha | rfl
    · exact (h.row a ha).imp_right (List.mem_append_left _)
    · exact Or.inr (List.mem_append_right _ (List.mem_singleton.mpr rfl))
  · have hold : s.Upserts m ∨ m = syncMsg r := by
      rcases hm with hm | hm
      · exact Or.inl (Or.inl hm)
      · rcases List.mem_append.mp hm with hm | hm
        · exact Or.inl (Or.inr hm)
        · cases List.mem_singleton.mp hm
          exact Or.inr rfl
    rcases hold with hm | rfl
    · rcases h.upsert m hm with ⟨a, ha, hae⟩ | ⟨ids, hi, hid⟩
      · exact Or.inl ⟨a, (hrows a).mpr (Or.inl ha), hae⟩
      · exact Or.inr ⟨ids, List.mem_append_left _ hi, hid⟩
    · exact Or.inl ⟨r, (hrows r).mpr (Or.inr rfl), rfl⟩
  · obtain ⟨ids, hi, hid⟩ := ht
    rcases List.mem_append.mp hi with hi | hi
    · obtain ⟨hl, hf⟩ := h.tombstone id ⟨ids, hi, hid⟩
      have hne : r.id ≠ id := by omega
      refine ⟨hle id hl, ?_⟩
      show db.embeddings.find id = none
      rw [he, Serial.find_insert, if_neg hne, hf]
    · cases List.mem_singleton.mp hi
  · rcases List.mem_append.mp hi with hi | hi
    · obtain ⟨hl, ha⟩ := h.selected e ids hi id hid
      refine ⟨hle id hl, fun a har hai => ?_⟩
      rcases (hrows a).mp har with har | rfl
      · exact ha a har hai
      · omega
    · cases List.mem_singleton.mp hi

/-- The upsert is published: it was to come, now it is retained. -/
theorem inv_publishUpsert {s : State K} {i : ℕ} {m : EmbeddingSyncMsg K} (h : Inv s)
    (hi : s.requests[i]? = some (.publishing m)) :
    Inv { s with
      retained := replaceOrPush EmbeddingSyncMsg.embeddingId m s.retained
      requests := Pool.advance s.requests i none } := by
  have hm : s.Upserts m := Or.inr (List.mem_of_getElem? hi)
  have hT : ∀ id, s.Tombstones id → ∃ ids, .tombstoning ids ∈ Pool.advance s.requests i none ∧
      id ∈ ids :=
    fun id ⟨ids, hq, hid⟩ => ⟨ids, Pool.mem_advance_of_ne hi none hq nofun, hid⟩
  refine ⟨distinctKeys_replaceOrPush m h.distinct, fun a ha => ?_, fun m' hm' => ?_,
    fun id ht => ?_, fun e ids hq => h.selected e ids (Pool.mem_of_mem_finish hq)⟩
  · by_cases hk : m.embeddingId = a.id
    · left
      have hu : syncMsg a = m := h.row_unique hm ha hk.symm
      show lookup _ a.id _ = _
      rw [lookup_replaceOrPush, if_pos hk, hu]
    · rcases h.row a ha with hr | hr
      · left
        show lookup _ a.id _ = _
        rw [lookup_replaceOrPush, if_neg hk]
        exact hr
      · refine Or.inr (Pool.mem_advance_of_ne hi none hr fun he => ?_)
        cases he
        exact hk rfl
  · have hold : s.Upserts m' := by
      rcases hm' with hm' | hm'
      · change lookup _ _ _ = _ at hm'
        rw [lookup_replaceOrPush] at hm'
        split at hm'
        · cases hm'
          exact hm
        · exact Or.inl hm'
      · exact Or.inr (Pool.mem_of_mem_finish hm')
    exact (h.upsert m' hold).imp_right (hT _)
  · obtain ⟨ids, hq, hid⟩ := ht
    exact h.tombstone id ⟨ids, Pool.mem_of_mem_finish hq, hid⟩

theorem inv_selectIds {s : State K} (e : ℤ) (h : Inv s) :
    Inv { s with requests := s.requests ++ [.selected e
      ((s.db.embeddings.rows.filter fun r => r.employeeId = e).map EmbeddingRow.id)] } := by
  have hT : ∀ id, (∃ ids, .tombstoning ids ∈ s.requests ++ [Request.selected (K := K) e
      ((s.db.embeddings.rows.filter fun r => r.employeeId = e).map EmbeddingRow.id)] ∧
        id ∈ ids) → s.Tombstones id := by
    rintro id ⟨ids, hq, hid⟩
    rcases List.mem_append.mp hq with hq | hq
    · exact ⟨ids, hq, hid⟩
    · cases List.mem_singleton.mp hq
  refine ⟨h.distinct, fun a ha => (h.row a ha).imp_right (List.mem_append_left _), fun m hm => ?_,
    fun id ht => h.tombstone id (hT id ht), fun e' ids hq => ?_⟩
  · have hold : s.Upserts m := hm.imp_right fun hq => by
      rcases List.mem_append.mp hq with hq | hq
      · exact hq
      · cases List.mem_singleton.mp hq
    exact (h.upsert m hold).imp_right fun ⟨ids, hq, hid⟩ => ⟨ids, List.mem_append_left _ hq, hid⟩
  · rcases List.mem_append.mp hq with hq | hq
    · exact h.selected e' ids hq
    · cases List.mem_singleton.mp hq
      intro id hid
      obtain ⟨r, hr, rfl⟩ := List.mem_map.mp hid
      obtain ⟨hr, hre⟩ := List.mem_filter.mp hr
      refine ⟨s.db.embeddings.le_last r hr, fun a ha hai => ?_⟩
      have hf : s.db.embeddings.find r.id = some r := Table.mem_rows_iff.mp hr
      have hfa : s.db.embeddings.find a.id = some a := Table.mem_rows_iff.mp ha
      rw [hai, hf] at hfa
      cases hfa
      exact of_decide_eq_true hre

/-- A DELETE that fails, or finds no employee. -/
theorem inv_drop {s : State K} {i : ℕ} {e : ℤ} {ids : List ℤ} (h : Inv s)
    (hi : s.requests[i]? = some (.selected e ids)) :
    Inv { s with requests := Pool.advance s.requests i none } := by
  refine ⟨h.distinct, fun a ha => ?_, fun m hm => ?_, fun id ht => ?_,
    fun e ids hq => h.selected e ids (Pool.mem_of_mem_finish hq)⟩
  · exact (h.row a ha).imp_right fun hq => Pool.mem_advance_of_ne hi none hq nofun
  · have hold : s.Upserts m := hm.imp_right Pool.mem_of_mem_finish
    exact (h.upsert m hold).imp_right fun ⟨ids, hq, hid⟩ =>
      ⟨ids, Pool.mem_advance_of_ne hi none hq nofun, hid⟩
  · obtain ⟨ids, hq, hid⟩ := ht
    exact h.tombstone id ⟨ids, Pool.mem_of_mem_finish hq, hid⟩

/-- The cascade takes rows whose ids were all selected: each has a tombstone to come. -/
theorem inv_delete {s : State K} {i : ℕ} {e : ℤ} {ids : List ℤ} (h : Inv s)
    (hi : s.requests[i]? = some (.selected e ids))
    (hall : ∀ r ∈ s.db.embeddings.rows, r.employeeId = e → r.id ∈ ids) :
    Inv { s with
      db := s.db.deleteEmployee e
      requests := Pool.advance s.requests i (tombstones ids) } := by
  have hsel := h.selected e ids (List.mem_of_getElem? hi)
  have hrows : ∀ a, a ∈ (s.db.deleteEmployee e).embeddings.rows ↔
      a ∈ s.db.embeddings.rows ∧ a.employeeId ≠ e := fun a =>
    Serial.mem_deleteWhere.trans (and_congr_right fun _ => decide_eq_true_iff)
  have hfind : ∀ id, s.db.embeddings.find id = none →
      (s.db.deleteEmployee e).embeddings.find id = none := by
    intro id hf
    exact (Table.find_deleteWhere _ _ id).trans (by rw [hf]; rfl)
  have hback : ∀ q, q ∈ Pool.advance s.requests i (tombstones ids) →
      q ∈ s.requests ∨ q = .tombstoning ids := fun q hq =>
    (Pool.mem_advance hq).imp_right mem_tombstones
  have hnew : ∀ id ∈ ids, .tombstoning ids ∈ Pool.advance s.requests i (tombstones ids) := by
    intro id hid
    rw [tombstones_of_mem hid]
    exact Pool.mem_advance_self hi
  refine ⟨h.distinct, fun a ha => ?_, fun m hm => ?_, fun id ht => ?_, fun e' ids' hq => ?_⟩
  · exact (h.row a ((hrows a).mp ha).1).imp_right fun hq => Pool.mem_advance_of_ne hi _ hq nofun
  · have hold : s.Upserts m := hm.imp_right fun hq => by
      rcases hback _ hq with hq | he
      · exact hq
      · cases he
    rcases h.upsert m hold with ⟨a, ha, rfl⟩ | ⟨ids', hq, hid⟩
    · by_cases hae : a.employeeId = e
      · exact Or.inr ⟨ids, hnew a.id (hall a ha hae), hall a ha hae⟩
      · exact Or.inl ⟨a, (hrows a).mpr ⟨ha, hae⟩, rfl⟩
    · exact Or.inr ⟨ids', Pool.mem_advance_of_ne hi _ hq nofun, hid⟩
  · obtain ⟨ids', hq, hid⟩ := ht
    rcases hback _ hq with hq | he
    · obtain ⟨hl, hf⟩ := h.tombstone id ⟨ids', hq, hid⟩
      exact ⟨hl, hfind id hf⟩
    · cases he
      refine ⟨(hsel id hid).1, lookup_eq_none.mpr fun a ha hai => ?_⟩
      obtain ⟨ha, hne⟩ := (hrows a).mp ha
      exact hne ((hsel id hid).2 a ha hai)
  · rcases hback _ hq with hq | he
    · intro id hid
      obtain ⟨hl, ha⟩ := h.selected e' ids' hq id hid
      exact ⟨hl, fun a har => ha a ((hrows a).mp har).1⟩
    · cases he

/-- The tombstone of `id` is published: no row has the id, and no upsert of it is to come. -/
theorem inv_publishTombstone {s : State K} {i : ℕ} {id : ℤ} {rest : List ℤ} (h : Inv s)
    (hi : s.requests[i]? = some (.tombstoning (id :: rest)))
    (hno : ∀ q ∈ s.requests, q.upserting ≠ some id) :
    Inv { s with
      retained := eraseKey EmbeddingSyncMsg.embeddingId id s.retained
      requests := Pool.advance s.requests i (tombstones rest) } := by
  have hnone : s.db.embeddings.find id = none :=
    (h.tombstone id ⟨_, List.mem_of_getElem? hi, List.mem_cons_self⟩).2
  have hback : ∀ q, q ∈ Pool.advance s.requests i (tombstones rest) →
      q ∈ s.requests ∨ q = .tombstoning rest := fun q hq =>
    (Pool.mem_advance hq).imp_right mem_tombstones
  have hold : ∀ k, (∃ ids, .tombstoning ids ∈ Pool.advance s.requests i (tombstones rest) ∧
      k ∈ ids) → s.Tombstones k := by
    rintro k ⟨ids, hq, hk⟩
    rcases hback _ hq with hq | he
    · exact ⟨ids, hq, hk⟩
    · cases he
      exact ⟨_, List.mem_of_getElem? hi, List.mem_cons_of_mem _ hk⟩
  have hkeep : ∀ k, k ≠ id → s.Tombstones k →
      ∃ ids, .tombstoning ids ∈ Pool.advance s.requests i (tombstones rest) ∧ k ∈ ids := by
    rintro k hk ⟨ids, hq, hkm⟩
    rcases Pool.mem_advance_of_mem hi (tombstones rest) hq with he | hq
    · cases he
      rcases List.mem_cons.mp hkm with he | hkm
      · exact absurd he hk
      · refine ⟨rest, ?_, hkm⟩
        rw [tombstones_of_mem hkm]
        exact Pool.mem_advance_self hi
    · exact ⟨ids, hq, hkm⟩
  refine ⟨distinctKeys_eraseKey id h.distinct, fun a ha => ?_, fun m hm => ?_,
    fun k ht => h.tombstone k (hold k ht), fun e ids hq => ?_⟩
  · have hne : a.id ≠ id := lookup_eq_none.mp hnone a ha
    rcases h.row a ha with hr | hq
    · left
      show lookup _ a.id _ = _
      rw [lookup_eraseKey, if_neg hne]
      exact hr
    · exact Or.inr (Pool.mem_advance_of_ne hi _ hq nofun)
  · have hm' : m.embeddingId ≠ id ∧ s.Upserts m := by
      rcases hm with hm | hq
      · change lookup _ _ _ = _ at hm
        rw [lookup_eraseKey] at hm
        split at hm
        · cases hm
        · rename_i hne
          exact ⟨hne, Or.inl hm⟩
      · rcases hback _ hq with hq | he
        · exact ⟨fun he => hno _ hq (congrArg some he), Or.inr hq⟩
        · cases he
    exact (h.upsert m hm'.2).imp_right (hkeep _ hm'.1)
  · rcases hback _ hq with hq | he
    · exact h.selected e ids hq
    · cases he

theorem inv_step {s s' : State K} {l : Label K} (h : Inv s) (hs : step s l = some s')
    (hc : InOrder s l) : Inv s' := by
  cases l with
  | createEmployee r =>
    simp only [step] at hs
    split at hs
    · cases hs
      exact ⟨h.distinct, h.row, h.upsert, h.tombstone, h.selected⟩
    · cases hs
  | insertEmbedding r =>
    simp only [step] at hs
    split at hs
    · rename_i hlast
      cases hdb : s.db.insertEmbedding r hlast with
      | ok db =>
        rw [hdb] at hs
        cases hs
        exact inv_insert h hlast hdb
      | error e =>
        rw [hdb] at hs
        cases hs
        exact h
    · cases hs
  | publishUpsert i =>
    simp only [step] at hs
    split at hs
    · rename_i m hi
      cases hs
      exact inv_publishUpsert h hi
    · cases hs
  | selectIds e =>
    cases hs
    exact inv_selectIds e h
  | deleteEmployee i dbOk =>
    simp only [step] at hs
    split at hs
    · rename_i e ids hi
      simp only [InOrder, hi] at hc
      split at hs
      · rename_i hok
        cases hs
        exact inv_delete h hi (hc hok.1)
      · cases hs
        exact inv_drop h hi
    · cases hs
  | publishTombstone i =>
    simp only [step] at hs
    split at hs
    · rename_i id rest hi
      simp only [InOrder, hi] at hc
      cases hs
      exact inv_publishTombstone h hi hc
    · cases hs

/-! ## Agreement -/

theorem Inv.agree {s : State K} (h : Inv s) (hq : s.requests = []) : Matches s := by
  have hnoT : ∀ id, ¬ s.Tombstones id := by
    rintro id ⟨ids, hi, -⟩
    rw [hq] at hi
    cases hi
  intro id
  cases hf : s.db.embeddings.find id with
  | some r =>
    obtain rfl := Table.key_of_find hf
    rcases h.row r (mem_of_lookup hf) with hr | hr
    · exact hr
    · rw [hq] at hr
      cases hr
  | none =>
    cases hm : s.retainedAt id with
    | none => rfl
    | some m =>
      obtain rfl : m.embeddingId = id := key_of_lookup hm
      rcases h.upsert m (Or.inl hm) with ⟨r, hr, rfl⟩ | ht
      · exact absurd rfl (lookup_eq_none.mp hf r hr)
      · exact absurd ht (hnoT _)

/-- **Table and broker agree when the requests keep order.** -/
theorem catalogue_matches_table {s : State K} (hr : ((system K).guard InOrder).Reachable s)
    (hq : s.requests = []) : Matches s := by
  have hinv : ((system K).guard InOrder).Inductive Inv :=
    ⟨fun s hs => inv_initial hs, fun s l s' hi hs => inv_step hi hs.1 hs.2⟩
  exact (hinv.reachable s hr).agree hq

/-! ## Runs -/

def fresh : State ExtRat := ⟨.empty, [], []⟩

theorem initial_fresh : Initial fresh := ⟨rfl, List.nodup_nil, fun _ => rfl⟩

def ana : EmployeeRow := ⟨1, "Ana", none⟩

def anaFace : EmbeddingRow ExtRat := ⟨1, 1, axis, 0⟩

/-- Enrolled, then deleted. -/
theorem catalogue_matches_table_example :
    ∃ s : State ExtRat, Matches s ∧ s.db.embeddings.last = 1 := by
  obtain ⟨s, hr, hq, hl⟩ := LTS.exists_reachable_where Initial step InOrder
    [.createEmployee ana, .insertEmbedding anaFace, .publishUpsert 0, .selectIds 1,
      .deleteEmployee 0 true, .publishTombstone 0]
    initial_fresh (fun s => s.requests.isEmpty = true ∧ s.db.embeddings.last = 1)
    (by decide +kernel)
  exact ⟨s, catalogue_matches_table hr (List.isEmpty_iff.mp hq), hl⟩

theorem not_matches {s : State K} (hr : (s.retainedAt 1).isSome = true)
    (hf : (s.db.embeddings.find 1).isSome = false) : ¬ Matches s := by
  intro hm
  rw [hm 1, Option.isSome_map, hf] at hr
  cases hr

/-- A row inserted between SELECT and DELETE has no tombstone: the face of the
deleted employee stays at the broker. -/
theorem deleted_face_retained :
    ∃ s : State ExtRat, (system ExtRat).Reachable s ∧ s.requests = [] ∧ ¬ Matches s := by
  obtain ⟨s, hr, hq, hm, hf⟩ := LTS.exists_reachable Initial step
    [.createEmployee ana, .selectIds 1, .insertEmbedding anaFace, .deleteEmployee 0 true,
      .publishUpsert 0]
    initial_fresh (fun s => s.requests.isEmpty = true ∧ (s.retainedAt 1).isSome = true ∧
      (s.db.embeddings.find 1).isSome = false) (by decide +kernel)
  exact ⟨s, hr, List.isEmpty_iff.mp hq, not_matches hm hf⟩

/-- So does one whose upsert is published after its tombstone. -/
theorem late_upsert_retained :
    ∃ s : State ExtRat, (system ExtRat).Reachable s ∧ s.requests = [] ∧ ¬ Matches s := by
  obtain ⟨s, hr, hq, hm, hf⟩ := LTS.exists_reachable Initial step
    [.createEmployee ana, .insertEmbedding anaFace, .selectIds 1, .deleteEmployee 1 true,
      .publishTombstone 1, .publishUpsert 0]
    initial_fresh (fun s => s.requests.isEmpty = true ∧ (s.retainedAt 1).isSome = true ∧
      (s.db.embeddings.find 1).isSome = false) (by decide +kernel)
  exact ⟨s, hr, List.isEmpty_iff.mp hq, not_matches hm hf⟩

end FaceGate.L5.EnrollDelete
