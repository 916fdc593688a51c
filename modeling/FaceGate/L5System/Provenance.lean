import FaceGate.L3Edge.Subscriber
import FaceGate.L5System.EnrollDelete

/-!
# Where an edge's faces come from

The backend's requests (`EnrollDelete`), the broker and any number of edges, with their restarts
and the faces enrolled at a device itself. Nothing is assumed of the network: an edge may be
delivered anything that was ever published, in any order, again, late, or not at all; a snapshot of
the retained messages and a redelivery of QoS 1 are cases of it.

Edges can be behind (`Catalogue.stale_after_reconnect`), but not wrong about who somebody is:

* `inv_step`: what an edge holds, in its table or its matcher, was enrolled: it is a row
  that was inserted, with its id, its employee and its vector, or it was enrolled on that edge.
* `match_enrolled`: a match names an employee who was hired, and who alone has had the id, for a
  face that was inserted as theirs at the distance reported.
-/
namespace FaceGate.L5.Provenance

open Core Core.Keyed FaceGate.L1 FaceGate.L1.Domain FaceGate.L1.SyncTopic FaceGate.L2
open FaceGate.L2.Storage FaceGate.L3.Subscriber FaceGate.L4

variable {K : Type}

/-! ## The system -/

/-- `enrolled`: what was stored on the edge other than by sync. -/
structure Edge (K : Type) where
  sync : SyncState K
  enrolled : List (Embedding K)

/-- Ghosts: `hired` and `inserted` have every row there ever was, `sent` every
message published. -/
structure State (K : Type) where
  backend : EnrollDelete.State K
  hired : List EmployeeRow
  inserted : List (L4.EmbeddingRow K)
  sent : List (String × Bytes)
  edges : List (Edge K)

inductive Label (K : Type) where
  | backend (l : EnrollDelete.Label K)
  | deliver (e m : ℕ) (sqliteOk : Bool) (nowMs : Timestamp)
  | deleteEmployee (e : ℕ) (sqliteOk : Bool) (employeeId : ℤ)
  | enroll (e : ℕ) (face : Embedding K) (random : Option ℤ) (nowMs : Timestamp)
  | restart (e : ℕ)

/-- The retained message of a row. -/
def upsertMessage (text : JsonText K) (m : EmbeddingSyncMsg K) : String × Bytes :=
  (syncTopic m.embeddingId, text.toVec m.toJson)

def tombstoneMessage (id : ℤ) : String × Bytes := (syncTopic id, [])

/-- What a step of the backend publishes. -/
def published (text : JsonText K) (s : EnrollDelete.State K) :
    EnrollDelete.Label K → List (String × Bytes)
  | .publishUpsert i =>
    match s.requests[i]? with
    | some (.publishing m) => [upsertMessage text m]
    | _ => []
  | .publishTombstone i =>
    match s.requests[i]? with
    | some (.tombstoning (id :: _)) => [tombstoneMessage id]
    | _ => []
  | _ => []

def hires : EnrollDelete.Label K → List EmployeeRow
  | .createEmployee r => [r]
  | _ => []

/-- The row that a step has inserted, if the statement took effect. -/
def inserts (after : EnrollDelete.State K) : EnrollDelete.Label K → List (L4.EmbeddingRow K)
  | .insertEmbedding r => if (after.db.embeddings.find r.id).isSome then [r] else []
  | _ => []

/-- The row as the edge knows it. -/
def faceOf (r : L4.EmbeddingRow K) : Embedding K := ⟨r.id, r.employeeId, r.vector⟩

variable [FloatArith K]

def step (text : JsonText K) (s : State K) : Label K → Option (State K)
  | .backend l =>
    (EnrollDelete.step s.backend l).map fun after => { s with
      backend := after
      hired := s.hired ++ hires l
      inserted := s.inserted ++ inserts after l
      sent := s.sent ++ published text s.backend l }
  | .deliver e m sqliteOk nowMs =>
    match s.edges[e]?, s.sent[m]? with
    | some edge, some (topic, payload) => some { s with
        edges := s.edges.set e { edge with
          sync := (onMessage text.parse ⟨some topic, payload, sqliteOk, nowMs⟩ edge.sync).2 } }
    | _, _ => none
  | .deleteEmployee e sqliteOk employeeId =>
    -- `facegate_enroll` opens the edge's database; the running matcher is left alone.
    match s.edges[e]? with
    | some edge =>
      match deleteEmployeeEmbeddings sqliteOk employeeId edge.sync.storage with
      | .ok t => some { s with
          edges := s.edges.set e { edge with sync := { edge.sync with storage := t } } }
      | .error _ => some s
    | none => none
  | .enroll e face random nowMs =>
    match s.edges[e]? with
    | some edge =>
      match insertEmbedding true random nowMs face edge.sync.storage,
          newRowid random edge.sync.storage with
      | .ok t, some id => some { s with
          edges := s.edges.set e ⟨{ edge.sync with storage := t },
            edge.enrolled ++ [⟨id, face.owner, face.vector⟩]⟩ }
      | _, _ => none
    | none => none
  | .restart e =>
    match s.edges[e]? with
    | some edge => some { s with edges := s.edges.set e { edge with sync := restart edge.sync } }
    | none => none

/-- What the backend guarantees of a row: ids of `SERIAL` columns, and a vector whose text is read
back (`vector` columns hold finite floats). -/
def Sendable (text : JsonText K) (r : L4.EmbeddingRow K) : Prop :=
  (EnrollDelete.syncMsg r).Serial ∧ text.Carries (EnrollDelete.syncMsg r)

/-- A backend in step with its broker, and edges with what was enrolled on them. -/
structure Initial (text : JsonText K) (s : State K) : Prop where
  backend : EnrollDelete.Initial s.backend
  hired : s.hired = s.backend.db.employees.rows
  inserted : s.inserted = s.backend.db.embeddings.rows
  sendable : ∀ r ∈ s.inserted, Sendable text r
  sent : s.sent = s.backend.retained.map (upsertMessage text)
  edges : ∀ edge ∈ s.edges, ∃ t, edge = ⟨boot t, loadAllEmbeddings t⟩

def system (text : JsonText K) : LTS (State K) (Label K) := .ofStep (Initial text) (step text)

/-- The row of an INSERT. -/
def Label.row : Label K → Option (L4.EmbeddingRow K)
  | .backend (.insertEmbedding r) => some r
  | _ => none

/-- The condition on a step: a row to be inserted is one the backend can send. -/
def Sends (text : JsonText K) (_ : State K) (l : Label K) : Prop := ∀ r ∈ l.row, Sendable text r

/-! ## The backend and what it has published -/

/-- The ids a request has selected. -/
def selectedIds : EnrollDelete.Request K → List ℤ
  | .publishing _ => []
  | .selected _ ids => ids
  | .tombstoning ids => ids

/-- An id that was given to a row. -/
def State.Given (s : State K) (id : ℤ) : Prop := ∃ r ∈ s.inserted, r.id = id

structure Records (text : JsonText K) (s : State K) : Prop where
  hired_le : ∀ a ∈ s.hired, a.id ≤ s.backend.db.employees.last
  hired_distinct : DistinctKeys EmployeeRow.id s.hired
  employees : ∀ a ∈ s.backend.db.employees.rows, a ∈ s.hired
  inserted_le : ∀ r ∈ s.inserted, r.id ≤ s.backend.db.embeddings.last
  inserted_distinct : DistinctKeys L4.EmbeddingRow.id s.inserted
  sendable : ∀ r ∈ s.inserted, Sendable text r
  owner : ∀ r ∈ s.inserted, ∃ a ∈ s.hired, a.id = r.employeeId
  rows : ∀ r ∈ s.backend.db.embeddings.rows, r ∈ s.inserted
  publishing : ∀ m, .publishing m ∈ s.backend.requests →
    ∃ r ∈ s.inserted, m = EnrollDelete.syncMsg r
  selected : ∀ q ∈ s.backend.requests, ∀ id ∈ selectedIds q, s.Given id
  sent : ∀ p ∈ s.sent, ∃ r ∈ s.inserted,
    p = upsertMessage text (EnrollDelete.syncMsg r) ∨ p = tombstoneMessage r.id

variable {text : JsonText K} {s s' : State K}

theorem Initial.records (h : Initial text s) : Records text s where
  hired_le a ha := s.backend.db.employees.le_last a (h.hired ▸ ha)
  hired_distinct := h.hired ▸ s.backend.db.employees.distinctKeys
  employees a ha := h.hired ▸ ha
  inserted_le r hr := s.backend.db.embeddings.le_last r (h.inserted ▸ hr)
  inserted_distinct := h.inserted ▸ s.backend.db.embeddings.distinctKeys
  sendable := h.sendable
  owner r hr := by
    rw [h.inserted] at hr
    obtain ⟨a, ha⟩ := Option.isSome_iff_exists.mp (s.backend.db.embedding_fk r hr)
    exact ⟨a, h.hired ▸ mem_of_lookup ha, Table.key_of_find ha⟩
  rows r hr := h.inserted ▸ hr
  publishing m hm := by
    rw [h.backend.requests] at hm
    cases hm
  selected q hq := by
    rw [h.backend.requests] at hq
    cases hq
  sent p hp := by
    rw [h.sent] at hp
    obtain ⟨m, hm, rfl⟩ := List.mem_map.mp hp
    have hlook : s.backend.retainedAt m.embeddingId = some m :=
      lookup_of_mem h.backend.distinct hm
    rw [h.backend.matches'] at hlook
    obtain ⟨r, hr, rfl⟩ := Option.map_eq_some_iff.mp hlook
    exact ⟨r, h.inserted ▸ mem_of_lookup hr, Or.inl rfl⟩

omit [FloatArith K] in
/-- A loop over ids of rows. -/
theorem given_tombstones {ids : List ℤ} (hids : ∀ id ∈ ids, s.Given id)
    {q : EnrollDelete.Request K} (hq : q ∈ EnrollDelete.tombstones ids) :
    (∀ m, q ≠ .publishing m) ∧ ∀ id ∈ selectedIds q, s.Given id := by
  rw [EnrollDelete.mem_tombstones hq]
  refine ⟨fun m he => ?_, hids⟩
  cases he

theorem records_createEmployee (hi : Records text s) {r : EmployeeRow}
    (h : s.backend.db.employees.last < r.id) : Records text { s with
      backend := { s.backend with db := s.backend.db.insertEmployee r h }
      hired := s.hired ++ [r] } :=
  { hi with
    hired_le := fun a ha => by
      rcases List.mem_append.mp ha with ha | ha
      · exact (hi.hired_le a ha).trans h.le
      · rw [List.mem_singleton.mp ha]
        exact le_refl r.id
    hired_distinct := distinctKeys_append hi.hired_distinct <| lookup_eq_none.mpr fun a ha he => by
      have := hi.hired_le a ha
      omega
    employees := fun a ha => by
      rcases (Serial.mem_insert (h := h)).mp ha with ha | rfl
      · exact List.mem_append_left _ (hi.employees a ha)
      · exact List.mem_append_right _ (List.mem_singleton_self _)
    owner := fun q hq => by
      obtain ⟨a, ha, he⟩ := hi.owner q hq
      exact ⟨a, List.mem_append_left _ ha, he⟩ }

theorem records_insertEmbedding (hi : Records text s) {r : L4.EmbeddingRow K} {db : Database K}
    (h : s.backend.db.embeddings.last < r.id) (hdb : s.backend.db.insertEmbedding r h = .ok db)
    (hr : Sendable text r) : Records text { s with
      backend := { s.backend with
        db := db
        requests := s.backend.requests ++ [.publishing (EnrollDelete.syncMsg r)] }
      inserted := s.inserted ++ [r] } := by
  have hemb : db.embeddings = s.backend.db.embeddings.insert r h :=
    Database.embeddings_of_insertEmbedding hdb
  obtain ⟨hemp, hfk⟩ : db.employees = s.backend.db.employees ∧
      (s.backend.db.employees.find r.employeeId).isSome := by
    unfold Database.insertEmbedding at hdb
    split at hdb
    · rename_i hfk
      cases hdb
      exact ⟨rfl, hfk⟩
    · cases hdb
  have hgiven : ∀ id, s.Given id → ∃ a ∈ s.inserted ++ [r], a.id = id := by
    rintro id ⟨a, ha, he⟩
    exact ⟨a, List.mem_append_left _ ha, he⟩
  exact {
    hired_le := fun a ha => hemp ▸ hi.hired_le a ha
    hired_distinct := hi.hired_distinct
    employees := fun a ha => hi.employees a (hemp ▸ ha)
    inserted_le := fun a ha => by
      rw [hemb]
      rcases List.mem_append.mp ha with ha | ha
      · exact (hi.inserted_le a ha).trans h.le
      · rw [List.mem_singleton.mp ha]
        exact le_refl r.id
    inserted_distinct := distinctKeys_append hi.inserted_distinct <|
      lookup_eq_none.mpr fun a ha he => by
        have := hi.inserted_le a ha
        omega
    sendable := fun a ha => by
      rcases List.mem_append.mp ha with ha | ha
      · exact hi.sendable a ha
      · rwa [List.mem_singleton.mp ha]
    owner := fun a ha => by
      rcases List.mem_append.mp ha with ha | ha
      · exact hi.owner a ha
      · rw [List.mem_singleton.mp ha]
        obtain ⟨e, he⟩ := Option.isSome_iff_exists.mp hfk
        exact ⟨e, hi.employees e (mem_of_lookup he), Table.key_of_find he⟩
    rows := fun a ha => by
      rw [hemb] at ha
      rcases Serial.mem_insert.mp ha with ha | rfl
      · exact List.mem_append_left _ (hi.rows a ha)
      · exact List.mem_append_right _ (List.mem_singleton_self _)
    publishing := fun m hm => by
      rcases List.mem_append.mp hm with hm | hm
      · obtain ⟨a, ha, he⟩ := hi.publishing m hm
        exact ⟨a, List.mem_append_left _ ha, he⟩
      · cases List.mem_singleton.mp hm
        exact ⟨r, List.mem_append_right _ (List.mem_singleton_self _), rfl⟩
    selected := fun q hq id hid => by
      rcases List.mem_append.mp hq with hq | hq
      · exact hgiven id (hi.selected q hq id hid)
      · rw [List.mem_singleton.mp hq] at hid
        cases hid
    sent := fun p hp => by
      obtain ⟨a, ha, he⟩ := hi.sent p hp
      exact ⟨a, List.mem_append_left _ ha, he⟩ }

/-- A step that leaves the requests it does not end alone, publishes what it may, and at most
takes rows away. -/
theorem records_step (hi : Records text s) (after : EnrollDelete.State K) (i : ℕ)
    (o : Option (EnrollDelete.Request K)) (sent : List (String × Bytes))
    (hlast : after.db.employees.last = s.backend.db.employees.last ∧
      after.db.embeddings.last = s.backend.db.embeddings.last)
    (hemp : ∀ a ∈ after.db.employees.rows, a ∈ s.backend.db.employees.rows)
    (hemb : ∀ r ∈ after.db.embeddings.rows, r ∈ s.backend.db.embeddings.rows)
    (hreq : after.requests = Pool.advance s.backend.requests i o)
    (ho : ∀ q ∈ o, (∀ m, q ≠ .publishing m) ∧ ∀ id ∈ selectedIds q, s.Given id)
    (hsent : ∀ p ∈ sent, ∃ r ∈ s.inserted,
      p = upsertMessage text (EnrollDelete.syncMsg r) ∨ p = tombstoneMessage r.id) :
    Records text { s with backend := after, sent := s.sent ++ sent } :=
  { hi with
    hired_le := fun a ha => hlast.1 ▸ hi.hired_le a ha
    employees := fun a ha => hi.employees a (hemp a ha)
    inserted_le := fun r hr => hlast.2 ▸ hi.inserted_le r hr
    rows := fun r hr => hi.rows r (hemb r hr)
    publishing := fun m hm => by
      dsimp only at hm
      rw [hreq] at hm
      rcases Pool.mem_advance hm with hm | hm
      · exact hi.publishing m hm
      · exact absurd rfl ((ho _ hm).1 m)
    selected := fun q hq => by
      dsimp only at hq
      rw [hreq] at hq
      rcases Pool.mem_advance hq with hq | hq
      · exact hi.selected q hq
      · exact (ho q hq).2
    sent := fun p hp => by
      rcases List.mem_append.mp hp with hp | hp
      · exact hi.sent p hp
      · exact hsent p hp }

theorem records_backend (hi : Records text s) {l : EnrollDelete.Label K}
    (h : step text s (.backend l) = some s') (hc : Sends text s (.backend l)) :
    Records text s' := by
  obtain ⟨after, hstep, rfl⟩ := Option.map_eq_some_iff.mp h
  cases l with
  | createEmployee r =>
    simp only [EnrollDelete.step] at hstep
    split at hstep
    · rename_i hlast
      cases hstep
      simpa only [inserts, published, hires, List.append_nil] using records_createEmployee hi hlast
    · cases hstep
  | insertEmbedding r =>
    simp only [EnrollDelete.step] at hstep
    split at hstep
    · rename_i hlast
      split at hstep
      · rename_i db hdb
        cases hstep
        have hfind : (db.embeddings.find r.id).isSome = true := by
          rw [Database.embeddings_of_insertEmbedding hdb, Serial.find_insert, if_pos rfl]
          rfl
        simpa only [inserts, published, hires, hfind, if_true, List.append_nil] using
          records_insertEmbedding hi hlast hdb (hc r rfl)
      · cases hstep
        have hfind : (s.backend.db.embeddings.find r.id).isSome = false := by
          rw [Option.isSome_eq_false_iff, Option.isNone_iff_eq_none]
          refine lookup_eq_none.mpr fun a ha he => ?_
          have := s.backend.db.embeddings.le_last a ha
          omega
        simpa only [inserts, published, hires, hfind, Bool.false_eq_true, if_false,
          List.append_nil] using hi
    · cases hstep
  | publishUpsert i =>
    simp only [EnrollDelete.step] at hstep
    split at hstep
    · rename_i m hreq
      cases hstep
      obtain ⟨r, hr, rfl⟩ := hi.publishing m (List.mem_of_getElem? hreq)
      simp only [inserts, published, hires, hreq, List.append_nil]
      exact records_step hi _ i none [upsertMessage text (EnrollDelete.syncMsg r)] ⟨rfl, rfl⟩
          (fun _ ha => ha) (fun _ ha => ha) rfl (fun _ hq => absurd hq (Option.not_mem_none _))
          fun p hp => ⟨r, hr, Or.inl (List.mem_singleton.mp hp)⟩
    · cases hstep
  | selectIds e =>
    cases hstep
    simp only [inserts, published, hires, List.append_nil]
    exact { hi with
      publishing := fun m hm => by
        rcases List.mem_append.mp hm with hm | hm
        · exact hi.publishing m hm
        · cases List.mem_singleton.mp hm
      selected := fun q hq id hid => by
        rcases List.mem_append.mp hq with hq | hq
        · exact hi.selected q hq id hid
        · rw [List.mem_singleton.mp hq] at hid
          obtain ⟨r, hr, he⟩ := List.mem_map.mp hid
          exact ⟨r, hi.rows r (List.mem_of_mem_filter hr), he⟩ }
  | deleteEmployee i dbOk =>
    simp only [EnrollDelete.step] at hstep
    split at hstep
    · rename_i e ids hreq
      have hids := hi.selected _ (List.mem_of_getElem? hreq)
      split at hstep
      · cases hstep
        have hsent : s.sent = s.sent ++ [] := (List.append_nil _).symm
        simp only [inserts, published, hires, List.append_nil]
        rw [hsent]
        exact records_step hi _ i (EnrollDelete.tombstones ids) [] ⟨rfl, rfl⟩
            (fun _ ha => (Serial.mem_deleteWhere.mp ha).1)
            (fun _ ha => (Serial.mem_deleteWhere.mp ha).1) rfl
            (fun _ hq => given_tombstones hids hq) fun _ hp => absurd hp List.not_mem_nil
      · cases hstep
        have hsent : s.sent = s.sent ++ [] := (List.append_nil _).symm
        simp only [inserts, published, hires, List.append_nil]
        rw [hsent]
        exact records_step hi _ i none [] ⟨rfl, rfl⟩ (fun _ ha => ha) (fun _ ha => ha) rfl
            (fun _ hq => absurd hq (Option.not_mem_none _)) fun _ hp => absurd hp List.not_mem_nil
    · cases hstep
  | publishTombstone i =>
    simp only [EnrollDelete.step] at hstep
    split at hstep
    · rename_i id rest hreq
      have hids := hi.selected _ (List.mem_of_getElem? hreq)
      cases hstep
      obtain ⟨r, hr, rfl⟩ := hids id List.mem_cons_self
      simp only [inserts, published, hires, hreq, List.append_nil]
      exact records_step hi _ i (EnrollDelete.tombstones rest) [tombstoneMessage r.id] ⟨rfl, rfl⟩
          (fun _ ha => ha) (fun _ ha => ha) rfl
          (fun _ hq => given_tombstones (fun id hid => hids id (List.mem_cons_of_mem _ hid)) hq)
          fun p hp => ⟨r, hr, Or.inr (List.mem_singleton.mp hp)⟩
    · cases hstep

/-! ## What an edge holds -/

/-- A row that was inserted, or enrolled on the edge. -/
def Genuine (inserted : List (L4.EmbeddingRow K)) (edge : Edge K) (face : Embedding K) : Prop :=
  (∃ r ∈ inserted, face = faceOf r) ∨ face ∈ edge.enrolled

structure EdgeOk (inserted : List (L4.EmbeddingRow K)) (edge : Edge K) : Prop where
  cache : ∀ face ∈ edge.sync.cache, Genuine inserted edge face
  table : ∀ id face, stored edge.sync.storage id = some face → Genuine inserted edge face

omit [FloatArith K] in
theorem edgeOk_restart {inserted : List (L4.EmbeddingRow K)} {edge : Edge K}
    (h : EdgeOk inserted edge) : EdgeOk inserted { edge with sync := restart edge.sync } where
  cache face hf := by
    have hlook : lookup Embedding.id face.id (loadAllEmbeddings edge.sync.storage) = some face :=
      lookup_of_mem (distinct_load _) hf
    rw [lookup_load] at hlook
    exact h.table face.id face hlook
  table := h.table

omit [FloatArith K] in
theorem edgeOk_boot (inserted : List (L4.EmbeddingRow K)) (t : EmbeddingsTable K) :
    EdgeOk inserted ⟨boot t, loadAllEmbeddings t⟩ where
  cache _ hf := Or.inr hf
  table id face hf := by
    rw [← lookup_load] at hf
    exact Or.inr (mem_of_lookup hf)

omit [FloatArith K] in
theorem edgeOk_deleteEmployee {inserted : List (L4.EmbeddingRow K)} {edge : Edge K}
    {sqliteOk : Bool} {employeeId : ℤ} {t : EmbeddingsTable K}
    (ht : deleteEmployeeEmbeddings sqliteOk employeeId edge.sync.storage = .ok t)
    (h : EdgeOk inserted edge) :
    EdgeOk inserted { edge with sync := { edge.sync with storage := t } } where
  cache := h.cache
  table id face hf := by
    obtain ⟨-, rfl⟩ := deleteEmployeeEmbeddings_ok ht
    obtain ⟨r, hr, rfl⟩ := Option.map_eq_some_iff.mp hf
    rw [Table.find_deleteWhere] at hr
    have hstored : stored edge.sync.storage id = some r.toEmbedding := by
      rw [stored, (Option.filter_eq_some_iff.mp hr).1, Option.map_some]
    exact h.table id _ hstored

omit [FloatArith K] in
theorem edgeOk_enroll {inserted : List (L4.EmbeddingRow K)} {edge : Edge K} {face : Embedding K}
    {random : Option ℤ} {nowMs : Timestamp} {t : EmbeddingsTable K} {id : ℤ}
    (ht : insertEmbedding true random nowMs face edge.sync.storage = .ok t)
    (hid : newRowid random edge.sync.storage = some id) (h : EdgeOk inserted edge) :
    EdgeOk inserted ⟨{ edge.sync with storage := t },
      edge.enrolled ++ [⟨id, face.owner, face.vector⟩]⟩ where
  cache f hf := (h.cache f hf).imp_right (List.mem_append_left _)
  table k f hf := by
    have hput : t = edge.sync.storage.upsert ⟨id, face.owner, face.vector, nowMs⟩ := by
      simp only [insertEmbedding, hid, if_true] at ht
      exact (Except.ok.inj ht).symm
    have hst := stored_upsert edge.sync.storage ⟨id, face.owner, face.vector⟩ nowMs k
    rw [← hput] at hst
    dsimp only at hf
    rw [hst] at hf
    split at hf
    · cases hf
      exact Or.inr (List.mem_append_right _ (List.mem_singleton_self _))
    · exact (h.table k f hf).imp_right (List.mem_append_left _)

/-- A message for a row writes that row or removes it. -/
theorem edgeOk_deliver {inserted : List (L4.EmbeddingRow K)} {edge : Edge K} {topic : String}
    {payload : Bytes} {r : L4.EmbeddingRow K} (hr : r ∈ inserted) (hs : Sendable text r)
    (hp : (topic, payload) = upsertMessage text (EnrollDelete.syncMsg r) ∨
      (topic, payload) = tombstoneMessage r.id) (ok : Bool) (nowMs : Timestamp)
    (h : EdgeOk inserted edge) : EdgeOk inserted { edge with
      sync := (onMessage text.parse ⟨some topic, payload, ok, nowMs⟩ edge.sync).2 } := by
  cases ok with
  | false =>
    rw [onMessage_sqlite_error]
    exact ⟨h.cache, h.table⟩
  | true =>
    rcases hp with hp | hp
    · cases hp
      have hm : onMessage text.parse ⟨some (syncTopic r.id),
          text.toVec (EnrollDelete.syncMsg r).toJson, true, nowMs⟩ edge.sync = (.upserted,
            ⟨edge.sync.storage.upsert ⟨r.id, r.employeeId, r.vector, nowMs⟩,
              Matcher.upsert (faceOf r) edge.sync.cache⟩) :=
        onMessage_upsert hs.1 hs.2 nowMs edge.sync
      change EdgeOk inserted { edge with sync := (onMessage text.parse ⟨some (syncTopic r.id),
        text.toVec (EnrollDelete.syncMsg r).toJson, true, nowMs⟩ edge.sync).2 }
      rw [hm]
      refine ⟨fun face hf => ?_, fun id face hf => ?_⟩
      · rcases mem_replaceOrPush hf with rfl | hf
        · exact Or.inl ⟨r, hr, rfl⟩
        · exact h.cache face hf
      · have hst : stored (edge.sync.storage.upsert ⟨r.id, r.employeeId, r.vector, nowMs⟩) id =
            if r.id = id then some (faceOf r) else stored edge.sync.storage id :=
          stored_upsert edge.sync.storage (faceOf r) nowMs id
        dsimp only at hf
        rw [hst] at hf
        split at hf
        · cases hf
          exact Or.inl ⟨r, hr, rfl⟩
        · exact h.table id face hf
    · cases hp
      have hm : onMessage text.parse ⟨some (syncTopic r.id), [], true, nowMs⟩ edge.sync = (.removed,
          ⟨edge.sync.storage.erase r.id, Matcher.remove r.id edge.sync.cache⟩) :=
        onMessage_tombstone text.parse hs.1.id_pos hs.1.id_i32 nowMs edge.sync
      rw [hm]
      refine ⟨fun face hf => h.cache face (List.mem_of_mem_filter hf), fun id face hf => ?_⟩
      dsimp only at hf
      rw [stored_erase] at hf
      split at hf
      · cases hf
      · exact h.table id face hf

omit [FloatArith K] in
theorem edges_set {inserted : List (L4.EmbeddingRow K)} {edges : List (Edge K)} {e : ℕ}
    {edge : Edge K} (h : ∀ x ∈ edges, EdgeOk inserted x) (hedge : EdgeOk inserted edge) :
    ∀ x ∈ edges.set e edge, EdgeOk inserted x := by
  intro x hx
  rcases List.mem_or_eq_of_mem_set hx with hx | rfl
  · exact h x hx
  · exact hedge

structure Inv (text : JsonText K) (s : State K) : Prop where
  records : Records text s
  edges : ∀ edge ∈ s.edges, EdgeOk s.inserted edge

theorem inv_step {l : Label K} (hi : Inv text s) (h : step text s l = some s')
    (hc : Sends text s l) : Inv text s' := by
  cases l with
  | backend l =>
    refine ⟨records_backend hi.records h hc, fun edge he => ?_⟩
    obtain ⟨after, -, rfl⟩ := Option.map_eq_some_iff.mp h
    have hok := hi.edges edge he
    have hmore : ∀ face, Genuine s.inserted edge face →
        Genuine (s.inserted ++ inserts after l) edge face := fun face hg =>
      hg.imp_left fun ⟨r, hr, he⟩ => ⟨r, List.mem_append_left _ hr, he⟩
    exact ⟨fun face hf => hmore face (hok.cache face hf),
      fun id face hf => hmore face (hok.table id face hf)⟩
  | deliver e m ok nowMs =>
    simp only [step] at h
    split at h
    · rename_i edge topic payload hedge hsent
      cases h
      obtain ⟨r, hr, hp⟩ := hi.records.sent _ (List.mem_of_getElem? hsent)
      have hok := edgeOk_deliver hr (hi.records.sendable r hr) hp ok nowMs
        (hi.edges edge (List.mem_of_getElem? hedge))
      exact ⟨{ hi.records with }, edges_set hi.edges hok⟩
    · cases h
  | deleteEmployee e sqliteOk employeeId =>
    simp only [step] at h
    split at h
    · rename_i edge hedge
      split at h
      · rename_i t ht
        cases h
        have hok := edgeOk_deleteEmployee ht (hi.edges edge (List.mem_of_getElem? hedge))
        exact ⟨{ hi.records with }, edges_set hi.edges hok⟩
      · cases h
        exact hi
    · cases h
  | enroll e face random nowMs =>
    simp only [step] at h
    split at h
    · rename_i edge hedge
      split at h
      · rename_i t id ht hid
        cases h
        have hok := edgeOk_enroll ht hid (hi.edges edge (List.mem_of_getElem? hedge))
        exact ⟨{ hi.records with }, edges_set hi.edges hok⟩
      · cases h
    · cases h
  | restart e =>
    simp only [step] at h
    split at h
    · rename_i edge hedge
      cases h
      have hok := edgeOk_restart (hi.edges edge (List.mem_of_getElem? hedge))
      exact ⟨{ hi.records with }, edges_set hi.edges hok⟩
    · cases h

theorem inv_inductive (text : JsonText K) :
    ((system text).guard (Sends text)).Inductive (Inv text) where
  init s h := ⟨h.records, fun edge he => by
    obtain ⟨t, rfl⟩ := h.edges edge he
    exact edgeOk_boot _ t⟩
  step _ _ _ hi h := inv_step hi h.1 h.2

/-! ## Who a match names -/

variable [LinearOrder K] [BoundedOrder K]

/-- **A match names who enrolled the face.** -/
theorem match_enrolled (text : JsonText K) {s : State K}
    (hr : ((system text).guard (Sends text)).Reachable s) {edge : Edge K} (he : edge ∈ s.edges)
    (threshold : K) (query : EmbeddingVector K) {m : Match K}
    (hm : Matcher.findMatch (.num threshold) edge.sync.cache query = some m) :
    ∃ x < threshold, m.distance = .num x ∧
      ((∃ face ∈ edge.enrolled, face.owner = m.employee ∧
          Matcher.cosineDistance query face.vector = .num x) ∨
        ∃ r ∈ s.inserted, ∃ a ∈ s.hired, a.id = m.employee ∧ r.employeeId = m.employee ∧
          Matcher.cosineDistance query r.vector = .num x ∧
          (∀ b ∈ s.hired, b.id = m.employee → b = a) ∧ ∀ q ∈ s.inserted, q.id = r.id → q = r) := by
  have hi := (inv_inductive text).reachable s hr
  obtain ⟨face, x, hf, hx, rfl⟩ := Matcher.findMatch_eq_some.mp hm
  refine ⟨x, hx, rfl, ?_⟩
  rcases (hi.edges edge he).cache face hf.mem with ⟨r, hr, rfl⟩ | hlocal
  · obtain ⟨a, ha, hid⟩ := hi.records.owner r hr
    exact Or.inr ⟨r, hr, a, ha, hid, rfl, hf.score_eq,
      fun b hb hbid => eq_of_key hi.records.hired_distinct hb ha (hbid.trans hid.symm),
      fun q hq hqid => eq_of_key hi.records.inserted_distinct hq hr hqid⟩
  · exact Or.inl ⟨face, hlocal, rfl, hf.score_eq⟩

def anaText : JsonText ExtRat := .compact [(EnrollDelete.syncMsg EnrollDelete.anaFace).toJson]

theorem sendable_ana : Sendable anaText EnrollDelete.anaFace := by
  refine ⟨by constructor <;> decide, by decide +kernel, axis, List.Vector.map_id axis, ?_⟩
  simp [anaText, JsonText.compact, EnrollDelete.syncMsg, EnrollDelete.anaFace]

/-- An empty edge, and a backend without employees. -/
def fresh : State ExtRat := ⟨EnrollDelete.fresh, [], [], [], [⟨boot .empty, []⟩]⟩

theorem initial_fresh : Initial anaText fresh where
  backend := EnrollDelete.initial_fresh
  hired := rfl
  inserted := rfl
  sendable _ h := nomatch h
  sent := rfl
  edges edge h := by
    rw [List.mem_singleton.mp h]
    exact ⟨.empty, rfl⟩

/-- Ana is enrolled at the backend, and the edge recognises her. -/
theorem match_enrolled_ana : ∃ s : State ExtRat, ∃ edge ∈ s.edges, ∃ x < (.ofRat (1 / 2) : ExtRat),
    (∃ face ∈ edge.enrolled, face.owner = 1 ∧ Matcher.cosineDistance axis face.vector = .num x) ∨
      ∃ r ∈ s.inserted, ∃ a ∈ s.hired, a.id = 1 ∧ r.employeeId = 1 ∧
        Matcher.cosineDistance axis r.vector = .num x := by
  obtain ⟨s, hrun, hm⟩ := LTS.exists_run_where (Initial anaText) (step anaText)
    (fun _ l => ∀ r ∈ l.row, r = EnrollDelete.anaFace) fresh
    [.backend (.createEmployee EnrollDelete.ana), .backend (.insertEmbedding EnrollDelete.anaFace),
      .backend (.publishUpsert 0), .deliver 0 0 true 0]
    (fun s => (s.edges.head?.any fun edge =>
      Matcher.findMatch (.num (.ofRat (1 / 2))) edge.sync.cache axis = some ⟨1, .num (.ofRat 0)⟩) =
        true) (by decide +kernel)
  obtain ⟨edge, he, hmatch⟩ := (Option.any_eq_true _ _).mp hm
  have hr : ((system anaText).guard (Sends anaText)).Run fresh _ s :=
    hrun.guard_mono fun _ _ hl r hr => (hl r hr).symm ▸ sendable_ana
  obtain ⟨x, hx, -, h⟩ := match_enrolled anaText ⟨_, _, initial_fresh, hr⟩
    (List.mem_of_mem_head? he) (.ofRat (1 / 2)) axis (of_decide_eq_true hmatch)
  refine ⟨s, edge, List.mem_of_mem_head? he, x, hx, h.imp_right ?_⟩
  rintro ⟨r, hr, a, ha, hid, hemp, hd, -⟩
  exact ⟨r, hr, a, ha, hid, hemp, hd⟩

end FaceGate.L5.Provenance
