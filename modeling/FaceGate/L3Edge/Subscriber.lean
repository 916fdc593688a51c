import FaceGate.Core.Except
import FaceGate.Core.Writes
import FaceGate.L1Domain.SyncTopic
import FaceGate.L1Domain.Json
import FaceGate.L2Device.Storage
import FaceGate.L2Device.Matcher

/-!
# The sync subscriber: one message at a time

`MqttSubscriber::Impl::on_message` keeps two stores in step: SQLite first, then
the live `Matcher`. Between parsing, the SQLite call and the cache update any
step may throw; the handler catches everything and drops the message.

`onMessage_cases` says once what a call can do: change neither store, remove an
id from both, or write one embedding to both. From it:

* `storage_matcher_agree`: from a boot, after any sequence of messages and
  SQLite failures, the cache has distinct ids and equals the table; a message
  that is not applied changes neither.
* `restart_same_decision`: a matcher rebuilt from the table finds a match at the
  same distance. The employee may differ when two owners are equally far
  (`restart_changes_owner`): the scan breaks ties by position.
-/
namespace FaceGate.L3.Subscriber

open Core Core.Keyed FaceGate.L1 FaceGate.L1.Domain FaceGate.L1.SyncTopic FaceGate.L2.Storage
open FaceGate.L2

variable {K : Type}

structure SyncState (K : Type) where
  storage : EmbeddingsTable K
  cache : List (Embedding K)

/-- The matcher is built from the table.
mirrors edge/apps/facegate/main.cpp:132-140 -/
def boot (t : EmbeddingsTable K) : SyncState K := ⟨t, loadAllEmbeddings t⟩

/-- One call of `on_message`: the message, whether SQLite accepts the statement
it leads to, and the clock. `topic = none` is the null message or topic. -/
structure Delivery where
  topic : Option String
  payload : Bytes
  sqliteOk : Bool
  nowMs : Timestamp

/-- How a call ends (the log line it writes). -/
inductive SyncOutcome where
  | noTopic
  | unexpectedTopic
  | removed
  | deleteFailed (e : StorageError)
  | badVectorLength
  | upserted
  | jsonFailed (e : JsonError)
  | upsertFailed (e : StorageError)
  deriving DecidableEq, Repr

def SyncOutcome.applied : SyncOutcome → Bool
  | .removed | .upserted => true
  | _ => false

variable [FloatArith K]

/-- The fields of an upsert. `none`: `vector` is no array of `EMBEDDING_DIM`. A
body id other than the topic's is logged and ignored.
mirrors edge/src/mqtt/mqtt_subscriber.cpp:142-166 -/
def readUpsert (embeddingId : ℤ) (j : Json K) : Except JsonError (Option (Embedding K)) := do
  let _jsonId ← (← j.at' "embedding_id").getInt64
  let employeeId ← (← j.at' "employee_id").getInt64
  match ← j.at' "vector" with
  | .array l =>
    if h : l.length = EMBEDDING_DIM then
      let v ← List.Vector.mmap Json.getFloat ⟨l, h⟩
      return some ⟨embeddingId, employeeId, v⟩
    else return none
  | _ => return none

/-- mirrors edge/src/mqtt/mqtt_subscriber.cpp:109-176 -/
def onMessage (parse : Bytes → Option (Json K)) (d : Delivery) (s : SyncState K) :
    SyncOutcome × SyncState K :=
  match d.topic with
  | none => (.noTopic, s)
  | some topic =>
    let embeddingId := parseEmbeddingIdFromTopic topic
    if embeddingId = 0 then (.unexpectedTopic, s)
    else if d.payload = [] then
      -- tombstone
      match deleteEmbedding d.sqliteOk embeddingId s.storage with
      | .error e => (.deleteFailed e, s)
      | .ok t => (.removed, ⟨t, Matcher.remove embeddingId s.cache⟩)
    else
      match parse d.payload with
      | none => (.jsonFailed .parseError, s)
      | some j =>
        match readUpsert embeddingId j with
        | .error e => (.jsonFailed e, s)
        | .ok none => (.badVectorLength, s)
        | .ok (some emb) =>
          match upsertEmbedding d.sqliteOk d.nowMs emb s.storage with
          | .error e => (.upsertFailed e, s)
          | .ok t => (.upserted, ⟨t, Matcher.upsert emb s.cache⟩)

/-- A history of calls. -/
def process (parse : Bytes → Option (Json K)) (ds : List Delivery) (s : SyncState K) :
    SyncState K :=
  ds.foldl (fun s d => (onMessage parse d s).2) s

/-! ## What one call can do -/

/-- The topic is that of an embedding. -/
def Delivery.About (d : Delivery) (id : ℤ) : Prop :=
  ∃ topic ∈ d.topic, parseEmbeddingIdFromTopic topic = id

/-- The id is the topic's, whatever the body says. -/
theorem readUpsert_id {id : ℤ} {j : Json K} {emb : Embedding K}
    (h : readUpsert id j = .ok (some emb)) : emb.id = id := by
  unfold readUpsert at h
  obtain ⟨_, -, h⟩ := bind_ok.mp h
  obtain ⟨_, -, h⟩ := bind_ok.mp h
  obtain ⟨_, -, h⟩ := bind_ok.mp h
  obtain ⟨_, -, h⟩ := bind_ok.mp h
  obtain ⟨_, -, h⟩ := bind_ok.mp h
  split at h
  · split at h
    · obtain ⟨_, -, h⟩ := bind_ok.mp h
      cases h
      rfl
    · cases h
  · cases h

theorem onMessage_cases (parse : Bytes → Option (Json K)) (d : Delivery) (s : SyncState K) :
    ((onMessage parse d s).1.applied = false ∧ (onMessage parse d s).2 = s) ∨
      (∃ id t, d.About id ∧ deleteEmbedding d.sqliteOk id s.storage = .ok t ∧
        onMessage parse d s = (.removed, ⟨t, Matcher.remove id s.cache⟩)) ∨
      ∃ (emb : Embedding K) (t : EmbeddingsTable K), d.About emb.id ∧
        upsertEmbedding d.sqliteOk d.nowMs emb s.storage = .ok t ∧
        onMessage parse d s = (.upserted, ⟨t, Matcher.upsert emb s.cache⟩) := by
  unfold onMessage
  cases htopic : d.topic with
  | none => exact Or.inl ⟨rfl, rfl⟩
  | some topic =>
    have habout : d.About (parseEmbeddingIdFromTopic topic) := ⟨topic, htopic, rfl⟩
    simp only
    split
    · exact Or.inl ⟨rfl, rfl⟩
    · split
      · cases hd : deleteEmbedding d.sqliteOk (parseEmbeddingIdFromTopic topic) s.storage with
        | error e => exact Or.inl ⟨rfl, rfl⟩
        | ok t => exact Or.inr (Or.inl ⟨_, t, habout, hd, rfl⟩)
      · cases parse d.payload with
        | none => exact Or.inl ⟨rfl, rfl⟩
        | some j =>
          simp only
          cases hread : readUpsert (parseEmbeddingIdFromTopic topic) j with
          | error e => exact Or.inl ⟨rfl, rfl⟩
          | ok o =>
            cases o with
            | none => exact Or.inl ⟨rfl, rfl⟩
            | some emb =>
              simp only
              rw [← readUpsert_id hread] at habout
              cases hu : upsertEmbedding d.sqliteOk d.nowMs emb s.storage with
              | error e => exact Or.inl ⟨rfl, rfl⟩
              | ok t => exact Or.inr (Or.inr ⟨emb, t, habout, hu, rfl⟩)

/-! ## What the backend's messages do -/

theorem mmap_getFloat {n : ℕ} (v : List.Vector (Flt K) n) :
    (v.map Json.numberFloat).mmap Json.getFloat = .ok (v.map FloatArith.narrow) := by
  induction v using List.Vector.inductionOn with
  | nil => rfl
  | cons ih =>
    rw [List.Vector.map_cons, List.Vector.mmap_cons, ih, List.Vector.map_cons]
    rfl

theorem readUpsert_toJson {m : EmbeddingSyncMsg K} (h : m.Serial) :
    readUpsert m.embeddingId m.toJson =
      .ok (some ⟨m.embeddingId, m.employeeId, m.vector.map FloatArith.narrow⟩) := by
  have hid : (Json.ofInt m.embeddingId : Json K).getInt64 = .ok m.embeddingId :=
    Json.getInt64_ofInt h.id_pos.le (by have := h.id_i32; omega)
  have hemp : (Json.ofInt m.employeeId : Json K).getInt64 = .ok m.employeeId :=
    Json.getInt64_ofInt h.employee_pos.le (by have := h.employee_i32; omega)
  have hlen : (m.vector.toList.map Json.numberFloat).length = EMBEDDING_DIM := by simp
  have hvec : List.Vector.mmap Json.getFloat
      (⟨m.vector.toList.map Json.numberFloat, hlen⟩ : List.Vector (Json K) EMBEDDING_DIM) =
        .ok (m.vector.map FloatArith.narrow) := mmap_getFloat m.vector
  simp [readUpsert, EmbeddingSyncMsg.toJson, Json.at', hid, hemp, hvec, bind, Except.bind, pure,
    Except.pure]

theorem parse_topic {id : ℤ} (h0 : 0 < id) (h : id < 2 ^ 31) :
    parseEmbeddingIdFromTopic (syncTopic id) = id := by
  obtain ⟨n, rfl⟩ := Int.eq_ofNat_of_zero_le h0.le
  exact parse_syncTopic n (by omega)

/-- A tombstone of a backend id. -/
theorem onMessage_tombstone (parse : Bytes → Option (Json K)) {id : ℤ} (h0 : 0 < id)
    (h : id < 2 ^ 31) (nowMs : Timestamp) (s : SyncState K) :
    onMessage parse ⟨some (syncTopic id), [], true, nowMs⟩ s =
      (.removed, ⟨s.storage.erase id, Matcher.remove id s.cache⟩) := by
  simp [onMessage, parse_topic h0 h, h0.ne', deleteEmbedding]

/-- An upsert as the backend publishes it. -/
theorem onMessage_upsert {text : JsonText K} {m : EmbeddingSyncMsg K} (hs : m.Serial)
    (hc : text.Carries m) (nowMs : Timestamp) (s : SyncState K) :
    onMessage text.parse ⟨some (syncTopic m.embeddingId), text.toVec m.toJson, true, nowMs⟩ s =
      (.upserted, ⟨s.storage.upsert ⟨m.embeddingId, m.employeeId, m.vector, nowMs⟩,
        Matcher.upsert ⟨m.embeddingId, m.employeeId, m.vector⟩ s.cache⟩) := by
  obtain ⟨doubles, hd, hp⟩ := hc.parsed
  have hr := readUpsert_toJson (m := { m with vector := doubles }) ⟨hs.1, hs.2, hs.3, hs.4⟩
  rw [hd] at hr
  simp only [onMessage, parse_topic hs.id_pos hs.id_i32, hs.id_pos.ne', hc.ne_nil, hp, hr,
    upsertEmbedding, if_false, if_true]

/-- A message whose SQLite statement throws. -/
theorem onMessage_sqlite_error (parse : Bytes → Option (Json K)) (topic : Option String)
    (payload : Bytes) (nowMs : Timestamp) (s : SyncState K) :
    (onMessage parse ⟨topic, payload, false, nowMs⟩ s).2 = s := by
  rcases onMessage_cases parse ⟨topic, payload, false, nowMs⟩ s with
    ⟨-, he⟩ | ⟨id, t, -, hd, -⟩ | ⟨emb, t, -, hu, -⟩
  · exact he
  · cases (deleteEmbedding_ok hd).1
  · cases (upsertEmbedding_ok hu).1

/-! ## The two stores agree -/

/-- The cache has distinct ids and is, as a map, the table. -/
structure Agree (s : SyncState K) : Prop where
  distinct : DistinctKeys Embedding.id s.cache
  same : ∀ id, lookup Embedding.id id s.cache = stored s.storage id

omit [FloatArith K] in
theorem agree_boot (t : EmbeddingsTable K) : Agree (boot t) := ⟨distinct_load t, lookup_load t⟩

theorem agree_onMessage (parse : Bytes → Option (Json K)) (d : Delivery) {s : SyncState K}
    (h : Agree s) : Agree (onMessage parse d s).2 := by
  rcases onMessage_cases parse d s with ⟨-, he⟩ | ⟨id, t, -, hd, he⟩ | ⟨emb, t, -, hu, he⟩
  · rw [he]; exact h
  · obtain ⟨-, rfl⟩ := deleteEmbedding_ok hd
    rw [he]
    refine ⟨distinctKeys_eraseKey id h.distinct, fun k => ?_⟩
    rw [Matcher.remove, lookup_eraseKey, stored_erase, h.same]
  · obtain ⟨-, rfl⟩ := upsertEmbedding_ok hu
    rw [he]
    refine ⟨distinctKeys_replaceOrPush emb h.distinct, fun k => ?_⟩
    rw [Matcher.upsert, lookup_replaceOrPush, stored_upsert, h.same]

theorem agree_process (parse : Bytes → Option (Json K)) (ds : List Delivery) {s : SyncState K}
    (h : Agree s) : Agree (process parse ds s) := by
  induction ds generalizing s with
  | nil => exact h
  | cons d ds ih => exact ih (agree_onMessage parse d h)

/-- Storage and the live matcher agree after every message, and a message that is
rejected or fails changes neither. -/
theorem storage_matcher_agree (parse : Bytes → Option (Json K)) (t : EmbeddingsTable K)
    (ds : List Delivery) :
    Agree (process parse ds (boot t)) ∧
      ∀ d, (onMessage parse d (process parse ds (boot t))).1.applied = false →
        (onMessage parse d (process parse ds (boot t))).2 = process parse ds (boot t) := by
  refine ⟨agree_process parse ds (agree_boot t), fun d hd => ?_⟩
  rcases onMessage_cases parse d (process parse ds (boot t)) with
    ⟨-, he⟩ | ⟨id, t, -, -, he⟩ | ⟨emb, t, -, -, he⟩
  · exact he
  · rw [he] at hd; cases hd
  · rw [he] at hd; cases hd

/-- The edge knows one face, takes another, and then fails to delete the first. -/
theorem storage_matcher_agree_tombstone :
    let m₂ := (axisMsg 2 20).toJson
    let text := JsonText.compact [m₂]
    let s := process text.parse [⟨some (syncTopic 2), text.toVec m₂, true, 0⟩]
      (boot (Table.empty.upsert ⟨1, 5, axis, 0⟩))
    s.cache.map Embedding.owner = [5, 20] ∧ Agree s ∧
      (onMessage text.parse ⟨some (syncTopic 1), [], false, 0⟩ s).2 = s := by
  intro m₂ text s
  obtain ⟨hagree, hrejected⟩ := storage_matcher_agree text.parse
    (Table.empty.upsert ⟨1, 5, axis, 0⟩) [⟨some (syncTopic 2), text.toVec m₂, true, 0⟩]
  refine ⟨?_, hagree, hrejected _ ?_⟩
  · decide +kernel
  · decide +kernel

/-! ## A restart -/

/-- The process stops and starts again: only the table is left. -/
def restart (s : SyncState K) : SyncState K := boot s.storage

omit [FloatArith K] in
/-- The rebuilt cache holds the live entries, in id order. -/
theorem perm_rebuilt {s : SyncState K} (h : Agree s) :
    s.cache.Perm (loadAllEmbeddings s.storage) :=
  perm_of_lookup_eq h.distinct (distinct_load s.storage) fun id => by rw [h.same, lookup_load]

variable [LinearOrder K] [BoundedOrder K]

/-- What the pipeline asks the matcher. -/
def answer (threshold : Flt K) (query : EmbeddingVector K) (s : SyncState K) : MatchResult K :=
  Matcher.findMatch threshold s.cache query

/-- `e` is a cached entry and none is nearer to the query. -/
def Nearest (query : EmbeddingVector K) (s : SyncState K) (e : Embedding K) : Prop :=
  e ∈ s.cache ∧ ∃ x, Scan.IsMin (Matcher.score query) s.cache x ∧ Matcher.score query e = .num x

/-- **A restart keeps the verdict and the distance.** The employee can change
only from one nearest entry to another. -/
theorem restart_same_decision (parse : Bytes → Option (Json K)) (t : EmbeddingsTable K)
    (ds : List Delivery) (threshold : Flt K) (query : EmbeddingVector K) :
    let s := process parse ds (boot t)
    answer threshold query s = answer threshold query (restart s) ∨
      ∃ a b x, answer threshold query s = some ⟨a.owner, x⟩ ∧
        answer threshold query (restart s) = some ⟨b.owner, x⟩ ∧
        Nearest query s a ∧ Nearest query s b ∧ a.owner ≠ b.owner := by
  intro s
  have hs : Agree s := agree_process parse ds (agree_boot t)
  have hp : s.cache.Perm (restart s).cache := perm_rebuilt hs
  unfold answer
  rcases Matcher.findMatch_perm threshold hp query with ⟨h1, h2⟩ | ⟨a, b, x, h1, h2, ha, hb⟩
  · exact Or.inl (by rw [h1, h2])
  · by_cases ho : a.owner = b.owner
    · exact Or.inl (by rw [h1, h2, ho])
    · have hb' : Scan.IsMin (Matcher.score query) s.cache x := hb.isMin.perm hp.symm
      exact Or.inr ⟨a, b, .num x, h1, h2, ⟨ha.mem, x, ha.isMin, ha.score_eq⟩,
        ⟨hp.symm.subset hb.mem, x, hb', hb.score_eq⟩, ho⟩

/-- The same face enrolled for employees 20 (id 2, first) and 10 (id 1): the live
matcher answers 20, and 10 after a restart. -/
theorem restart_changes_owner :
    let m₂ := (axisMsg 2 20).toJson
    let m₁ := (axisMsg 1 10).toJson
    let text := JsonText.compact [m₂, m₁]
    let s := process text.parse
      [⟨some (syncTopic 2), text.toVec m₂, true, 0⟩, ⟨some (syncTopic 1), text.toVec m₁, true, 0⟩]
      (boot Table.empty)
    answer (.num (.ofRat (1 / 2))) axis s = some ⟨20, .num (.ofRat 0)⟩ ∧
      answer (.num (.ofRat (1 / 2))) axis (restart s) = some ⟨10, .num (.ofRat 0)⟩ := by
  decide +kernel

end FaceGate.L3.Subscriber
