import FaceGate.L3Edge.Subscriber

/-!
# Redelivery of the sync messages

A reconnect subscribes anew and the broker sends every retained message again, in
any order, and QoS 1 may repeat any of them. A message is one write to the
table and to the cache, under the id of its topic (`writeOf`); a statement that
SQLite refuses writes nothing.

`redelivery_harmless`: with one message for each id, the order and the repetitions do
not matter, and what has been delivered once may be delivered again.
-/
namespace FaceGate.L3.Redelivery

open Core Core.Keyed FaceGate.L1 FaceGate.L1.Domain FaceGate.L1.SyncTopic FaceGate.L2.Storage
open FaceGate.L2 FaceGate.L3.Subscriber

variable {K : Type} [FloatArith K]

structure Message where
  topic : Option String
  payload : Bytes
  deriving DecidableEq

def message (d : Delivery) : Message := ⟨d.topic, d.payload⟩

/-- The embedding id of the topic, 0 without one. -/
def Message.id (m : Message) : ℤ := (m.topic.map parseEmbeddingIdFromTopic).getD 0

/-- The messages of `M`, and each of them with success at least once. -/
structure Delivers (M : List Message) (ds : List Delivery) : Prop where
  only : ∀ d ∈ ds, message d ∈ M
  all : ∀ m ∈ M, ∃ d ∈ ds, message d = m ∧ d.sqliteOk = true

/-- Table and cache hold the same maps from ids to owners and vectors. -/
def SameMaps (s s' : SyncState K) : Prop :=
  ∀ id, stored s.storage id = stored s'.storage id ∧
    lookup Embedding.id id s.cache = lookup Embedding.id id s'.cache

/-! ## A message is a write -/

def writeAt (parse : Bytes → Option (Json K)) (id : ℤ) (payload : Bytes) :
    Option (Write ℤ (Embedding K)) :=
  if id = 0 then none
  else if payload = [] then some ⟨id, none⟩
  else
    match parse payload with
    | none => none
    | some j =>
      match readUpsert id j with
      | .ok (some emb) => some ⟨id, some emb⟩
      | _ => none

def writeOf (parse : Bytes → Option (Json K)) (m : Message) : Option (Write ℤ (Embedding K)) :=
  writeAt parse m.id m.payload

/-- What a delivery writes. -/
def effect (parse : Bytes → Option (Json K)) (d : Delivery) : Option (Write ℤ (Embedding K)) :=
  if d.sqliteOk then writeOf parse (message d) else none

variable {parse : Bytes → Option (Json K)}

theorem writeAt_key {id : ℤ} {payload : Bytes} {w : Write ℤ (Embedding K)}
    (h : writeAt parse id payload = some w) : w.key = id := by
  unfold writeAt at h
  split at h
  · cases h
  · split at h
    · cases h
      rfl
    · split at h
      · cases h
      · split at h
        · cases h
          rfl
        · cases h

/-- The map after a write, or after none. -/
def after (o : Option (Write ℤ (Embedding K))) (m : ℤ → Option (Embedding K)) :
    ℤ → Option (Embedding K) :=
  (o.map fun w => w.apply m).getD m

/-- A message whose statement SQLite accepts. -/
theorem stored_accepted {topic : String} {payload : Bytes} (nowMs : Timestamp) (s : SyncState K) :
    stored (onMessage parse ⟨some topic, payload, true, nowMs⟩ s).2.storage =
      after (writeAt parse (parseEmbeddingIdFromTopic topic) payload) (stored s.storage) := by
  unfold onMessage writeAt
  dsimp only
  by_cases hzero : parseEmbeddingIdFromTopic topic = 0
  · rw [if_pos hzero, if_pos hzero]
    rfl
  · rw [if_neg hzero, if_neg hzero]
    by_cases hempty : payload = []
    · rw [if_pos hempty, if_pos hempty]
      funext k
      change stored (s.storage.erase _) k = Function.update (stored s.storage) _ none k
      rw [stored_erase, Function.update_apply]
    · rw [if_neg hempty, if_neg hempty]
      cases parse payload with
      | none => rfl
      | some j =>
        dsimp only
        cases hread : readUpsert (parseEmbeddingIdFromTopic topic) j with
        | error e => rfl
        | ok o =>
          cases o with
          | none => rfl
          | some emb =>
            have hemb : emb.id = parseEmbeddingIdFromTopic topic := readUpsert_id hread
            have hne : emb.id ≠ 0 := by rwa [hemb]
            simp only [upsertEmbedding, if_neg hne, if_true]
            funext k
            change stored (s.storage.upsert ⟨emb.id, emb.owner, emb.vector, nowMs⟩) k =
              Function.update (stored s.storage) _ (some emb) k
            rw [stored_upsert, Function.update_apply, ← hemb]
            simp only [eq_comm]

theorem stored_onMessage (parse : Bytes → Option (Json K)) (d : Delivery) (s : SyncState K) :
    stored (onMessage parse d s).2.storage = after (effect parse d) (stored s.storage) := by
  obtain ⟨topic, payload, sqliteOk, nowMs⟩ := d
  cases sqliteOk with
  | false =>
    rw [onMessage_sqlite_error]
    rfl
  | true =>
    cases topic with
    | none => rfl
    | some topic => exact stored_accepted nowMs s

/-- A history of deliveries is a sequence of writes. -/
theorem stored_process (ds : List Delivery) (s : SyncState K) :
    stored (process parse ds s).storage =
      Write.applyAll (ds.filterMap (effect parse)) (stored s.storage) := by
  induction ds generalizing s with
  | nil => rfl
  | cons d ds ih =>
    have hstep := stored_onMessage parse d s
    have hrest := ih (onMessage parse d s).2
    rw [hstep] at hrest
    cases heffect : effect parse d with
    | none =>
      rw [List.filterMap_cons_none heffect]
      rw [heffect] at hrest
      exact hrest
    | some w =>
      rw [List.filterMap_cons_some heffect]
      rw [heffect] at hrest
      exact hrest

/-! ## Any order, any repetition -/

section Harmless
variable {M : List Message} {ds : List Delivery}

/-- A write of a delivery is that of its message. -/
theorem mem_effects (h : ∀ d ∈ ds, message d ∈ M) {w : Write ℤ (Embedding K)}
    (hw : w ∈ ds.filterMap (effect parse)) : ∃ m ∈ M, writeOf parse m = some w := by
  obtain ⟨d, hd, heffect⟩ := List.mem_filterMap.mp hw
  unfold effect at heffect
  split at heffect
  · exact ⟨message d, h d hd, heffect⟩
  · cases heffect

theorem effects_of_mem (h : Delivers M ds) {m : Message} {w : Write ℤ (Embedding K)}
    (hm : m ∈ M) (hw : writeOf parse m = some w) : w ∈ ds.filterMap (effect parse) := by
  obtain ⟨d, hd, rfl, hok⟩ := h.all m hm
  refine List.mem_filterMap.mpr ⟨d, hd, ?_⟩
  rw [effect, if_pos hok]
  exact hw

/-- With one message for each id, all writes to an id write the same. -/
theorem writes_agree (hM : (M.map Message.id).Nodup) {m m' : Message}
    {w w' : Write ℤ (Embedding K)} (hm : m ∈ M) (hm' : m' ∈ M) (hw : writeOf parse m = some w)
    (hw' : writeOf parse m' = some w') (hk : w.key = w'.key) : w = w' := by
  rw [writeAt_key hw, writeAt_key hw'] at hk
  obtain rfl : m = m' := List.inj_on_of_nodup_map hM hm hm' hk
  rw [hw] at hw'
  exact Option.some.inj hw'

/-- What is stored under `id` afterwards depends on the messages alone. -/
theorem stored_delivered (parse : Bytes → Option (Json K)) (hM : (M.map Message.id).Nodup)
    (h : Delivers M ds) (s : SyncState K) (id : ℤ) :
    (∃ m ∈ M, ∃ w, writeOf parse m = some w ∧ w.key = id ∧
      stored (process parse ds s).storage id = w.value) ∨
      (∀ m ∈ M, ∀ w, writeOf parse m = some w → w.key ≠ id) ∧
        stored (process parse ds s).storage id = stored s.storage id := by
  rw [stored_process]
  by_cases hid : ∃ m ∈ M, ∃ w, writeOf parse m = some w ∧ w.key = id
  · obtain ⟨m, hm, w, hw, hk⟩ := hid
    refine Or.inl ⟨m, hm, w, hw, hk, ?_⟩
    refine Write.applyAll_agree ?_ ⟨w, effects_of_mem h hm hw, hk⟩ _
    intro v hv hvk
    obtain ⟨m', hm', hv'⟩ := mem_effects h.only hv
    rw [writes_agree hM hm' hm hv' hw (hvk.trans hk.symm)]
  · have hnone : ∀ m ∈ M, ∀ w, writeOf parse m = some w → w.key ≠ id :=
      fun m hm w hw hk => hid ⟨m, hm, w, hw, hk⟩
    refine Or.inr ⟨hnone, Write.applyAll_of_forall_ne ?_ _⟩
    intro w hw
    obtain ⟨m, hm, hw'⟩ := mem_effects h.only hw
    exact hnone m hm w hw'

theorem same_stored (hM : (M.map Message.id).Nodup) {ds₁ ds₂ : List Delivery}
    (h₁ : Delivers M ds₁) (h₂ : Delivers M ds₂) (s : SyncState K) (id : ℤ) :
    stored (process parse ds₁ s).storage id = stored (process parse ds₂ s).storage id := by
  rcases stored_delivered parse hM h₁ s id with
    ⟨m, hm, w, hw, hk, hv⟩ | ⟨hnone, hv⟩
  · rcases stored_delivered parse hM h₂ s id with
      ⟨m', hm', w', hw', hk', hv'⟩ | ⟨hnone', -⟩
    · rw [hv, hv', writes_agree hM hm hm' hw hw' (hk.trans hk'.symm)]
    · exact absurd hk (hnone' m hm w hw)
  · rcases stored_delivered parse hM h₂ s id with
      ⟨m', hm', w', hw', hk', -⟩ | ⟨-, hv'⟩
    · exact absurd hk' (hnone m' hm' w' hw')
    · rw [hv, hv']

omit [FloatArith K] in
/-- Two states whose caches agree with their tables. -/
theorem sameMaps_of_stored {s s' : SyncState K} (hs : Agree s) (hs' : Agree s')
    (h : ∀ id, stored s.storage id = stored s'.storage id) : SameMaps s s' := by
  intro id
  refine ⟨h id, ?_⟩
  rw [hs.same, hs'.same, h id]

theorem process_append (ds ds' : List Delivery) (s : SyncState K) :
    process parse (ds ++ ds') s = process parse ds' (process parse ds s) :=
  List.foldl_append

/-- **Redelivery.** From any state the subscriber can reach, all deliveries of a set of
messages lead to the same maps, and delivering any of them again changes nothing. -/
theorem redelivery_harmless (parse : Bytes → Option (Json K)) (t : EmbeddingsTable K)
    (history : List Delivery) (M : List Message) (hM : (M.map Message.id).Nodup)
    (ds₁ ds₂ : List Delivery) (h₁ : Delivers M ds₁) (h₂ : Delivers M ds₂) :
    let s := process parse history (boot t)
    SameMaps (process parse ds₁ s) (process parse ds₂ s) ∧
      ∀ ds, (∀ d ∈ ds, message d ∈ M) →
        SameMaps (process parse ds (process parse ds₁ s)) (process parse ds₁ s) := by
  intro s
  have hs : Agree s := agree_process parse history (agree_boot t)
  have hs₁ : Agree (process parse ds₁ s) := agree_process parse ds₁ hs
  refine ⟨sameMaps_of_stored hs₁ (agree_process parse ds₂ hs) (same_stored hM h₁ h₂ s), ?_⟩
  intro ds hds
  -- the second round is part of a longer first one
  have hlonger : Delivers M (ds₁ ++ ds) := by
    refine ⟨?_, ?_⟩
    · intro d hd
      rcases List.mem_append.mp hd with hd | hd
      · exact h₁.only d hd
      · exact hds d hd
    · intro m hm
      obtain ⟨d, hd, hdm⟩ := h₁.all m hm
      exact ⟨d, List.mem_append_left _ hd, hdm⟩
  refine sameMaps_of_stored (agree_process parse ds hs₁) hs₁ ?_
  intro id
  rw [← process_append]
  exact same_stored hM hlonger h₁ s id

end Harmless

/-- An upsert and a tombstone; then the tombstone first, the upsert refused once, and the
tombstone again. -/
theorem redelivery_harmless_example :
    let m := (axisMsg 1 10).toJson
    let text := JsonText.compact [m]
    let upsert (sqliteOk : Bool) : Delivery := ⟨some (syncTopic 1), text.toVec m, sqliteOk, 0⟩
    let tombstone : Delivery := ⟨some (syncTopic 2), [], true, 0⟩
    SameMaps (process text.parse [upsert true, tombstone] (boot Table.empty))
      (process text.parse [tombstone, upsert false, upsert true, tombstone]
        (boot Table.empty)) := by
  intro m text upsert tombstone
  have hM : ([message (upsert true), message tombstone].map Message.id).Nodup := by
    decide +kernel
  have hfirst : Delivers [message (upsert true), message tombstone] [upsert true, tombstone] := by
    refine ⟨by simp, ?_⟩
    intro a ha
    rcases List.mem_pair.mp ha with rfl | rfl
    · exact ⟨upsert true, by simp, rfl, rfl⟩
    · exact ⟨tombstone, by simp, rfl, rfl⟩
  have hsecond : Delivers [message (upsert true), message tombstone]
      [tombstone, upsert false, upsert true, tombstone] := by
    have hsame : message (upsert false) = message (upsert true) := rfl
    refine ⟨by simp [hsame], ?_⟩
    intro a ha
    rcases List.mem_pair.mp ha with rfl | rfl
    · exact ⟨upsert true, by simp, rfl, rfl⟩
    · exact ⟨tombstone, by simp, rfl, rfl⟩
  exact (redelivery_harmless text.parse Table.empty [] _ hM _ _ hfirst hsecond).1

end FaceGate.L3.Redelivery
