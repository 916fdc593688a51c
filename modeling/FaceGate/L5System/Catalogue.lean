import FaceGate.Core.LTS
import FaceGate.Core.Writes
import FaceGate.L3Edge.Subscriber

/-!
# The embedding catalogue: backend, broker and one edge

The backend publishes retained upserts and empty retained tombstones, one topic
per embedding id. The broker keeps the last upsert of each topic, sends all of
them on SUBSCRIBE and forwards a publish to a session that is subscribed at that
moment. The edge connects with `clean_session = true`: nothing is queued for it
while it is away, and what was in flight when the connection dropped is gone.

`system` interleaves publishes, connects, deliveries, disconnects and restarts.
`mqtt_subscriber.cpp:72-75` says that subscribing fully re-syncs the embedding
state. It does not: the snapshot only adds and overwrites
(`stale_after_reconnect`), so an id deleted while the edge is away stays on it.
What is needed is `NothingLost`: no tombstone of an id the edge holds is
published while it is away, dropped with the connection, or refused by SQLite.

* `applyAll_snapshot`: what a snapshot does to the edge's view.
* `inv_step`: subscribed, the messages in flight turn the edge's view into the
  retained one; otherwise every id held is retained.
* `catalogue_converges`: with nothing lost, a subscribed edge with nothing in
  flight holds exactly what is retained.
-/
namespace FaceGate.L5.Catalogue

open Core Core.Keyed FaceGate.L1 FaceGate.L1.Domain FaceGate.L1.SyncTopic FaceGate.L2.Storage
open FaceGate.L3.Subscriber

variable {K : Type} [FloatArith K]

/-! ## Messages -/

/-- An upsert as the backend can publish it.
mirrors backend/src/routes/embeddings.rs:62-94 -/
structure Upsert (text : JsonText K) where
  msg : EmbeddingSyncMsg K
  serial : msg.Serial
  carried : text.Carries msg
  deriving DecidableEq

/-- mirrors backend/src/routes/employees.rs:24-37 -/
inductive Publish (text : JsonText K) where
  | upsert (u : Upsert text)
  | tombstone (id : ℤ) (pos : 0 < id) (i32 : id < 2 ^ 31)

variable {text : JsonText K}

def Upsert.id (u : Upsert text) : ℤ := u.msg.embeddingId

def Upsert.embedding (u : Upsert text) : Embedding K :=
  ⟨u.msg.embeddingId, u.msg.employeeId, u.msg.vector⟩

namespace Publish

def id : Publish text → ℤ
  | upsert u => u.id
  | tombstone i _ _ => i

def topic (p : Publish text) : String := syncTopic p.id

def payload : Publish text → Bytes
  | upsert u => text.toVec u.msg.toJson
  | tombstone .. => []

/-- The broker's slots after the publish: an empty payload clears the slot. -/
def retain (slots : List (Upsert text)) : Publish text → List (Upsert text)
  | upsert u => replaceOrPush Upsert.id u slots
  | tombstone i _ _ => eraseKey Upsert.id i slots

/-- What it means for a replica. -/
def write (p : Publish text) : Write ℤ (Embedding K) where
  key := p.id
  value :=
    match p with
    | upsert u => some u.embedding
    | tombstone .. => none

end Publish

/-! ## The system -/

inductive Session where
  | offline | connected | subscribed
  deriving DecidableEq, Repr

/-- `assigned`: the ids ever published, the backend's. The edge may hold rows
under other ids (enrolled locally). -/
structure State (text : JsonText K) where
  retained : List (Upsert text)
  session : Session
  inFlight : List (Publish text)
  edge : SyncState K
  assigned : List ℤ

/-- `subscribe order`: the broker sends the retained messages in some order. -/
inductive Label (text : JsonText K) where
  | publish (p : Publish text)
  | connect
  | subscribe (order : List (Upsert text))
  | deliver (sqliteOk : Bool) (nowMs : Timestamp)
  | disconnect
  | restart

def assign (ids : List ℤ) : Publish text → List ℤ
  | .upsert u => u.id :: ids
  | .tombstone .. => ids

def step [DecidableEq K] (s : State text) : Label text → Option (State text)
  | .publish p => some { s with
      retained := p.retain s.retained
      inFlight := if s.session = .subscribed then s.inFlight ++ [p] else s.inFlight
      assigned := assign s.assigned p }
  | .connect => if s.session = .offline then some { s with session := .connected } else none
  | .subscribe order =>
    if s.session = .connected ∧ order.Perm s.retained then
      some { s with session := .subscribed, inFlight := order.map .upsert }
    else none
  | .deliver sqliteOk nowMs =>
    match s.inFlight with
    | [] => none
    | p :: rest => some { s with
        inFlight := rest
        edge := (onMessage text.parse ⟨some p.topic, p.payload, sqliteOk, nowMs⟩ s.edge).2 }
  | .disconnect =>
    if s.session ≠ .offline then some { s with session := .offline, inFlight := [] } else none
  | .restart => some { s with
      session := .offline
      inFlight := []
      edge := restart s.edge }

/-- An edge with the local rows `t`, before the backend's first publish. -/
def initial (text : JsonText K) (t : EmbeddingsTable K) : State text where
  retained := []
  session := .offline
  inFlight := []
  edge := boot t
  assigned := []

def system [DecidableEq K] (text : JsonText K) (t : EmbeddingsTable K) :
    LTS (State text) (Label text) :=
  .ofStep (· = initial text t) step

/-- What the broker holds under an id. -/
def State.retainedAt (s : State text) (id : ℤ) : Option (Embedding K) :=
  (lookup Upsert.id id s.retained).map Upsert.embedding

/-- What the edge's table holds under an id. -/
def State.heldAt (s : State text) : ℤ → Option (Embedding K) := stored s.edge.storage

/-- Table and matcher hold, of the backend's ids, exactly what is retained. -/
def Converged (s : State text) : Prop :=
  (∀ id ∈ s.assigned, s.heldAt id = s.retainedAt id ∧
    lookup Embedding.id id s.edge.cache = s.retainedAt id) ∧
  ∀ id, (s.retainedAt id).isSome → id ∈ s.assigned

/-- No backend id held by the edge lacks a retained message. -/
def NoneStale (s : State text) : Prop :=
  ∀ id ∈ s.assigned, (s.heldAt id).isSome → (s.retainedAt id).isSome

instance (s : State text) : Decidable (NoneStale s) :=
  inferInstanceAs (Decidable (∀ id ∈ s.assigned, _ → _))

/-- The condition on a step under which no tombstone is lost to the edge. A
message that SQLite refuses must be followed by another one for the same id. -/
def NothingLost (s : State text) : Label text → Prop
  | .publish (.tombstone id _ _) => s.session = .subscribed ∨ s.heldAt id = none
  | .deliver sqliteOk _ =>
    sqliteOk = true ∨ ∀ p ∈ s.inFlight.head?, ∃ q ∈ s.inFlight.tail, q.id = p.id
  | .disconnect | .restart => NoneStale s
  | _ => True

instance (s : State text) : (l : Label text) → Decidable (NothingLost s l)
  | .publish (.tombstone id _ _) => inferInstanceAs (Decidable (_ ∨ s.heldAt id = none))
  | .publish (.upsert _) => isTrue trivial
  | .connect | .subscribe _ => isTrue trivial
  | .deliver _ _ => inferInstanceAs (Decidable (_ ∨ _))
  | .disconnect | .restart => inferInstanceAs (Decidable (NoneStale s))

/-! ## Publishes, deliveries and snapshots as writes -/

theorem lookup_retain (p : Publish text) (slots : List (Upsert text)) (id : ℤ) :
    (lookup Upsert.id id (p.retain slots)).map Upsert.embedding =
      p.write.apply (fun k => (lookup Upsert.id k slots).map Upsert.embedding) id := by
  cases p with
  | upsert u =>
    simp only [Publish.retain, lookup_replaceOrPush, Publish.write, Write.apply,
      Function.update_apply, Publish.id, eq_comm (a := id)]
    split <;> rfl
  | tombstone i h0 h =>
    simp only [Publish.retain, lookup_eraseKey, Publish.write, Write.apply,
      Function.update_apply, Publish.id]
    split <;> rfl

theorem distinct_retain (p : Publish text) {slots : List (Upsert text)}
    (h : DistinctKeys Upsert.id slots) : DistinctKeys Upsert.id (p.retain slots) := by
  cases p with
  | upsert u => exact distinctKeys_replaceOrPush u h
  | tombstone i _ _ => exact distinctKeys_eraseKey i h

/-- A delivered message is a write to the edge's table. -/
theorem stored_deliver (p : Publish text) (nowMs : Timestamp) (e : SyncState K) :
    stored (onMessage text.parse ⟨some p.topic, p.payload, true, nowMs⟩ e).2.storage =
      p.write.apply (stored e.storage) := by
  funext id
  cases p with
  | upsert u =>
    have h := onMessage_upsert u.serial u.carried nowMs e
    simp only [Publish.topic, Publish.id, Upsert.id, Publish.payload, h]
    rw [stored_upsert e.storage ⟨u.msg.embeddingId, u.msg.employeeId, u.msg.vector⟩]
    simp only [Publish.write, Write.apply, Function.update_apply, Publish.id, Upsert.id,
      Upsert.embedding, eq_comm (a := id)]
  | tombstone i h0 h =>
    have he := onMessage_tombstone text.parse h0 h nowMs e
    simp only [Publish.topic, Publish.id, Publish.payload, he, stored_erase, Publish.write,
      Write.apply, Function.update_apply]

/-- The snapshot sets what is retained and leaves every other id alone. -/
theorem snapshot {slots order : List (Upsert text)} (hd : DistinctKeys Upsert.id slots)
    (hp : order.Perm slots) (m : ℤ → Option (Embedding K)) (id : ℤ) :
    Write.applyAll ((order.map Publish.upsert).map Publish.write) m id =
      ((lookup Upsert.id id slots).map Upsert.embedding).or (m id) := by
  refine Write.applyAll_snapshot
    (r := fun k => (lookup Upsert.id k slots).map Upsert.embedding) ?_ ?_ m id
  · intro w hw
    simp only [List.map_map, List.mem_map, Function.comp_apply] at hw
    obtain ⟨u, hu, rfl⟩ := hw
    have hl : lookup Upsert.id u.id slots = some u := lookup_of_mem hd (hp.subset hu)
    exact ⟨u.embedding, rfl, by simp [Publish.write, Publish.id, hl]⟩
  · intro k b hb
    obtain ⟨u, hu, -⟩ := Option.map_eq_some_iff.mp hb
    have hm : u ∈ order := hp.symm.subset (mem_of_lookup hu)
    have hk : u.id = k := key_of_lookup hu
    refine ⟨(Publish.upsert u).write, ?_, hk⟩
    exact List.mem_map_of_mem (List.mem_map_of_mem hm)

/-! ## The invariant -/

/-- The edge's table once the messages in flight have arrived. -/
def State.pendingAt (s : State text) : ℤ → Option (Embedding K) :=
  Write.applyAll (s.inFlight.map Publish.write) s.heldAt

structure Inv (s : State text) : Prop where
  distinct : DistinctKeys Upsert.id s.retained
  agree : Agree s.edge
  assigned : ∀ id, (s.retainedAt id).isSome → id ∈ s.assigned
  idle : s.session ≠ .subscribed → s.inFlight = []
  pending : s.session = .subscribed → ∀ id ∈ s.assigned, s.pendingAt id = s.retainedAt id
  held : s.session ≠ .subscribed → NoneStale s

theorem mem_assign {p : Publish text} {ids : List ℤ} {id : ℤ} (h : id ∈ assign ids p) :
    id ∈ ids ∨ id = p.id ∧ p.write.value.isSome := by
  cases p with
  | upsert u =>
    rcases List.mem_cons.mp h with rfl | h
    · exact Or.inr ⟨rfl, rfl⟩
    · exact Or.inl h
  | tombstone => exact Or.inl h

theorem mem_assign_of_mem {p : Publish text} {ids : List ℤ} {id : ℤ} (h : id ∈ ids) :
    id ∈ assign ids p := by
  cases p with
  | upsert u => exact List.mem_cons_of_mem _ h
  | tombstone => exact h

theorem self_mem_assign {p : Publish text} {ids : List ℤ} (h : p.write.value.isSome) :
    p.id ∈ assign ids p := by
  cases p with
  | upsert u => exact List.mem_cons_self
  | tombstone => cases h

theorem inv_initial (t : EmbeddingsTable K) : Inv (initial text t) where
  distinct := List.nodup_nil
  agree := agree_boot t
  assigned id h := by cases h
  idle _ := rfl
  pending h := by cases h
  held _ id h := by cases h

theorem inv_publish [DecidableEq K] {s s' : State text} {p : Publish text} (h : Inv s)
    (hs : step s (.publish p) = some s') (hc : NothingLost s (.publish p)) : Inv s' := by
  have hr : ∀ id, (s'.retainedAt id) = p.write.apply s.retainedAt id := by
    cases hs
    exact lookup_retain p s.retained
  cases hs
  refine ⟨distinct_retain p h.distinct, h.agree, fun id hid => ?_, fun hne => ?_,
    fun hsub id hid => ?_, fun hne id hid hheld => ?_⟩
  · rw [hr] at hid
    by_cases hk : id = p.id
    · subst hk
      exact self_mem_assign (by rwa [← Write.apply_self p.write s.retainedAt])
    · rw [Write.apply_of_ne _ _ hk] at hid
      exact mem_assign_of_mem (h.assigned id hid)
  · simp only [if_neg hne]
    exact h.idle hne
  · rw [hr]
    simp only at hsub
    simp only [State.pendingAt, if_pos hsub, List.map_append, List.map_cons,
      List.map_nil, Write.applyAll_append, Write.applyAll_cons, Write.applyAll_nil]
    by_cases hk : id = p.id
    · subst hk
      exact (Write.apply_self p.write _).trans (Write.apply_self p.write _).symm
    · rw [Write.apply_of_ne _ _ hk, Write.apply_of_ne _ _ hk]
      rcases mem_assign hid with hid | ⟨rfl, -⟩
      · exact h.pending hsub id hid
      · exact absurd rfl hk
  · rw [hr]
    by_cases hk : id = p.id
    · subst hk
      rw [show p.write.apply s.retainedAt p.id = p.write.value from Write.apply_self ..]
      cases p with
      | upsert u => rfl
      | tombstone i h0 hi =>
        rcases hc with hc | hc
        · exact absurd hc hne
        · have hn : (s.heldAt i).isSome := hheld
          rw [hc] at hn
          cases hn
    · rw [Write.apply_of_ne _ _ hk]
      rcases mem_assign hid with hid | ⟨rfl, -⟩
      · exact h.held hne id hid hheld
      · exact absurd rfl hk

theorem inv_subscribe [DecidableEq K] {s s' : State text} {order : List (Upsert text)}
    (h : Inv s) (hs : step s (.subscribe order) = some s') : Inv s' := by
  simp only [step] at hs
  split at hs
  · rename_i hg
    obtain ⟨hcon, hperm⟩ := hg
    have hne : s.session ≠ .subscribed := by
      rw [hcon]
      decide
    cases hs
    refine ⟨h.distinct, h.agree, h.assigned, fun hn => absurd rfl hn, fun _ id hid => ?_,
      fun hn => absurd rfl hn⟩
    have hsnap := snapshot h.distinct hperm s.heldAt id
    have hheld := h.held hne id hid
    show Write.applyAll ((order.map Publish.upsert).map Publish.write) s.heldAt id =
      s.retainedAt id
    rw [hsnap]
    show (s.retainedAt id).or (s.heldAt id) = s.retainedAt id
    cases hr : s.retainedAt id with
    | some e => rfl
    | none =>
      cases hh : s.heldAt id with
      | none => rfl
      | some e =>
        rw [hh, hr] at hheld
        cases hheld rfl
  · cases hs

theorem inv_deliver [DecidableEq K] {s s' : State text} {ok : Bool} {nowMs : Timestamp}
    (h : Inv s) (hs : step s (.deliver ok nowMs) = some s')
    (hc : NothingLost s (.deliver ok nowMs)) : Inv s' := by
  simp only [step] at hs
  cases hf : s.inFlight with
  | nil => rw [hf] at hs; cases hs
  | cons p rest =>
    have hsub : s.session = .subscribed := by
      by_contra hne
      rw [h.idle hne] at hf
      cases hf
    rw [hf] at hs
    cases hs
    refine ⟨h.distinct, agree_onMessage _ _ h.agree, h.assigned, fun hn => absurd hsub hn,
      fun _ id hid => ?_, fun hn => absurd hsub hn⟩
    have hpend := h.pending hsub id hid
    simp only [State.pendingAt, hf, List.map_cons, Write.applyAll_cons] at hpend
    refine Eq.trans ?_ hpend
    simp only [State.pendingAt, State.heldAt]
    cases ok with
    | true => rw [stored_deliver]
    | false =>
      rw [onMessage_sqlite_error]
      refine Write.applyAll_congr ?_
      by_cases hk : id = p.id
      · have hq := hc.resolve_left (by decide) p (by rw [hf]; rfl)
        rw [hf] at hq
        obtain ⟨q, hq, hqp⟩ := hq
        exact Or.inl ⟨q.write, List.mem_map_of_mem hq, hqp.trans hk.symm⟩
      · exact Or.inr (Write.apply_of_ne p.write _ hk).symm

/-- The connection is gone, with or without the process. -/
theorem inv_offline {s : State text} {e : SyncState K} (h : Inv s) (he : Agree e)
    (hst : e.storage = s.edge.storage) (hn : NoneStale s) :
    Inv { s with session := .offline, inFlight := [], edge := e } where
  distinct := h.distinct
  agree := he
  assigned := h.assigned
  idle _ := rfl
  pending hsub := by cases hsub
  held _ id hid hheld := hn id hid (by rwa [State.heldAt, ← hst])

theorem inv_step [DecidableEq K] {s s' : State text} {l : Label text} (h : Inv s)
    (hs : step s l = some s') (hc : NothingLost s l) : Inv s' := by
  cases l with
  | publish p => exact inv_publish h hs hc
  | connect =>
    simp only [step] at hs
    split at hs
    · rename_i hoff
      cases hs
      have hne : s.session ≠ .subscribed := by
        rw [hoff]
        decide
      exact ⟨h.distinct, h.agree, h.assigned, fun _ => h.idle hne,
        fun hsub => (by cases hsub), fun _ => h.held hne⟩
    · cases hs
  | subscribe order => exact inv_subscribe h hs
  | deliver ok nowMs => exact inv_deliver h hs hc
  | disconnect =>
    simp only [step] at hs
    split at hs
    · cases hs
      exact inv_offline h h.agree rfl hc
    · cases hs
  | restart =>
    cases hs
    exact inv_offline h (agree_boot s.edge.storage) rfl hc

/-! ## Convergence -/

/-- **The catalogue converges when no tombstone is lost.** -/
theorem catalogue_converges [DecidableEq K] (text : JsonText K) (t : EmbeddingsTable K)
    {s : State text} (hr : ((system text t).guard NothingLost).Reachable s)
    (hsub : s.session = .subscribed) (hf : s.inFlight = []) : Converged s := by
  have hinv : ((system text t).guard NothingLost).Inductive Inv :=
    ⟨fun s hs => hs ▸ inv_initial t, fun s l s' hi hs => inv_step hi hs.1 hs.2⟩
  have h : Inv s := hinv.reachable s hr
  refine ⟨fun id hid => ?_, h.assigned⟩
  have heq : s.heldAt id = s.retainedAt id := by
    have hpend := h.pending hsub id hid
    rwa [State.pendingAt, hf] at hpend
  exact ⟨heq, (h.agree.same id).trans heq⟩

/-! ## Runs -/

def axisText : JsonText ExtRat := .compact [(axisMsg 1 10).toJson]

/-- Embedding 1 of employee 10. -/
def axisUpsert : Upsert axisText where
  msg := axisMsg 1 10
  serial := by constructor <;> decide
  carried := by
    refine ⟨by decide +kernel, axis, List.Vector.map_id axis, ?_⟩
    simp [axisText, JsonText.compact, axisMsg]

/-- Embedding 1 reaches the edge and is deleted while the edge is connected. -/
theorem catalogue_converges_example :
    ∃ s : State axisText, Converged s ∧ s.assigned = [1] ∧ s.retainedAt 1 = none := by
  obtain ⟨s, hr, hsub, hf, ha, hn⟩ := LTS.exists_reachable_where
    (· = initial axisText Table.empty) step NothingLost
    [.publish (.upsert axisUpsert), .connect, .subscribe [axisUpsert], .deliver true 0,
      .publish (.tombstone 1 (by decide) (by decide)), .deliver true 0]
    rfl (fun s : State axisText => s.session = .subscribed ∧ s.inFlight.isEmpty = true ∧
      s.assigned = [1] ∧ s.retainedAt 1 = none) (by decide +kernel)
  exact ⟨s, catalogue_converges axisText Table.empty hr hsub (List.isEmpty_iff.mp hf), ha, hn⟩

/-- Deleted while the edge is away, embedding 1 is back in service with it. -/
theorem stale_after_reconnect :
    ∃ s : State axisText, (system axisText Table.empty).Reachable s ∧ s.session = .subscribed ∧
      s.inFlight = [] ∧ ¬ Converged s := by
  obtain ⟨s, hr, hsub, hf, ha, hh, hn⟩ := LTS.exists_reachable
    (· = initial axisText Table.empty) step
    [.publish (.upsert axisUpsert), .connect, .subscribe [axisUpsert], .deliver true 0,
      .disconnect, .publish (.tombstone 1 (by decide) (by decide)), .connect, .subscribe []]
    rfl (fun s : State axisText => s.session = .subscribed ∧ s.inFlight.isEmpty = true ∧
      s.assigned = [1] ∧ (s.heldAt 1).isSome = true ∧ s.retainedAt 1 = none) (by decide +kernel)
  refine ⟨s, hr, hsub, List.isEmpty_iff.mp hf, fun hc => ?_⟩
  have heq := (hc.1 1 (by rw [ha]; exact List.mem_singleton.mpr rfl)).1
  rw [heq, hn] at hh
  cases hh

end FaceGate.L5.Catalogue
