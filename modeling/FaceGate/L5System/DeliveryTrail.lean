import FaceGate.L5System.EventDelivery

/-!
# The way of a message

What a message at the backend was when it was submitted at the edge, and where the copies of an
event are in between.

* `way_step`: a message reaches the backend as it was submitted, under one ticket
  (`Way.submitted`, `arrivedOf_inj`).
* `backend_eq`: while no message is lost or delivered again, the backend has each message
  that has arrived once.
-/
namespace FaceGate.L5.DeliveryTrail

open Core Core.Keyed FaceGate.L1 FaceGate.L1.Domain FaceGate.L3 FaceGate.L4
open OfflineQueue (Thread)

variable {K : Type}

/-! ## The handler -/

section Handler
variable [FloatArith K] {parse : Bytes → Option (Json K)}

theorem employees_handlePublish (parse : Bytes → Option (Json K)) (msg : SerializedMessage)
    (dbUp : Bool) (gap : ℕ) (db : Database K) :
    (Ingest.handlePublish parse msg dbUp gap db).2.employees = db.employees := by
  unfold Ingest.handlePublish
  split
  · split
    · rfl
    · split
      · rfl
      · split
        · rfl
        · split
          · rfl
          · split
            · rfl
            · split
              · rfl
              · rename_i hins
                exact Database.employees_of_insertAccessEvent hins
  · split <;> rfl

/-- The handler has stored a row of the message, or nothing. -/
theorem handle_cases {b b' : Ingest.State K} {dbUp : Bool} {gap : ℕ}
    (hs : Ingest.step parse b (.handle dbUp gap) = some b') :
    ∃ n msg, b.handling = some n ∧ b.arrived[n]? = some msg ∧
      ((Ingest.handlePublish parse msg dbUp gap b.db).1 ≠ .stored ∧
          b' = { b with handling := none } ∨
        msg.topic = Ingest.TOPIC_ACCESS ∧ ∃ evt db,
          db.employees = b.db.employees ∧
          db.accessEvents = b.db.accessEvents.insert
            (Ingest.AccessEvent.row evt (b.db.accessEvents.last + 1 + gap))
            (evt.fresh_row b.db gap) ∧
          b' = { b with
            handling := none
            db := db
            origin := Function.update b.origin (b.db.accessEvents.last + 1 + gap) (some n) }) := by
  simp only [Ingest.step] at hs
  split at hs
  · rename_i n hn
    split at hs
    · rename_i msg hm
      refine ⟨n, msg, hn, hm, ?_⟩
      have hc := Ingest.handlePublish_cases parse msg dbUp gap b.db
      have hemp := employees_handlePublish parse msg dbUp gap b.db
      split at hs
      · rename_i db hh
        rw [hh] at hc hemp
        rcases hc with ⟨hne, -⟩ | ⟨-, -, ht, j, evt, -, -, -, hdb⟩
        · exact absurd rfl hne
        · cases hs
          exact Or.inr ⟨ht, evt, db, hemp, hdb, rfl⟩
      · rename_i o db hne hh
        cases hs
        rw [hh]
        exact Or.inl ⟨hne, rfl⟩
    · cases hs
  · cases hs

/-- Only messages of the access topic become rows. -/
def OnTopic (b : Ingest.State K) : Prop :=
  ∀ r ∈ b.db.accessEvents.rows, ∀ k, b.origin r.id = some k →
    ∃ msg, b.arrived[k]? = some msg ∧ msg.topic = Ingest.TOPIC_ACCESS

theorem onTopic_step {b b' : Ingest.State K} {l : Ingest.Label} (h : OnTopic b)
    (hs : Ingest.step parse b l = some b') : OnTopic b' := by
  cases l with
  | handle dbUp gap =>
    obtain ⟨n, msg, -, hm, ⟨-, rfl⟩ | ⟨ht, evt, db, -, hdb, rfl⟩⟩ := handle_cases hs
    · exact h
    · intro r hr k ho
      have hmem : r ∈ b.db.accessEvents.rows ∨
          r = evt.row (b.db.accessEvents.last + 1 + gap) := by
        rw [← Serial.mem_insert (h := evt.fresh_row b.db gap), ← hdb]
        exact hr
      rcases hmem with hr | rfl
      · exact h r hr k ((Ingest.origin_of_old b n gap hr).symm.trans ho)
      · have hself : Function.update b.origin (b.db.accessEvents.last + 1 + gap) (some n)
            (b.db.accessEvents.last + 1 + gap) = some n := Function.update_self ..
        have hok : some n = some k := hself.symm.trans ho
        cases hok
        exact ⟨msg, hm, ht⟩
  | arrive msg =>
    cases hs
    intro r hr k ho
    obtain ⟨m, hm, ht⟩ := h r hr k ho
    exact ⟨m, (List.getElem?_append_left (List.getElem?_eq_some_iff.mp hm).1).trans hm, ht⟩
  | poll i ackArrives =>
    cases Ingest.step_cases hs <;> exact h
  | createEmployee row =>
    cases Ingest.step_cases hs
    exact h
  | deleteEmployee id =>
    cases hs
    intro r hr k ho
    obtain ⟨a, ha, rfl⟩ := List.mem_map.mp hr
    rw [AccessEventRow.forget_id] at ho
    exact h a ha k ho

end Handler

/-! ## The way to the backend -/

theorem getElem?_of_forall₂ {A B : Type} {R : A → B → Prop} {l : List A} {m : List B}
    (h : List.Forall₂ R l m) {i : ℕ} {b : B} (hb : m[i]? = some b) :
    ∃ a, l[i]? = some a ∧ R a b := by
  induction h generalizing i with
  | nil => cases hb
  | cons hr _ ih =>
    cases i with
    | zero =>
      cases hb
      exact ⟨_, rfl, hr⟩
    | succ i => exact ih hb

/-- What a step of the delivery can do. -/
inductive Carry [FloatArith K] (parse : Bytes → Option (Json K)) (d : EventDelivery.State K) :
    EventDelivery.Label → EventDelivery.State K → Prop where
  | edge {l : OfflineQueue.Label} {e : OfflineQueue.State} :
      OfflineQueue.step d.edge l = some e → Carry parse d (.edge l) { d with edge := e }
  | transmit {n : ℕ} {m : OfflineQueue.Submission} {b : Ingest.State K} :
      d.edge.accepted[n]? = some m → Ingest.step parse d.backend (.arrive m.msg) = some b →
      Carry parse d (.transmit n) { d with
        sent := d.sent ++ [n]
        fresh := if n ∈ d.fresh then d.fresh else n :: d.fresh
        resent := if n ∈ d.fresh then n :: d.resent else d.resent
        backend := b }
  | backend {l : Ingest.Label} {b : Ingest.State K} :
      (∀ msg, l ≠ .arrive msg) → Ingest.step parse d.backend l = some b →
      Carry parse d (.backend l) { d with backend := b }

theorem carry_of_step [FloatArith K] {parse : Bytes → Option (Json K)}
    {d d' : EventDelivery.State K} {l : EventDelivery.Label}
    (hs : EventDelivery.step parse d l = some d') : Carry parse d l d' := by
  cases l with
  | edge l =>
    obtain ⟨e, he, rfl⟩ := Option.map_eq_some_iff.mp hs
    exact .edge he
  | transmit n =>
    simp only [EventDelivery.step] at hs
    split at hs
    · rename_i m hm
      obtain ⟨b, hb, rfl⟩ := Option.map_eq_some_iff.mp hs
      exact .transmit hm hb
    · cases hs
  | backend l =>
    have hl : ∀ msg, l ≠ .arrive msg := by
      rintro msg rfl
      cases hs
    have hmap : (Ingest.step parse d.backend l).map (fun b => { d with backend := b }) =
        some d' := by
      cases l with
      | arrive msg => cases hs
      | poll | handle | createEmployee | deleteEmployee => exact hs
    obtain ⟨b, hb, rfl⟩ := Option.map_eq_some_iff.mp hmap
    exact .backend hl hb

/-- What the broker has taken was accepted at the edge, and reaches the backend as it was. -/
def Forwarded (d : EventDelivery.State K) : Prop :=
  List.Forall₂ (fun n msg => ∃ m, d.edge.accepted[n]? = some m ∧ m.msg = msg) d.sent
    d.backend.arrived

structure Way (parse : Bytes → Option (Json K)) [FloatArith K] (d : EventDelivery.State K) :
    Prop where
  inv : EventDelivery.Inv d
  forwarded : Forwarded d
  rows : Ingest.RowsHold parse d.backend
  topics : OnTopic d.backend

section Way
variable [FloatArith K] {parse : Bytes → Option (Json K)} {d d' : EventDelivery.State K}

theorem way_initial (h : EventDelivery.Initial d) : Way parse d where
  inv := EventDelivery.inv_initial h
  forwarded := by
    rw [Forwarded, h.sent, h.backend.arrived]
    exact .nil
  rows r hr n ho := by
    rw [h.backend.origin r hr] at ho
    cases ho
  topics r hr n ho := by
    rw [h.backend.origin r hr] at ho
    cases ho

theorem getElem?_append_of_some {A : Type} {l : List A} {n : ℕ} {a : A} (h : l[n]? = some a)
    (m : List A) : (l ++ m)[n]? = some a :=
  (List.getElem?_append_left (List.getElem?_eq_some_iff.mp h).1).trans h

theorem forwarded_step {l : EventDelivery.Label} (h : Forwarded d) (hs : Carry parse d l d') :
    Forwarded d' := by
  cases hs with
  | @edge l e he =>
    obtain ⟨new, hnew⟩ := (OfflineQueue.step_explained he).accepted
    refine h.imp fun n msg hn => ?_
    obtain ⟨m, hm, hmsg⟩ := hn
    refine ⟨m, ?_, hmsg⟩
    rw [hnew]
    exact getElem?_append_of_some hm new
  | @transmit n m b hm hb =>
    cases hb
    exact List.rel_append h (.cons ⟨m, hm, rfl⟩ .nil)
  | @backend l b hl hb =>
    rw [Forwarded, EventDelivery.arrived_step hb hl]
    exact h

theorem way_step {l : EventDelivery.Label} (h : Way parse d)
    (hs : EventDelivery.step parse d l = some d') : Way parse d' := by
  have hc := carry_of_step hs
  refine ⟨EventDelivery.inv_step h.inv hs, forwarded_step h.forwarded hc, ?_, ?_⟩
  · cases hc with
    | edge he => exact h.rows
    | transmit hm hb => exact Ingest.rowsHold_step h.rows hb
    | backend hl hb => exact Ingest.rowsHold_step h.rows hb
  · cases hc with
    | edge he => exact h.topics
    | transmit hm hb => exact onTopic_step h.topics hb
    | backend hl hb => exact onTopic_step h.topics hb

/-- A message at the backend is one that was submitted. -/
theorem Way.submitted (h : Way parse d) {k : ℕ} {msg : SerializedMessage}
    (hk : d.backend.arrived[k]? = some msg) :
    ∃ t, d.arrivedOf t k = true ∧ d.edge.submitted[t]? = some msg := by
  obtain ⟨n, hn, m, hm, rfl⟩ := getElem?_of_forall₂ h.forwarded hk
  have hmem : m ∈ d.edge.accepted := List.mem_of_getElem? hm
  refine ⟨m.ticket, ?_, h.inv.edge.exact.accepted m hmem⟩
  rw [EventDelivery.State.arrivedOf, hn, Option.any_some, EventDelivery.State.acceptedOf, hm,
    Option.any_some, decide_eq_true rfl]

/-- And of one ticket. -/
theorem Way.submitted_of (h : Way parse d) {t k : ℕ} (hk : d.arrivedOf t k = true) :
    ∃ msg, d.backend.arrived[k]? = some msg ∧ d.edge.submitted[t]? = some msg := by
  obtain ⟨n, hn, ha⟩ := (Option.any_eq_true _ _).mp hk
  obtain ⟨m, hm, ht⟩ := (Option.any_eq_true _ _).mp ha
  obtain ⟨msg, hmsg, m', hm', rfl⟩ := getElem?_of_forall₂ (List.Forall₂.flip h.forwarded) hn
  obtain rfl : m = m' := Option.some.inj (hm.symm.trans hm')
  refine ⟨m.msg, hmsg, ?_⟩
  rw [← of_decide_eq_true ht]
  exact h.inv.edge.exact.accepted m (List.mem_of_getElem? hm)

end Way

/-! ## What is submitted -/

theorem submitted_step {q q' : OfflineQueue.State} {l : OfflineQueue.Label}
    (hl : ∀ who msg, l ≠ .submit who msg) (hs : OfflineQueue.step q l = some q') :
    q'.submitted = q.submitted := by
  cases l with
  | submit who msg => exact absurd rfl (hl who msg)
  | connection up =>
    cases hs
    rfl
  | publish who rc =>
    simp only [OfflineQueue.step] at hs
    split at hs
    · split at hs <;> cases hs <;> exact OfflineQueue.setCall_submitted ..
    · cases hs
  | enqueue who ok nowMs =>
    simp only [OfflineQueue.step] at hs
    split at hs
    · split at hs <;> cases hs <;> exact OfflineQueue.setCall_submitted ..
    · cases hs
  | checkConnected =>
    simp only [OfflineQueue.step] at hs
    split at hs <;> cases hs
    rfl
  | fetch ok =>
    simp only [OfflineQueue.step] at hs
    split at hs
    · split at hs <;> cases hs <;> rfl
    · cases hs
  | drainPublish rc =>
    simp only [OfflineQueue.step] at hs
    split at hs
    · split at hs <;> cases hs <;> rfl
    · cases hs
  | delete ok =>
    simp only [OfflineQueue.step] at hs
    split at hs
    · split at hs <;> cases hs <;> rfl
    · cases hs

theorem submitted_delivery [FloatArith K] {parse : Bytes → Option (Json K)}
    {d d' : EventDelivery.State K} {l : EventDelivery.Label}
    (hl : ∀ who msg, l ≠ .edge (.submit who msg))
    (hs : EventDelivery.step parse d l = some d') : d'.edge.submitted = d.edge.submitted := by
  cases carry_of_step hs with
  | edge he => exact submitted_step (fun who msg h => hl who msg (by rw [h])) he
  | transmit | backend => rfl

theorem submitted_submit [FloatArith K] {parse : Bytes → Option (Json K)}
    {d d' : EventDelivery.State K} {who : Thread} {msg : SerializedMessage}
    (hs : EventDelivery.step parse d (.edge (.submit who msg)) = some d') :
    d'.edge.submitted = d.edge.submitted ++ [msg] := by
  obtain ⟨e, he, rfl⟩ := Option.map_eq_some_iff.mp hs
  simp only [OfflineQueue.step] at he
  split at he <;> cases he
  exact OfflineQueue.setCall_submitted ..

/-! ## Where the copies of an event are -/

section Places
variable {d : EventDelivery.State K}

/-- Accepted by the publisher, not yet at the broker. -/
def untransmitted (d : EventDelivery.State K) (t : ℕ) : ℕ :=
  (List.range d.edge.accepted.length).countP fun n => d.acceptedOf t n && decide (n ∉ d.fresh)

theorem timesAccepted_eq (h : EventDelivery.Inv d) (t : ℕ) :
    d.edge.timesAccepted t = d.fresh.countP (d.acceptedOf t) + untransmitted d t := by
  have hperm : ((List.range d.edge.accepted.length).filter fun n => decide (n ∈ d.fresh)).Perm
      d.fresh := by
    refine (List.perm_ext_iff_of_nodup (List.nodup_range.filter _) h.fresh_nodup).mpr fun n => ?_
    rw [List.mem_filter, List.mem_range, decide_eq_true_eq]
    exact ⟨fun hn => hn.2, fun hn => ⟨h.fresh_lt n hn, hn⟩⟩
  calc d.edge.timesAccepted t
      = (List.range d.edge.accepted.length).countP (d.acceptedOf t) :=
        (EventDelivery.countP_range d.edge.accepted _).symm
    _ = _ := List.countP_eq_countP_filter_add _ _ fun n => decide (n ∈ d.fresh)
    _ = d.fresh.countP (d.acceptedOf t) + untransmitted d t := by
      rw [hperm.countP_eq, List.countP_filter, untransmitted]
      simp only [decide_not]

theorem arrivals_eq (h : EventDelivery.Inv d) (hresent : d.resent = []) (t : ℕ) :
    (List.range d.backend.arrived.length).countP (d.arrivedOf t) =
      d.fresh.countP (d.acceptedOf t) := by
  have hsplit := h.sent_split (d.acceptedOf t)
  rw [hresent, List.countP_nil, Nat.add_zero] at hsplit
  rw [← h.length, ← hsplit]
  exact EventDelivery.countP_range d.sent (d.acceptedOf t)

/-- What the backend has: as many as have arrived, if none of them is lost or delivered
again. -/
theorem backend_eq {b : Ingest.State K} (h : Ingest.Balance b) (hacks : b.lostAcks = [])
    {f : ℕ → Bool} (hplaced : ∀ k < b.arrived.length, f k = true → Ingest.Placed b k) :
    b.queue.countP f + Ingest.holding f b.handling + b.rowsOf f =
      (List.range b.arrived.length).countP f := by
  have hle := h f
  rw [hacks, List.countP_nil, Nat.add_zero] at hle
  refine Nat.le_antisymm hle ?_
  have hsub : List.Subperm ((List.range b.arrived.length).filter f)
      (b.queue ++ (b.handling.toList ++
        b.db.accessEvents.rows.filterMap fun r => b.origin r.id)) := by
    refine List.subperm_of_subset (List.nodup_range.filter _) fun k hk => ?_
    obtain ⟨hlt, hf⟩ := List.mem_filter.mp hk
    rcases hplaced k (List.mem_range.mp hlt) hf with hq | hh | ⟨r, hr, ho⟩
    · exact List.mem_append_left _ hq
    · exact List.mem_append_right _ (List.mem_append_left _ (Option.mem_toList.mpr hh))
    · exact List.mem_append_right _ (List.mem_append_right _ (List.mem_filterMap.mpr ⟨r, hr, ho⟩))
  have hcount := hsub.countP_le f
  have hholding : b.handling.toList.countP f = Ingest.holding f b.handling := by
    cases b.handling <;> simp [Ingest.holding, List.countP_cons]
  have hrows : (b.db.accessEvents.rows.filterMap fun r => b.origin r.id).countP f =
      b.rowsOf f := by
    rw [List.countP_filterMap]
    refine List.countP_congr fun r _ => ?_
    cases b.origin r.id <;> rfl
  have hself : ((List.range b.arrived.length).filter f).countP f =
      (List.range b.arrived.length).countP f := by
    rw [List.countP_filter]
    exact List.countP_congr fun k _ => by rw [Bool.and_self]
  rw [List.countP_append, List.countP_append, hholding, hrows, hself] at hcount
  omega

/-- Copies of the event that are not rows: at the edge, between the publisher and the broker, at
the broker, in the handler. -/
def onTheWay (d : EventDelivery.State K) (t : ℕ) : ℕ :=
  d.edge.inHand t + d.edge.queued t + untransmitted d t + d.backend.queue.countP (d.arrivedOf t) +
    Ingest.holding (d.arrivedOf t) d.backend.handling

def rowsFor (d : EventDelivery.State K) (t : ℕ) : List (AccessEventRow K) :=
  d.backend.db.accessEvents.rows.filter fun r => (d.backend.origin r.id).any (d.arrivedOf t)

theorem arrivedOf_inj {t u k : ℕ} (ht : d.arrivedOf t k = true) (hu : d.arrivedOf u k = true) :
    t = u := by
  obtain ⟨n, hn, hn'⟩ := (Option.any_eq_true _ _).mp ht
  obtain ⟨m, hm, hm'⟩ := (Option.any_eq_true _ _).mp hn'
  rw [EventDelivery.State.arrivedOf, hn, Option.any_some, EventDelivery.State.acceptedOf, hm,
    Option.any_some] at hu
  exact (of_decide_eq_true hm').symm.trans (of_decide_eq_true hu)

section Steps
variable [FloatArith K] {parse : Bytes → Option (Json K)} {d' : EventDelivery.State K}

end Steps

end Places

end FaceGate.L5.DeliveryTrail
