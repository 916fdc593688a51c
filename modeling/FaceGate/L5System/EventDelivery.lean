import FaceGate.L3Edge.OfflineQueue
import FaceGate.L4Backend.Ingest

/-!
# From the edge to the backend: how often an event becomes a row

The edge's offline queue (`L3.OfflineQueue`) hands a message to the publisher,
more than once when the delete after it fails. The publisher transmits it to the
broker, more than once when the connection drops before the PUBACK. The broker
delivers it to the backend (`L4.Ingest`), more than once when the backend's
acknowledgement is lost. `handle_publish` inserts a row each time: nothing in a
message or in `access_events` identifies the decision it reports.

* `rows_le`: rows of one event are at most one, and one more for each failed
  delete, retransmission and lost acknowledgement of it.
* `event_counted_twice`: one failed delete is enough for two rows.
-/
namespace FaceGate.L5.EventDelivery

open Core FaceGate.L1 FaceGate.L3 FaceGate.L4

variable {K : Type} [FloatArith K]

/-- `sent`: for each message the broker has taken, the acceptance it transmits;
`fresh` and `resent` are its first and its further transmissions. -/
structure State (K : Type) where
  edge : OfflineQueue.State
  sent : List ℕ
  fresh : List ℕ
  resent : List ℕ
  backend : Ingest.State K

/-- `transmit n`: the message accepted `n`-th reaches the broker. -/
inductive Label where
  | edge (l : OfflineQueue.Label)
  | transmit (n : ℕ)
  | backend (l : Ingest.Label)

def step (parse : Bytes → Option (Json K)) (s : State K) : Label → Option (State K)
  | .edge l => (OfflineQueue.step s.edge l).map fun e => { s with edge := e }
  | .transmit n =>
    match s.edge.accepted[n]? with
    | some m => (Ingest.step parse s.backend (.arrive m.msg)).map fun b => { s with
        sent := s.sent ++ [n]
        fresh := if n ∈ s.fresh then s.fresh else n :: s.fresh
        resent := if n ∈ s.fresh then n :: s.resent else s.resent
        backend := b }
    | none => none
  | .backend (.arrive _) => none
  | .backend l => (Ingest.step parse s.backend l).map fun b => { s with backend := b }

structure Initial (s : State K) : Prop where
  edge : OfflineQueue.Initial s.edge
  sent : s.sent = []
  fresh : s.fresh = []
  resent : s.resent = []
  backend : Ingest.Initial s.backend

def system (parse : Bytes → Option (Json K)) : LTS (State K) Label := .ofStep Initial (step parse)

/-! ## Which event a message is about -/

/-- The `n`-th acceptance is of the event with ticket `t`. -/
def State.acceptedOf (s : State K) (t n : ℕ) : Bool := (s.edge.accepted[n]?).any (·.ticket = t)

/-- The `k`-th message at the broker is. -/
def State.arrivedOf (s : State K) (t k : ℕ) : Bool := (s.sent[k]?).any (s.acceptedOf t)

/-- The rows of `access_events` for the event. -/
def State.rowsOfEvent (s : State K) (t : ℕ) : ℕ := s.backend.rowsOf (s.arrivedOf t)

/-- Counting positions is counting elements. -/
theorem countP_range {A : Type} (l : List A) (f : A → Bool) :
    ((List.range l.length).countP fun n => (l[n]?).any f) = l.countP f := by
  have h : (List.range l.length).map (fun n => l[n]?) = l.map some := by
    refine List.ext_getElem (by simp) fun i h₁ h₂ => ?_
    simp
  calc ((List.range l.length).countP fun n => (l[n]?).any f)
      = ((List.range l.length).map fun n => l[n]?).countP (Option.any f) := by
        rw [List.countP_map]; rfl
    _ = l.countP f := by rw [h, List.countP_map]; rfl

/-! ## The invariant -/

structure Inv (s : State K) : Prop where
  edge : OfflineQueue.Inv s.edge
  backend : Ingest.Balance s.backend
  length : s.sent.length = s.backend.arrived.length
  fresh_nodup : s.fresh.Nodup
  fresh_lt : ∀ n ∈ s.fresh, n < s.edge.accepted.length
  sent_split : ∀ p : ℕ → Bool, s.sent.countP p = s.fresh.countP p + s.resent.countP p

omit [FloatArith K] in
theorem inv_initial {s : State K} (h : Initial s) : Inv s where
  edge := OfflineQueue.inv_initial h.edge
  backend := Ingest.balance_initial h.backend
  length := by rw [h.sent, h.backend.arrived]; rfl
  fresh_nodup := by rw [h.fresh]; exact List.nodup_nil
  fresh_lt n hn := by rw [h.fresh] at hn; cases hn
  sent_split p := by rw [h.sent, h.fresh, h.resent]; rfl

theorem inv_transmit {parse : Bytes → Option (Json K)} {s s' : State K} {n : ℕ} (h : Inv s)
    (hs : step parse s (.transmit n) = some s') : Inv s' := by
  simp only [step] at hs
  split at hs
  · rename_i m hm
    obtain ⟨b, hb, rfl⟩ := Option.map_eq_some_iff.mp hs
    have hn : n < s.edge.accepted.length := (List.getElem?_eq_some_iff.mp hm).1
    refine ⟨h.edge, Ingest.balance_step h.backend hb, ?_, ?_, fun k hk => ?_, fun p => ?_⟩
    · cases hb
      simp only [List.length_append, List.length_singleton, h.length]
    · simp only
      split
      · exact h.fresh_nodup
      · rename_i hnew
        exact List.nodup_cons.mpr ⟨hnew, h.fresh_nodup⟩
    · simp only at hk
      split at hk
      · exact h.fresh_lt k hk
      · rcases List.mem_cons.mp hk with rfl | hk
        · exact hn
        · exact h.fresh_lt k hk
    · have hsplit := h.sent_split p
      by_cases hf : n ∈ s.fresh
      · simp only [if_pos hf, List.countP_append, List.countP_cons, List.countP_nil]
        omega
      · simp only [if_neg hf, List.countP_append, List.countP_cons, List.countP_nil]
        omega
  · cases hs

theorem arrived_step {parse : Bytes → Option (Json K)} {b b' : Ingest.State K} {l : Ingest.Label}
    (hs : Ingest.step parse b l = some b') (hl : ∀ msg, l ≠ .arrive msg) :
    b'.arrived = b.arrived := by
  cases Ingest.step_cases hs with
  | arrive msg => exact absurd rfl (hl msg)
  | acked | unacked | rejected | stored | createEmployee | deleteEmployee => rfl

theorem inv_step {parse : Bytes → Option (Json K)} {s s' : State K} {l : Label} (h : Inv s)
    (hs : step parse s l = some s') : Inv s' := by
  cases l with
  | edge l =>
    obtain ⟨e, he, rfl⟩ := Option.map_eq_some_iff.mp hs
    obtain ⟨new, hnew⟩ := (OfflineQueue.step_explained he).accepted
    refine ⟨OfflineQueue.inv_step h.edge he, h.backend, h.length, h.fresh_nodup, fun n hn => ?_,
      h.sent_split⟩
    have hlt := h.fresh_lt n hn
    simp only [hnew, List.length_append]
    omega
  | transmit n => exact inv_transmit h hs
  | backend l =>
    have hl : (∀ msg, l ≠ .arrive msg) ∧ ∃ b, Ingest.step parse s.backend l = some b ∧
        s' = { s with backend := b } := by
      cases l with
      | arrive msg => cases hs
      | poll i a =>
        obtain ⟨b, hb, rfl⟩ := Option.map_eq_some_iff.mp hs
        exact ⟨fun _ he => (by cases he), b, hb, rfl⟩
      | handle u g =>
        obtain ⟨b, hb, rfl⟩ := Option.map_eq_some_iff.mp hs
        exact ⟨fun _ he => (by cases he), b, hb, rfl⟩
      | createEmployee r =>
        obtain ⟨b, hb, rfl⟩ := Option.map_eq_some_iff.mp hs
        exact ⟨fun _ he => (by cases he), b, hb, rfl⟩
      | deleteEmployee id =>
        cases hs
        exact ⟨fun _ he => (by cases he), _, rfl, rfl⟩
    obtain ⟨hna, b, hb, rfl⟩ := hl
    refine ⟨h.edge, Ingest.balance_step h.backend hb, ?_, h.fresh_nodup, h.fresh_lt, h.sent_split⟩
    rw [arrived_step hb hna]
    exact h.length

/-! ## The number of rows -/

/-- **How often an event is counted.** -/
theorem rows_le (parse : Bytes → Option (Json K)) {s : State K} (hr : (system parse).Reachable s)
    (t : ℕ) :
    s.rowsOfEvent t ≤ 1 + s.edge.undeleted.count t + s.resent.countP (s.acceptedOf t) +
      s.backend.lostAcks.countP (s.arrivedOf t) := by
  have hind : (system parse).Inductive Inv :=
    ⟨fun s hs => inv_initial hs, fun s l s' hi hs => inv_step hi hs⟩
  have h : Inv s := hind.reachable s hr
  have hbackend := h.backend (s.arrivedOf t)
  have hsent : (List.range s.backend.arrived.length).countP (s.arrivedOf t) =
      s.sent.countP (s.acceptedOf t) := by
    rw [← h.length]
    exact countP_range s.sent (s.acceptedOf t)
  have hsplit := h.sent_split (s.acceptedOf t)
  have hfresh : s.fresh.countP (s.acceptedOf t) ≤ s.edge.timesAccepted t := by
    have hsub : List.Subperm s.fresh (List.range s.edge.accepted.length) :=
      List.subperm_of_subset h.fresh_nodup fun n hn => List.mem_range.mpr (h.fresh_lt n hn)
    calc s.fresh.countP (s.acceptedOf t)
        ≤ (List.range s.edge.accepted.length).countP (s.acceptedOf t) := hsub.countP_le _
      _ = s.edge.timesAccepted t := countP_range s.edge.accepted _
  have hbal := h.edge.balance t
  have hcopies : s.edge.timesAccepted t ≤ s.edge.copies t := by
    unfold OfflineQueue.State.copies
    omega
  have hone : (if t < s.edge.submitted.length then 1 else 0) ≤ 1 := by split <;> omega
  unfold State.rowsOfEvent
  omega

/-! ## Runs -/

open Ingest (eventText unknownMsg idle)

def start : State ExtRat := ⟨OfflineQueue.boot, [], [], [], idle⟩

theorem initial_start : Initial start :=
  ⟨OfflineQueue.initial_boot, rfl, rfl, rfl, Ingest.initial_idle⟩

/-- An event waits in the queue, is drained, transmitted and stored. -/
theorem rows_le_example :
    ∃ s : State ExtRat, s.rowsOfEvent 0 ≤ 1 ∧ s.edge.submitted = [unknownMsg] := by
  obtain ⟨s, hr, hu, hre, hl, hm⟩ := LTS.exists_reachable Initial (step eventText.parse)
    [.edge (.submit .main unknownMsg), .edge (.publish .main true), .edge (.enqueue .main true 0),
      .edge (.connection true), .edge .checkConnected, .edge (.fetch true),
      .edge (.drainPublish true), .edge (.delete true), .transmit 0, .backend (.poll 0 true),
      .backend (.handle true 0)]
    initial_start (fun s => s.edge.undeleted = [] ∧ s.resent = [] ∧ s.backend.lostAcks = [] ∧
      s.edge.submitted = [unknownMsg]) (by decide +kernel)
  have h := rows_le eventText.parse hr 0
  rw [hu, hre, hl] at h
  exact ⟨s, h, hm⟩

/-- One delete fails, nothing is delivered twice: two rows. -/
theorem event_counted_twice :
    ∃ s : State ExtRat, (system eventText.parse).Reachable s ∧ s.edge.submitted = [unknownMsg] ∧
      s.resent = [] ∧ s.backend.lostAcks = [] ∧ s.rowsOfEvent 0 = 2 := by
  exact LTS.exists_reachable Initial (step eventText.parse)
    [.edge (.submit .main unknownMsg), .edge (.publish .main true), .edge (.enqueue .main true 0),
      .edge (.connection true), .edge .checkConnected, .edge (.fetch true),
      .edge (.drainPublish true), .edge (.delete false), .transmit 0,
      .edge .checkConnected, .edge (.fetch true), .edge (.drainPublish true), .edge (.delete true),
      .transmit 1, .backend (.poll 0 true), .backend (.handle true 0), .backend (.poll 0 true),
      .backend (.handle true 0)]
    initial_start (fun s => s.edge.submitted = [unknownMsg] ∧ s.resent = [] ∧
      s.backend.lostAcks = [] ∧ s.rowsOfEvent 0 = 2) (by decide +kernel)

end FaceGate.L5.EventDelivery
