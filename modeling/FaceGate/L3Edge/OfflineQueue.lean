import FaceGate.Core.LTS
import FaceGate.L2Device.Storage

/-!
# The offline queue: two threads, one publisher, one table

`try_publish_or_enqueue` publishes a message or, when that fails, inserts it into
`pending_events`. The main thread calls it for access events and faults, the
auxiliary thread for heartbeats; in between, the auxiliary thread drains the
table, fifty rows at a time: publish a row, then delete it. The connection comes
and goes at any moment, and any Storage call may throw: an enqueue that throws is
logged and the message dropped, a fetch or a delete that throws ends the batch.

A call of `try_publish_or_enqueue` takes the next ticket. Tickets, and the ghosts
`origin` (row to ticket), `lost` and `undeleted` (what the throws did), are not in
the program; `submitted`, `accepted` are its history.

* `conservation`: in every run, copies + losses = 1 + failed deletes, ticket by
  ticket, where a copy is a message in hand, a row, or an acceptance (the row
  between its publish and its delete counts as accepted).
  Each copy carries the message submitted (`Exact`).
* `queue_exactly_once`: without throws one copy, so at most one acceptance; when
  only deletes throw at least one, possibly two acceptances.
-/
namespace FaceGate.L3.OfflineQueue

open Core Core.Keyed FaceGate.L1 FaceGate.L1.Domain FaceGate.L2.Storage

/-! ## The system -/

/-- mirrors edge/src/pipeline/pipeline.cpp:322 -/
def kDrainBatchSize : ℕ := 50

/-- `connected_` is read first; `rc` says whether mosquitto takes the message.
mirrors edge/src/mqtt/mqtt_publisher.cpp:135-150 -/
def publish (connected rc : Bool) : Bool := connected && rc

inductive Thread where
  | main | auxiliary
  deriving DecidableEq, Repr

structure Submission where
  ticket : ℕ
  msg : SerializedMessage
  deriving DecidableEq, Repr

/-- A call of `try_publish_or_enqueue`: before the publish, or before the insert.
mirrors edge/src/pipeline/pipeline.cpp:109-122 -/
inductive Call where
  | publishing (m : Submission)
  | enqueueing (m : Submission)
  deriving DecidableEq, Repr

def Call.submission : Call → Submission
  | publishing m | enqueueing m => m

/-- mirrors edge/src/pipeline/pipeline.cpp:324-367 -/
inductive AuxPc where
  | idle
  | calling (c : Call)
  | fetching
  | draining (batch : List PendingEvent)
  | deleting (event : PendingEvent) (rest : List PendingEvent)
  deriving DecidableEq, Repr

structure State where
  pending : PendingTable
  connected : Bool
  main : Option Call
  aux : AuxPc
  submitted : List SerializedMessage
  accepted : List Submission
  origin : ℤ → ℕ
  lost : List ℕ
  undeleted : List ℕ

/-- `sqliteOk = false`: the Storage call throws. -/
inductive Label where
  | connection (up : Bool)
  | submit (who : Thread) (msg : SerializedMessage)
  | publish (who : Thread) (rc : Bool)
  | enqueue (who : Thread) (sqliteOk : Bool) (nowMs : Timestamp)
  | checkConnected
  | fetch (sqliteOk : Bool)
  | drainPublish (rc : Bool)
  | delete (sqliteOk : Bool)
  deriving DecidableEq, Repr

/-- The call a thread is in. -/
def State.call (s : State) : Thread → Option Call
  | .main => s.main
  | .auxiliary =>
    match s.aux with
    | .calling c => some c
    | _ => none

def State.setCall (s : State) : Thread → Option Call → State
  | .main, c => { s with main := c }
  | .auxiliary, some c => { s with aux := .calling c }
  | .auxiliary, none => { s with aux := .idle }

/-- The thread may call: the main loop is out of a call, the auxiliary loop also
out of the drainer. -/
def State.free (s : State) : Thread → Bool
  | .main => s.main.isNone
  | .auxiliary => s.aux = .idle

/-- The loop over what is left of the batch. -/
def drain : List PendingEvent → AuxPc
  | [] => .idle
  | e :: rest => .draining (e :: rest)

def step (s : State) : Label → Option State
  | .connection up => some { s with connected := up }
  | .submit who msg =>
    if s.free who then
      some ({ s with submitted := s.submitted ++ [msg] }.setCall who
        (some (.publishing ⟨s.submitted.length, msg⟩)))
    else none
  | .publish who rc =>
    match s.call who with
    | some (.publishing m) =>
      if OfflineQueue.publish s.connected rc then
        some ({ s with accepted := s.accepted ++ [m] }.setCall who none)
      else some (s.setCall who (some (.enqueueing m)))
    | _ => none
  | .enqueue who sqliteOk nowMs =>
    match s.call who with
    | some (.enqueueing m) =>
      match enqueuePendingEvent sqliteOk nowMs m.msg s.pending with
      | .ok t =>
        some ({ s with
          pending := t
          origin := Function.update s.origin t.last m.ticket }.setCall who none)
      | .error _ => some ({ s with lost := m.ticket :: s.lost }.setCall who none)
    | _ => none
  | .checkConnected =>
    if s.aux = .idle ∧ s.connected then some { s with aux := .fetching } else none
  | .fetch sqliteOk =>
    if s.aux = .fetching then
      match fetchPendingEvents sqliteOk kDrainBatchSize s.pending with
      | .ok batch => some { s with aux := drain batch }
      | .error _ => some { s with aux := .idle }
    else none
  | .drainPublish rc =>
    match s.aux with
    | .draining (e :: rest) =>
      if OfflineQueue.publish s.connected rc then
        some { s with
          accepted := s.accepted ++ [⟨s.origin e.id, e.message⟩]
          aux := .deleting e rest }
      else some { s with aux := .idle }  -- break
    | _ => none
  | .delete sqliteOk =>
    match s.aux with
    | .deleting e rest =>
      match deletePendingEvent sqliteOk e.id s.pending with
      | .ok t => some { s with pending := t, aux := drain rest }
      | .error _ => some { s with undeleted := s.origin e.id :: s.undeleted, aux := .idle }
    | _ => none

/-- The program starts. The rows an earlier run left count as submitted, in order. -/
structure Initial (s : State) : Prop where
  main : s.main = none
  aux : s.aux = .idle
  submitted : s.submitted = s.pending.rows.map PendingEvent.message
  origin : s.pending.rows.map (fun r => s.origin r.id) = List.range s.pending.rows.length
  accepted : s.accepted = []
  lost : s.lost = []
  undeleted : s.undeleted = []

def system : LTS State Label := .ofStep Initial step

/-! ## Where the copies of a message are -/

def holds (t : ℕ) : Option Call → ℕ
  | some c => if c.submission.ticket = t then 1 else 0
  | none => 0

@[simp] theorem holds_none (t : ℕ) : holds t none = 0 := rfl

@[simp] theorem holds_publishing (t : ℕ) (m : Submission) :
    holds t (some (.publishing m)) = if m.ticket = t then 1 else 0 := rfl

@[simp] theorem holds_enqueueing (t : ℕ) (m : Submission) :
    holds t (some (.enqueueing m)) = if m.ticket = t then 1 else 0 := rfl

def State.deletingId (s : State) : Option ℤ :=
  match s.aux with
  | .deleting e _ => some e.id
  | _ => none

/-- In its submitter's hand. -/
def State.inHand (s : State) (t : ℕ) : ℕ := holds t s.main + holds t (s.call .auxiliary)

/-- Rows, but not the one the drainer has published and is about to delete. -/
def State.queued (s : State) (t : ℕ) : ℕ :=
  s.pending.rows.countP fun r => s.origin r.id = t && decide (s.deletingId ≠ some r.id)

def State.timesAccepted (s : State) (t : ℕ) : ℕ := s.accepted.countP fun a => a.ticket = t

def State.copies (s : State) (t : ℕ) : ℕ := s.inHand t + s.queued t + s.timesAccepted t

/-- Every copy carries the topic and payload submitted under its ticket. -/
structure Exact (s : State) : Prop where
  inHand : ∀ who c, s.call who = some c → s.submitted[c.submission.ticket]? = some c.submission.msg
  queued : ∀ r ∈ s.pending.rows, s.submitted[s.origin r.id]? = some r.message
  accepted : ∀ a ∈ s.accepted, s.submitted[a.ticket]? = some a.msg

/-- The rows the drainer still has in its snapshot. -/
def AuxPc.batch : AuxPc → List PendingEvent
  | draining batch => batch
  | deleting e rest => e :: rest
  | _ => []

/-- Copies and losses of a ticket: one, and one more for each failed delete. -/
def Balance (s : State) : Prop :=
  ∀ t, s.copies t + s.lost.count t =
    (if t < s.submitted.length then 1 else 0) + s.undeleted.count t

structure Inv (s : State) : Prop where
  balance : Balance s
  exact : Exact s
  batch : ∀ e ∈ s.aux.batch, e ∈ s.pending.rows
  nodup : DistinctKeys PendingEvent.id s.aux.batch

/-! ## Threads entering and leaving a call -/

section SetCall
variable (s : State) (who : Thread) (c : Option Call)

@[simp] theorem setCall_pending : (s.setCall who c).pending = s.pending := by
  cases who <;> cases c <;> rfl

@[simp] theorem setCall_submitted : (s.setCall who c).submitted = s.submitted := by
  cases who <;> cases c <;> rfl

@[simp] theorem setCall_accepted : (s.setCall who c).accepted = s.accepted := by
  cases who <;> cases c <;> rfl

@[simp] theorem setCall_origin : (s.setCall who c).origin = s.origin := by
  cases who <;> cases c <;> rfl

@[simp] theorem setCall_lost : (s.setCall who c).lost = s.lost := by
  cases who <;> cases c <;> rfl

@[simp] theorem setCall_undeleted : (s.setCall who c).undeleted = s.undeleted := by
  cases who <;> cases c <;> rfl

/-- The hand of the thread changes, the other one does not. -/
theorem setCall_inHand (t : ℕ) :
    (s.setCall who c).inHand t + holds t (s.call who) = s.inHand t + holds t c := by
  cases who with
  | main =>
    simp only [State.inHand, State.setCall, State.call]
    omega
  | auxiliary =>
    cases c <;> simp only [State.inHand, State.setCall, State.call, holds] <;> omega

theorem call_setCall {w : Thread} {d : Call} (h : (s.setCall who c).call w = some d) :
    c = some d ∨ s.call w = some d := by
  cases who <;> cases w <;> cases c <;> simp_all [State.setCall, State.call]

variable {s who}

/-- A thread that may enter or leave a call is not draining. -/
theorem setCall_deletingId (h : s.free who = true ∨ ∃ d, s.call who = some d) :
    (s.setCall who c).deletingId = s.deletingId := by
  cases who with
  | main => rfl
  | auxiliary =>
    cases ha : s.aux <;> cases c <;>
      simp_all [State.setCall, State.deletingId, State.free, State.call]

theorem setCall_batch (h : s.free who = true ∨ ∃ d, s.call who = some d) :
    (s.setCall who c).aux.batch = s.aux.batch := by
  cases who with
  | main => rfl
  | auxiliary =>
    cases ha : s.aux <;> cases c <;>
      simp_all [State.setCall, AuxPc.batch, State.free, State.call]

theorem call_of_free (h : s.free who = true) : s.call who = none := by
  cases who <;> simp_all [State.free, State.call]

theorem setCall_copies (h : s.free who = true ∨ ∃ d, s.call who = some d) (t : ℕ) :
    (s.setCall who c).copies t + holds t (s.call who) = s.copies t + holds t c := by
  have hh := setCall_inHand s who c t
  have hq : (s.setCall who c).queued t = s.queued t := by
    simp only [State.queued, setCall_pending, setCall_origin, setCall_deletingId c h]
  have ha : (s.setCall who c).timesAccepted t = s.timesAccepted t := by
    simp only [State.timesAccepted, setCall_accepted]
  simp only [State.copies, hq, ha]
  omega

theorem setCall_exact (h : Exact s)
    (hc : ∀ d, c = some d → s.submitted[d.submission.ticket]? = some d.submission.msg) :
    Exact (s.setCall who c) := by
  refine ⟨fun w d hd => ?_, ?_, ?_⟩
  · rw [setCall_submitted]
    rcases call_setCall s who c hd with hd | hd
    · exact hc d hd
    · exact h.inHand w d hd
  · rw [setCall_submitted, setCall_pending, setCall_origin]
    exact h.queued
  · rw [setCall_submitted, setCall_accepted]
    exact h.accepted

end SetCall

/-! ## Step lemmas -/

theorem getElem?_append_of_some {l : List SerializedMessage} {t : ℕ} {m : SerializedMessage}
    (h : l[t]? = some m) (l' : List SerializedMessage) : (l ++ l')[t]? = some m := by
  rw [List.getElem?_append_left (List.getElem?_eq_some_iff.mp h).1]
  exact h

theorem copies_accept (s : State) (m : Submission) (t : ℕ) :
    { s with accepted := s.accepted ++ [m] }.copies t =
      s.copies t + if m.ticket = t then 1 else 0 := by
  simp only [State.copies, State.timesAccepted, List.countP_append, List.countP_singleton,
    decide_eq_true_eq]
  show s.inHand t + s.queued t + _ = s.inHand t + s.queued t + _ + _
  omega

/-- A thread enters or leaves a call: the books are balanced by what it had and
what it has in hand. -/
theorem inv_setCall {s : State} {who : Thread} {c : Option Call}
    (hr : s.free who = true ∨ ∃ d, s.call who = some d) (hex : Exact s)
    (hb : ∀ e ∈ s.aux.batch, e ∈ s.pending.rows) (hn : DistinctKeys PendingEvent.id s.aux.batch)
    (hc : ∀ d, c = some d → s.submitted[d.submission.ticket]? = some d.submission.msg)
    (hbal : ∀ t, s.copies t + holds t c + s.lost.count t =
      (if t < s.submitted.length then 1 else 0) + s.undeleted.count t + holds t (s.call who)) :
    Inv (s.setCall who c) := by
  refine ⟨fun t => ?_, setCall_exact c hex hc, ?_, ?_⟩
  · have hcopies := setCall_copies c hr t
    have hsum := hbal t
    rw [setCall_lost, setCall_undeleted, setCall_submitted]
    omega
  · rw [setCall_batch c hr, setCall_pending]
    exact hb
  · rw [setCall_batch c hr]
    exact hn

theorem inv_submit {s : State} {who : Thread} (msg : SerializedMessage) (h : Inv s)
    (hf : s.free who = true) :
    Inv ({ s with submitted := s.submitted ++ [msg] }.setCall who
      (some (.publishing ⟨s.submitted.length, msg⟩))) := by
  set s₁ : State := { s with submitted := s.submitted ++ [msg] } with hs₁
  have hex : Exact s₁ := by
    refine ⟨fun w c hc => ?_, fun r hr => ?_, fun a ha => ?_⟩
    · exact getElem?_append_of_some (h.exact.inHand w c (by cases w <;> exact hc)) [msg]
    · exact getElem?_append_of_some (h.exact.queued r hr) [msg]
    · exact getElem?_append_of_some (h.exact.accepted a ha) [msg]
  refine inv_setCall (Or.inl (by cases who <;> exact hf)) hex h.batch h.nodup ?_ fun t => ?_
  · intro d hd
    cases hd
    simp [hs₁, Call.submission]
  · have hnone : s₁.call who = none := by
      have := call_of_free hf
      cases who <;> exact this
    have hold := h.balance t
    rw [hnone, holds_none, holds_publishing]
    show s.copies t + _ + s.lost.count t =
      (if t < (s.submitted ++ [msg]).length then 1 else 0) + s.undeleted.count t + 0
    rw [List.length_append, List.length_singleton]
    dsimp only
    split at hold <;> split <;> split <;> omega

/-- The publisher takes the message: it leaves the hand. -/
theorem inv_publish_ok {s : State} {who : Thread} {m : Submission} (h : Inv s)
    (hc : s.call who = some (.publishing m)) :
    Inv ({ s with accepted := s.accepted ++ [m] }.setCall who none) := by
  set s₁ : State := { s with accepted := s.accepted ++ [m] } with hs₁
  have hc₁ : s₁.call who = some (.publishing m) := by cases who <;> exact hc
  have hex : Exact s₁ := by
    refine ⟨fun w c hw => h.exact.inHand w c (by cases w <;> exact hw), h.exact.queued,
      fun a ha => ?_⟩
    rcases List.mem_append.mp ha with ha | ha
    · exact h.exact.accepted a ha
    · rw [List.mem_singleton.mp ha]
      exact h.exact.inHand who _ hc
  refine inv_setCall (Or.inr ⟨_, hc₁⟩) hex h.batch h.nodup nofun fun t => ?_
  have hold := h.balance t
  rw [hc₁, holds_publishing, holds_none, hs₁, copies_accept]
  show _ + 0 + s.lost.count t =
    (if t < s.submitted.length then 1 else 0) + s.undeleted.count t + _
  omega

/-- The publisher refuses it: the same message is in the hand. -/
theorem inv_publish_failed {s : State} {who : Thread} {m : Submission} (h : Inv s)
    (hc : s.call who = some (.publishing m)) : Inv (s.setCall who (some (.enqueueing m))) := by
  refine inv_setCall (Or.inr ⟨_, hc⟩) h.exact h.batch h.nodup ?_ fun t => ?_
  · intro d hd
    cases hd
    have hm : s.submitted[m.ticket]? = some m.msg := h.exact.inHand who _ hc
    exact hm
  · have hold := h.balance t
    rw [hc, holds_publishing, holds_enqueueing]
    omega

/-- The message becomes a row: a new id, so no other row changes its ticket. -/
theorem inv_enqueue_ok {s : State} {who : Thread} {m : Submission} (nowMs : Timestamp) (h : Inv s)
    (hc : s.call who = some (.enqueueing m)) :
    Inv ({ s with
      pending := s.pending.insert ⟨s.pending.last + 1, m.msg.topic, m.msg.payload, nowMs⟩
        (Int.lt_succ _)
      origin := Function.update s.origin (s.pending.last + 1) m.ticket }.setCall who none) := by
  set row : PendingEvent := ⟨s.pending.last + 1, m.msg.topic, m.msg.payload, nowMs⟩ with hrow
  set s₁ : State := { s with
    pending := s.pending.insert row (Int.lt_succ _)
    origin := Function.update s.origin (s.pending.last + 1) m.ticket } with hs₁
  have hc₁ : s₁.call who = some (.enqueueing m) := by cases who <;> exact hc
  have hold_origin : ∀ r ∈ s.pending.rows, s₁.origin r.id = s.origin r.id := by
    intro r hr
    have := s.pending.le_last r hr
    exact Function.update_of_ne (by omega) _ _
  have hnew_origin : s₁.origin row.id = m.ticket := Function.update_self ..
  have hrows : ∀ r, r ∈ s₁.pending.rows ↔ r ∈ s.pending.rows ∨ r = row := fun r =>
    Serial.mem_insert (h := Int.lt_succ _)
  have hex : Exact s₁ := by
    refine ⟨fun w c hw => h.exact.inHand w c (by cases w <;> exact hw), fun r hr => ?_,
      h.exact.accepted⟩
    rcases (hrows r).mp hr with hr | rfl
    · rw [hold_origin r hr]
      exact h.exact.queued r hr
    · rw [hnew_origin]
      have hm : s.submitted[m.ticket]? = some m.msg := h.exact.inHand who _ hc
      exact hm
  refine inv_setCall (Or.inr ⟨_, hc₁⟩) hex (fun e he => (hrows e).mpr (Or.inl (h.batch e he)))
    h.nodup nofun fun t => ?_
  have hnd : s.deletingId ≠ some row.id := by
    intro hd
    cases ha : s.aux with
    | deleting e rest =>
      simp only [State.deletingId, ha, Option.some.injEq] at hd
      have := s.pending.le_last e (h.batch e (by rw [ha]; exact List.mem_cons_self))
      simp only [hrow] at hd
      omega
    | _ => simp [State.deletingId, ha] at hd
  have hq : s₁.queued t = s.queued t + if m.ticket = t then 1 else 0 := by
    have hold : s.pending.rows.countP (fun r => s₁.origin r.id = t &&
        decide (s.deletingId ≠ some r.id)) = s.queued t :=
      List.countP_congr fun r hr => by rw [hold_origin r hr]
    show (s.pending.rows ++ [row]).countP _ = _
    rw [List.countP_append, List.countP_singleton]
    show s.pending.rows.countP (fun r => s₁.origin r.id = t &&
      decide (s.deletingId ≠ some r.id)) + _ = _
    rw [hold, hnew_origin]
    show _ + (if (decide (m.ticket = t) && decide (s.deletingId ≠ some row.id)) = true
      then 1 else 0) = _
    simp only [hnd, ne_eq, not_false_eq_true, decide_true, Bool.and_true, decide_eq_true_eq]
  have hsum : s₁.copies t = s.copies t + if m.ticket = t then 1 else 0 := by
    simp only [State.copies, hq]
    show s.inHand t + _ + s.timesAccepted t = _
    omega
  have hold := h.balance t
  rw [hc₁, hsum, holds_enqueueing, holds_none]
  show _ + 0 + s.lost.count t =
    (if t < s.submitted.length then 1 else 0) + s.undeleted.count t + _
  omega

/-- The insert throws: the message is dropped. -/
theorem inv_enqueue_throws {s : State} {who : Thread} {m : Submission} (h : Inv s)
    (hc : s.call who = some (.enqueueing m)) :
    Inv ({ s with lost := m.ticket :: s.lost }.setCall who none) := by
  set s₁ : State := { s with lost := m.ticket :: s.lost } with hs₁
  have hc₁ : s₁.call who = some (.enqueueing m) := by cases who <;> exact hc
  have hex : Exact s₁ :=
    ⟨fun w c hw => h.exact.inHand w c (by cases w <;> exact hw), h.exact.queued, h.exact.accepted⟩
  refine inv_setCall (Or.inr ⟨_, hc₁⟩) hex h.batch h.nodup nofun fun t => ?_
  have hold := h.balance t
  rw [hc₁, holds_enqueueing, holds_none]
  show s.copies t + 0 + (m.ticket :: s.lost).count t =
    (if t < s.submitted.length then 1 else 0) + s.undeleted.count t + _
  rw [List.count_cons]
  simp only [beq_iff_eq]
  omega

/-! ## The drainer -/

@[simp] theorem batch_drain (l : List PendingEvent) : (drain l).batch = l := by
  cases l <;> rfl

theorem queued_of_none {s : State} (h : s.deletingId = none) (t : ℕ) :
    s.queued t = s.pending.rows.countP fun r => decide (s.origin r.id = t) := by
  simp [State.queued, h]

theorem queued_of_some {s : State} {id : ℤ} (h : s.deletingId = some id) (t : ℕ) :
    s.queued t = s.pending.rows.countP fun r =>
      decide (s.origin r.id = t) && decide (r.id ≠ id) := by
  simp [State.queued, h, eq_comm]

/-- Taking one row out of the count. -/
theorem countP_row {s : State} {e : PendingEvent} (he : e ∈ s.pending.rows) (t : ℕ) :
    (s.pending.rows.countP fun r => decide (s.origin r.id = t)) =
      (s.pending.rows.countP fun r => decide (s.origin r.id = t) && decide (r.id ≠ e.id)) +
        if s.origin e.id = t then 1 else 0 := by
  have h := countP_of_lookup (fun r : PendingEvent => decide (s.origin r.id = t))
    s.pending.distinctKeys (Table.mem_rows_iff.mp he)
  simpa only [decide_eq_true_eq] using h

/-- The auxiliary thread moves on without touching a message. -/
theorem inv_aux {s : State} {pc : AuxPc} (h : Inv s) (hd : s.deletingId = none)
    (hc : s.call .auxiliary = none) (hd' : ∀ e rest, pc ≠ .deleting e rest)
    (hc' : ∀ c, pc ≠ .calling c) (hb : ∀ e ∈ pc.batch, e ∈ s.pending.rows)
    (hn : DistinctKeys PendingEvent.id pc.batch) : Inv { s with aux := pc } := by
  have hcall : State.call { s with aux := pc } .auxiliary = none := by
    cases pc <;> simp_all [State.call]
  have hdel : State.deletingId { s with aux := pc } = none := by
    cases pc <;> simp_all [State.deletingId]
  refine ⟨fun t => ?_, ⟨fun w c hw => ?_, h.exact.queued, h.exact.accepted⟩, hb, hn⟩
  · have hold := h.balance t
    have hq : State.queued { s with aux := pc } t = s.queued t := by
      rw [queued_of_none hdel, queued_of_none hd]
    simp only [State.copies, State.inHand, hcall, hq, hc] at hold ⊢
    exact hold
  · cases w with
    | main => exact h.exact.inHand .main c hw
    | auxiliary =>
      rw [hcall] at hw
      cases hw

theorem inv_drain_publish {s : State} {e : PendingEvent} {rest : List PendingEvent} (h : Inv s)
    (ha : s.aux = .draining (e :: rest)) :
    Inv { s with
      accepted := s.accepted ++ [⟨s.origin e.id, e.message⟩]
      aux := .deleting e rest } := by
  have he : e ∈ s.pending.rows := h.batch e (by rw [ha]; exact List.mem_cons_self)
  refine ⟨fun t => ?_, ⟨fun w c hw => ?_, h.exact.queued, fun a hm => ?_⟩, ?_, ?_⟩
  · have hold := h.balance t
    have hd : s.deletingId = none := by simp [State.deletingId, ha]
    have hc : s.call .auxiliary = none := by simp [State.call, ha]
    have hrow := countP_row he t
    rw [← queued_of_none hd] at hrow
    have hq : State.queued { s with
        accepted := s.accepted ++ [⟨s.origin e.id, e.message⟩]
        aux := .deleting e rest } t =
        s.pending.rows.countP fun r => decide (s.origin r.id = t) && decide (r.id ≠ e.id) :=
      queued_of_some rfl t
    have hacc : State.timesAccepted { s with
        accepted := s.accepted ++ [⟨s.origin e.id, e.message⟩]
        aux := .deleting e rest } t = s.timesAccepted t + if s.origin e.id = t then 1 else 0 := by
      simp [State.timesAccepted, List.countP_append, List.countP_singleton]
    simp only [State.copies, State.inHand, hc] at hold
    rw [State.copies, hq, hacc]
    show holds t s.main + holds t none + _ + _ + s.lost.count t =
      (if t < s.submitted.length then 1 else 0) + s.undeleted.count t
    omega
  · cases w with
    | main => exact h.exact.inHand .main c hw
    | auxiliary => cases hw
  · rcases List.mem_append.mp hm with hm | hm
    · exact h.exact.accepted a hm
    · rw [List.mem_singleton.mp hm]
      exact h.exact.queued e he
  · have hb := h.batch
    rw [ha] at hb
    exact hb
  · have hn := h.nodup
    rw [ha] at hn
    exact hn

theorem inv_delete_ok {s : State} {e : PendingEvent} {rest : List PendingEvent} (h : Inv s)
    (ha : s.aux = .deleting e rest) :
    Inv { s with pending := s.pending.erase e.id, aux := drain rest } := by
  have hn : DistinctKeys PendingEvent.id (e :: rest) := by
    have hn := h.nodup
    rwa [ha] at hn
  have hb : ∀ x ∈ e :: rest, x ∈ s.pending.rows := by
    have hb := h.batch
    rwa [ha] at hb
  have hrows : ∀ r, r ∈ (s.pending.erase e.id).rows ↔ r ∈ s.pending.rows ∧ r.id ≠ e.id :=
    fun r => Serial.mem_deleteWhere.trans (and_congr_right fun _ => decide_eq_true_iff)
  have hcall : State.call { s with pending := s.pending.erase e.id, aux := drain rest }
      .auxiliary = none := by cases rest <;> rfl
  have hdel : State.deletingId { s with pending := s.pending.erase e.id, aux := drain rest } =
      none := by cases rest <;> rfl
  refine ⟨fun t => ?_, ⟨fun w c hw => ?_, fun r hr => ?_, h.exact.accepted⟩, fun x hx => ?_, ?_⟩
  · have hold := h.balance t
    have hd : s.deletingId = some e.id := by simp [State.deletingId, ha]
    have hc : s.call .auxiliary = none := by simp [State.call, ha]
    have hq : State.queued { s with pending := s.pending.erase e.id, aux := drain rest } t =
        s.queued t := by
      rw [queued_of_none hdel, queued_of_some hd]
      exact List.countP_filter
    simp only [State.copies, State.inHand, hc, hcall, hq] at hold ⊢
    exact hold
  · cases w with
    | main => exact h.exact.inHand .main c hw
    | auxiliary =>
      rw [hcall] at hw
      cases hw
  · exact h.exact.queued r ((hrows r).mp hr).1
  · rw [batch_drain] at hx
    exact (hrows x).mpr ⟨hb x (List.mem_cons_of_mem _ hx), (distinctKeys_cons.mp hn).1 x hx⟩
  · rw [batch_drain]
    exact (distinctKeys_cons.mp hn).2

/-- The delete throws: the row stays, accepted and queued. -/
theorem inv_delete_throws {s : State} {e : PendingEvent} {rest : List PendingEvent} (h : Inv s)
    (ha : s.aux = .deleting e rest) :
    Inv { s with undeleted := s.origin e.id :: s.undeleted, aux := .idle } := by
  have he : e ∈ s.pending.rows := h.batch e (by rw [ha]; exact List.mem_cons_self)
  refine ⟨fun t => ?_, ⟨fun w c hw => ?_, h.exact.queued, h.exact.accepted⟩,
    fun x hx => absurd hx List.not_mem_nil, List.nodup_nil⟩
  · have hold := h.balance t
    have hd : s.deletingId = some e.id := by simp [State.deletingId, ha]
    have hc : s.call .auxiliary = none := by simp [State.call, ha]
    have hrow := countP_row he t
    rw [← queued_of_some hd] at hrow
    have hq : State.queued { s with
        undeleted := s.origin e.id :: s.undeleted
        aux := .idle } t = s.pending.rows.countP fun r => decide (s.origin r.id = t) :=
      queued_of_none rfl t
    simp only [State.copies, State.inHand, hc] at hold
    rw [State.copies, hq]
    show holds t s.main + holds t none + _ + s.timesAccepted t + s.lost.count t =
      _ + (s.origin e.id :: s.undeleted).count t
    rw [List.count_cons]
    simp only [beq_iff_eq]
    omega
  · cases w with
    | main => exact h.exact.inHand .main c hw
    | auxiliary => cases hw

/-! ## Runs -/

theorem inv_initial {s : State} (h : Initial s) : Inv s := by
  have hd : s.deletingId = none := by simp [State.deletingId, h.aux]
  have hc : s.call .auxiliary = none := by simp [State.call, h.aux]
  have hlen : s.submitted.length = s.pending.rows.length := by rw [h.submitted, List.length_map]
  refine ⟨fun t => ?_, ⟨fun w c hw => ?_, fun r hr => ?_, ?_⟩, ?_, ?_⟩
  · have hq : s.queued t = (List.range s.pending.rows.length).count t := by
      rw [queued_of_none hd, ← h.origin, List.count, List.countP_map]
      rfl
    have hr : (List.range s.pending.rows.length).count t =
        if t < s.pending.rows.length then 1 else 0 := by
      split
      · rename_i ht
        exact List.count_eq_one_of_mem List.nodup_range (List.mem_range.mpr ht)
      · rename_i ht
        exact List.count_eq_zero_of_not_mem fun hm => ht (List.mem_range.mp hm)
    simp only [State.copies, State.inHand, State.timesAccepted, hc, h.main, hq, hr, hlen,
      h.accepted, h.lost, h.undeleted, holds_none, List.countP_nil, List.count_nil]
    omega
  · cases w with
    | main => rw [show s.call .main = s.main from rfl, h.main] at hw; cases hw
    | auxiliary => rw [hc] at hw; cases hw
  · obtain ⟨i, hi, rfl⟩ := List.mem_iff_getElem.mp hr
    have ho : (s.pending.rows.map fun r => s.origin r.id)[i]? = some i := by
      rw [h.origin, List.getElem?_range hi]
    rw [List.getElem?_map, List.getElem?_eq_getElem hi] at ho
    have hoi : s.origin s.pending.rows[i].id = i := Option.some.inj ho
    rw [hoi, h.submitted, List.getElem?_map, List.getElem?_eq_getElem hi]
    rfl
  · rw [h.accepted]
    exact fun a ha => absurd ha List.not_mem_nil
  · rw [h.aux]
    exact fun x hx => absurd hx List.not_mem_nil
  · rw [h.aux]
    exact List.nodup_nil

theorem inv_step {s s' : State} {l : Label} (h : Inv s) (hs : step s l = some s') : Inv s' := by
  cases l with
  | connection up =>
    cases hs
    exact ⟨h.balance, ⟨fun w c hw => h.exact.inHand w c (by cases w <;> exact hw), h.exact.queued,
      h.exact.accepted⟩, h.batch, h.nodup⟩
  | submit who msg =>
    simp only [step] at hs
    split at hs
    · rename_i hf
      cases hs
      exact inv_submit msg h hf
    · cases hs
  | publish who rc =>
    simp only [step] at hs
    split at hs
    · rename_i m hc
      split at hs
      · cases hs
        exact inv_publish_ok h hc
      · cases hs
        exact inv_publish_failed h hc
    · cases hs
  | enqueue who ok nowMs =>
    simp only [step] at hs
    split at hs
    · rename_i m hc
      unfold enqueuePendingEvent at hs
      cases ok with
      | true =>
        cases hs
        exact inv_enqueue_ok nowMs h hc
      | false =>
        cases hs
        exact inv_enqueue_throws h hc
    · cases hs
  | checkConnected =>
    simp only [step] at hs
    split at hs
    · rename_i hg
      cases hs
      exact inv_aux h (by simp [State.deletingId, hg.1]) (by simp [State.call, hg.1])
        (fun _ _ he => by cases he) (fun _ he => by cases he)
        (fun x hx => absurd hx List.not_mem_nil) List.nodup_nil
    · cases hs
  | fetch ok =>
    simp only [step] at hs
    split at hs
    · rename_i hg
      have hd : s.deletingId = none := by simp [State.deletingId, hg]
      have hc : s.call .auxiliary = none := by simp [State.call, hg]
      unfold fetchPendingEvents at hs
      cases ok with
      | true =>
        cases hs
        refine inv_aux h hd hc (fun e rest he => ?_) (fun c he => ?_) (fun x hx => ?_) ?_
        · cases hl : s.pending.rows.take kDrainBatchSize <;> rw [hl] at he <;> cases he
        · cases hl : s.pending.rows.take kDrainBatchSize <;> rw [hl] at he <;> cases he
        · rw [batch_drain] at hx
          exact List.mem_of_mem_take hx
        · rw [batch_drain]
          exact s.pending.distinctKeys.sublist ((List.take_sublist _ _).map _)
      | false =>
        cases hs
        exact inv_aux h hd hc (fun _ _ he => by cases he) (fun _ he => by cases he)
          (fun x hx => absurd hx List.not_mem_nil) List.nodup_nil
    · cases hs
  | drainPublish rc =>
    simp only [step] at hs
    split at hs
    · rename_i e rest ha
      split at hs
      · cases hs
        exact inv_drain_publish h ha
      · cases hs
        exact inv_aux h (by simp [State.deletingId, ha]) (by simp [State.call, ha])
          (fun _ _ he => by cases he) (fun _ he => by cases he)
          (fun x hx => absurd hx List.not_mem_nil) List.nodup_nil
    · cases hs
  | delete ok =>
    simp only [step] at hs
    split at hs
    · rename_i e rest ha
      unfold deletePendingEvent at hs
      cases ok with
      | true =>
        cases hs
        exact inv_delete_ok h ha
      | false =>
        cases hs
        exact inv_delete_throws h ha
    · cases hs

theorem inductive_inv : system.Inductive Inv :=
  ⟨fun _ hs => inv_initial hs, fun _ _ _ hi hs => inv_step hi hs⟩

/-- **Conservation.** In every run, whatever throws. -/
theorem conservation {s : State} (hr : system.Reachable s) : Balance s ∧ Exact s :=
  ⟨(inductive_inv.reachable s hr).balance, (inductive_inv.reachable s hr).exact⟩

/-! ## Exactly once -/

/-- No Storage operation throws. -/
def Label.noThrow : Label → Bool
  | enqueue _ sqliteOk _ | fetch sqliteOk | delete sqliteOk => sqliteOk
  | _ => true

/-- No Storage operation throws except `delete_pending_event`. -/
def Label.onlyDeleteThrows : Label → Bool
  | enqueue _ sqliteOk _ | fetch sqliteOk => sqliteOk
  | _ => true

/-- What a step does to the history: acceptances are appended, and what it adds to
the ghosts a throw explains. -/
structure Explained (s s' : State) (l : Label) : Prop where
  accepted : ∃ new, s'.accepted = s.accepted ++ new
  lost : s'.lost = s.lost ∨ l.onlyDeleteThrows = false
  undeleted : s'.undeleted = s.undeleted ∨ l.noThrow = false

theorem explained_same {s s' : State} (l : Label) (ha : s'.accepted = s.accepted)
    (hl : s'.lost = s.lost) (hu : s'.undeleted = s.undeleted) : Explained s s' l :=
  ⟨⟨[], by rw [ha, List.append_nil]⟩, Or.inl hl, Or.inl hu⟩

theorem explained_setCall {s s' : State} {l : Label} (who : Thread) (c : Option Call)
    (h : Explained s s' l) : Explained s (s'.setCall who c) l where
  accepted := by rw [setCall_accepted]; exact h.accepted
  lost := by rw [setCall_lost]; exact h.lost
  undeleted := by rw [setCall_undeleted]; exact h.undeleted

theorem step_explained {s s' : State} {l : Label} (hs : step s l = some s') : Explained s s' l := by
  cases l with
  | connection up =>
    cases hs
    exact explained_same _ rfl rfl rfl
  | submit who msg =>
    simp only [step] at hs
    split at hs <;> cases hs
    exact explained_setCall _ _ (explained_same _ rfl rfl rfl)
  | publish who rc =>
    simp only [step] at hs
    split at hs
    · split at hs <;> cases hs
      · exact explained_setCall _ _ ⟨⟨_, rfl⟩, Or.inl rfl, Or.inl rfl⟩
      · exact explained_setCall _ _ (explained_same _ rfl rfl rfl)
    · cases hs
  | enqueue who ok nowMs =>
    simp only [step, enqueuePendingEvent] at hs
    split at hs
    · cases ok with
      | true =>
        cases hs
        exact explained_setCall _ _ (explained_same _ rfl rfl rfl)
      | false =>
        cases hs
        exact explained_setCall _ _ ⟨⟨[], (List.append_nil _).symm⟩, Or.inr rfl, Or.inr rfl⟩
    · cases hs
  | checkConnected =>
    simp only [step] at hs
    split at hs <;> cases hs
    exact explained_same _ rfl rfl rfl
  | fetch ok =>
    simp only [step, fetchPendingEvents] at hs
    split at hs
    · cases ok <;> cases hs <;> exact explained_same _ rfl rfl rfl
    · cases hs
  | drainPublish rc =>
    simp only [step] at hs
    split at hs
    · split at hs <;> cases hs
      · exact ⟨⟨_, rfl⟩, Or.inl rfl, Or.inl rfl⟩
      · exact explained_same _ rfl rfl rfl
    · cases hs
  | delete ok =>
    simp only [step, deletePendingEvent] at hs
    split at hs
    · cases ok with
      | true =>
        cases hs
        exact explained_same _ rfl rfl rfl
      | false =>
        cases hs
        exact ⟨⟨[], (List.append_nil _).symm⟩, Or.inl rfl, Or.inr rfl⟩
    · cases hs

theorem Label.onlyDeleteThrows_of_noThrow {l : Label} (h : l.noThrow = true) :
    l.onlyDeleteThrows = true := by
  cases l <;> first | exact h | rfl

theorem lost_nil {s : State}
    (hr : (system.guard fun _ l => l.onlyDeleteThrows = true).Reachable s) : s.lost = [] := by
  have hind : (system.guard fun _ l => l.onlyDeleteThrows = true).Inductive
      fun s => s.lost = [] := by
    refine ⟨fun s hs => hs.lost, fun s l s' hi hs => ?_⟩
    rcases (step_explained hs.1).lost with he | he
    · exact he.trans hi
    · rw [hs.2] at he
      cases he
  exact hind.reachable s hr

theorem undeleted_nil {s : State} (hr : (system.guard fun _ l => l.noThrow = true).Reachable s) :
    s.undeleted = [] := by
  have hind : (system.guard fun _ l => l.noThrow = true).Inductive fun s => s.undeleted = [] := by
    refine ⟨fun s hs => hs.undeleted, fun s l s' hi hs => ?_⟩
    rcases (step_explained hs.1).undeleted with he | he
    · exact he.trans hi
    · rw [hs.2] at he
      cases he
  exact hind.reachable s hr

theorem copies_of_onlyDelete {s : State}
    (hr : (system.guard fun _ l => l.onlyDeleteThrows = true).Reachable s) {t : ℕ}
    (ht : t < s.submitted.length) : s.copies t = 1 + s.undeleted.count t := by
  have hbal := (conservation hr.of_guard).1 t
  rw [lost_nil hr, List.count_nil, if_pos ht] at hbal
  exact hbal

/-- An empty queue, offline. -/
def boot : State := ⟨.empty, false, none, .idle, [], [], fun _ => 0, [], []⟩

theorem initial_boot : Initial boot := ⟨rfl, rfl, rfl, rfl, rfl, rfl, rfl⟩

def heartbeat : SerializedMessage := ⟨"facegate/health/heartbeat", [0x7b, 0x7d]⟩

/-- **Exactly once**, and at least once when deletes may throw. -/
theorem queue_exactly_once :
    (∀ s, (system.guard fun _ l => l.noThrow = true).Reachable s →
      Exact s ∧ ∀ t < s.submitted.length, s.copies t = 1 ∧ s.timesAccepted t ≤ 1) ∧
    (∀ s, (system.guard fun _ l => l.onlyDeleteThrows = true).Reachable s →
      Exact s ∧ ∀ t < s.submitted.length, 1 ≤ s.copies t) ∧
    ∃ s, (system.guard fun _ l => l.onlyDeleteThrows = true).Reachable s ∧
      0 < s.submitted.length ∧ s.timesAccepted 0 = 2 := by
  refine ⟨fun s hr => ⟨(conservation hr.of_guard).2, fun t ht => ?_⟩,
    fun s hr => ⟨(conservation hr.of_guard).2, fun t ht => ?_⟩, ?_⟩
  · have hone : s.copies t = 1 := by
      have hr' : (system.guard fun _ l => l.onlyDeleteThrows = true).Reachable s := by
        obtain ⟨s₀, ls, h₀, hrun⟩ := hr
        exact ⟨s₀, ls, h₀, hrun.guard_mono fun _ l => l.onlyDeleteThrows_of_noThrow⟩
      rw [copies_of_onlyDelete hr' ht, undeleted_nil hr, List.count_nil]
    refine ⟨hone, ?_⟩
    unfold State.copies at hone
    omega
  · have h := copies_of_onlyDelete hr ht
    omega
  · exact LTS.exists_reachable_where Initial step (fun _ l => l.onlyDeleteThrows = true)
      [.submit .auxiliary heartbeat, .publish .auxiliary true, .enqueue .auxiliary true 0,
        .connection true, .checkConnected, .fetch true, .drainPublish true, .delete false,
        .checkConnected, .fetch true, .drainPublish true]
      initial_boot (fun s => 0 < s.submitted.length ∧ s.timesAccepted 0 = 2) (by decide +kernel)

/-- A fault waits in the queue while the connection is down. -/
theorem queue_exactly_once_example :
    ∃ s : State, s.copies 0 = 1 ∧ s.queued 0 = 1 := by
  obtain ⟨s, hr, hl, hq⟩ := LTS.exists_reachable_where Initial step (fun _ l => l.noThrow = true)
    [.submit .main ⟨"facegate/health/fault", [0x7b, 0x7d]⟩, .publish .main false,
      .enqueue .main true 0]
    initial_boot (fun s => 0 < s.submitted.length ∧ s.queued 0 = 1) (by decide +kernel)
  exact ⟨s, ((queue_exactly_once.1 s hr).2 0 hl).1, hq⟩

end FaceGate.L3.OfflineQueue
