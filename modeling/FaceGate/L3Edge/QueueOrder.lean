import FaceGate.L3Edge.OfflineQueue

/-!
# The order in which stored messages leave

`OfflineQueue.system` beside the history of its table: the rows in the order in which
they were stored, and the rows the publisher took from the drainer, each as often as it
was taken. The rows an earlier run left count as stored, in the order of their ids.

A batch is a stale snapshot, but always the beginning of the table: rows leave it at
the front, when the drainer has published them, and come in at the end. So the rows
taken, each at its first time, are the rows stored up to one of them
(`first_accepted_in_order`): none overtakes another, and none is passed over.
-/
namespace FaceGate.L3.QueueOrder

open Core Core.Keyed FaceGate.L1 FaceGate.L1.Domain FaceGate.L2.Storage OfflineQueue

/-! ## The history -/

/-- The row a step inserts. -/
def stored (s : State) : Label → Option PendingEvent
  | .enqueue who true nowMs =>
    match s.call who with
    | some (.enqueueing m) => some ⟨s.pending.last + 1, m.msg.topic, m.msg.payload, nowMs⟩
    | _ => none
  | _ => none

/-- The row of the batch whose message the publisher takes. -/
def taken (s : State) : Label → Option PendingEvent
  | .drainPublish rc =>
    match s.aux with
    | .draining (e :: _) => if OfflineQueue.publish s.connected rc then some e else none
    | _ => none
  | _ => none

structure History where
  stored : List PendingEvent
  taken : List PendingEvent
  deriving DecidableEq, Repr

def History.start (s : State) : History := ⟨s.pending.rows, []⟩

def History.note (h : History) (s : State) (l : Label) (_ : State) : History :=
  ⟨h.stored ++ (QueueOrder.stored s l).toList, h.taken ++ (QueueOrder.taken s l).toList⟩

def recorded : LTS (State × History) Label := system.recording History.start History.note

/-! ## What a step does to the queue -/

/-- The table, the drainer's batch and the row it is about to delete. -/
structure Queue where
  pending : PendingTable
  batch : List PendingEvent
  deleting : Option ℤ

def State.queue (s : State) : Queue := ⟨s.pending, s.aux.batch, s.deletingId⟩

/-- What a step does, by the row it stores and the row the publisher takes. -/
inductive Move (q : Queue) : Queue → Option PendingEvent → Option PendingEvent → Prop where
  | stay : Move q q none none
  | fetch (n : ℕ) : Move q ⟨q.pending, q.pending.rows.take n, none⟩ none none
  | store (r : PendingEvent) (h : q.pending.last < r.id) :
      Move q { q with pending := q.pending.insert r h } (some r) none
  | take (e : PendingEvent) (rest : List PendingEvent) : q.batch = e :: rest →
      Move q { q with deleting := some e.id } none (some e)
  | delete (e : PendingEvent) (rest : List PendingEvent) : q.batch = e :: rest →
      q.deleting = some e.id → Move q ⟨q.pending.erase e.id, rest, none⟩ none none

/-- The batch is given up: a fetch of no row. -/
theorem Move.giveUp (q : Queue) : Move q ⟨q.pending, [], none⟩ none none := .fetch 0

theorem queue_setCall {s : State} {who : Thread} (c : Option Call)
    (h : s.free who = true ∨ ∃ d, s.call who = some d) :
    State.queue (s.setCall who c) = State.queue s := by
  unfold State.queue
  rw [setCall_pending, setCall_batch c h, setCall_deletingId c h]

theorem queue_drain (s : State) (t : PendingTable) (batch : List PendingEvent) :
    State.queue { s with pending := t, aux := drain batch } = ⟨t, batch, none⟩ := by
  cases batch <;> rfl

/-- A thread leaves its call, having changed neither program counter. -/
theorem queue_leave {s s₁ : State} {who : Thread} {d : Call} (h : s.call who = some d)
    (hm : s₁.main = s.main) (ha : s₁.aux = s.aux) (c : Option Call) :
    State.queue (s₁.setCall who c) = State.queue s₁ := by
  refine queue_setCall c (Or.inr ⟨d, ?_⟩)
  cases who with
  | main => exact hm.trans h
  | auxiliary =>
    unfold State.call at h ⊢
    rw [ha]
    exact h

theorem step_move {s s' : State} {l : Label} (hs : step s l = some s') :
    Move (State.queue s) (State.queue s') (stored s l) (taken s l) := by
  cases l with
  | connection up =>
    cases hs
    exact .stay
  | submit who msg =>
    simp only [step] at hs
    split at hs
    · rename_i hf
      cases hs
      rw [queue_setCall _ (Or.inl (by cases who <;> exact hf))]
      exact .stay
    · cases hs
  | publish who rc =>
    simp only [step] at hs
    split at hs
    · rename_i m hc
      split at hs <;> cases hs
      · rw [queue_leave hc]
        · exact .stay
        · rfl
        · rfl
      · rw [queue_setCall _ (Or.inr ⟨_, hc⟩)]
        exact .stay
    · cases hs
  | enqueue who ok nowMs =>
    simp only [step] at hs
    split at hs
    · rename_i m hc
      unfold enqueuePendingEvent at hs
      cases ok with
      | true =>
        cases hs
        rw [queue_leave hc]
        · simp only [stored, hc]
          exact .store _ (Int.lt_succ _)
        · rfl
        · rfl
      | false =>
        cases hs
        rw [queue_leave hc]
        · exact .stay
        · rfl
        · rfl
    · cases hs
  | checkConnected =>
    simp only [step] at hs
    split at hs <;> cases hs
    exact Move.giveUp _
  | fetch ok =>
    simp only [step] at hs
    split at hs
    · unfold fetchPendingEvents at hs
      cases ok with
      | true =>
        cases hs
        have h := queue_drain s s.pending (s.pending.rows.take kDrainBatchSize)
        rw [h]
        exact .fetch kDrainBatchSize
      | false =>
        cases hs
        exact Move.giveUp _
    · cases hs
  | drainPublish rc =>
    simp only [step] at hs
    split at hs
    · rename_i e rest ha
      simp only [taken, ha]
      split at hs <;> rename_i hp <;> cases hs
      · rw [if_pos hp]
        have hq : State.queue s = ⟨s.pending, e :: rest, none⟩ := by
          simp [State.queue, ha, AuxPc.batch, State.deletingId]
        rw [hq]
        exact .take e rest rfl
      · rw [if_neg hp]
        exact Move.giveUp _
    · cases hs
  | delete ok =>
    simp only [step] at hs
    split at hs
    · rename_i e rest ha
      unfold deletePendingEvent at hs
      cases ok with
      | true =>
        cases hs
        rw [queue_drain]
        have hq : State.queue s = ⟨s.pending, e :: rest, some e.id⟩ := by
          simp [State.queue, ha, AuxPc.batch, State.deletingId]
        rw [hq]
        exact .delete e rest rfl rfl
      | false =>
        cases hs
        exact Move.giveUp _
    · cases hs

/-! ## The order is kept -/

/-- `first` are the rows taken, each at its first time: the rows stored up to one, in
order. What is left of the table are rows taken and not deleted, and then all rows not
taken yet. -/
structure Ordered (q : Queue) (h : History) : Prop where
  sorted : h.stored.Pairwise fun a b => a.id < b.id
  le_last : ∀ r ∈ h.stored, r.id ≤ q.pending.last
  split : ∃ kept fresh, h.stored = h.taken.eraseDups ++ fresh ∧ q.pending.rows = kept ++ fresh ∧
    ∀ r ∈ kept, r ∈ h.taken
  batch : q.batch <+: q.pending.rows
  deleting : ∀ id ∈ q.deleting, ∃ e ∈ h.taken, e.id = id

/-- A row taken again adds nothing, a new one comes at the end. -/
theorem eraseDups_concat (l : List PendingEvent) (e : PendingEvent) :
    (l ++ [e]).eraseDups = if e ∈ l then l.eraseDups else l.eraseDups ++ [e] := by
  rw [List.eraseDups_append]
  split
  · rename_i he
    simp [List.removeAll, he]
  · rename_i he
    simp [List.removeAll, he, List.eraseDups_cons]

theorem Ordered.move {q q' : Queue} {h : History} {new took : Option PendingEvent}
    (ho : Ordered q h) (hm : Move q q' new took) :
    Ordered q' ⟨h.stored ++ new.toList, h.taken ++ took.toList⟩ := by
  obtain ⟨kept, fresh, hstored, hrows, hkept⟩ := ho.split
  cases hm with
  | stay => simpa using ho
  | fetch n =>
    simp only [Option.toList_none, List.append_nil]
    exact ⟨ho.sorted, ho.le_last, ho.split, List.take_prefix n _, by simp⟩
  | store r hr =>
    simp only [Option.toList_none, List.append_nil, Option.toList_some]
    refine ⟨?_, ?_, ⟨kept, fresh ++ [r], ?_, ?_, hkept⟩, ?_, ho.deleting⟩
    · refine List.pairwise_append.mpr ⟨ho.sorted, List.pairwise_singleton _ _, ?_⟩
      intro a ha b hb
      rw [List.mem_singleton.mp hb]
      exact (ho.le_last a ha).trans_lt hr
    · intro a ha
      rcases List.mem_append.mp ha with ha | ha
      · exact (ho.le_last a ha).trans hr.le
      · rw [List.mem_singleton.mp ha]
        exact le_refl r.id
    · rw [hstored, List.append_assoc]
    · show q.pending.rows ++ [r] = _
      rw [hrows, List.append_assoc]
    · exact ho.batch.trans (List.prefix_append _ _)
  | take e rest hb =>
    simp only [Option.toList_none, List.append_nil, Option.toList_some]
    have hdel : ∀ id ∈ some e.id, ∃ a ∈ h.taken ++ [e], a.id = id := by
      intro id hid
      obtain rfl := Option.some.inj hid
      exact ⟨e, List.mem_append_right _ List.mem_cons_self, rfl⟩
    refine ⟨ho.sorted, ho.le_last, ?_, ho.batch, hdel⟩
    dsimp only
    rw [eraseDups_concat]
    split
    · exact ⟨kept, fresh, hstored, hrows, fun r hr => List.mem_append_left _ (hkept r hr)⟩
    · rename_i hnew
      -- a row not taken before: nothing is kept in front of it
      obtain ⟨tl, htl⟩ := ho.batch
      rw [hb, hrows] at htl
      cases kept with
      | cons k kept =>
        obtain ⟨rfl, -⟩ := List.cons.inj htl
        exact absurd (hkept e List.mem_cons_self) hnew
      | nil =>
        rw [List.nil_append] at htl
        refine ⟨[e], rest ++ tl, ?_, ?_, ?_⟩
        · rw [hstored, ← htl]
          simp
        · rw [hrows, List.nil_append, ← htl]
          rfl
        · intro r hr
          exact List.mem_append_right _ hr
  | delete e rest hb hd =>
    simp only [Option.toList_none, List.append_nil]
    obtain ⟨e', he', hid⟩ := ho.deleting e.id hd
    have hfresh : ∀ r ∈ fresh, r.id ≠ e.id := by
      intro r hr
      have hsorted := ho.sorted
      rw [hstored] at hsorted
      have hlt := (List.pairwise_append.mp hsorted).2.2 e' (List.mem_eraseDups.mpr he') r hr
      rw [hid] at hlt
      exact hlt.ne'
    have herase : (q.pending.erase e.id).rows = kept.filter (fun r => r.id ≠ e.id) ++ fresh := by
      show q.pending.rows.filter (fun r => r.id ≠ e.id) = _
      rw [hrows, List.filter_append]
      congr 1
      exact List.filter_eq_self.mpr fun r hr => decide_eq_true (hfresh r hr)
    refine ⟨ho.sorted, ho.le_last, ⟨_, fresh, hstored, herase, ?_⟩, ?_, by simp⟩
    · intro r hr
      exact hkept r (List.mem_of_mem_filter hr)
    · -- the row deleted is the first of the table
      obtain ⟨tl, htl⟩ := ho.batch
      rw [hb] at htl
      have hdistinct : DistinctKeys PendingEvent.id (e :: (rest ++ tl)) := by
        have hkeys := q.pending.distinctKeys
        rw [← htl] at hkeys
        exact hkeys
      refine ⟨tl, ?_⟩
      show _ = q.pending.rows.filter (fun r => r.id ≠ e.id)
      rw [← htl, List.cons_append, List.filter_cons_of_neg (by simp)]
      refine (List.filter_eq_self.mpr fun r hr => decide_eq_true ?_).symm
      exact (distinctKeys_cons.mp hdistinct).1 r hr

theorem inductive_ordered : recorded.Inductive fun p => Ordered (State.queue p.1) p.2 where
  init p hp := by
    obtain ⟨s, h⟩ := p
    obtain ⟨hs, hh⟩ := hp
    obtain rfl : h = History.start s := hh
    have hq : State.queue s = ⟨s.pending, [], none⟩ := by
      have hidle : s.aux = .idle := Initial.aux hs
      simp [State.queue, hidle, AuxPc.batch, State.deletingId]
    dsimp only
    rw [hq]
    refine ⟨s.pending.sorted, s.pending.le_last, ⟨[], s.pending.rows, rfl, rfl, ?_⟩,
      List.nil_prefix, by simp⟩
    exact fun r hr => absurd hr List.not_mem_nil
  step p l p' hi hs := by
    rw [hs.2]
    exact hi.move (step_move hs.1)

/-- **First in, first out**: in every run, the rows the publisher has taken, each at its
first time, are the first of the rows stored, in the order in which they were stored. -/
theorem first_accepted_in_order {a b : State} {ls : List Label} (ha : Initial a)
    (hr : system.Run a ls b) :
    ∃ h, recorded.Run (a, .start a) ls (b, h) ∧
      h.stored.Pairwise (fun x y => x.id < y.id) ∧ h.taken.eraseDups <+: h.stored := by
  obtain ⟨h, hrun⟩ := hr.recording (History.start a)
  have ho := inductive_ordered.reachable (b, h) ⟨(a, .start a), ls, ⟨ha, rfl⟩, hrun⟩
  obtain ⟨kept, fresh, hstored, -⟩ := ho.split
  exact ⟨h, hrun, ho.sorted, fresh, hstored.symm⟩

/-- A heartbeat and a fault stored, the first one published, not deleted, published
again, and the connection lost before the second. -/
def retried : List Label :=
  [.submit .auxiliary heartbeat, .publish .auxiliary true, .enqueue .auxiliary true 0,
    .submit .main ⟨"facegate/health/fault", []⟩, .publish .main false, .enqueue .main true 1,
    .connection true, .checkConnected, .fetch true, .drainPublish true, .delete false,
    .checkConnected, .fetch true, .drainPublish true, .delete true, .connection false,
    .drainPublish true, .connection true, .checkConnected, .fetch true, .drainPublish true]

theorem first_accepted_in_order_retried :
    ∃ (b : State) (h : History), b.accepted.map Submission.ticket = [0, 0, 1] ∧
      recorded.Run (boot, .start boot) retried (b, h) ∧
      h.stored.Pairwise (fun x y => x.id < y.id) ∧ h.taken.eraseDups <+: h.stored := by
  obtain ⟨b, hr, hb⟩ := LTS.exists_run_where Initial step (fun _ _ => True) boot retried
    (fun b => b.accepted.map Submission.ticket = [0, 0, 1]) (by decide +kernel)
  obtain ⟨h, hh⟩ := first_accepted_in_order initial_boot hr.of_guard
  exact ⟨b, h, hb, hh⟩

end FaceGate.L3.QueueOrder
