import FaceGate.L3Edge.AuxiliaryLoop

/-!
# The backlog

What the auxiliary loop does to the queue while nothing goes wrong (`Clear`): the connection is
up, mosquitto takes every message, no Storage call throws. Each turn fetches once, and what
the fetches have taken is gone from the table and published (`Going`).

`backlog_drained`: fifty rows a turn, the oldest first; at most fifty a second, and, in an on-time
run, all of them in time.
-/
namespace FaceGate.L3.AuxiliaryLoop

open Core Core.Keyed FaceGate.L1 FaceGate.L1.Domain FaceGate.L2.Storage
open FaceGate.L3.OfflineQueue (kDrainBatchSize AuxPc)

variable {K : Type} {text : JsonText K} {deviceId : String} {heartbeatIntervalSeconds : ℤ}
  {s s' : State}

/-! ## Draining the queue -/

/-- The connection stays, mosquitto takes every message, no Storage call throws. -/
def clear : OfflineQueue.Label → Bool
  | .connection up => up
  | .publish _ rc | .drainPublish rc => rc
  | .enqueue _ sqliteOk _ | .fetch sqliteOk | .delete sqliteOk => sqliteOk
  | .submit _ _ | .checkConnected => true

def enqueues : Option OfflineQueue.Call → Bool
  | some (.enqueueing _) => true
  | _ => false

/-- The queue after so many fetches: what they have taken from the `rows` it had is gone,
but for the rest of the last batch, and published. -/
structure Going (rows : List PendingEvent) (origin : ℤ → ℕ) (fetches : ℕ)
    (q : OfflineQueue.State) : Prop where
  connected : q.connected = true
  calls : ∀ who, enqueues (q.call who) = false
  sameOrigin : q.origin = origin
  left : q.pending.rows = q.aux.batch ++ rows.drop (kDrainBatchSize * fetches)
  suffix : q.pending.rows <:+ rows
  batch : q.aux.batch ≠ [] →
    kDrainBatchSize * fetches + q.aux.batch.length ≤ rows.length + kDrainBatchSize
  deleting : ∀ e rest, q.aux = .deleting e rest → ⟨origin e.id, e.message⟩ ∈ q.accepted
  kept : ∀ r ∈ rows, r ∈ q.pending.rows ∨ ⟨origin r.id, r.message⟩ ∈ q.accepted

variable {rows : List PendingEvent} {origin : ℤ → ℕ} {fetches : ℕ} {q q' : OfflineQueue.State}

theorem batch_drain (batch : List PendingEvent) : (OfflineQueue.drain batch).batch = batch := by
  cases batch <;> rfl

/-- A thread enters or leaves a call, but not to enqueue. -/
theorem Going.setCall (h : Going rows origin fetches q) {who : OfflineQueue.Thread}
    (hw : q.free who = true ∨ ∃ d, q.call who = some d) {c : Option OfflineQueue.Call}
    (hc : enqueues c = false) : Going rows origin fetches (q.setCall who c) where
  connected := by
    cases who <;> cases c <;> exact h.connected
  calls w := by
    cases hw : (q.setCall who c).call w with
    | none => rfl
    | some d =>
      rcases OfflineQueue.call_setCall q who c hw with rfl | hd
      · exact hc
      · rw [← hd]
        exact h.calls w
  sameOrigin := by
    rw [OfflineQueue.setCall_origin]
    exact h.sameOrigin
  left := by
    rw [OfflineQueue.setCall_batch c hw, OfflineQueue.setCall_pending]
    exact h.left
  suffix := by
    rw [OfflineQueue.setCall_pending]
    exact h.suffix
  batch := by
    rw [OfflineQueue.setCall_batch c hw]
    exact h.batch
  deleting e rest he := by
    rw [OfflineQueue.setCall_accepted]
    refine h.deleting e rest ?_
    cases who with
    | main => exact he
    | auxiliary => cases c <;> cases he
  kept := by
    rw [OfflineQueue.setCall_accepted, OfflineQueue.setCall_pending]
    exact h.kept

/-- The publisher takes a message. -/
theorem Going.accept (h : Going rows origin fetches q) (m : OfflineQueue.Submission) :
    Going rows origin fetches { q with accepted := q.accepted ++ [m] } where
  connected := h.connected
  calls w := by
    cases w with
    | main => exact h.calls .main
    | auxiliary => exact h.calls .auxiliary
  sameOrigin := h.sameOrigin
  left := h.left
  suffix := h.suffix
  batch := h.batch
  deleting e rest he := List.mem_append_left _ (h.deleting e rest he)
  kept r hr := (h.kept r hr).imp_right (List.mem_append_left _)

theorem Going.fetch (h : Going rows origin fetches q) (haux : q.aux = .fetching) :
    Going rows origin (fetches + 1)
      { q with aux := OfflineQueue.drain (q.pending.rows.take kDrainBatchSize) } := by
  have hrows : q.pending.rows = rows.drop (kDrainBatchSize * fetches) := by
    have h := h.left
    rwa [haux] at h
  have hdrain := drain_cases (q.pending.rows.take kDrainBatchSize)
  refine ⟨h.connected, fun w => ?_, h.sameOrigin, ?_, h.suffix, fun hne => ?_,
    fun e rest he => ?_, h.kept⟩
  · cases w with
    | main => exact h.calls .main
    | auxiliary =>
      rcases hdrain with hd | ⟨e, rest, hd⟩ <;> simp only [OfflineQueue.State.call, hd, enqueues]
  · rw [batch_drain, Nat.mul_succ, ← List.drop_drop, ← hrows]
    exact (List.take_append_drop _ _).symm
  · rw [batch_drain] at hne ⊢
    rw [hrows, List.length_take, List.length_drop]
    have hpos : rows.drop (kDrainBatchSize * fetches) ≠ [] := by
      intro he
      rw [hrows, he] at hne
      exact hne List.take_nil
    have hlt := List.length_pos_iff.mpr hpos
    rw [List.length_drop] at hlt
    unfold kDrainBatchSize at hlt ⊢
    omega
  · rcases hdrain with hd | ⟨e, rest, hd⟩ <;> cases hd.symm.trans he

theorem Going.take (h : Going rows origin fetches q) {e : PendingEvent}
    {rest : List PendingEvent} (haux : q.aux = .draining (e :: rest)) :
    Going rows origin fetches { q with
      accepted := q.accepted ++ [⟨q.origin e.id, e.message⟩]
      aux := .deleting e rest } := by
  have hrows := h.left
  have hbatch := h.batch
  rw [haux] at hrows hbatch
  refine ⟨h.connected, fun w => ?_, h.sameOrigin, hrows, h.suffix, hbatch,
    fun e' rest' he => ?_, fun r hr => (h.kept r hr).imp_right (List.mem_append_left _)⟩
  · cases w with
    | main => exact h.calls .main
    | auxiliary => rfl
  · cases he
    rw [h.sameOrigin]
    exact List.mem_append_right _ (List.mem_singleton_self _)

theorem Going.delete (h : Going rows origin fetches q) {e : PendingEvent}
    {rest : List PendingEvent} (haux : q.aux = .deleting e rest) :
    Going rows origin fetches { q with
      pending := q.pending.erase e.id
      aux := OfflineQueue.drain rest } := by
  have hrows := h.left
  have hbatch := h.batch
  rw [haux] at hrows hbatch
  have herase : (q.pending.erase e.id).rows = rest ++ rows.drop (kDrainBatchSize * fetches) :=
    Serial.rows_erase_head hrows
  have hdrain := drain_cases rest
  refine ⟨h.connected, fun w => ?_, h.sameOrigin, ?_, ?_, fun hne => ?_,
    fun e' rest' he => ?_, fun r hr => ?_⟩
  · cases w with
    | main => exact h.calls .main
    | auxiliary =>
      rcases hdrain with hd | ⟨e, rest, hd⟩ <;> simp only [OfflineQueue.State.call, hd, enqueues]
  · rw [batch_drain]
    exact herase
  · rw [herase]
    rw [AuxPc.batch, List.cons_append] at hrows
    exact (List.suffix_cons e _).trans (hrows ▸ h.suffix)
  · rw [batch_drain] at hne ⊢
    have := hbatch (List.cons_ne_nil _ _)
    rw [AuxPc.batch, List.length_cons] at this
    omega
  · rcases hdrain with hd | ⟨e, rest, hd⟩ <;> cases hd.symm.trans he
  · rcases h.kept r hr with hmem | hacc
    · by_cases he : r.id = e.id
      · have hmem' : e ∈ q.pending.rows := hrows ▸ List.mem_cons_self
        rw [eq_of_key q.pending.distinctKeys hmem hmem' he]
        exact Or.inr (h.deleting e rest haux)
      · exact Or.inl (Serial.mem_deleteWhere.mpr ⟨hmem, by simpa using he⟩)
    · exact Or.inr hacc

theorem Going.publish (h : Going rows origin fetches q) :
    OfflineQueue.publish q.connected true = true := by
  rw [OfflineQueue.publish, h.connected]
  rfl

/-- A step of either thread. -/
theorem Going.step (h : Going rows origin fetches q) {l : OfflineQueue.Label}
    (hs : OfflineQueue.step q l = some q') (hl : clear l = true) :
    Going rows origin (fetches + isFetch l) q' := by
  cases l with
  | connection up =>
    cases hs
    exact { h with
      connected := hl
      calls := fun w => by
        cases w with
        | main => exact h.calls .main
        | auxiliary => exact h.calls .auxiliary }
  | submit who msg =>
    simp only [OfflineQueue.step] at hs
    split at hs
    · rename_i hf
      cases hs
      have h' : Going rows origin fetches { q with submitted := q.submitted ++ [msg] } :=
        { h with
          calls := fun w => by
            cases w with
            | main => exact h.calls .main
            | auxiliary => exact h.calls .auxiliary }
      exact h'.setCall (Or.inl (by cases who <;> exact hf)) rfl
    · cases hs
  | publish who rc =>
    obtain rfl : rc = true := hl
    simp only [OfflineQueue.step] at hs
    split at hs
    · rename_i m hcall
      rw [if_pos h.publish] at hs
      cases hs
      exact (h.accept m).setCall (Or.inr ⟨_, by cases who <;> exact hcall⟩) rfl
    · cases hs
  | enqueue who sqliteOk nowMs =>
    simp only [OfflineQueue.step] at hs
    split at hs
    · rename_i m hcall
      have hcalls := h.calls who
      rw [hcall] at hcalls
      cases hcalls
    · cases hs
  | checkConnected =>
    simp only [OfflineQueue.step] at hs
    split at hs
    · rename_i hidle
      cases hs
      have hleft := h.left
      rw [hidle.1] at hleft
      refine ⟨h.connected, fun w => ?_, h.sameOrigin, hleft, h.suffix, fun hne => absurd rfl hne,
        fun _ _ he => AuxPc.noConfusion he, h.kept⟩
      cases w with
      | main => exact h.calls .main
      | auxiliary => rfl
    · cases hs
  | fetch sqliteOk =>
    obtain rfl : sqliteOk = true := hl
    simp only [OfflineQueue.step] at hs
    split at hs
    · rename_i hfetch
      cases hs
      exact h.fetch hfetch
    · cases hs
  | drainPublish rc =>
    obtain rfl : rc = true := hl
    simp only [OfflineQueue.step] at hs
    split at hs
    · rename_i e rest haux
      rw [if_pos h.publish] at hs
      cases hs
      exact h.take haux
    · cases hs
  | delete sqliteOk =>
    obtain rfl : sqliteOk = true := hl
    simp only [OfflineQueue.step] at hs
    split at hs
    · rename_i e rest haux
      cases hs
      exact h.delete haux
    · cases hs

/-! ## A clear stretch -/

/-- The turn begun has not fetched yet. -/
def State.owed (s : State) : ℕ :=
  match s.pc with
  | .beating | .checking => 1
  | .draining => if s.queue.aux = .fetching then 1 else 0
  | _ => 0

def Clear : Label → Prop
  | .others l | .call l => clear l = true
  | _ => True

instance (l : Label) : Decidable (Clear l) :=
  match l with
  | .others l | .call l => instDecidableEqBool (clear l) true
  | .tick _ | .requestStop | .notified | .proceed | .readClock _ => instDecidableTrue

/-- `n` fetches after `a`. -/
structure Draining (g : Time) (a : State) (n : ℕ) (s : State) : Prop where
  going : Going a.queue.pending.rows a.queue.origin n s.queue
  later : a.now ≤ s.now
  current : s.current ≤ a.now + (n + s.owed : ℕ) * g
  soon : s.pc ≠ .exited → s.now ≤ a.now + (n + s.owed + 1 : ℕ) * g
  paced : 0 < n + s.owed → a.now + (n + s.owed : ℕ) * seconds 1 ≤ s.current + seconds 1

variable {g : Time} {a : State} {n : ℕ}

/-- A step that keeps to the turn. -/
theorem Draining.keep (h : Draining g a n s) {k : ℕ}
    (hgoing : Going a.queue.pending.rows a.queue.origin k s'.queue)
    (howed : k + s'.owed = n + s.owed) (hnow : s'.now = s.now) (hcurrent : s'.current = s.current)
    (hpc : s'.pc ≠ .exited → s.pc ≠ .exited) : Draining g a k s' := by
  refine ⟨hgoing, hnow ▸ h.later, ?_, fun hx => ?_, ?_⟩
  · rw [hcurrent, howed]
    exact h.current
  · rw [hnow, howed]
    exact h.soon (hpc hx)
  · rw [hcurrent, howed]
    exact h.paced

/-- The clock is read: a turn begins. -/
theorem Draining.read (h : Draining g a n s) (hr : Rhythm heartbeatIntervalSeconds s)
    (hpc : s.pc = .reading) (hg : 0 ≤ g) (hnow : s'.now = s.now) (hcurrent : s'.current = s.now)
    (howed : s'.owed = 1) (hgoing : Going a.queue.pending.rows a.queue.origin n s'.queue) :
    Draining g a n s' := by
  have hzero : s.owed = 0 := by rw [State.owed, hpc]
  have hsoon := h.soon (by rw [hpc]; exact Pc.noConfusion)
  have hpaced := h.paced
  have helapsed := hr.elapsed
  have hlater := h.later
  rw [Elapsed, hpc] at helapsed
  rw [hzero] at hsoon hpaced
  refine ⟨hgoing, hnow ▸ h.later, ?_, fun _ => ?_, fun _ => ?_⟩
  · rw [hcurrent, howed]
    exact hsoon
  · rw [hnow, howed]
    push_cast at hsoon ⊢
    linarith
  · rw [hcurrent, howed]
    rcases Nat.eq_zero_or_pos n with rfl | hn
    · simpa using hlater
    · have h' := hpaced hn
      push_cast at h' ⊢
      linarith

/-- A clear step of an on-time loop. -/
theorem draining_step (hg : 0 ≤ g) {l : Label} (hr : Rhythm heartbeatIntervalSeconds s)
    (hf : Fits s) (h : Draining g a n s)
    (hs : step text deviceId heartbeatIntervalSeconds s l = some s') (hc : Clear l)
    (ht : OnTime g s l) : ∃ n', Draining g a n' s' := by
  unfold Fits at hf
  cases moves_of_step hs with
  | tick hd =>
    refine ⟨n, h.going, h.later.trans (le_add_of_nonneg_right hd), h.current, fun hx => ?_,
      h.paced⟩
    have hlate := ht hx
    have hcurrent := h.current
    show s.now + _ ≤ a.now + (n + s.owed + 1 : ℕ) * g
    push_cast at hcurrent ⊢
    linarith
  | requestStop => exact ⟨n, h.keep h.going rfl rfl rfl id⟩
  | others hl hq =>
    obtain ⟨haux, hfetch⟩ := aux_of_others hq hl
    have hgoing := h.going.step hq hc
    rw [hfetch] at hgoing
    exact ⟨n, h.keep hgoing (by simp only [State.owed, haux]) rfl rfl id⟩
  | enterWait hpc _ | wake hpc _ _ | goOn hpc _ =>
    exact ⟨n, h.keep h.going (by simp only [State.owed, hpc]) rfl rfl fun _ => by
      rw [hpc]; exact Pc.noConfusion⟩
  | leave hpc _ =>
    refine ⟨n, h.keep h.going ?_ rfl rfl fun hx => absurd rfl hx⟩
    rcases hpc with hpc | hpc <;> simp only [State.owed, hpc]
  | beaten hpc _ =>
    exact ⟨n, h.keep h.going (by simp only [State.owed, hpc]) rfl rfl fun _ => by
      rw [hpc]; exact Pc.noConfusion⟩
  | drain hpc hq =>
    have hgoing := h.going.step hq rfl
    simp only [OfflineQueue.step] at hq
    split at hq
    · cases hq
      refine ⟨n, h.keep hgoing ?_ rfl rfl fun _ => by rw [hpc]; exact Pc.noConfusion⟩
      simp only [State.owed, hpc, if_true]
    · cases hq
  | skip _ hup =>
    rw [h.going.connected] at hup
    cases hup
  | drained hpc haux =>
    refine ⟨n, h.keep h.going ?_ rfl rfl fun _ => by rw [hpc]; exact Pc.noConfusion⟩
    simp [State.owed, hpc, haux]
  | beat hpc _ hq => exact ⟨n, h.read hr hpc hg rfl rfl rfl (h.going.step hq rfl)⟩
  | rest hpc _ => exact ⟨n, h.read hr hpc hg rfl rfl rfl h.going⟩
  | call hl hq =>
    have hin := inside_of_step hq hl
    refine ⟨_, h.keep (h.going.step hq hc) ?_ rfl rfl id⟩
    rw [hin.isFetch]
    cases hpc : s.pc with
    | beating =>
      rw [hpc] at hf
      have hne : s.queue.aux ≠ .fetching := by
        intro h
        rw [h] at hf
        rcases hf with h | h <;> cases h
      simp only [State.owed, hpc, if_neg hne]
    | draining => simp [State.owed, hpc, hin.notFetching]
    | head | waiting _ | woken | reading | checking | exited =>
      rw [hpc] at hf
      exact absurd hf hin.ne_idle

/-- The loop is between two turns. -/
def Pc.between : Pc → Bool
  | .head | .waiting _ | .woken | .reading => true
  | _ => false

theorem Draining.start (hpc : a.pc.between = true) (hup : a.queue.connected = true)
    (hmain : enqueues a.queue.main = false) (hr : Rhythm heartbeatIntervalSeconds a)
    (hf : Fits a) (hg : 0 ≤ g) : Draining g a 0 a := by
  have howed : a.owed = 0 ∧ a.queue.aux = .idle := by
    unfold State.owed
    unfold Fits at hf
    cases h : a.pc with
    | head | waiting _ | woken | reading =>
      rw [h] at hf
      exact ⟨rfl, hf⟩
    | beating | checking | draining | exited =>
      rw [h] at hpc
      cases hpc
  obtain ⟨howed, hidle⟩ := howed
  refine ⟨⟨hup, fun w => ?_, rfl, ?_, List.suffix_rfl, fun hne => ?_, fun e rest he => ?_,
    fun r hr => Or.inl hr⟩, le_rfl, ?_, fun _ => ?_, fun hpos => ?_⟩
  · cases w with
    | main => exact hmain
    | auxiliary => simp only [OfflineQueue.State.call, hidle, enqueues]
  · rw [hidle]
    rfl
  · rw [hidle] at hne
    exact absurd rfl hne
  · rw [hidle] at he
    cases he
  · rw [howed]
    simpa using hr.now
  · rw [howed]
    simpa using hg
  · rw [howed] at hpos
    exact absurd hpos (Nat.lt_irrefl 0)

theorem draining_run (hpos : 0 < heartbeatIntervalSeconds) (hg : 0 ≤ g) {a b : State}
    {ls : List Label} (hr : Rhythm heartbeatIntervalSeconds a) (hf : Fits a)
    (h : Draining g a 0 a)
    (hrun : ((system text deviceId heartbeatIntervalSeconds).guard
      fun s l => Clear l ∧ OnTime g s l).Run a ls b) :
    Rhythm heartbeatIntervalSeconds b ∧ Fits b ∧ ∃ n, Draining g a n b := by
  refine hrun.invariant
    (P := fun s => Rhythm heartbeatIntervalSeconds s ∧ Fits s ∧ ∃ n, Draining g a n s)
    (fun s l s' hi hs => ?_) ⟨hr, hf, 0, h⟩
  obtain ⟨hr, hf, n, h⟩ := hi
  exact ⟨(rhythm_inductive text deviceId hpos).step s l s' hr hs.1,
    fits_inductive.step s l s' hf hs.1, draining_step hg hr hf h hs.1 hs.2.1 hs.2.2⟩

theorem batch_of_owed (h : Fits s) (howed : s.owed = 1) : s.queue.aux.batch = [] := by
  unfold Fits at h
  unfold State.owed at howed
  cases hpc : s.pc with
  | beating =>
    rw [hpc] at h
    cases haux : s.queue.aux with
    | idle | calling _ => rfl
    | fetching | draining _ | deleting _ _ =>
      rw [haux] at h
      rcases h with h | h <;> cases h
  | draining =>
    rw [hpc] at howed
    by_cases haux : s.queue.aux = .fetching
    · rw [haux]
      rfl
    · simp only [haux, if_false] at howed
      cases howed
  | head | waiting _ | woken | reading | checking | exited =>
    rw [hpc] at h
    have hidle : s.queue.aux = .idle := h
    rw [hidle]
    rfl

theorem owed_le (s : State) : s.owed = 0 ∨ s.owed = 1 := by
  unfold State.owed
  cases s.pc with
  | draining => by_cases h : s.queue.aux = .fetching <;> simp [h]
  | head | waiting _ | woken | reading | beating | checking | exited => simp

/-- More fetches than it takes. -/
theorem Draining.rows_eq_nil (h : Draining g a n s) (hf : Fits s) {k : ℕ}
    (hk : a.queue.pending.rows.length ≤ kDrainBatchSize * k) (hn : k < n + s.owed) :
    s.queue.pending.rows = [] := by
  have hdrop : a.queue.pending.rows.drop (kDrainBatchSize * n) = [] := by
    rw [List.drop_eq_nil_iff]
    refine hk.trans (Nat.mul_le_mul_left _ ?_)
    have := owed_le s
    omega
  have hbatch : s.queue.aux.batch = [] := by
    rcases owed_le s with howed | howed
    · by_contra hne
      have hlen := h.going.batch hne
      have hpos := List.length_pos_iff.mpr hne
      have hmul : kDrainBatchSize * (k + 1) ≤ kDrainBatchSize * n :=
        Nat.mul_le_mul_left _ (by omega)
      rw [Nat.mul_succ] at hmul
      omega
    · exact batch_of_owed hf howed
  rw [h.going.left, hdrop, hbatch]
  rfl

/-- No more than fifty rows a second. -/
theorem Draining.length_le (h : Draining g a n s) (hr : Rhythm heartbeatIntervalSeconds s) :
    a.queue.pending.rows.length * seconds 1 ≤
      s.queue.pending.rows.length * seconds 1 + kDrainBatchSize * (s.now - a.now + seconds 1) := by
  have hlen : a.queue.pending.rows.length ≤ s.queue.pending.rows.length + kDrainBatchSize * n := by
    rw [h.going.left, List.length_append, List.length_drop]
    omega
  have htime : n * seconds 1 ≤ s.now - a.now + seconds 1 := by
    have hnow := hr.now
    have hlater := h.later
    have hsec : 0 < seconds 1 := seconds_pos Int.one_pos
    rcases Nat.eq_zero_or_pos n with rfl | hn
    · push_cast
      linarith
    · have hpaced := h.paced (by omega)
      have howed : 0 ≤ (s.owed : ℤ) * seconds 1 := mul_nonneg (Int.natCast_nonneg _) hsec.le
      push_cast at hpaced
      linarith
  calc (a.queue.pending.rows.length : ℤ) * seconds 1
      ≤ (s.queue.pending.rows.length + kDrainBatchSize * n : ℕ) * seconds 1 :=
        mul_le_mul_of_nonneg_right (Int.ofNat_le.mpr hlen) (seconds_pos Int.one_pos).le
    _ = s.queue.pending.rows.length * seconds 1 + kDrainBatchSize * (n * seconds 1) := by
        push_cast
        ring
    _ ≤ _ := Int.add_le_add_left (mul_le_mul_of_nonneg_left htime (Int.natCast_nonneg _)) _

/-- **The backlog is drained**: fifty rows a turn, and a turn takes at least a second. -/
theorem backlog_drained (hpos : 0 < heartbeatIntervalSeconds) (hg : 0 ≤ g) {a b : State}
    {ls : List Label} (ha : (system text deviceId heartbeatIntervalSeconds).Reachable a)
    (hpc : a.pc.between = true) (hup : a.queue.connected = true)
    (hmain : enqueues a.queue.main = false)
    (hrun : ((system text deviceId heartbeatIntervalSeconds).guard
      fun s l => Clear l ∧ OnTime g s l).Run a ls b) :
    b.queue.pending.rows <:+ a.queue.pending.rows ∧
    (∀ r ∈ a.queue.pending.rows, r ∈ b.queue.pending.rows ∨
      ⟨a.queue.origin r.id, r.message⟩ ∈ b.queue.accepted) ∧
    (a.queue.pending.rows.length * seconds 1 ≤ b.queue.pending.rows.length * seconds 1 +
      kDrainBatchSize * (b.now - a.now + seconds 1)) ∧
    ∀ k : ℕ, a.queue.pending.rows.length ≤ kDrainBatchSize * k → a.now + (k + 1) * g < b.now →
      b.pc ≠ .exited → b.queue.pending.rows = [] := by
  have hrhythm := (rhythm_inductive text deviceId hpos).reachable a ha
  have hfits := fits_inductive.reachable a ha
  obtain ⟨hr, hf, n, h⟩ := draining_run hpos hg hrhythm hfits
    (Draining.start hpc hup hmain hrhythm hfits hg) hrun
  refine ⟨h.going.suffix, h.going.kept, h.length_le hr, fun k hk hlate hx => ?_⟩
  · refine h.rows_eq_nil hf hk ?_
    have hsoon := h.soon hx
    have hlt : ((k + 1 : ℕ) : ℤ) * g < ((n + b.owed + 1 : ℕ) : ℤ) * g := by
      push_cast at hsoon ⊢
      linarith
    have := lt_of_mul_lt_mul_right hlt hg
    omega

/-- A message that an earlier run has left. -/
def earlier (i : ℕ) : PendingEvent := ⟨i + 1, "facegate/health/fault", [], 0⟩

def backlog (n : ℕ) : PendingTable where
  rows := (List.range n).map earlier
  sorted := List.pairwise_map.mpr (List.pairwise_lt_range.imp fun h => by
    simp only [earlier]
    omega)
  last := n
  le_last r hr := by
    obtain ⟨i, hi, rfl⟩ := List.mem_map.mp hr
    rw [List.mem_range] at hi
    simp only [earlier]
    omega

def leftOver (n : ℕ) : OfflineQueue.State :=
  { OfflineQueue.boot with
    pending := backlog n
    origin := fun id => (id - 1).toNat
    connected := true
    submitted := (backlog n).rows.map PendingEvent.message }

/-- A turn that drains `n` rows. -/
def drainTurn (d : Time) (n : ℕ) : List Label :=
  turn d ++ [.proceed, .call (.fetch true)] ++
    (List.replicate n [.call (.drainPublish true), .call (.delete true)]).flatten ++ [.proceed]

theorem initial_leftOver (n : ℕ) : OfflineQueue.Initial (leftOver n) := by
  refine ⟨rfl, rfl, rfl, ?_, rfl, rfl, rfl⟩
  show ((List.range n).map earlier).map (fun r => (r.id - 1).toNat) =
    List.range ((List.range n).map earlier).length
  rw [List.length_map, List.length_range, List.map_map]
  refine (List.map_congr_left fun i _ => ?_).trans (List.map_id _)
  simp [earlier]

/-- The first turn drains fifty rows, the second the last one. -/
theorem backlog_drained_two : ∃ a b : State, a.queue.pending.rows.length = 51 ∧
    b.queue.pending.rows = [] ∧ ∀ r ∈ a.queue.pending.rows,
      ⟨a.queue.origin r.id, r.message⟩ ∈ b.queue.accepted := by
  have hinit : Initial (boot (leftOver 51)) := initial_boot (initial_leftOver 51)
  obtain ⟨b, hrun, hnow, hpc⟩ := LTS.exists_run_where Initial
    (step (JsonText.compact []) "edge-01" 30) (fun s l => Clear l ∧ OnTime (seconds 2) s l)
    (boot (leftOver 51))
    (drainTurn (seconds 2) 50 ++ drainTurn (seconds 2) 1 ++ turn (seconds 2) ++ [.tick (seconds 2)])
    (fun b => 6000000000 < b.now ∧ b.pc ≠ .exited) (by decide +kernel)
  obtain ⟨-, hkept, -, hdrained⟩ := backlog_drained (by decide : (0 : ℤ) < 30)
    (by decide : 0 ≤ seconds 2) ⟨_, _, hinit, .nil _⟩ rfl rfl rfl hrun
  have hnil := hdrained 2 (by decide) hnow hpc
  refine ⟨boot (leftOver 51), b, rfl, hnil, fun r hr => (hkept r hr).resolve_left ?_⟩
  rw [hnil]
  exact List.not_mem_nil

end FaceGate.L3.AuxiliaryLoop
