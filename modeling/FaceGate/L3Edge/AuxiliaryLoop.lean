import FaceGate.L1Domain.Serialization
import FaceGate.L3Edge.OfflineQueue
import Mathlib.Data.List.Chain
import Mathlib.Tactic.Linarith
import Mathlib.Tactic.Ring

/-!
# The auxiliary loop, with a clock

Once a second `auxiliary_loop` looks whether a heartbeat is due and, when connected,
drains the queue. Here it runs on the steady clock beside the main thread, the connection
and `request_stop`; what the two threads do to the queue is `OfflineQueue.step`
(`refines_queue`). Nothing bounds the work of a turn, so what has an upper bound in
time is about runs in which the readings of the clock are at most `g` apart (`OnTime`).

* `heartbeat_rhythm`: heartbeats are never less than the interval apart, and in an
  on-time run less than `g` more than that.
* `loop_stops`: after `request_stop` the loop is never blocked and soon over; no turn begins.
-/
namespace FaceGate.L3.AuxiliaryLoop

open Core Core.Keyed FaceGate.L1 FaceGate.L1.Domain FaceGate.L2.Storage
open FaceGate.L3.OfflineQueue (kDrainBatchSize AuxPc)

variable {K : Type}

/-! ## The loop -/

/-- Where `auxiliary_loop` stands.
mirrors edge/src/pipeline/pipeline.cpp:324-367 -/
inductive Pc where
  | head
  /-- In `wait_for`, since. -/
  | waiting (since : Time)
  | woken
  | reading
  /-- In `try_publish_or_enqueue`. -/
  | beating
  | checking
  | draining
  | exited
  deriving DecidableEq, Repr

/-- `current` and `lastHeartbeat` are the locals. The readings of the clock and those at which
a heartbeat was submitted, newest first, are not in the program. -/
structure State where
  now : Time
  stop : Bool
  pc : Pc
  current : Time
  lastHeartbeat : Time
  queue : OfflineQueue.State
  readings : List Time
  beats : List Time

inductive Label where
  | tick (d : Time)
  | requestStop
  /-- The main thread, or the connection. -/
  | others (l : OfflineQueue.Label)
  /-- A notification, or a spurious wake-up, that finds the stop. -/
  | notified
  | proceed
  | readClock (timestamp : Timestamp)
  /-- Inside a call of the loop. -/
  | call (l : OfflineQueue.Label)
  deriving DecidableEq, Repr

/-- A step of the other thread, or of the connection. -/
def ofOthers : OfflineQueue.Label → Bool
  | .connection _ => true
  | .submit who _ | .publish who _ | .enqueue who _ _ => who = .main
  | .checkConnected | .fetch _ | .drainPublish _ | .delete _ => false

def inCall : OfflineQueue.Label → Bool
  | .publish .auxiliary _ | .enqueue .auxiliary _ _ => true
  | .fetch _ | .drainPublish _ | .delete _ => true
  | _ => false

def isFetch : OfflineQueue.Label → ℕ
  | .fetch _ => 1
  | _ => 0

section Step
variable (text : JsonText K) (deviceId : String) (heartbeatIntervalSeconds : ℤ)

/-- mirrors edge/src/pipeline/pipeline.cpp:316-367 -/
def step (s : State) : Label → Option State
  | .tick d => if 0 ≤ d then some { s with now := s.now + d } else none
  | .requestStop => some { s with stop := true }
  | .others l =>
    if ofOthers l then (OfflineQueue.step s.queue l).map fun q => { s with queue := q } else none
  | .notified =>
    match s.pc with
    | .waiting _ => if s.stop then some { s with pc := .woken } else none
    | _ => none
  | .proceed =>
    match s.pc with
    | .head => some { s with pc := if s.stop then .exited else .waiting s.now }
    | .waiting since =>
      if since + seconds 1 ≤ s.now then some { s with pc := .woken } else none
    | .woken => some { s with pc := if s.stop then .exited else .reading }
    | .beating =>
      if s.queue.aux = .idle then
        some { s with pc := .checking, lastHeartbeat := s.current }
      else none
    | .checking =>
      if s.queue.connected then
        (OfflineQueue.step s.queue .checkConnected).map fun q =>
          { s with pc := .draining, queue := q }
      else some { s with pc := .head }
    | .draining => if s.queue.aux = .idle then some { s with pc := .head } else none
    | .reading | .exited => none
  | .readClock timestamp =>
    if s.pc = .reading then
      let t := { s with current := s.now, readings := s.now :: s.readings }
      if seconds heartbeatIntervalSeconds ≤ s.now - s.lastHeartbeat then
        let msg := serializeHeartbeat text ⟨timestamp⟩ deviceId
        (OfflineQueue.step s.queue (.submit .auxiliary msg)).map fun q =>
          { t with pc := .beating, queue := q, beats := s.now :: s.beats }
      else some { t with pc := .checking }
    else none
  | .call l =>
    if inCall l then
      (OfflineQueue.step s.queue l).map fun q => { s with queue := q }
    else none

/-- The first reading is the start: as if a heartbeat had just been sent.
mirrors edge/src/pipeline/pipeline.cpp:319 -/
structure Initial (s : State) : Prop where
  pc : s.pc = .head
  current : s.current = s.now
  lastHeartbeat : s.lastHeartbeat = s.now
  queue : OfflineQueue.Initial s.queue
  readings : s.readings = [s.now]
  beats : s.beats = [s.now]

def system : LTS State Label :=
  .ofStep Initial (step text deviceId heartbeatIntervalSeconds)

end Step

variable {text : JsonText K} {deviceId : String} {heartbeatIntervalSeconds : ℤ} {s s' : State}
  {q q' : OfflineQueue.State}

/-! ## What a step does -/

/-- The steps, one by one. -/
inductive Moves (text : JsonText K) (deviceId : String) (heartbeatIntervalSeconds : ℤ)
    (s : State) : Label → State → Prop where
  | tick {d : Time} (hd : 0 ≤ d) : Moves _ _ _ s (.tick d) { s with now := s.now + d }
  | requestStop : Moves _ _ _ s .requestStop { s with stop := true }
  | others {l : OfflineQueue.Label} {q : OfflineQueue.State} (hl : ofOthers l = true)
      (hq : OfflineQueue.step s.queue l = some q) :
      Moves _ _ _ s (.others l) { s with queue := q }
  | enterWait (hpc : s.pc = .head) (hstop : s.stop = false) :
      Moves _ _ _ s .proceed { s with pc := .waiting s.now }
  | leave (hpc : s.pc = .head ∨ s.pc = .woken) (hstop : s.stop = true) :
      Moves _ _ _ s .proceed { s with pc := .exited }
  | wake {l : Label} {since : Time} (hpc : s.pc = .waiting since)
      (hl : l = .notified ∨ l = .proceed)
      (hwait : s.stop = true ∨ since + seconds 1 ≤ s.now) :
      Moves _ _ _ s l { s with pc := .woken }
  | goOn (hpc : s.pc = .woken) (hstop : s.stop = false) :
      Moves _ _ _ s .proceed { s with pc := .reading }
  | beaten (hpc : s.pc = .beating) (haux : s.queue.aux = .idle) :
      Moves _ _ _ s .proceed { s with pc := .checking, lastHeartbeat := s.current }
  | drain {q : OfflineQueue.State} (hpc : s.pc = .checking)
      (hq : OfflineQueue.step s.queue .checkConnected = some q) :
      Moves _ _ _ s .proceed { s with pc := .draining, queue := q }
  | skip (hpc : s.pc = .checking) (hup : s.queue.connected = false) :
      Moves _ _ _ s .proceed { s with pc := .head }
  | drained (hpc : s.pc = .draining) (haux : s.queue.aux = .idle) :
      Moves _ _ _ s .proceed { s with pc := .head }
  | beat {timestamp : Timestamp} {q : OfflineQueue.State} (hpc : s.pc = .reading)
      (hdue : seconds heartbeatIntervalSeconds ≤ s.now - s.lastHeartbeat)
      (hq : OfflineQueue.step s.queue
        (.submit .auxiliary (serializeHeartbeat text ⟨timestamp⟩ deviceId)) = some q) :
      Moves _ _ _ s (.readClock timestamp)
        { s with
          pc := .beating
          current := s.now
          queue := q
          readings := s.now :: s.readings
          beats := s.now :: s.beats }
  | rest {timestamp : Timestamp} (hpc : s.pc = .reading)
      (hdue : s.now - s.lastHeartbeat < seconds heartbeatIntervalSeconds) :
      Moves _ _ _ s (.readClock timestamp)
        { s with pc := .checking, current := s.now, readings := s.now :: s.readings }
  | call {l : OfflineQueue.Label} {q : OfflineQueue.State} (hl : inCall l = true)
      (hq : OfflineQueue.step s.queue l = some q) :
      Moves _ _ _ s (.call l) { s with queue := q }

theorem moves_of_step {l : Label} (h : step text deviceId heartbeatIntervalSeconds s l = some s') :
    Moves text deviceId heartbeatIntervalSeconds s l s' := by
  cases l with
  | tick d =>
    simp only [step] at h
    split at h
    · rename_i hd
      cases h
      exact .tick hd
    · cases h
  | requestStop =>
    cases h
    exact .requestStop
  | others l =>
    simp only [step] at h
    split at h
    · rename_i hl
      obtain ⟨q, hq, rfl⟩ := Option.map_eq_some_iff.mp h
      exact .others hl hq
    · cases h
  | notified =>
    simp only [step] at h
    split at h
    · rename_i hpc
      split at h
      · rename_i hstop
        cases h
        exact .wake hpc (Or.inl rfl) (Or.inl hstop)
      · cases h
    · cases h
  | call l =>
    simp only [step] at h
    split at h
    · rename_i hl
      obtain ⟨q, hq, rfl⟩ := Option.map_eq_some_iff.mp h
      exact .call hl hq
    · cases h
  | readClock timestamp =>
    simp only [step] at h
    split at h
    · rename_i hpc
      split at h
      · rename_i hdue
        obtain ⟨q, hq, rfl⟩ := Option.map_eq_some_iff.mp h
        exact .beat hpc hdue hq
      · rename_i hdue
        cases h
        exact .rest hpc (not_le.mp hdue)
    · cases h
  | proceed =>
    cases hpc : s.pc with
    | head =>
      simp only [step, hpc] at h
      cases h
      by_cases hstop : s.stop = true
      · rw [if_pos hstop]
        exact .leave (Or.inl hpc) hstop
      · rw [if_neg hstop]
        exact .enterWait hpc (Bool.not_eq_true _ ▸ hstop)
    | waiting since =>
      simp only [step, hpc] at h
      split at h
      · rename_i hwait
        cases h
        exact .wake hpc (Or.inr rfl) (Or.inr hwait)
      · cases h
    | woken =>
      simp only [step, hpc] at h
      cases h
      by_cases hstop : s.stop = true
      · rw [if_pos hstop]
        exact .leave (Or.inr hpc) hstop
      · rw [if_neg hstop]
        exact .goOn hpc (Bool.not_eq_true _ ▸ hstop)
    | beating =>
      simp only [step, hpc] at h
      split at h
      · rename_i haux
        cases h
        exact .beaten hpc haux
      · cases h
    | checking =>
      simp only [step, hpc] at h
      split at h
      · obtain ⟨q, hq, rfl⟩ := Option.map_eq_some_iff.mp h
        exact .drain hpc hq
      · rename_i hup
        cases h
        exact .skip hpc (Bool.not_eq_true _ ▸ hup)
    | draining =>
      simp only [step, hpc] at h
      split at h
      · rename_i haux
        cases h
        exact .drained hpc haux
      · cases h
    | reading | exited =>
      simp only [step, hpc] at h
      cases h

/-- What the two threads do to the queue is a run of it. -/
theorem refines_queue :
    (system text deviceId heartbeatIntervalSeconds).Refines OfflineQueue.system State.queue where
  init _ h := h.queue
  step s l s' h := by
    cases moves_of_step h with
    | others _ hq | drain _ hq | beat _ _ hq | call _ hq => exact Or.inr ⟨_, hq⟩
    | _ => exact Or.inl rfl

/-! ## The rhythm -/

/-- The heartbeat last submitted, or the start. -/
def State.lastBeat (s : State) : Time :=
  if s.pc = .beating then s.current else s.lastHeartbeat

/-- How far the loop is from the last reading. -/
def Elapsed (s : State) : Prop :=
  match s.pc with
  | .waiting since => s.current ≤ since
  | .woken => s.stop = true ∨ s.current + seconds 1 ≤ s.now
  | .reading => s.current + seconds 1 ≤ s.now
  | _ => True

structure Rhythm (heartbeatIntervalSeconds : ℤ) (s : State) : Prop where
  now : s.current ≤ s.now
  elapsed : Elapsed s
  readings : s.readings.head? = some s.current
  apart : s.readings.IsChain fun b a => a + seconds 1 ≤ b
  beats : s.beats.head? = some s.lastBeat
  recent : s.current < s.lastBeat + seconds heartbeatIntervalSeconds
  spaced : s.beats.IsChain fun b a => a + seconds heartbeatIntervalSeconds ≤ b

theorem seconds_pos {n : ℤ} (h : 0 < n) : 0 < seconds n := mul_pos h (by decide)

theorem Elapsed.mono (h : Elapsed s) (hpc : s'.pc = s.pc) (hcurrent : s'.current = s.current)
    (hnow : s.now ≤ s'.now) (hstop : s.stop = true → s'.stop = true) : Elapsed s' := by
  unfold Elapsed at h ⊢
  rw [hpc, hcurrent]
  cases hp : s.pc with
  | waiting since =>
    rw [hp] at h
    exact h
  | woken =>
    rw [hp] at h
    exact h.imp hstop (le_trans · hnow)
  | reading =>
    rw [hp] at h
    exact le_trans h hnow
  | head | beating | checking | draining | exited => trivial

theorem lastBeat_of_ne (h : s.pc ≠ .beating) : s.lastBeat = s.lastHeartbeat := if_neg h

/-- The loop goes on to another place. -/
theorem Rhythm.goTo (hi : Rhythm heartbeatIntervalSeconds s) {pc : Pc} (hpc : s.pc ≠ .beating)
    (hpc' : pc ≠ .beating) (h : Elapsed { s with pc := pc }) :
    Rhythm heartbeatIntervalSeconds { s with pc := pc } := by
  have hlast : State.lastBeat { s with pc := pc } = s.lastBeat :=
    (lastBeat_of_ne hpc').trans (lastBeat_of_ne hpc).symm
  exact { hi with
    elapsed := h
    beats := hlast ▸ hi.beats
    recent := hlast ▸ hi.recent }

theorem rhythm_inductive (text : JsonText K) (deviceId : String)
    (hpos : 0 < heartbeatIntervalSeconds) :
    (system text deviceId heartbeatIntervalSeconds).Inductive
      (Rhythm heartbeatIntervalSeconds) where
  init s h := by
    have hlast : s.lastBeat = s.now := by
      rw [lastBeat_of_ne (by rw [h.pc]; decide), h.lastHeartbeat]
    refine ⟨h.current.le, ?_, by rw [h.readings, h.current]; rfl, ?_, by rw [h.beats, hlast]; rfl,
      ?_, ?_⟩
    · rw [Elapsed, h.pc]
      trivial
    · rw [h.readings]
      exact List.isChain_singleton _
    · rw [h.current, hlast]
      exact lt_add_of_pos_right _ (seconds_pos hpos)
    · rw [h.beats]
      exact List.isChain_singleton _
  step s l s' hi hs := by
    cases moves_of_step hs with
    | tick hd =>
      exact { hi with
        now := hi.now.trans (le_add_of_nonneg_right hd)
        elapsed := hi.elapsed.mono rfl rfl (le_add_of_nonneg_right hd) id }
    | requestStop => exact { hi with elapsed := hi.elapsed.mono rfl rfl le_rfl fun _ => rfl }
    | others _ _ => exact { hi with elapsed := hi.elapsed }
    | call _ _ => exact { hi with elapsed := hi.elapsed }
    | enterWait hpc _ => exact hi.goTo (by rw [hpc]; decide) Pc.noConfusion hi.now
    | leave hpc _ =>
      refine hi.goTo ?_ (by decide) trivial
      rcases hpc with hpc | hpc <;> rw [hpc] <;> decide
    | wake hpc _ hwait =>
      refine hi.goTo (by rw [hpc]; exact Pc.noConfusion) (by decide) (hwait.imp_right fun hle => ?_)
      have h := hi.elapsed
      rw [Elapsed, hpc] at h
      exact (add_le_add_left h _).trans hle
    | goOn hpc hstop =>
      have h := hi.elapsed
      rw [Elapsed, hpc] at h
      exact hi.goTo (by rw [hpc]; decide) (by decide) (h.resolve_left (by rw [hstop]; decide))
    | beaten hpc _ =>
      have hlast : s.lastBeat = s.current := if_pos hpc
      exact { hi with
        elapsed := trivial
        beats := hlast ▸ hi.beats
        recent := hlast ▸ hi.recent }
    | drain hpc _ =>
      have h : Rhythm heartbeatIntervalSeconds { s with pc := .draining } :=
        hi.goTo (by rw [hpc]; decide) (by decide) trivial
      exact { h with }
    | skip hpc _ => exact hi.goTo (by rw [hpc]; decide) (by decide) trivial
    | drained hpc _ => exact hi.goTo (by rw [hpc]; decide) (by decide) trivial
    | beat hpc hdue _ =>
      have hlast : s.lastBeat = s.lastHeartbeat := lastBeat_of_ne (by rw [hpc]; decide)
      have h := hi.elapsed
      rw [Elapsed, hpc] at h
      refine ⟨le_rfl, trivial, rfl, ?_, rfl, ?_, ?_⟩
      · refine List.isChain_cons.mpr ⟨fun r hr => ?_, hi.apart⟩
        rw [hi.readings] at hr
        cases hr
        exact h
      · exact lt_add_of_pos_right _ (seconds_pos hpos)
      · refine List.isChain_cons.mpr ⟨fun r hr => ?_, hi.spaced⟩
        rw [hi.beats, hlast] at hr
        cases hr
        linarith
    | rest hpc hdue =>
      have hlast : s.lastBeat = s.lastHeartbeat := lastBeat_of_ne (by rw [hpc]; decide)
      have h := hi.elapsed
      rw [Elapsed, hpc] at h
      refine ⟨le_rfl, trivial, rfl, ?_, ?_, ?_, hi.spaced⟩
      · refine List.isChain_cons.mpr ⟨fun r hr => ?_, hi.apart⟩
        rw [hi.readings] at hr
        cases hr
        exact h
      · rw [hi.beats, hlast]
        rfl
      · exact sub_lt_iff_lt_add'.mp hdue

/-- The clock is read again within `g`, as long as the loop runs. -/
def OnTime (g : Time) (s : State) : Label → Prop
  | .tick d => s.pc ≠ .exited → s.now + d ≤ s.current + g
  | _ => True

instance (g : Time) (s : State) (l : Label) : Decidable (OnTime g s l) := by
  cases l <;> unfold OnTime <;> infer_instance

structure Prompt (heartbeatIntervalSeconds : ℤ) (g : Time) (s : State) : Prop where
  rhythm : Rhythm heartbeatIntervalSeconds s
  now : s.pc ≠ .exited → s.now ≤ s.current + g
  beats : s.beats.IsChain fun b a => b < a + seconds heartbeatIntervalSeconds + g

theorem prompt_inductive (text : JsonText K) (deviceId : String)
    (hpos : 0 < heartbeatIntervalSeconds) {g : Time} (hg : 0 ≤ g) :
    ((system text deviceId heartbeatIntervalSeconds).guard (OnTime g)).Inductive
      (Prompt heartbeatIntervalSeconds g) where
  init s h := by
    refine ⟨(rhythm_inductive text deviceId hpos).init s h, fun _ => ?_, ?_⟩
    · rw [h.current]
      exact le_add_of_nonneg_right hg
    · rw [h.beats]
      exact List.isChain_singleton _
  step s l s' hi hs := by
    have hr := (rhythm_inductive text deviceId hpos).step s l s' hi.rhythm hs.1
    cases moves_of_step hs.1 with
    | tick _ => exact ⟨hr, hs.2, hi.beats⟩
    | requestStop | others _ _ | call _ _ => exact ⟨hr, hi.now, hi.beats⟩
    | leave _ _ => exact ⟨hr, fun h => absurd rfl h, hi.beats⟩
    | enterWait hpc _ | wake hpc _ _ | goOn hpc _ | beaten hpc _ | drain hpc _ | skip hpc _
    | drained hpc _ => exact ⟨hr, fun _ => hi.now (by rw [hpc]; exact Pc.noConfusion), hi.beats⟩
    | rest _ _ => exact ⟨hr, fun _ => le_add_of_nonneg_right hg, hi.beats⟩
    | beat hpc _ _ =>
      refine ⟨hr, fun _ => le_add_of_nonneg_right hg,
        List.isChain_cons.mpr ⟨fun b hb => ?_, hi.beats⟩⟩
      rw [hi.rhythm.beats] at hb
      cases hb
      have hnow := hi.now (by rw [hpc]; exact Pc.noConfusion)
      have hrecent := hi.rhythm.recent
      linarith

/-- **Heartbeats** are at least the interval apart, and no more than a turn later. -/
theorem heartbeat_rhythm (text : JsonText K) (deviceId : String)
    (hpos : 0 < heartbeatIntervalSeconds) :
    (∀ s, (system text deviceId heartbeatIntervalSeconds).Reachable s →
      s.readings.IsChain (fun b a => a + seconds 1 ≤ b) ∧
      s.beats.IsChain (fun b a => a + seconds heartbeatIntervalSeconds ≤ b) ∧
      OfflineQueue.Balance s.queue ∧ OfflineQueue.Exact s.queue) ∧
    ∀ g s, 0 ≤ g →
      ((system text deviceId heartbeatIntervalSeconds).guard (OnTime g)).Reachable s →
      s.beats.IsChain (fun b a => b < a + seconds heartbeatIntervalSeconds + g) ∧
      (s.pc ≠ .exited → ∀ b ∈ s.beats.head?,
        s.now < b + seconds heartbeatIntervalSeconds + g) := by
  refine ⟨fun s hr => ?_, fun g s hg hr => ?_⟩
  · have hi := (rhythm_inductive text deviceId hpos).reachable s hr
    exact ⟨hi.apart, hi.spaced, OfflineQueue.conservation (refines_queue.reachable hr)⟩
  · have hi := (prompt_inductive text deviceId hpos hg).reachable s hr
    refine ⟨hi.beats, fun hpc b hb => ?_⟩
    rw [hi.rhythm.beats] at hb
    cases hb
    have hnow := hi.now hpc
    have hrecent := hi.rhythm.recent
    linarith

/-- A loop that begins with the queue `q`. -/
def boot (q : OfflineQueue.State) : State := ⟨0, false, .head, 0, 0, q, [0], [0]⟩

theorem initial_boot (hq : OfflineQueue.Initial q) : Initial (boot q) :=
  ⟨rfl, rfl, rfl, hq, rfl, rfl⟩

/-- The waits of a turn and the reading after them. -/
def turn (d : Time) : List Label := [.proceed, .tick d, .proceed, .proceed, .readClock 0]

/-- The second heartbeat is queued, and the third follows two seconds later. -/
theorem heartbeat_rhythm_first :
    ∃ s : State, s.beats.length = 3 ∧ s.beats.IsChain (fun b a => a + seconds 1 ≤ b) ∧
      s.beats.IsChain (fun b a => b < a + seconds 1 + seconds 2) := by
  obtain ⟨s, hr, hb⟩ := LTS.exists_reachable_where Initial
    (step (JsonText.compact []) "edge-01" 1) (OnTime (seconds 2))
    (turn (seconds 1) ++ [.call (.publish .auxiliary false), .call (.enqueue .auxiliary true 0),
      .proceed, .proceed] ++ turn (seconds 2))
    (initial_boot OfflineQueue.initial_boot) (fun s => s.beats.length = 3) (by decide +kernel)
  have hrhythm := heartbeat_rhythm (JsonText.compact []) "edge-01" Int.one_pos
  exact ⟨s, hb, (hrhythm.1 s hr.of_guard).2.1, (hrhythm.2 _ s (by decide) hr).1⟩

/-! ## The loop and its calls -/

/-- How many steps the call takes at most. -/
def work : AuxPc → ℕ
  | .idle => 0
  | .calling (.publishing _) => 2
  | .calling (.enqueueing _) => 1
  | .fetching => 2 * kDrainBatchSize + 1
  | .draining batch => 2 * batch.length
  | .deleting _ rest => 2 * rest.length + 1

/-- In `try_publish_or_enqueue`. -/
def submitting : AuxPc → Bool
  | .calling _ => true
  | _ => false

theorem work_drain (batch : List PendingEvent) :
    work (OfflineQueue.drain batch) = 2 * batch.length := by
  cases batch <;> rfl

/-- A step inside a call: the call is nearer its end, and still the same. -/
structure Inside (l : OfflineQueue.Label) (aux aux' : AuxPc) : Prop where
  work : work aux' < work aux
  notFetching : aux' ≠ .fetching
  notEmpty : aux' ≠ .draining []
  isFetch : isFetch l = if aux = .fetching then 1 else 0
  same : submitting aux = true ∧ (aux' = .idle ∨ submitting aux' = true) ∨
    submitting aux = false ∧ submitting aux' = false

theorem work_of_submitting {aux : AuxPc} (h : aux = .idle ∨ submitting aux = true) :
    work aux ≤ 2 := by
  cases aux with
  | idle => exact Nat.zero_le _
  | calling c =>
    cases c with
    | publishing _ => exact le_rfl
    | enqueueing _ => exact Nat.one_lt_two.le
  | fetching | draining _ | deleting _ _ => rcases h with h | h <;> cases h

theorem drain_cases (batch : List PendingEvent) :
    OfflineQueue.drain batch = .idle ∨
      ∃ e rest, OfflineQueue.drain batch = .draining (e :: rest) := by
  cases batch with
  | nil => exact Or.inl rfl
  | cons e rest => exact Or.inr ⟨e, rest, rfl⟩

theorem drain_ne (batch : List PendingEvent) :
    OfflineQueue.drain batch ≠ .fetching ∧ OfflineQueue.drain batch ≠ .draining [] ∧
      submitting (OfflineQueue.drain batch) = false := by
  rcases drain_cases batch with h | ⟨e, rest, h⟩
  all_goals
    rw [h]
    exact ⟨AuxPc.noConfusion, by simp, rfl⟩

theorem Inside.ne_idle {l : OfflineQueue.Label} {aux aux' : AuxPc} (h : Inside l aux aux') :
    aux ≠ .idle := by
  rintro rfl
  exact absurd h.work (Nat.not_lt_zero _)

theorem inside_of_step {l : OfflineQueue.Label} (hs : OfflineQueue.step q l = some q')
    (hl : inCall l = true) : Inside l q.aux q'.aux := by
  cases l with
  | publish who rc =>
    cases who with
    | main => cases hl
    | auxiliary =>
      simp only [OfflineQueue.step] at hs
      split at hs
      · rename_i m hcall
        have haux : q.aux = .calling (.publishing m) := by
          cases ha : q.aux <;> simp_all [OfflineQueue.State.call]
        rw [haux]
        split at hs
        · cases hs
          exact ⟨Nat.zero_lt_two, AuxPc.noConfusion, AuxPc.noConfusion,
            rfl, Or.inl ⟨rfl, Or.inl rfl⟩⟩
        · cases hs
          exact ⟨Nat.one_lt_two, AuxPc.noConfusion, AuxPc.noConfusion,
            rfl, Or.inl ⟨rfl, Or.inr rfl⟩⟩
      · cases hs
  | enqueue who sqliteOk nowMs =>
    cases who with
    | main => cases hl
    | auxiliary =>
      simp only [OfflineQueue.step] at hs
      split at hs
      · rename_i m hcall
        have haux : q.aux = .calling (.enqueueing m) := by
          cases ha : q.aux <;> simp_all [OfflineQueue.State.call]
        rw [haux]
        split at hs
        all_goals
          cases hs
          exact ⟨Nat.zero_lt_one, AuxPc.noConfusion, AuxPc.noConfusion,
            rfl, Or.inl ⟨rfl, Or.inl rfl⟩⟩
      · cases hs
  | fetch sqliteOk =>
    simp only [OfflineQueue.step] at hs
    split at hs
    · rename_i haux
      rw [haux]
      unfold fetchPendingEvents at hs
      cases sqliteOk with
      | true =>
        cases hs
        have hne := drain_ne (q.pending.rows.take kDrainBatchSize)
        refine ⟨?_, hne.1, hne.2.1, rfl, Or.inr ⟨rfl, hne.2.2⟩⟩
        rw [work_drain, List.length_take]
        show 2 * min kDrainBatchSize _ < 2 * kDrainBatchSize + 1
        omega
      | false =>
        cases hs
        exact ⟨Nat.succ_pos _, AuxPc.noConfusion, AuxPc.noConfusion, rfl, Or.inr ⟨rfl, rfl⟩⟩
    · cases hs
  | drainPublish rc =>
    simp only [OfflineQueue.step] at hs
    split at hs
    · rename_i e rest haux
      rw [haux]
      have hwork : 2 * rest.length + 1 < work (.draining (e :: rest)) := by
        rw [work, List.length_cons]
        omega
      split at hs
      · cases hs
        exact ⟨hwork, AuxPc.noConfusion, AuxPc.noConfusion, rfl, Or.inr ⟨rfl, rfl⟩⟩
      · cases hs
        exact ⟨Nat.zero_lt_of_lt hwork, AuxPc.noConfusion, AuxPc.noConfusion,
          rfl, Or.inr ⟨rfl, rfl⟩⟩
    · cases hs
  | delete sqliteOk =>
    simp only [OfflineQueue.step] at hs
    split at hs
    · rename_i e rest haux
      rw [haux]
      split at hs
      · cases hs
        have hne := drain_ne rest
        exact ⟨by rw [work_drain]; exact Nat.lt_succ_self _, hne.1, hne.2.1, rfl,
          Or.inr ⟨rfl, hne.2.2⟩⟩
      · cases hs
        exact ⟨Nat.succ_pos _, AuxPc.noConfusion, AuxPc.noConfusion, rfl, Or.inr ⟨rfl, rfl⟩⟩
    · cases hs
  | connection _ | submit _ _ | checkConnected => cases hl

/-- The other thread leaves the auxiliary one where it is. -/
theorem aux_of_others {l : OfflineQueue.Label} (hs : OfflineQueue.step q l = some q')
    (hl : ofOthers l = true) : q'.aux = q.aux ∧ isFetch l = 0 := by
  cases l with
  | connection up =>
    cases hs
    exact ⟨rfl, rfl⟩
  | submit who msg =>
    obtain rfl : who = .main := of_decide_eq_true hl
    simp only [OfflineQueue.step] at hs
    split at hs
    · cases hs
      exact ⟨rfl, rfl⟩
    · cases hs
  | publish who rc =>
    obtain rfl : who = .main := of_decide_eq_true hl
    simp only [OfflineQueue.step] at hs
    split at hs
    · split at hs
      all_goals
        cases hs
        exact ⟨rfl, rfl⟩
    · cases hs
  | enqueue who sqliteOk nowMs =>
    obtain rfl : who = .main := of_decide_eq_true hl
    simp only [OfflineQueue.step] at hs
    split at hs
    · split at hs
      all_goals
        cases hs
        exact ⟨rfl, rfl⟩
    · cases hs
  | checkConnected | fetch _ | drainPublish _ | delete _ => cases hl

/-- The call the loop is in fits where it stands. -/
def Fits (s : State) : Prop :=
  match s.pc with
  | .beating => s.queue.aux = .idle ∨ submitting s.queue.aux = true
  | .draining =>
    submitting s.queue.aux = false ∧ s.queue.aux ≠ .draining [] ∧
      work s.queue.aux ≤ work .fetching
  | _ => s.queue.aux = .idle

theorem fits_inductive :
    (system text deviceId heartbeatIntervalSeconds).Inductive Fits where
  init s h := by
    rw [Fits, h.pc]
    exact h.queue.aux
  step s l s' hi hs := by
    unfold Fits at hi
    cases moves_of_step hs with
    | tick _ | requestStop => exact hi
    | others hl hq =>
      unfold Fits
      rw [(aux_of_others hq hl).1]
      exact hi
    | enterWait hpc _ | wake hpc _ _ | goOn hpc _ | skip hpc _ =>
      rw [hpc] at hi
      exact hi
    | leave hpc _ => rcases hpc with hpc | hpc <;> rw [hpc] at hi <;> exact hi
    | beaten _ haux | drained _ haux => exact haux
    | drain hpc hq =>
      simp only [OfflineQueue.step] at hq
      split at hq
      · cases hq
        exact ⟨rfl, AuxPc.noConfusion, le_rfl⟩
      · cases hq
    | beat hpc _ hq =>
      simp only [OfflineQueue.step] at hq
      split at hq
      · cases hq
        exact Or.inr rfl
      · cases hq
    | rest hpc _ =>
      rw [hpc] at hi
      exact hi
    | call hl hq =>
      have hin := inside_of_step hq hl
      unfold Fits
      cases hpc : s.pc with
      | beating =>
        rw [hpc] at hi
        rcases hin.same with ⟨-, h⟩ | ⟨h, -⟩
        · exact h
        · rcases hi with hidle | hsub
          · exact absurd hidle hin.ne_idle
          · rw [hsub] at h
            cases h
      | draining =>
        rw [hpc] at hi
        rcases hin.same with ⟨h, -⟩ | ⟨-, h⟩
        · rw [hi.1] at h
          cases h
        · exact ⟨h, hin.notEmpty, hin.work.le.trans hi.2.2⟩
      | head | waiting _ | woken | reading | checking | exited =>
        rw [hpc] at hi
        exact absurd hi hin.ne_idle

/-! ## The stop -/

/-- A step of the loop itself. -/
def ofLoop : Label → Bool
  | .notified | .proceed | .readClock _ | .call _ => true
  | _ => false

/-- How many steps a stopped loop takes at most. -/
def rank (s : State) : ℕ :=
  match s.pc with
  | .exited => 0
  | .head | .woken => 1
  | .waiting _ => 2
  | .draining => work s.queue.aux + 2
  | .checking => work .fetching + 3
  | .beating => work s.queue.aux + (work .fetching + 4)
  | .reading => work .fetching + 7

/-- The stop is seen where it is looked for, and each step is nearer the end. -/
theorem stopped_step {l : Label} (hf : Fits s) (hstop : s.stop = true)
    (hs : step text deviceId heartbeatIntervalSeconds s l = some s') :
    s'.stop = true ∧ (if ofLoop l then 1 else 0) + rank s' ≤ rank s ∧
      (s.pc ≠ .reading → s'.pc ≠ .reading ∧ s'.readings = s.readings) := by
  unfold Fits at hf
  cases moves_of_step hs with
  | tick _ => exact ⟨hstop, (Nat.zero_add _).le, fun h => ⟨h, rfl⟩⟩
  | requestStop => exact ⟨rfl, (Nat.zero_add _).le, fun h => ⟨h, rfl⟩⟩
  | others hl hq =>
    refine ⟨hstop, ?_, fun h => ⟨h, rfl⟩⟩
    simp [rank, ofLoop, (aux_of_others hq hl).1]
  | enterWait _ hgo | goOn _ hgo =>
    rw [hstop] at hgo
    cases hgo
  | leave hpc _ =>
    refine ⟨hstop, ?_, fun _ => ⟨Pc.noConfusion, rfl⟩⟩
    rcases hpc with hpc | hpc <;> simp [rank, ofLoop, hpc]
  | wake hpc hl _ =>
    refine ⟨hstop, ?_, fun _ => ⟨Pc.noConfusion, rfl⟩⟩
    rcases hl with rfl | rfl <;> simp [rank, ofLoop, hpc]
  | beaten hpc haux =>
    refine ⟨hstop, ?_, fun _ => ⟨Pc.noConfusion, rfl⟩⟩
    simp only [rank, ofLoop, hpc, haux, if_true]
    omega
  | drain hpc hq =>
    refine ⟨hstop, ?_, fun _ => ⟨Pc.noConfusion, rfl⟩⟩
    simp only [OfflineQueue.step] at hq
    split at hq
    · cases hq
      simp only [rank, ofLoop, hpc, if_true]
      omega
    · cases hq
  | skip hpc _ =>
    refine ⟨hstop, ?_, fun _ => ⟨Pc.noConfusion, rfl⟩⟩
    simp only [rank, ofLoop, hpc, if_true]
    omega
  | drained hpc haux =>
    refine ⟨hstop, ?_, fun _ => ⟨Pc.noConfusion, rfl⟩⟩
    simp [rank, ofLoop, hpc, haux, work]
  | beat hpc _ hq =>
    refine ⟨hstop, ?_, fun h => absurd hpc h⟩
    simp only [OfflineQueue.step] at hq
    split at hq
    · cases hq
      show 1 + (2 + (work .fetching + 4)) ≤ rank s
      simp only [rank, hpc]
      omega
    · cases hq
  | rest hpc _ =>
    refine ⟨hstop, ?_, fun h => absurd hpc h⟩
    simp only [rank, ofLoop, hpc, if_true]
    omega
  | call hl hq =>
    refine ⟨hstop, ?_, fun h => ⟨h, rfl⟩⟩
    have hin := inside_of_step hq hl
    have hwork := hin.work
    cases hpc : s.pc with
    | beating | draining =>
      simp only [rank, ofLoop, hpc, if_true]
      omega
    | head | waiting _ | woken | reading | checking | exited =>
      rw [hpc] at hf
      exact absurd hf hin.ne_idle

theorem stopped_run {ls : List Label} (hf : Fits s) (hstop : s.stop = true)
    (hrun : (system text deviceId heartbeatIntervalSeconds).Run s ls s') :
    ls.countP ofLoop + rank s' ≤ rank s ∧ (s.pc ≠ .reading → s'.readings = s.readings) := by
  induction hrun with
  | nil s => exact ⟨by simp, fun _ => rfl⟩
  | cons hs _ ih =>
    obtain ⟨hstop', hrank, hread⟩ := stopped_step hf hstop hs
    obtain ⟨hcount, hreadings⟩ := ih (fits_inductive.step _ _ _ hf hs) hstop'
    refine ⟨?_, fun h => (hreadings (hread h).1).trans (hread h).2⟩
    rw [List.countP_cons]
    omega

theorem rank_le (hf : Fits s) : rank s ≤ work .fetching + 7 := by
  unfold Fits at hf
  unfold rank
  cases hpc : s.pc with
  | beating =>
    rw [hpc] at hf
    have hwork := work_of_submitting hf
    show work s.queue.aux + (work .fetching + 4) ≤ _
    omega
  | draining =>
    rw [hpc] at hf
    have hwork := hf.2.2
    show work s.queue.aux + 2 ≤ _
    omega
  | head | waiting _ | woken | reading | checking | exited => simp

/-- The loop has entered a wait before now. -/
def Entered (s : State) : Prop := ∀ since, s.pc = .waiting since → since ≤ s.now

theorem entered_inductive :
    (system text deviceId heartbeatIntervalSeconds).Inductive Entered where
  init s h since hw := by
    rw [h.pc] at hw
    cases hw
  step s l s' hi hs since hw := by
    cases moves_of_step hs with
    | tick hd => exact (hi since hw).trans (le_add_of_nonneg_right hd)
    | requestStop | others _ _ | call _ _ => exact hi since hw
    | enterWait _ _ =>
      cases hw
      exact le_rfl
    | leave _ _ | wake _ _ _ | goOn _ _ | beaten _ _ | drain _ _ | skip _ _ | drained _ _
    | beat _ _ _ | rest _ _ => cases hw

/-- A second later the loop can take a step, notified or not: no wait holds it, and a call
returns or throws. -/
theorem loop_moves (text : JsonText K) (deviceId : String) (heartbeatIntervalSeconds : ℤ)
    (hf : Fits s) (he : Entered s) (hpc : s.pc ≠ .exited) :
    ∃ l, ofLoop l = true ∧ l ≠ .notified ∧
      (step text deviceId heartbeatIntervalSeconds { s with now := s.now + seconds 1 } l).isSome =
        true := by
  unfold Fits at hf
  cases h : s.pc with
  | head | woken => exact ⟨.proceed, rfl, Label.noConfusion, by simp [step]⟩
  | waiting since => exact ⟨.proceed, rfl, Label.noConfusion, by simp [step, he since h]⟩
  | beating =>
    rw [h] at hf
    cases haux : s.queue.aux with
    | idle => exact ⟨.proceed, rfl, Label.noConfusion, by simp [step, haux]⟩
    | calling c =>
      cases c with
      | publishing m =>
        exact ⟨.call (.publish .auxiliary false), rfl, Label.noConfusion, by
          simp [step, inCall, OfflineQueue.step, OfflineQueue.State.call, haux,
            OfflineQueue.publish]⟩
      | enqueueing m =>
        exact ⟨.call (.enqueue .auxiliary false 0), rfl, Label.noConfusion, by
          simp [step, inCall, OfflineQueue.step, OfflineQueue.State.call, haux,
            enqueuePendingEvent]⟩
    | fetching | draining _ | deleting _ _ =>
      rw [haux] at hf
      rcases hf with h | h <;> cases h
  | checking =>
    rw [h] at hf
    have haux : s.queue.aux = .idle := hf
    refine ⟨.proceed, rfl, Label.noConfusion, ?_⟩
    cases hup : s.queue.connected <;> simp [step, hup, OfflineQueue.step, haux]
  | draining =>
    rw [h] at hf
    cases haux : s.queue.aux with
    | idle => exact ⟨.proceed, rfl, Label.noConfusion, by simp [step, haux]⟩
    | calling c =>
      rw [haux] at hf
      cases hf.1
    | fetching =>
      exact ⟨.call (.fetch false), rfl, Label.noConfusion, by
        simp [step, inCall, OfflineQueue.step, haux, fetchPendingEvents]⟩
    | draining batch =>
      cases batch with
      | nil => exact absurd haux hf.2.1
      | cons e rest =>
        exact ⟨.call (.drainPublish false), rfl, Label.noConfusion, by
          simp [step, inCall, OfflineQueue.step, haux, OfflineQueue.publish]⟩
    | deleting e rest =>
      exact ⟨.call (.delete false), rfl, Label.noConfusion, by
        simp [step, inCall, OfflineQueue.step, haux, deletePendingEvent]⟩
  | reading =>
    rw [h] at hf
    have haux : s.queue.aux = .idle := hf
    refine ⟨.readClock 0, rfl, Label.noConfusion, ?_⟩
    by_cases hdue : seconds heartbeatIntervalSeconds ≤ s.now + seconds 1 - s.lastHeartbeat
    · simp [step, hdue, OfflineQueue.step, OfflineQueue.State.free, haux]
    · simp [step, hdue]
  | exited => exact absurd h hpc

/-- **The join of the auxiliary thread returns.** -/
theorem loop_stops (hr : (system text deviceId heartbeatIntervalSeconds).Reachable s)
    (hstop : s.stop = true) {ls : List Label}
    (hrun : (system text deviceId heartbeatIntervalSeconds).Run s ls s') :
    ls.countP ofLoop ≤ 2 * kDrainBatchSize + 8 ∧
    (s.pc ≠ .reading → s'.readings = s.readings) ∧
    (s'.pc = .exited ∨
      ∃ l, ofLoop l = true ∧ l ≠ .notified ∧
        (step text deviceId heartbeatIntervalSeconds { s' with now := s'.now + seconds 1 } l).isSome
          = true) := by
  have hf := fits_inductive.reachable s hr
  have hf' : Fits s' := hrun.invariant (fun s l s' h hs => fits_inductive.step s l s' h hs) hf
  have he : Entered s' := hrun.invariant (fun s l s' h hs => entered_inductive.step s l s' h hs)
    (entered_inductive.reachable s hr)
  obtain ⟨hcount, hreadings⟩ := stopped_run hf hstop hrun
  have hrank := rank_le hf
  refine ⟨?_, hreadings, or_iff_not_imp_left.mpr fun hpc =>
    loop_moves text deviceId heartbeatIntervalSeconds hf' he hpc⟩
  rw [work] at hrank
  omega

theorem loop_stops_waiting : ∃ s s' : State, s.stop = true ∧ s'.pc = .exited ∧
    s'.readings = s.readings := by
  obtain ⟨s, hr, hstop, hpc⟩ := LTS.exists_reachable Initial
    (step (JsonText.compact []) "edge-01" 30) [.proceed, .requestStop]
    (initial_boot OfflineQueue.initial_boot)
    (fun s => s.stop = true ∧ s.pc = .waiting 0) (by decide +kernel)
  have hwake : step (JsonText.compact []) "edge-01" 30 s .notified =
      some { s with pc := .woken } := by
    simp only [step, hpc, hstop, if_true]
  have hleave : step (JsonText.compact []) "edge-01" 30 { s with pc := .woken } .proceed =
      some { s with pc := .exited } := by
    simp only [step, hstop, if_true]
  exact ⟨s, { s with pc := .exited }, hstop, rfl,
    (loop_stops hr hstop (.cons hwake (.cons hleave (.nil _)))).2.1
      (by rw [hpc]; exact Pc.noConfusion)⟩

end FaceGate.L3.AuxiliaryLoop
