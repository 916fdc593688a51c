import FaceGate.L2Device.RgbLed
import FaceGate.L2Device.Turnstile

/-!
# Shutting down: the three untimed waits

`~Turnstile`, `~RgbLed` and `Pipeline::request_stop` each store a stop flag and
notify; the flag is atomic and is stored without the mutex of the wait. `DESIGN.md`
has the destructors join the workers and `wait()` return once `request_stop()` was
called. When the notification falls between the evaluation of the predicate, which
still saw no stop, and the sleep, nobody hears it (`wakeup_lost`), and the join
does not return; when it does not, none is lost (`no_wakeup_lost`).

Here is the wait of the pipeline; the other two are with their devices.
`auxiliary_loop` waits on the same condition variable, with a timeout, and
notifies nobody.
-/
namespace FaceGate.L3.Shutdown

open Core FaceGate.L1.Domain FaceGate.L2

/-! ## Pipeline::wait -/

/-- mirrors edge/src/pipeline/pipeline.cpp:98-101 -/
inductive Pc where
  | lock | check | commit | asleep | woken | returned
  deriving DecidableEq, Repr

def turn (stop : Bool) : Pc → Option Pc
  | .lock => some .check
  | .check => some (if stop then .returned else .commit)
  | .commit => some .asleep
  | .asleep => none
  | .woken => some .check
  | .returned => none

def Pc.notify : Pc → Pc
  | asleep => woken
  | pc => pc

/-- `notifying`: calls of `request_stop` that have stored the flag. -/
structure State where
  stop : Bool
  pc : Pc
  notifying : ℕ
  stopNotified : Bool
  deriving DecidableEq, Repr

inductive Label where
  | waiter
  | spuriousWake
  | requestStop
  | notifyStop
  deriving DecidableEq, Repr

/-- mirrors edge/src/pipeline/pipeline.cpp:93-101 -/
def step (s : State) : Label → Option State
  | .waiter => (turn s.stop s.pc).map fun pc => { s with pc := pc }
  | .spuriousWake => if s.pc = .asleep then some { s with pc := .woken } else none
  | .requestStop => some { s with stop := true, notifying := s.notifying + 1 }
  | .notifyStop =>
    if 0 < s.notifying ∧ s.stop = true then
      some { s with notifying := s.notifying - 1, stopNotified := true, pc := s.pc.notify }
    else none

def State.start : State := ⟨false, .lock, 0, false⟩

def system : LTS State Label := .ofStep (· = .start) step

def Pc.waiter : Pc → Condvar.Waiter
  | check => .checking
  | commit => .committed
  | asleep => .asleep
  | woken => .woken
  | lock | returned => .away

def State.protocol (s : State) : Condvar.State := ⟨s.pc.waiter, s.stop, s.stopNotified⟩

/-- The stop is not notified between the predicate and the sleep. -/
def InTime (s : State) (l : Label) : Prop := l = .notifyStop → s.pc.waiter ≠ .committed

instance (s : State) (l : Label) : Decidable (InTime s l) := inferInstanceAs (Decidable (_ → _))

/-- Stopped and notified, the waiter sleeps, and no call is left that would wake it. -/
structure Lost (s : State) : Prop where
  stop : s.stop = true
  notified : s.stopNotified = true
  asleep : s.pc = .asleep
  notifying : s.notifying = 0

theorem waiter_notify (pc : Pc) : pc.notify.waiter = pc.waiter.notify := by
  cases pc <;> rfl

theorem turn_moves {stop : Bool} {pc pc' : Pc} (h : turn stop pc = some pc') (n : Bool) :
    Condvar.Moves ⟨pc.waiter, stop, n⟩ ⟨pc'.waiter, stop, n⟩ := by
  cases pc with
  | lock | woken =>
    cases h
    exact Or.inr ⟨.lock, by decide, rfl⟩
  | check =>
    cases h
    cases stop with
    | true => exact Or.inr ⟨.leave, by decide, rfl⟩
    | false => exact Or.inr ⟨.commit, by decide, rfl⟩
  | commit =>
    cases h
    exact Or.inr ⟨.sleep, by decide, rfl⟩
  | asleep | returned => cases h

theorem follows : Condvar.Follows system .notifyStop State.protocol where
  init s h := by
    obtain rfl : s = .start := h
    rfl
  step s l s' hs := by
    have h : step s l = some s' := hs
    cases l with
    | waiter =>
      obtain ⟨pc', hturn, rfl⟩ := Option.map_eq_some_iff.mp h
      exact Or.inl (turn_moves hturn s.stopNotified)
    | spuriousWake =>
      simp only [step] at h
      split at h <;> cases h
      rename_i hpc
      have hmoves := Condvar.moves_wake s.protocol
      simp only [State.protocol, hpc] at hmoves ⊢
      exact Or.inl hmoves
    | requestStop =>
      cases h
      exact Or.inl (Condvar.moves_store s.protocol)
    | notifyStop =>
      simp only [step] at h
      split at h <;> cases h
      rename_i hstop
      refine Or.inr ⟨rfl, ?_⟩
      simp [Condvar.step, State.protocol, hstop.2, waiter_notify]

theorem never_lost {s : State} (h : (system.guard InTime).Reachable s) : ¬ Lost s := by
  intro hl
  refine follows.never_lost h ⟨hl.notified, ?_⟩
  simp [State.protocol, hl.asleep, Pc.waiter]

/-! ## All three -/

/-- **No wake-up is lost at shutdown** in runs whose stop is not notified between a
predicate that came out false and the sleep. -/
theorem no_wakeup_lost (openHoldMs : ℤ) :
    (∀ s, ((Turnstile.system openHoldMs).guard Turnstile.InTime).Reachable s →
      ¬ Turnstile.Lost s) ∧
    (∀ s, (RgbLed.system.guard RgbLed.InTime).Reachable s → ¬ RgbLed.Lost s) ∧
    ∀ s, (system.guard InTime).Reachable s → ¬ Lost s :=
  ⟨fun _ => Turnstile.never_lost, fun _ => RgbLed.never_lost, fun _ => never_lost⟩

/-- Each waiter is asleep when the stop comes, hears it and leaves. -/
theorem no_wakeup_lost_example :
    (∃ s, ((Turnstile.system 5000).guard Turnstile.InTime).Reachable s ∧ s.pc = .ended ∧
      ¬ Turnstile.Lost s) ∧
    (∃ s, (RgbLed.system.guard RgbLed.InTime).Reachable s ∧ s.pc = .ended ∧ ¬ RgbLed.Lost s) ∧
    ∃ s, (system.guard InTime).Reachable s ∧ s.pc = .returned ∧ ¬ Lost s := by
  refine ⟨?_, ?_, ?_⟩
  · obtain ⟨s, hr, hp⟩ := LTS.exists_reachable_where (fun s => ∃ t, 0 ≤ t ∧ s = .start t)
      (Turnstile.step 5000) Turnstile.InTime
      (Turnstile.turns 0 4 ++ Turnstile.turns 500 8 ++ [.requestStop, .notifyStop] ++
        Turnstile.turns 600 4)
      ⟨0, le_refl 0, rfl⟩ (fun s => s.pc = .ended) (by decide +kernel)
    exact ⟨s, hr, hp, (no_wakeup_lost 5000).1 s hr⟩
  · obtain ⟨s, hr, hp⟩ := LTS.exists_reachable_where (fun s => ∃ t, s = .start t)
      RgbLed.step RgbLed.InTime
      [.worker, .worker, .worker, .worker, .requestStop, .notifyStop, .worker, .worker, .worker,
        .worker] ⟨0, rfl⟩ (fun s => s.pc = .ended) (by decide +kernel)
    exact ⟨s, hr, hp, (no_wakeup_lost 5000).2.1 s hr⟩
  · obtain ⟨s, hr, hp⟩ := LTS.exists_reachable_where (· = .start) step InTime
      [.waiter, .waiter, .waiter, .requestStop, .notifyStop, .waiter, .waiter] rfl
      (fun s => s.pc = .returned) (by decide +kernel)
    exact ⟨s, hr, hp, (no_wakeup_lost 5000).2.2 s hr⟩

/-- The stop is stored and notified right after the predicate came out false. -/
theorem wakeup_lost :
    (∃ s, (Turnstile.system 5000).Reachable s ∧ Turnstile.Lost s) ∧
    (∃ s, RgbLed.system.Reachable s ∧ RgbLed.Lost s) ∧
    ∃ s, system.Reachable s ∧ Lost s := by
  refine ⟨?_, ?_, ?_⟩
  · obtain ⟨s, hr, h1, h2, h3, h4, h5⟩ :=
      LTS.exists_reachable (fun s => ∃ t, 0 ≤ t ∧ s = .start t) (Turnstile.step 5000)
        (Turnstile.turns 0 4 ++ Turnstile.turns 500 7 ++
          [.requestStop, .notifyStop, .worker (milliseconds 500)]) ⟨0, le_refl 0, rfl⟩
        (fun s => s.shared.stop = true ∧ s.stopNotified = true ∧ s.pc = .asleep ∧ s.targets = [] ∧
          s.notifying = 0) (by decide +kernel)
    exact ⟨s, hr, h1, h2, h3, h4, h5⟩
  · obtain ⟨s, hr, h1, h2, h3, h4, h5⟩ :=
      LTS.exists_reachable (fun s => ∃ t, s = .start t) RgbLed.step
        [.worker, .worker, .worker, .requestStop, .notifyStop, .worker] ⟨0, rfl⟩
        (fun s => s.shared.stop = true ∧ s.stopNotified = true ∧ s.pc = .asleep ∧ s.arming = [] ∧
          s.notifying = 0) (by decide +kernel)
    exact ⟨s, hr, h1, h2, h3, h4, h5⟩
  · obtain ⟨s, hr, h1, h2, h3, h4⟩ := LTS.exists_reachable (· = .start) step
      [.waiter, .waiter, .requestStop, .notifyStop, .waiter] rfl
      (fun s => s.stop = true ∧ s.stopNotified = true ∧ s.pc = .asleep ∧ s.notifying = 0)
      (by decide +kernel)
    exact ⟨s, hr, h1, h2, h3, h4⟩

end FaceGate.L3.Shutdown
