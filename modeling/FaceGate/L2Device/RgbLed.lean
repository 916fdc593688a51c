import FaceGate.Core.Condvar
import FaceGate.L1Domain.Types

/-!
# The status LED

`show_granted` and `show_denied` leave a colour and a deadline (`arm`); the worker
takes the command, writes the channels, holds them until the deadline or the next
command, and switches them off. `turn` is one atomic step of the worker; it keeps
the mutex from the evaluation of a predicate to the sleep or to the next unlock.
`system` interleaves it with the steps of any number of `arm` calls and of the
destructor. The second wait has a deadline: it ends also with `timeout`.
-/
namespace FaceGate.L2.RgbLed

open Core FaceGate.L1.Domain

structure Color where
  r : Bool
  g : Bool
  b : Bool
  deriving DecidableEq, Repr

def Color.off : Color := ⟨false, false, false⟩

/-- mirrors edge/src/hardware/rgb_led.cpp:105-111 -/
def Color.granted : Color := ⟨false, true, false⟩

/-- mirrors edge/src/hardware/rgb_led.cpp:113-119 -/
def Color.denied : Color := ⟨true, false, false⟩

/-- `target_r_`, `target_g_`, `target_b_` and `off_at_`. -/
structure Command where
  color : Color
  offAt : Time
  deriving DecidableEq, Repr

/-- mirrors edge/src/hardware/rgb_led.cpp:125-126 -/
def deadline (holdMs : ℤ) (now : Time) : Time := now + milliseconds holdMs

structure Shared where
  stop : Bool
  dirty : Bool
  command : Command
  deriving DecidableEq, Repr

/-- mirrors edge/src/hardware/rgb_led.cpp:128-134 -/
def arm (s : Shared) (c : Command) : Shared := { s with command := c, dirty := true }

/-! ## The worker -/

/-- The next line of the worker; from `write` on with the command it took. -/
inductive Pc where
  /-- mirrors edge/src/hardware/rgb_led.cpp:158 -/
  | loopStop
  /-- mirrors edge/src/hardware/rgb_led.cpp:162-163 -/
  | lock
  | check
  | commit
  | asleep
  | woken
  /-- mirrors edge/src/hardware/rgb_led.cpp:164-169 -/
  | take
  /-- mirrors edge/src/hardware/rgb_led.cpp:172 -/
  | write (c : Command)
  /-- mirrors edge/src/hardware/rgb_led.cpp:177-180 -/
  | holdLock (c : Command)
  | holdCheck (c : Command) (timedOut : Bool)
  | holdCommit (c : Command)
  | holdAsleep (c : Command)
  | holdWoken (c : Command) (timedOut : Bool)
  /-- mirrors edge/src/hardware/rgb_led.cpp:182-183 -/
  | held
  /-- mirrors edge/src/hardware/rgb_led.cpp:186-187 -/
  | off
  /-- mirrors edge/src/hardware/rgb_led.cpp:190 -/
  | finalOff
  | ended
  deriving DecidableEq, Repr

/-- `mutex_` is with the worker. -/
def Pc.holdsMutex : Pc → Bool
  | check | commit | take | holdCheck _ _ | holdCommit _ | held => true
  | _ => false

/-- The next line, whether the command is taken, and what is written to the
channels. -/
structure Turn where
  pc : Pc
  takes : Bool
  writes : Option Color
  deriving DecidableEq, Repr

def Turn.to (pc : Pc) : Turn := ⟨pc, false, none⟩

/-- mirrors edge/src/hardware/rgb_led.cpp:157-191 -/
def turn (s : Shared) : Pc → Option Turn
  | .loopStop => some (.to (if s.stop then .finalOff else .lock))
  | .lock => some (.to .check)
  | .check => some (.to (if s.stop || s.dirty then .take else .commit))
  | .commit => some (.to .asleep)
  | .asleep => none
  | .woken => some (.to .check)
  | .take =>
    if s.stop then some (.to .finalOff) else some ⟨.write s.command, true, none⟩
  | .write c => some ⟨.holdLock c, false, some c.color⟩
  | .holdLock c => some (.to (.holdCheck c false))
  | .holdCheck c timedOut =>
    some (.to (if s.stop || s.dirty || timedOut then .held else .holdCommit c))
  | .holdCommit c => some (.to (.holdAsleep c))
  | .holdAsleep _ => none
  | .holdWoken c timedOut => some (.to (.holdCheck c timedOut))
  | .held => some (.to (if s.stop then .finalOff else if s.dirty then .loopStop else .off))
  | .off => some ⟨.loopStop, false, some .off⟩
  | .finalOff => some ⟨.ended, false, some .off⟩
  | .ended => none

/-- `notify_all`, or a spurious wake-up. -/
def Pc.notify : Pc → Pc
  | asleep => woken
  | holdAsleep c => holdWoken c false
  | pc => pc

/-! ## The system -/

/-- `channels`: what the lines show. `arming`: calls of `arm` before their critical
section; `notifying`: calls after it. -/
structure State where
  shared : Shared
  now : Time
  pc : Pc
  channels : Color
  arming : List Command
  notifying : ℕ
  stopNotified : Bool
  deriving DecidableEq, Repr

def State.start (now : Time) : State :=
  ⟨⟨false, false, ⟨.off, 0⟩⟩, now, .loopStop, .off, [], 0, false⟩

inductive Label where
  | worker
  | spuriousWake
  | timeout (now : Time)
  | armClock (color : Color) (holdMs : ℤ) (now : Time)
  | armStore (i : ℕ)
  | armNotify
  | requestStop
  | notifyStop
  deriving DecidableEq, Repr

/-- mirrors edge/src/hardware/rgb_led.cpp:87-92,121-136 -/
def step (s : State) : Label → Option State
  | .worker =>
    (turn s.shared s.pc).map fun t => { s with
      pc := t.pc
      shared := { s.shared with dirty := s.shared.dirty && !t.takes }
      channels := t.writes.getD s.channels }
  | .spuriousWake => some { s with pc := s.pc.notify }
  | .timeout now =>
    match s.pc with
    | .holdAsleep c =>
      if s.now ≤ now ∧ c.offAt ≤ now then some { s with now := now, pc := .holdWoken c true }
      else none
    | _ => none
  | .armClock color holdMs now =>
    if s.now ≤ now then
      some { s with now := now, arming := s.arming ++ [⟨color, deadline holdMs now⟩] }
    else none
  | .armStore i =>
    match s.arming[i]? with
    | some c =>
      if s.pc.holdsMutex then none
      else some { s with
        shared := arm s.shared c
        arming := s.arming.eraseIdx i
        notifying := s.notifying + 1 }
    | none => none
  | .armNotify =>
    if 0 < s.notifying then some { s with notifying := s.notifying - 1, pc := s.pc.notify }
    else none
  | .requestStop =>
    if s.shared.stop then none else some { s with shared := { s.shared with stop := true } }
  | .notifyStop =>
    if s.shared.stop then some { s with stopNotified := true, pc := s.pc.notify } else none

def system : LTS State Label := .ofStep (fun s => ∃ t, s = .start t) step

/-- What a step can do, with its guards. -/
inductive Step (s : State) : Label → State → Prop where
  | worker {t : Turn} : turn s.shared s.pc = some t →
      Step s .worker { s with
        pc := t.pc
        shared := { s.shared with dirty := s.shared.dirty && !t.takes }
        channels := t.writes.getD s.channels }
  | spuriousWake : Step s .spuriousWake { s with pc := s.pc.notify }
  | timeout {c : Command} {now : Time} : s.pc = .holdAsleep c → s.now ≤ now → c.offAt ≤ now →
      Step s (.timeout now) { s with now := now, pc := .holdWoken c true }
  | armClock {color : Color} {holdMs : ℤ} {now : Time} : s.now ≤ now →
      Step s (.armClock color holdMs now) { s with
        now := now
        arming := s.arming ++ [⟨color, deadline holdMs now⟩] }
  | armStore {i : ℕ} {c : Command} : s.arming[i]? = some c → s.pc.holdsMutex = false →
      Step s (.armStore i) { s with
        shared := arm s.shared c
        arming := s.arming.eraseIdx i
        notifying := s.notifying + 1 }
  | armNotify : 0 < s.notifying →
      Step s .armNotify { s with notifying := s.notifying - 1, pc := s.pc.notify }
  | requestStop : s.shared.stop = false →
      Step s .requestStop { s with shared := { s.shared with stop := true } }
  | notifyStop : s.shared.stop = true →
      Step s .notifyStop { s with stopNotified := true, pc := s.pc.notify }

theorem step_cases {s s' : State} {l : Label} (hs : system.step s l s') : Step s l s' := by
  have h : step s l = some s' := hs
  cases l with
  | worker =>
    obtain ⟨t, hturn, rfl⟩ := Option.map_eq_some_iff.mp h
    exact .worker hturn
  | spuriousWake =>
    cases h
    exact .spuriousWake
  | timeout now =>
    simp only [step] at h
    split at h
    · split at h <;> cases h
      rename_i hpc hle
      exact .timeout hpc hle.1 hle.2
    · cases h
  | armClock color holdMs now =>
    simp only [step] at h
    split at h <;> cases h
    exact .armClock ‹_›
  | armStore i =>
    simp only [step] at h
    split at h
    · split at h <;> cases h
      exact .armStore ‹_› (Bool.eq_false_iff.mpr ‹_›)
    · cases h
  | armNotify =>
    simp only [step] at h
    split at h <;> cases h
    exact .armNotify ‹_›
  | requestStop =>
    simp only [step] at h
    split at h <;> cases h
    exact .requestStop (Bool.eq_false_iff.mpr ‹_›)
  | notifyStop =>
    simp only [step] at h
    split at h <;> cases h
    exact .notifyStop ‹_›

/-! ## The wait for a command -/

/-- The untimed wait, as the protocol sees it. -/
def Pc.waiter : Pc → Condvar.Waiter
  | check => .checking
  | commit => .committed
  | asleep => .asleep
  | woken => .woken
  | _ => .away

def State.protocol (s : State) : Condvar.State := ⟨s.pc.waiter, s.shared.stop, s.stopNotified⟩

/-- The stop is not notified between the predicate and the sleep. -/
def InTime (s : State) (l : Label) : Prop := l = .notifyStop → s.pc.waiter ≠ .committed

instance (s : State) (l : Label) : Decidable (InTime s l) := inferInstanceAs (Decidable (_ → _))

/-- Stopped and notified, the worker sleeps, and no call is left that would wake it. -/
structure Lost (s : State) : Prop where
  stop : s.shared.stop = true
  notified : s.stopNotified = true
  asleep : s.pc = .asleep
  arming : s.arming = []
  notifying : s.notifying = 0

theorem waiter_notify (pc : Pc) : pc.notify.waiter = pc.waiter.notify := by
  cases pc <;> rfl

theorem moves_notify (s : State) :
    Condvar.Moves s.protocol ⟨s.pc.notify.waiter, s.shared.stop, s.stopNotified⟩ := by
  rw [waiter_notify]
  exact Condvar.moves_wake s.protocol

theorem turn_moves {s : Shared} {pc : Pc} {t : Turn} (h : turn s pc = some t) (n : Bool) :
    Condvar.Moves ⟨pc.waiter, s.stop, n⟩ ⟨t.pc.waiter, s.stop, n⟩ := by
  cases pc with
  | lock | woken =>
    cases h
    exact Or.inr ⟨.lock, by decide, rfl⟩
  | check =>
    cases h
    by_cases hc : (s.stop || s.dirty) = true
    · exact Or.inr ⟨.leave, by decide, by simp [Condvar.step, Pc.waiter, Turn.to, hc]⟩
    · obtain ⟨hs, hd⟩ := Bool.or_eq_false_iff.mp (Bool.eq_false_iff.mpr hc)
      exact Or.inr ⟨.commit, by decide, by simp [Condvar.step, Pc.waiter, Turn.to, hs, hd]⟩
  | commit =>
    cases h
    exact Or.inr ⟨.sleep, by decide, rfl⟩
  | asleep | holdAsleep c | ended => cases h
  | take =>
    simp only [turn] at h
    split at h <;> cases h <;> exact Condvar.moves_self _
  | loopStop | holdCheck c timedOut | held =>
    cases h
    refine Or.inl ?_
    simp only [Turn.to]
    repeat' split
    all_goals rfl
  | write c | holdLock c | holdCommit c | holdWoken c timedOut | off | finalOff =>
    cases h
    exact Condvar.moves_self _

theorem follows : Condvar.Follows system .notifyStop State.protocol where
  init s h := by
    obtain ⟨t, rfl⟩ := h
    rfl
  step s l s' hs := by
    cases step_cases hs with
    | worker hturn => exact Or.inl (turn_moves hturn s.stopNotified)
    | notifyStop hstop =>
      refine Or.inr ⟨rfl, ?_⟩
      simp [Condvar.step, State.protocol, hstop, waiter_notify]
    | spuriousWake | armNotify => exact Or.inl (moves_notify s)
    | requestStop hstop => exact Or.inl (Condvar.moves_store s.protocol)
    | timeout hpc hn hoff =>
      refine Or.inl (Or.inl ?_)
      simp [State.protocol, hpc, Pc.waiter]
    | armClock | armStore => exact Or.inl (Condvar.moves_self _)

theorem never_lost {s : State} (h : (system.guard InTime).Reachable s) : ¬ Lost s := by
  intro hl
  refine follows.never_lost h ⟨hl.notified, ?_⟩
  simp [State.protocol, hl.asleep, Pc.waiter]

end FaceGate.L2.RgbLed
