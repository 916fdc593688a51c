import FaceGate.Core.Condvar
import FaceGate.Core.Log
import FaceGate.L1Domain.Types

/-!
# The turnstile's servo thread

`grant_access` moves the deadline `open_until_` and wakes the worker; the worker
(`pwm_loop`) pulses the open angle until the deadline, then the closed angle for
`kCloseHoldMs`, and waits. `turn` is one atomic step of the worker: a load of the
stop flag, a reading of the clock, a lock, a pulse. `system` interleaves them with
the steps of any number of `grant_access` calls (read the clock, store under the
mutex, notify) and of the destructor (store the flag, notify). A critical section
of a caller is one step; the worker keeps the mutex through the wait's predicate.

The worker exists only with `enabled_`; in mock mode there is nothing to model.
`steady_clock` never runs back and counts from its epoch, `time_point{}` = 0.

* `opens_when_granted`: an open pulse starts on a reading before the deadline of
  an earlier grant; the deadline never moves back; before each wait the closing
  phase runs to its end.
* `left_closed`: a stop leaves the servo closed exactly if it does not come
  between an open pulse and the closed pulse after it. The closing phase tests
  the flag as well, so a stop inside the open window skips it (`left_open`).
-/
namespace FaceGate.L2.Turnstile

open Core FaceGate.L1.Domain

/-- mirrors edge/src/hardware/turnstile.cpp:19 -/
def kCloseHoldMs : ℤ := 500

/-! ## grant_access -/

/-- mirrors edge/src/hardware/turnstile.cpp:113-114 -/
def newTarget (openHoldMs : ℤ) (now : Time) : Time := now + milliseconds openHoldMs

/-- Never shortens the window.
mirrors edge/src/hardware/turnstile.cpp:119-121 -/
def extend (openUntil target : Time) : Time := if openUntil < target then target else openUntil

theorem le_extend (openUntil target : Time) : openUntil ≤ extend openUntil target := by
  unfold extend
  split
  · exact le_of_lt ‹_›
  · exact le_refl _

theorem extend_cases (openUntil target : Time) :
    extend openUntil target = openUntil ∨ extend openUntil target = target := by
  unfold extend
  split
  · exact Or.inr rfl
  · exact Or.inl rfl

/-! ## The worker -/

/-- The pulse widths `open_pulse_us_` and `closed_pulse_us_`. -/
inductive Angle where
  | opened | closed
  deriving DecidableEq, Repr

/-- What happened, with the reading of the clock it rests on: `grant` that of
`grant_access`, `closing` and `closed` those that begin and end
`emit_pulses_for`, `check` one that does not end it, `pulse` the one that let the pulse
through. -/
inductive Event where
  | grant (at_ : Time)
  | wait
  | pulse (angle : Angle) (checked : Time)
  | closing (start : Time)
  | check (checked : Time)
  | closed (checked : Time)
  deriving DecidableEq, Repr

/-- The next line of the worker, with the locals still to be used. -/
inductive Pc where
  /-- `emit_pulses_for`. mirrors edge/src/hardware/turnstile.cpp:139-140 -/
  | closeArm
  /-- mirrors edge/src/hardware/turnstile.cpp:141 -/
  | closeStop (deadline : Time)
  | closeClock (deadline : Time)
  /-- mirrors edge/src/hardware/turnstile.cpp:142 -/
  | closePulse (deadline checked : Time)
  /-- mirrors edge/src/hardware/turnstile.cpp:166,195 -/
  | deenergize
  /-- mirrors edge/src/hardware/turnstile.cpp:169 -/
  | loopStop
  /-- mirrors edge/src/hardware/turnstile.cpp:172-176 -/
  | lock
  | checkStop
  | checkClock
  | commit
  | asleep
  | woken
  /-- mirrors edge/src/hardware/turnstile.cpp:177 -/
  | readTarget
  /-- mirrors edge/src/hardware/turnstile.cpp:179 -/
  | leave (target : Time)
  /-- mirrors edge/src/hardware/turnstile.cpp:183-186 -/
  | openStop (target : Time)
  | openClock (target : Time)
  | openPulse (checked : Time)
  /-- mirrors edge/src/hardware/turnstile.cpp:187-188 -/
  | openRefresh
  | ended
  deriving DecidableEq, Repr

/-- `mutex_` is with the worker. -/
def Pc.holdsMutex : Pc → Bool
  | checkStop | checkClock | commit | readTarget => true
  | _ => false

/-- What the threads share. -/
structure Shared where
  stop : Bool
  openUntil : Time
  deriving DecidableEq, Repr

/-- One step of the worker; `now` is the reading, if it reads the clock.
mirrors edge/src/hardware/turnstile.cpp:138-144,160-198 -/
def turn (s : Shared) (now : Time) : Pc → Option (Pc × Option Event)
  | .closeArm => some (.closeStop (now + milliseconds kCloseHoldMs), some (.closing now))
  | .closeStop deadline => some (if s.stop then .deenergize else .closeClock deadline, none)
  | .closeClock deadline =>
    if now < deadline then some (.closePulse deadline now, some (.check now))
    else some (.deenergize, some (.closed now))
  | .closePulse deadline checked => some (.closeStop deadline, some (.pulse .closed checked))
  | .deenergize => some (.loopStop, none)
  | .loopStop => some (if s.stop then .ended else .lock, none)
  | .lock => some (.checkStop, some .wait)
  | .checkStop => some (if s.stop then .readTarget else .checkClock, none)
  | .checkClock => some (if now < s.openUntil then .readTarget else .commit, none)
  | .commit => some (.asleep, none)
  | .asleep => none
  | .woken => some (.checkStop, none)
  | .readTarget => some (.leave s.openUntil, none)
  | .leave target => some (if s.stop then .ended else .openStop target, none)
  | .openStop target => some (if s.stop then .closeArm else .openClock target, none)
  | .openClock target => some (if target ≤ now then .closeArm else .openPulse now, none)
  | .openPulse checked => some (.openRefresh, some (.pulse .opened checked))
  | .openRefresh => some (.openStop s.openUntil, none)
  | .ended => none

/-- `notify_all` wakes the worker if it sleeps. -/
def Pc.notify : Pc → Pc
  | asleep => woken
  | pc => pc

/-! ## The system -/

/-- `targets`: calls of `grant_access` before their critical section;
`notifying`: calls after it. -/
structure State where
  shared : Shared
  now : Time
  pc : Pc
  targets : List Time
  notifying : ℕ
  stopNotified : Bool
  log : List Event
  deriving DecidableEq, Repr

def State.start (now : Time) : State := ⟨⟨false, 0⟩, now, .closeArm, [], 0, false, []⟩

inductive Label where
  | worker (now : Time)
  | spuriousWake
  | grantClock (now : Time)
  | grantStore (i : ℕ)
  | grantNotify
  | requestStop
  | notifyStop
  deriving DecidableEq, Repr

section
variable (openHoldMs : ℤ)

/-- mirrors edge/src/hardware/turnstile.cpp:85-90,104-124 -/
def step (s : State) : Label → Option State
  | .worker now =>
    if s.now ≤ now then
      (turn s.shared now s.pc).map fun r =>
        { s with now := now, pc := r.1, log := s.log ++ r.2.toList }
    else none
  | .spuriousWake => if s.pc = .asleep then some { s with pc := .woken } else none
  | .grantClock now =>
    if s.now ≤ now then
      some { s with
        now := now
        targets := s.targets ++ [newTarget openHoldMs now]
        log := s.log ++ [.grant now] }
    else none
  | .grantStore i =>
    match s.targets[i]? with
    | some target =>
      if s.pc.holdsMutex then none
      else some { s with
        shared := { s.shared with openUntil := extend s.shared.openUntil target }
        targets := s.targets.eraseIdx i
        notifying := s.notifying + 1 }
    | none => none
  | .grantNotify =>
    if 0 < s.notifying then
      some { s with notifying := s.notifying - 1, pc := s.pc.notify }
    else none
  | .requestStop =>
    if s.shared.stop then none else some { s with shared := { s.shared with stop := true } }
  | .notifyStop =>
    if s.shared.stop then some { s with stopNotified := true, pc := s.pc.notify } else none

def system : LTS State Label := .ofStep (fun s => ∃ t, 0 ≤ t ∧ s = .start t) (step openHoldMs)

variable {openHoldMs}

/-- What a step can do, with its guards. -/
inductive Step (openHoldMs : ℤ) (s : State) : Label → State → Prop where
  | worker {now : Time} {pc : Pc} {e : Option Event} :
      s.now ≤ now → turn s.shared now s.pc = some (pc, e) →
      Step openHoldMs s (.worker now) { s with now := now, pc := pc, log := s.log ++ e.toList }
  | spuriousWake : s.pc = .asleep → Step openHoldMs s .spuriousWake { s with pc := .woken }
  | grantClock {now : Time} : s.now ≤ now →
      Step openHoldMs s (.grantClock now) { s with
        now := now
        targets := s.targets ++ [newTarget openHoldMs now]
        log := s.log ++ [.grant now] }
  | grantStore {i : ℕ} {target : Time} : target ∈ s.targets → s.pc.holdsMutex = false →
      Step openHoldMs s (.grantStore i) { s with
        shared := { s.shared with openUntil := extend s.shared.openUntil target }
        targets := s.targets.eraseIdx i
        notifying := s.notifying + 1 }
  | grantNotify : 0 < s.notifying →
      Step openHoldMs s .grantNotify { s with notifying := s.notifying - 1, pc := s.pc.notify }
  | requestStop : s.shared.stop = false →
      Step openHoldMs s .requestStop { s with shared := { s.shared with stop := true } }
  | notifyStop : s.shared.stop = true →
      Step openHoldMs s .notifyStop { s with stopNotified := true, pc := s.pc.notify }

theorem step_cases {s s' : State} {l : Label} (hs : (system openHoldMs).step s l s') :
    Step openHoldMs s l s' := by
  have h : step openHoldMs s l = some s' := hs
  cases l with
  | worker now =>
    simp only [step] at h
    split at h
    · obtain ⟨⟨pc, e⟩, hturn, rfl⟩ := Option.map_eq_some_iff.mp h
      exact .worker ‹_› hturn
    · cases h
  | grantStore i =>
    simp only [step] at h
    split at h
    · rename_i htarget
      split at h <;> cases h
      exact .grantStore (List.mem_of_getElem? htarget) (Bool.eq_false_iff.mpr ‹_›)
    · cases h
  | spuriousWake =>
    simp only [step] at h
    split at h <;> cases h
    exact .spuriousWake ‹_›
  | grantClock now =>
    simp only [step] at h
    split at h <;> cases h
    exact .grantClock ‹_›
  | grantNotify =>
    simp only [step] at h
    split at h <;> cases h
    exact .grantNotify ‹_›
  | requestStop =>
    simp only [step] at h
    split at h <;> cases h
    exact .requestStop (Bool.eq_false_iff.mpr ‹_›)
  | notifyStop =>
    simp only [step] at h
    split at h <;> cases h
    exact .notifyStop ‹_›

/-- The deadline never moves back. -/
theorem openUntil_le {s s' : State} {l : Label} (hs : (system openHoldMs).step s l s') :
    s.shared.openUntil ≤ s'.shared.openUntil := by
  cases step_cases hs with
  | grantStore htarget hm => exact le_extend _ _
  | worker | spuriousWake | grantClock | grantNotify | requestStop | notifyStop => exact le_refl _

/-! ## Openings are granted -/

/-- `t` is before the deadline of an earlier grant. -/
def Granted (openHoldMs : ℤ) (log : List Event) (t : Time) : Prop :=
  ∃ g, .grant g ∈ log ∧ t < newTarget openHoldMs g

/-- `t` is as good as a deadline: readings before it are granted. -/
def Covered (openHoldMs : ℤ) (log : List Event) (t : Time) : Prop :=
  ∀ c, 0 ≤ c → c < t → Granted openHoldMs log c

theorem Granted.append {log : List Event} {t : Time} (h : Granted openHoldMs log t)
    (more : List Event) : Granted openHoldMs (log ++ more) t := by
  obtain ⟨g, hg, ht⟩ := h
  exact ⟨g, List.mem_append_left _ hg, ht⟩

theorem Covered.append {log : List Event} {t : Time} (h : Covered openHoldMs log t)
    (more : List Event) : Covered openHoldMs (log ++ more) t :=
  fun c h0 hc => (h c h0 hc).append more

theorem covered_grant (log : List Event) (g : Time) :
    Covered openHoldMs (log ++ [.grant g]) (newTarget openHoldMs g) :=
  fun _ _ hc => ⟨g, by simp, hc⟩

/-- The worker's local copy of the deadline, or its last check of it. -/
def Pc.Sound (openHoldMs : ℤ) (log : List Event) : Pc → Prop
  | .leave target | .openStop target | .openClock target =>
    Covered openHoldMs log target
  | .openPulse checked => Granted openHoldMs log checked
  | _ => True

theorem Pc.Sound.append {log : List Event} {pc : Pc} (h : pc.Sound openHoldMs log)
    (more : List Event) : pc.Sound openHoldMs (log ++ more) := by
  cases pc with
  | leave target | openStop target | openClock target => exact Covered.append h more
  | openPulse checked => exact Granted.append h more
  | _ => trivial

theorem Pc.Sound.notify {log : List Event} {pc : Pc} (h : pc.Sound openHoldMs log) :
    pc.notify.Sound openHoldMs log := by
  cases pc <;> exact h

/-- An entry of an open pulse is granted by the entries before it. -/
def PulseGranted (openHoldMs : ℤ) (log : List Event) : Event → Prop
  | .pulse .opened checked => Granted openHoldMs log checked
  | _ => True

structure GrantInv (openHoldMs : ℤ) (s : State) : Prop where
  now : 0 ≤ s.now
  openUntil : Covered openHoldMs s.log s.shared.openUntil
  targets : ∀ t ∈ s.targets, Covered openHoldMs s.log t
  pc : s.pc.Sound openHoldMs s.log
  log : Justified (PulseGranted openHoldMs) s.log

theorem turn_granted {s : Shared} {now : Time} {pc pc' : Pc} {e : Option Event} {log : List Event}
    (h : turn s now pc = some (pc', e)) (h0 : 0 ≤ now) (hu : Covered openHoldMs log s.openUntil)
    (hc : pc.Sound openHoldMs log) :
    pc'.Sound openHoldMs log ∧ ∀ x ∈ e, PulseGranted openHoldMs log x := by
  cases pc with
  | openClock target =>
    simp only [turn] at h
    split at h <;> cases h
    · exact ⟨trivial, fun _ hx => (nomatch hx)⟩
    · rename_i hlt
      exact ⟨hc now h0 (not_le.mp hlt), fun _ hx => (nomatch hx)⟩
  | openPulse checked =>
    cases h
    refine ⟨trivial, fun x hx => ?_⟩
    obtain rfl := Option.some.inj hx
    exact hc
  | readTarget | openRefresh =>
    cases h
    exact ⟨hu, fun _ hx => (nomatch hx)⟩
  | leave target | openStop target =>
    simp only [turn] at h
    split at h <;> cases h
    · exact ⟨trivial, fun _ hx => (nomatch hx)⟩
    · exact ⟨hc, fun _ hx => (nomatch hx)⟩
  | closeStop deadline | closeClock deadline | loopStop | checkStop | checkClock =>
    simp only [turn] at h
    split at h <;> cases h <;> exact ⟨trivial, by rintro x ⟨⟩ <;> trivial⟩
  | asleep | ended => cases h
  | closeArm | closePulse deadline checked | deenergize | lock | commit | woken =>
    cases h
    exact ⟨trivial, by rintro x ⟨⟩ <;> trivial⟩

theorem inductive_grantInv : (system openHoldMs).Inductive (GrantInv openHoldMs) where
  init s h := by
    obtain ⟨t, ht, rfl⟩ := h
    exact ⟨ht, fun c h0 hc => absurd hc (not_lt.mpr h0), fun _ h => (nomatch h), trivial,
      justified_nil⟩
  step s l s' hi hs := by
    cases step_cases hs with
    | worker hn hturn =>
      have h0 := le_trans hi.now hn
      obtain ⟨hpc, he⟩ := turn_granted hturn h0 hi.openUntil hi.pc
      exact ⟨h0, hi.openUntil.append _, fun t ht => (hi.targets t ht).append _,
        hpc.append _, hi.log.append_option he⟩
    | grantClock hn =>
      refine ⟨le_trans hi.now hn, hi.openUntil.append _, fun t ht => ?_, hi.pc.append _,
        justified_concat.mpr ⟨hi.log, trivial⟩⟩
      rcases List.mem_append.mp ht with ht | ht
      · exact (hi.targets t ht).append _
      · obtain rfl := List.mem_singleton.mp ht
        exact covered_grant _ _
    | @grantStore i target htarget hm =>
      refine ⟨hi.now, ?_, fun t hm => hi.targets t (List.mem_of_mem_eraseIdx hm), hi.pc, hi.log⟩
      show Covered openHoldMs s.log (extend s.shared.openUntil target)
      rcases extend_cases s.shared.openUntil target with he | he <;> rw [he]
      · exact hi.openUntil
      · exact hi.targets target htarget
    | spuriousWake hpc => exact ⟨hi.now, hi.openUntil, hi.targets, True.intro, hi.log⟩
    | grantNotify | notifyStop =>
      exact ⟨hi.now, hi.openUntil, hi.targets, hi.pc.notify, hi.log⟩
    | requestStop hstop => exact ⟨hi.now, hi.openUntil, hi.targets, hi.pc, hi.log⟩

/-! ## Windows are closed -/

/-- Entries the worker makes. -/
def Event.ofWorker : Event → Bool
  | .grant _ => false
  | _ => true

def workerLog (log : List Event) : List Event := log.filter Event.ofWorker

@[simp] theorem workerLog_append (l m : List Event) :
    workerLog (l ++ m) = workerLog l ++ workerLog m := List.filter_append ..

/-- The tests of the clock in a closing phase, each with the pulse it let through. -/
def closedPulses (checks : List Time) : List Event :=
  checks.flatMap fun c => [.check c, .pulse .closed c]

theorem closedPulses_concat (checks : List Time) (c : Time) :
    closedPulses (checks ++ [c]) = closedPulses checks ++ [.check c, .pulse .closed c] := by
  simp [closedPulses]

/-- `l` ends in a closing phase, begun at `start`, that is still going on: each of its tests
was before the end of the phase and has been followed by a closed pulse. -/
def Closing (start : Time) (l : List Event) : Prop :=
  ∃ pre checks, l = pre ++ .closing start :: closedPulses checks ∧
    ∀ c ∈ checks, c < start + milliseconds kCloseHoldMs

/-- `l` ends in a whole closing phase: a closed pulse for each test of the clock, until the
clock is past the end of the phase. -/
def Closed (l : List Event) : Prop :=
  ∃ pre start checks checked,
    l = pre ++ .closing start :: (closedPulses checks ++ [.closed checked]) ∧
      (∀ c ∈ checks, c < start + milliseconds kCloseHoldMs) ∧
      start + milliseconds kCloseHoldMs ≤ checked

theorem closing_start (l : List Event) (start : Time) : Closing start (l ++ [.closing start]) :=
  ⟨l, [], rfl, fun _ h => (nomatch h)⟩

theorem Closing.pulse {l : List Event} {start checked : Time} (h : Closing start l)
    (hc : checked < start + milliseconds kCloseHoldMs) :
    Closing start (l ++ [.check checked] ++ [.pulse .closed checked]) := by
  obtain ⟨pre, checks, rfl, hchecks⟩ := h
  refine ⟨pre, checks ++ [checked], by simp [closedPulses_concat], fun c hx => ?_⟩
  rcases List.mem_append.mp hx with hx | hx
  · exact hchecks c hx
  · rw [List.mem_singleton.mp hx]
    exact hc

theorem Closing.close {l : List Event} {start checked : Time} (h : Closing start l)
    (hc : start + milliseconds kCloseHoldMs ≤ checked) : Closed (l ++ [.closed checked]) := by
  obtain ⟨pre, checks, rfl, hchecks⟩ := h
  exact ⟨pre, start, checks, checked, by simp, hchecks, hc⟩

/-- What the worker's log says at each line. -/
def Pc.Closes (stop : Bool) (l : List Event) : Pc → Prop
  | .closeStop deadline | .closeClock deadline =>
    ∃ start, deadline = start + milliseconds kCloseHoldMs ∧ Closing start l
  | .closePulse deadline checked =>
    ∃ start before, deadline = start + milliseconds kCloseHoldMs ∧ Closing start before ∧
      checked < deadline ∧ l = before ++ [.check checked]
  | .deenergize | .loopStop => stop = true ∨ Closed l
  | .lock => Closed l
  | _ => True

theorem Pc.Closes.notify {stop : Bool} {l : List Event} {pc : Pc} (h : pc.Closes stop l) :
    pc.notify.Closes stop l := by
  cases pc <;> exact h

theorem Pc.Closes.stop {stop : Bool} {l : List Event} {pc : Pc} (h : pc.Closes stop l) :
    pc.Closes true l := by
  cases pc with
  | deenergize | loopStop => exact Or.inl rfl
  | _ => exact h

/-- The entry of a wait comes after a whole closing phase. -/
def WaitClosed (l : List Event) : Event → Prop
  | .wait => Closed l
  | _ => True

structure CloseInv (s : State) : Prop where
  pc : s.pc.Closes s.shared.stop (workerLog s.log)
  log : Justified WaitClosed (workerLog s.log)

theorem turn_closes {s : Shared} {now : Time} {pc pc' : Pc} {e : Option Event} {l : List Event}
    (h : turn s now pc = some (pc', e)) (hc : pc.Closes s.stop l) :
    pc'.Closes s.stop (l ++ workerLog e.toList) ∧ ∀ x ∈ e, x.ofWorker ∧ WaitClosed l x := by
  have hnil : l ++ workerLog (none : Option Event).toList = l := List.append_nil l
  cases pc with
  | closeArm =>
    cases h
    exact ⟨⟨now, rfl, closing_start l now⟩, by rintro x ⟨⟩; exact ⟨rfl, trivial⟩⟩
  | closeStop deadline =>
    simp only [turn] at h
    split at h <;> cases h
    · exact ⟨Or.inl ‹_›, fun _ hx => (nomatch hx)⟩
    · exact ⟨hnil.symm ▸ hc, fun _ hx => (nomatch hx)⟩
  | closeClock deadline =>
    obtain ⟨start, rfl, hl⟩ := hc
    simp only [turn] at h
    split at h <;> cases h
    · exact ⟨⟨start, l, rfl, hl, ‹_›, rfl⟩, by rintro x ⟨⟩; exact ⟨rfl, trivial⟩⟩
    · exact ⟨Or.inr (hl.close (not_lt.mp ‹_›)), by rintro x ⟨⟩; exact ⟨rfl, trivial⟩⟩
  | closePulse deadline checked =>
    obtain ⟨start, before, rfl, hl, hlt, rfl⟩ := hc
    cases h
    exact ⟨⟨start, rfl, hl.pulse hlt⟩, by rintro x ⟨⟩; exact ⟨rfl, trivial⟩⟩
  | deenergize =>
    cases h
    exact ⟨hnil.symm ▸ hc, fun _ hx => (nomatch hx)⟩
  | loopStop =>
    simp only [turn] at h
    split at h <;> cases h
    · exact ⟨trivial, fun _ hx => (nomatch hx)⟩
    · rename_i hs
      have hl : Closed l := hc.resolve_left hs
      exact ⟨hnil.symm ▸ hl, fun _ hx => (nomatch hx)⟩
  | lock =>
    cases h
    exact ⟨trivial, by rintro x ⟨⟩; exact ⟨rfl, hc⟩⟩
  | asleep | ended => cases h
  | checkStop | checkClock | leave target | openStop target | openClock target =>
    simp only [turn] at h
    split at h <;> cases h <;> exact ⟨trivial, fun _ hx => (nomatch hx)⟩
  | commit | woken | readTarget | openRefresh =>
    cases h
    exact ⟨trivial, fun _ hx => (nomatch hx)⟩
  | openPulse checked =>
    cases h
    exact ⟨trivial, by rintro x ⟨⟩; exact ⟨rfl, trivial⟩⟩

theorem inductive_closeInv : (system openHoldMs).Inductive CloseInv where
  init s h := by
    obtain ⟨t, -, rfl⟩ := h
    exact ⟨trivial, justified_nil⟩
  step s l s' hi hs := by
    cases step_cases hs with
    | @worker now pc e hn hturn =>
      obtain ⟨hpc, he⟩ := turn_closes hturn hi.pc
      refine ⟨by simpa using hpc, ?_⟩
      have hw : workerLog e.toList = e.toList := by
        cases e with
        | none => rfl
        | some x => simp [workerLog, (he x rfl).1]
      rw [workerLog_append, hw]
      exact hi.log.append_option fun x hx => (he x hx).2
    | @grantClock now hn =>
      have hw : workerLog (s.log ++ [.grant now]) = workerLog s.log := by
        simp [workerLog, Event.ofWorker]
      exact ⟨hw.symm ▸ hi.pc, hw.symm ▸ hi.log⟩
    | grantStore htarget hm => exact ⟨hi.pc, hi.log⟩
    | spuriousWake hpc => exact ⟨True.intro, hi.log⟩
    | grantNotify | notifyStop => exact ⟨hi.pc.notify, hi.log⟩
    | requestStop hstop => exact ⟨hi.pc.stop, hi.log⟩

/-- Between an open pulse and a wait after it, a whole closing phase. -/
theorem closed_before_wait {l pre mid post : List Event} {checked : Time}
    (h : Justified WaitClosed l)
    (hl : l = pre ++ .pulse .opened checked :: (mid ++ .wait :: post)) : Closed mid := by
  obtain ⟨p, start, checks, c, he, hp, hc⟩ :=
    h (pre ++ .pulse .opened checked :: mid) .wait post (by rw [hl]; simp)
  have hnot : Event.pulse .opened checked ∉
      Event.closing start :: (closedPulses checks ++ [.closed c]) := by
    simp [closedPulses]
  rcases List.append_eq_append_iff.mp he with ⟨a, -, ha⟩ | ⟨a, -, ha⟩
  · cases a with
    | nil =>
      rw [List.nil_append] at ha
      exact absurd (ha ▸ List.mem_cons_self) hnot
    | cons x a =>
      obtain ⟨-, rfl⟩ := List.cons.inj ha
      exact ⟨a, start, checks, c, rfl, hp, hc⟩
  · exact absurd (ha ▸ List.mem_append_right _ List.mem_cons_self) hnot

/-- The log has every test of the clock in the closing phase. -/
theorem log_of_closeClock {s s' : State} {deadline now : Time} (hpc : s.pc = .closeClock deadline)
    (hs : (system openHoldMs).step s (.worker now) s') :
    s'.log = s.log ++ [if now < deadline then .check now else .closed now] := by
  cases step_cases hs with
  | worker hn hturn =>
    rw [hpc, turn] at hturn
    split at hturn <;> cases hturn
    · rw [if_pos ‹_›]
      rfl
    · rw [if_neg ‹_›]
      rfl

/-- **The turnstile opens only inside a granted window**, its deadline never moves
back, and it is closed before the worker waits again: the closing phase runs to its end, every
test of the clock in it is on the log, and each that does not end it is followed by a pulse
at the closed angle. -/
theorem opens_when_granted {s : State} (h : (system openHoldMs).Reachable s) :
    (∀ pre checked post, s.log = pre ++ .pulse .opened checked :: post →
      ∃ g, .grant g ∈ pre ∧ checked < g + milliseconds openHoldMs) ∧
    (∀ l s', (system openHoldMs).step s l s' → s.shared.openUntil ≤ s'.shared.openUntil) ∧
    (∀ pre checked mid post,
      workerLog s.log = pre ++ .pulse .opened checked :: (mid ++ .wait :: post) → Closed mid) ∧
    ∀ deadline now s', s.pc = .closeClock deadline →
      (system openHoldMs).step s (.worker now) s' →
      s'.log = s.log ++ [if now < deadline then .check now else .closed now] := by
  refine ⟨fun pre checked post he => ?_, fun l s' hs => openUntil_le hs,
    fun pre checked mid post he => ?_, fun deadline now s' => log_of_closeClock⟩
  · exact (inductive_grantInv.reachable s h).log pre _ post he
  · exact closed_before_wait (inductive_closeInv.reachable s h).log he

end

/-- Steps of the worker that take no time. -/
def turns (ms : ℤ) (n : ℕ) : List Label := List.replicate n (.worker (milliseconds ms))

/-- Boot close (one pulse), wait, a grant, one open pulse, the closing phase, and
the next wait. -/
def oneWindow : List Label :=
  turns 0 4 ++ turns 500 8 ++ [.grantClock (milliseconds 600), .grantStore 0, .grantNotify] ++
    turns 601 8 ++ turns 632 7 ++ turns 1132 5

theorem opens_when_granted_example :
    ∃ s : State, (system 30).Reachable s ∧
      (∃ g, .grant g ∈ s.log.take 6 ∧ milliseconds 601 < g + milliseconds 30) ∧
      Closed [.closing (milliseconds 632), .check (milliseconds 632),
        .pulse .closed (milliseconds 632), .closed (milliseconds 1132)] := by
  obtain ⟨s, hr, hl⟩ := LTS.exists_reachable (fun s => ∃ t, 0 ≤ t ∧ s = .start t) (step 30)
    oneWindow ⟨0, le_refl 0, rfl⟩
    (fun s => s.log = [.closing 0, .check 0, .pulse .closed 0, .closed (milliseconds 500), .wait,
      .grant (milliseconds 600), .pulse .opened (milliseconds 601), .closing (milliseconds 632),
      .check (milliseconds 632), .pulse .closed (milliseconds 632), .closed (milliseconds 1132),
      .wait]) (by decide +kernel)
  obtain ⟨hopen, -, hclosed, -⟩ := opens_when_granted hr
  refine ⟨s, hr, ?_, ?_⟩
  · rw [hl]
    exact hopen [.closing 0, .check 0, .pulse .closed 0, .closed (milliseconds 500), .wait,
      .grant (milliseconds 600)] _ _ hl
  · exact hclosed [.closing 0, .check 0, .pulse .closed 0, .closed (milliseconds 500), .wait] _ _ []
      (by rw [hl]; rfl)

/-! ## Stopping -/

section
variable {openHoldMs : ℤ}

def Event.angle? : Event → Option Angle
  | .pulse a _ => some a
  | _ => none

/-- The angle of the last pulse. -/
def lastAngle (log : List Event) : Option Angle := (log.filterMap Event.angle?).getLast?

theorem lastAngle_append (log : List Event) (e : Option Event) :
    lastAngle (log ++ e.toList) = (e.bind Event.angle?).or (lastAngle log) := by
  cases e with
  | none => simp
  | some x => cases h : x.angle? <;> simp [lastAngle, List.filterMap_append, h]

/-- Once the flag is set, the servo will end open: no closed pulse is to come.
`last` is the angle of the last pulse. -/
def Pc.EndsOpen (last : Option Angle) : Pc → Prop
  | .openPulse _ => True
  | .closeClock _ | .closePulse _ _ => False
  | _ => last = some .opened

/-- After the flag is set, the one test of the clock that may still be due lets no
open pulse through, or a closed one. -/
def Pc.ClosesFirst (last : Option Angle) (now : Time) : Pc → Prop
  | .openClock target => target ≤ now
  | .closeClock deadline => last = some .opened → now < deadline
  | _ => True

theorem turn_endsOpen {s : Shared} {now : Time} {pc pc' : Pc} {e : Option Event}
    (hs : s.stop = true) (h : turn s now pc = some (pc', e)) (last : Option Angle) :
    ¬ pc'.EndsOpen ((e.bind Event.angle?).or last) ↔
      ¬ pc.EndsOpen last ∧ pc.ClosesFirst last now := by
  cases pc with
  | closeClock deadline =>
    simp only [turn] at h
    split at h <;> cases h
    · rename_i hn
      simp [Pc.EndsOpen, Pc.ClosesFirst, hn]
    · rename_i hn
      simp [Pc.EndsOpen, Pc.ClosesFirst, hn, Event.angle?]
  | openClock target =>
    simp only [turn] at h
    split at h <;> cases h
    · rename_i hn
      simp [Pc.EndsOpen, Pc.ClosesFirst, hn]
    · rename_i hn
      simp [Pc.EndsOpen, Pc.ClosesFirst, hn]
  | checkClock =>
    simp only [turn] at h
    split at h <;> cases h <;> simp [Pc.EndsOpen, Pc.ClosesFirst]
  | asleep | ended => cases h
  | _ =>
    simp only [turn, hs, if_true, Option.some.injEq, Prod.mk.injEq] at h
    obtain ⟨rfl, rfl⟩ := h
    simp [Pc.EndsOpen, Pc.ClosesFirst, Event.angle?]

/-- The worker ends only on the flag. -/
theorem turn_ended {s : Shared} {now : Time} {pc : Pc} {e : Option Event}
    (h : turn s now pc = some (.ended, e)) : s.stop = true := by
  cases pc with
  | loopStop | leave target =>
    simp only [turn, Option.some.injEq, Prod.mk.injEq] at h
    obtain ⟨h, -⟩ := h
    split at h
    · assumption
    · cases h
  | closeStop deadline | closeClock deadline | checkStop | checkClock | openStop target
  | openClock target =>
    simp only [turn] at h
    split at h <;> cases h
  | _ => cases h

def Stuck (s : State) : Prop := s.shared.stop = true ∧ s.pc.EndsOpen (lastAngle s.log)

/-- The condition on a step: the stop comes when the last pulse was no open one
and none is under way, or when the closing loop has just tested the flag; and the
test of the clock that follows closes. -/
def StopsClosed (s : State) : Label → Prop
  | .requestStop => ¬ s.pc.EndsOpen (lastAngle s.log)
  | .worker now => s.shared.stop = true → s.pc.ClosesFirst (lastAngle s.log) now
  | _ => True

theorem endsOpen_notify {last : Option Angle} (pc : Pc) :
    pc.notify.EndsOpen last ↔ pc.EndsOpen last := by
  cases pc <;> rfl

theorem stuck_step {s s' : State} {l : Label} (hs : (system openHoldMs).step s l s') :
    ¬ Stuck s' ↔ ¬ Stuck s ∧ StopsClosed s l := by
  cases step_cases hs with
  | worker hn hturn =>
    cases hstop : s.shared.stop with
    | false => simp [Stuck, StopsClosed, hstop]
    | true =>
      simp only [Stuck, StopsClosed, hstop, true_and, forall_const, lastAngle_append]
      exact turn_endsOpen hstop hturn _
  | requestStop hstop => simp [Stuck, StopsClosed, hstop]
  | grantNotify | notifyStop => simp [Stuck, StopsClosed, endsOpen_notify]
  | spuriousWake hpc => simp [Stuck, StopsClosed, hpc, Pc.EndsOpen]
  | @grantClock now hn =>
    have hl : lastAngle (s.log ++ [.grant now]) = lastAngle s.log :=
      lastAngle_append s.log (some (.grant now))
    simp [Stuck, StopsClosed, hl]
  | grantStore htarget hm => simp [Stuck, StopsClosed]

theorem inductive_stopped :
    (system openHoldMs).Inductive fun s => s.pc = .ended → s.shared.stop = true where
  init s h := by
    obtain ⟨t, -, rfl⟩ := h
    exact fun h => (nomatch h)
  step s l s' hi hs := by
    cases step_cases hs with
    | worker hn hturn =>
      rintro rfl
      exact turn_ended hturn
    | requestStop hstop => exact fun _ => rfl
    | spuriousWake hpc => exact fun h => (nomatch h)
    | grantNotify | notifyStop =>
      intro hp
      refine hi ?_
      cases hpc : s.pc <;> simp_all [Pc.notify]
    | grantClock | grantStore => exact hi

/-- **The turnstile is left closed**: when the worker has ended, its last pulse is
no open one, exactly if the stop and the last test of the clock came in time. -/
theorem left_closed {a b : State} {ls : List Label} (ha : (system openHoldMs).init a)
    (hr : (system openHoldMs).Run a ls b) (hb : b.pc = .ended) :
    lastAngle b.log ≠ some .opened ↔ ((system openHoldMs).guard StopsClosed).Run a ls b := by
  have hstop : b.shared.stop = true := inductive_stopped.reachable b ⟨a, ls, ha, hr⟩ hb
  have hiff := hr.guard_iff (I := fun _ => True) (P := fun s => ¬ Stuck s)
    (fun _ _ _ _ hs => ⟨trivial, stuck_step hs⟩) trivial
  have ha' : ¬ Stuck a := by
    obtain ⟨t, -, rfl⟩ := ha
    exact fun h => (nomatch h.1)
  have hb' : ¬ Stuck b ↔ lastAngle b.log ≠ some .opened := by
    simp [Stuck, hstop, hb, Pc.EndsOpen]
  rw [← hb', hiff]
  exact and_iff_right ha'

end

/-- Stopped while the worker waits. -/
theorem left_closed_example :
    ∃ (ls : List Label) (b : State), b.pc = .ended ∧
      ((system 30).guard StopsClosed).Run (.start 0) ls b := by
  obtain ⟨b, hr, hb, hl⟩ := LTS.exists_run_where (fun s => ∃ t, 0 ≤ t ∧ s = .start t) (step 30)
    (fun _ _ => True) (.start 0) (oneWindow ++ [.requestStop] ++ turns 1200 3)
    (fun b => b.pc = .ended ∧ lastAngle b.log = some .closed) (by decide +kernel)
  refine ⟨_, b, hb, (left_closed ⟨0, le_refl 0, rfl⟩ hr.of_guard hb).mp ?_⟩
  rw [hl]
  decide

/-- Stopped inside the open window: the closing phase tests the flag first and
makes no pulse. -/
theorem left_open :
    ∃ b : State, (system 30).Reachable b ∧ b.pc = .ended ∧ lastAngle b.log = some .opened :=
  LTS.exists_reachable (fun s => ∃ t, 0 ≤ t ∧ s = .start t) (step 30)
    (turns 0 4 ++ turns 500 8 ++ [.grantClock (milliseconds 600), .grantStore 0, .grantNotify] ++
      turns 601 8 ++ [.requestStop] ++ turns 621 6)
    ⟨0, le_refl 0, rfl⟩ _ (by decide +kernel)

/-! ## The wait for a grant -/

section
variable {openHoldMs : ℤ}

/-- The wait, as the protocol sees it: the predicate has read the flag from
`checkClock` on. -/
def Pc.waiter : Pc → Condvar.Waiter
  | checkStop => .checking
  | checkClock | commit => .committed
  | asleep => .asleep
  | woken => .woken
  | _ => .away

def State.protocol (s : State) : Condvar.State := ⟨s.pc.waiter, s.shared.stop, s.stopNotified⟩

/-- The stop is not notified between the predicate and the sleep. -/
def InTime (s : State) (l : Label) : Prop := l = .notifyStop → s.pc.waiter ≠ .committed

instance (s : State) (l : Label) : Decidable (InTime s l) := inferInstanceAs (Decidable (_ → _))

/-- Stopped and notified, the worker sleeps, and no call is left that would wake it. -/
structure Lost (s : State) : Prop where
  stop : s.shared.stop = true
  notified : s.stopNotified = true
  asleep : s.pc = .asleep
  targets : s.targets = []
  notifying : s.notifying = 0

theorem waiter_notify (pc : Pc) : pc.notify.waiter = pc.waiter.notify := by
  cases pc <;> rfl

theorem moves_notify (s : State) :
    Condvar.Moves s.protocol ⟨s.pc.notify.waiter, s.shared.stop, s.stopNotified⟩ := by
  rw [waiter_notify]
  exact Condvar.moves_wake s.protocol

theorem turn_moves {s : Shared} {now : Time} {pc pc' : Pc} {e : Option Event}
    (h : turn s now pc = some (pc', e)) (n : Bool) :
    Condvar.Moves ⟨pc.waiter, s.stop, n⟩ ⟨pc'.waiter, s.stop, n⟩ := by
  cases pc with
  | lock | woken =>
    cases h
    exact Or.inr ⟨.lock, by decide, rfl⟩
  | checkStop =>
    cases h
    cases hs : s.stop with
    | true => exact Or.inr ⟨.leave, by decide, rfl⟩
    | false => exact Or.inr ⟨.commit, by decide, rfl⟩
  | checkClock =>
    simp only [turn] at h
    split at h <;> cases h
    · exact Or.inr ⟨.leave, by decide, rfl⟩
    · exact Condvar.moves_self _
  | commit =>
    cases h
    exact Or.inr ⟨.sleep, by decide, rfl⟩
  | asleep | ended => cases h
  | closeStop deadline | closeClock deadline | loopStop | leave target | openStop target
  | openClock target =>
    simp only [turn] at h
    split at h <;> cases h <;> exact Condvar.moves_self _
  | closeArm | closePulse deadline checked | deenergize | readTarget | openPulse checked
  | openRefresh =>
    cases h
    exact Condvar.moves_self _

theorem follows : Condvar.Follows (system openHoldMs) .notifyStop State.protocol where
  init s h := by
    obtain ⟨t, -, rfl⟩ := h
    rfl
  step s l s' hs := by
    cases step_cases hs with
    | worker hn hturn => exact Or.inl (turn_moves hturn s.stopNotified)
    | notifyStop hstop =>
      refine Or.inr ⟨rfl, ?_⟩
      simp [Condvar.step, State.protocol, hstop, waiter_notify]
    | spuriousWake hpc =>
      have hmoves := Condvar.moves_wake s.protocol
      simp only [State.protocol, hpc] at hmoves ⊢
      exact Or.inl hmoves
    | grantNotify hn => exact Or.inl (moves_notify s)
    | requestStop hstop => exact Or.inl (Condvar.moves_store s.protocol)
    | grantClock | grantStore => exact Or.inl (Condvar.moves_self _)

theorem never_lost {s : State} (h : ((system openHoldMs).guard InTime).Reachable s) :
    ¬ Lost s := by
  intro hl
  refine follows.never_lost h ⟨hl.notified, ?_⟩
  simp [State.protocol, hl.asleep, Pc.waiter]

end
end FaceGate.L2.Turnstile
