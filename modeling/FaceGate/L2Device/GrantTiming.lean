import FaceGate.L1Domain.Config
import FaceGate.L2Device.Turnstile
import Mathlib.Tactic.Linarith
import Mathlib.Tactic.Ring

/-!
# When a grant opens the gate

`Turnstile.system` on an ideal clock: a pulse lasts one PWM period, every other step of
a thread takes no time, so time passes only while the worker sleeps or pulses and no call
of `grant_access` is under way (`Ideal`). There is no stop.

The worker compares the clock with the deadline when it wakes and after each open pulse,
but not while it closes: a grant that arrives then has its deadline looked at only when
the 500 ms are over. `looksAt` is the instant at which the worker will next look.

* `grant_opens_iff`: a call is followed by an open pulse, 520 ms later at most and before
  the worker sleeps, if its hold reaches beyond that instant, whatever other calls come.
  Otherwise only another call opens the gate.
* `timely_of_long`: a hold above 500 ms always reaches it; `validate` asks for one above 0.
* `never_stuck`: the ideal clock keeps no thread from going on.
* `grant_lost`: with a hold of 400 ms a grant at the boot opens nothing.
-/
namespace FaceGate.L2.GrantTiming

open Core FaceGate.L1 FaceGate.L1.Domain Turnstile

/-! ## The ideal clock -/

/-- mirrors edge/src/hardware/turnstile.cpp:18 -/
def kPwmPeriodUs : ℤ := 20000

def pwmPeriod : Time := kPwmPeriodUs * 1000
def closeHold : Time := milliseconds kCloseHoldMs

theorem closeHold_eq : closeHold = 25 * pwmPeriod := rfl
theorem pwmPeriod_pos : 0 < pwmPeriod := by decide

/-- The reading that let the pulse through, during a pulse. -/
def pulsing : Pc → Option Time
  | .closePulse _ checked | .openPulse checked => some checked
  | _ => none

/-- The reading a step takes. -/
def reading : Label → Option Time
  | .worker now | .grantClock now => some now
  | _ => none

def workerReading : Label → Option Time
  | .worker now => some now
  | _ => none

/-- No call of `grant_access` is under way. -/
def Quiet (s : State) : Prop := s.targets = [] ∧ s.notifying = 0

/-- The worker may be where it is until `now`. -/
def Rests (pc : Pc) (now : Time) : Prop :=
  pc = .asleep ∨ ∃ checked ∈ pulsing pc, now ≤ checked + pwmPeriod

structure Ideal (s : State) (l : Label) : Prop where
  noStop : l ≠ .requestStop
  time : ∀ now ∈ reading l, now = s.now ∨ Quiet s ∧ Rests s.pc now
  pulse : ∀ checked ∈ pulsing s.pc, ∀ now ∈ workerReading l, now = checked + pwmPeriod

instance (s : State) : Decidable (Quiet s) := inferInstanceAs (Decidable (_ ∧ _))

instance (pc : Pc) (now : Time) : Decidable (Rests pc now) := inferInstanceAs (Decidable (_ ∨ _))

instance (s : State) (l : Label) : Decidable (Ideal s l) :=
  decidable_of_iff (l ≠ .requestStop ∧ (∀ now ∈ reading l, now = s.now ∨ Quiet s ∧ Rests s.pc now) ∧
      ∀ checked ∈ pulsing s.pc, ∀ now ∈ workerReading l, now = checked + pwmPeriod)
    ⟨fun h => ⟨h.1, h.2.1, h.2.2⟩, fun h => ⟨h.noStop, h.time, h.pulse⟩⟩

/-- When the worker next compares the clock with a deadline written now. -/
def looksAt (now : Time) : Pc → Time
  | .closeArm => now + closeHold
  | .closeStop deadline | .closeClock deadline | .closePulse deadline _ => deadline
  | .leave target | .openStop target | .openClock target =>
    if now < target then now else now + closeHold
  | .openPulse checked => if now ≤ checked then now else checked + pwmPeriod
  | _ => now

/-- The hold of a call that writes its deadline now reaches beyond that instant. -/
def Timely (openHoldMs : ℤ) (s : State) : Prop :=
  looksAt s.now s.pc < s.now + milliseconds openHoldMs

instance (openHoldMs : ℤ) (s : State) : Decidable (Timely openHoldMs s) :=
  inferInstanceAs (Decidable (_ < _))

def ideal (openHoldMs : ℤ) : LTS State Label := (system openHoldMs).guard Ideal

/-! ## What a step does to a waiting grant -/

/-- Where the worker can be, at `now`. -/
def InPhase (now : Time) : Pc → Prop
  | .closeStop deadline | .closeClock deadline =>
    ∃ k : ℕ, k ≤ 25 ∧ deadline = now + k * pwmPeriod
  | .closePulse deadline checked =>
    (∃ k : ℕ, k < 25 ∧ deadline = checked + (k + 1) * pwmPeriod) ∧
      checked ≤ now ∧ now ≤ checked + pwmPeriod
  | .openPulse checked => checked ≤ now ∧ now ≤ checked + pwmPeriod
  | .ended => False
  | _ => True

/-- The worker will open for the grant `g`: it will find its deadline, at most
`openUntil`, not reached when it looks. -/
def Awaits (notifying : ℕ) (now openUntil g : Time) : Pc → Prop
  | .closeArm => now ≤ g ∧ now + closeHold < openUntil
  | .closeStop deadline | .closeClock deadline | .closePulse deadline _ =>
    deadline ≤ g + closeHold ∧ deadline < openUntil
  | .leave target | .openStop target | .openClock target =>
    now < target ∧ now ≤ g + closeHold ∨ now ≤ g ∧ now + closeHold < openUntil
  | .openPulse checked =>
    g ≤ checked ∧ checked ≤ g + closeHold ∨ checked < g ∧ checked + pwmPeriod < openUntil
  | .asleep => 0 < notifying ∧ now ≤ g + closeHold ∧ now < openUntil
  | .commit | .ended => False
  | _ => now ≤ g + closeHold ∧ now < openUntil

theorem turn_phase {s : Shared} {now₀ now : Time} {pc pc' : Pc} {e : Option Event}
    (hstop : s.stop = false) (h : turn s now pc = some (pc', e)) (hp : InPhase now₀ pc)
    (hpulse : ∀ checked ∈ pulsing pc, now = checked + pwmPeriod)
    (hnow : pulsing pc = none → now = now₀) : InPhase now pc' := by
  cases pc with
  | closeArm =>
    cases h
    refine ⟨25, le_refl _, ?_⟩
    show now + closeHold = _
    rw [closeHold_eq]
    norm_num
  | closeStop deadline =>
    simp only [turn, hstop, Bool.false_eq_true, if_false] at h
    cases h
    rw [hnow rfl]
    exact hp
  | closeClock deadline =>
    obtain rfl := hnow rfl
    obtain ⟨k, hk, hd⟩ := hp
    simp only [turn] at h
    split at h <;> cases h
    · rename_i hlt
      cases k with
      | zero => simp [hd] at hlt
      | succ k =>
        have hpos := pwmPeriod_pos
        refine ⟨⟨k, hk, ?_⟩, le_refl _, by linarith⟩
        rw [hd]
        push_cast
        ring
    · trivial
  | closePulse deadline checked =>
    cases h
    obtain ⟨⟨k, hk, hd⟩, -⟩ := hp
    refine ⟨k, hk.le, ?_⟩
    rw [hpulse checked rfl, hd]
    ring
  | openClock target =>
    have hpos := pwmPeriod_pos
    simp only [turn] at h
    split at h <;> cases h
    · trivial
    · exact ⟨le_refl _, by linarith⟩
  | ended => exact hp.elim
  | asleep => cases h
  | loopStop | checkStop | leave target | openStop target =>
    simp only [turn, hstop, Bool.false_eq_true, if_false] at h
    cases h
    trivial
  | checkClock =>
    simp only [turn] at h
    split at h <;> cases h <;> trivial
  | deenergize | lock | commit | woken | readTarget | openPulse checked | openRefresh =>
    cases h
    trivial

theorem turn_awaits {s : Shared} {now₀ now g : Time} {n : ℕ} {pc pc' : Pc} {e : Option Event}
    (hstop : s.stop = false) (h : turn s now pc = some (pc', e)) (hp : InPhase now₀ pc)
    (hpulse : ∀ checked ∈ pulsing pc, now = checked + pwmPeriod)
    (hnow : pulsing pc = none → now = now₀) (hg : g ≤ now₀)
    (hopen : ∀ checked, e = some (.pulse .opened checked) → checked < g)
    (ha : Awaits n now₀ s.openUntil g pc) : Awaits n now s.openUntil g pc' := by
  have hperiod := pwmPeriod_pos
  have hhold := closeHold_eq
  cases pc with
  | closeArm =>
    obtain rfl := hnow rfl
    cases h
    exact ⟨add_le_add_left ha.1 closeHold, ha.2⟩
  | closeStop deadline =>
    simp only [turn, hstop, Bool.false_eq_true, if_false] at h
    cases h
    exact ha
  | closeClock deadline =>
    obtain rfl := hnow rfl
    obtain ⟨k, hk, hd⟩ := hp
    simp only [turn] at h
    split at h <;> cases h
    · exact ha
    · -- the phase is over exactly at its deadline
      have hle : now ≤ deadline := by
        rw [hd]
        exact le_add_of_nonneg_right (mul_nonneg (Int.natCast_nonneg k) hperiod.le)
      exact ⟨hle.trans ha.1, hle.trans_lt ha.2⟩
  | closePulse deadline checked =>
    cases h
    exact ha
  | deenergize | lock | woken =>
    obtain rfl := hnow rfl
    cases h
    exact ha
  | loopStop | checkStop =>
    obtain rfl := hnow rfl
    simp only [turn, hstop, Bool.false_eq_true, if_false] at h
    cases h
    exact ha
  | checkClock =>
    obtain rfl := hnow rfl
    simp only [turn] at h
    split at h <;> cases h
    · exact ha
    · exact absurd ha.2 ‹_›
  | readTarget =>
    obtain rfl := hnow rfl
    cases h
    exact Or.inl ⟨ha.2, ha.1⟩
  | leave target | openStop target =>
    obtain rfl := hnow rfl
    simp only [turn, hstop, Bool.false_eq_true, if_false] at h
    cases h
    exact ha
  | openClock target =>
    obtain rfl := hnow rfl
    simp only [turn] at h
    split at h <;> cases h
    · rename_i hle
      exact ha.resolve_left fun hlt => absurd hlt.1 (not_lt.mpr hle)
    · refine Or.inl ⟨hg, ?_⟩
      rcases ha with ha | ha
      · exact ha.2
      · linarith [ha.1]
  | openPulse checked =>
    cases h
    have hlt := hopen checked rfl
    have hend := hpulse checked rfl
    rcases ha with ha | ha
    · exact absurd hlt (not_lt.mpr ha.1)
    · exact ⟨by linarith, by linarith [ha.2]⟩
  | openRefresh =>
    obtain rfl := hnow rfl
    cases h
    exact Or.inl ⟨ha.2, ha.1⟩
  | asleep => cases h
  | commit | ended => exact ha.elim

theorem target_le_extend (openUntil target : Time) : target ≤ extend openUntil target := by
  unfold extend
  split
  · exact le_refl _
  · exact not_lt.mp ‹_›

theorem Awaits.mono {n m : ℕ} {now U U' g : Time} {pc : Pc} (h : Awaits n now U g pc) (hn : n ≤ m)
    (hU : U ≤ U') : Awaits m now U' g pc := by
  cases pc with
  | asleep => exact ⟨h.1.trans_le hn, h.2.1, h.2.2.trans_le hU⟩
  | commit | ended => exact h.elim
  | openPulse checked => exact h.imp_right fun h => ⟨h.1, h.2.trans_le hU⟩
  | leave target | openStop target | openClock target =>
    exact h.imp_right fun h => ⟨h.1, h.2.trans_le hU⟩
  | _ => exact ⟨h.1, h.2.trans_le hU⟩

/-- The closing phase ends 500 ms from now at most. -/
theorem looksAt_le {now : Time} {pc : Pc} (hp : InPhase now pc) :
    looksAt now pc ≤ now + closeHold := by
  have hperiod := pwmPeriod_pos
  have hhold := closeHold_eq
  have hmul : ∀ k : ℕ, k ≤ 25 → (k : ℤ) * pwmPeriod ≤ closeHold := by
    intro k hk
    rw [hhold]
    exact mul_le_mul_of_nonneg_right (by exact_mod_cast hk) hperiod.le
  have hnow : now ≤ now + closeHold := by linarith
  cases pc with
  | closeStop deadline | closeClock deadline =>
    obtain ⟨k, hk, rfl⟩ := hp
    exact add_le_add_right (hmul k hk) now
  | closePulse deadline checked =>
    obtain ⟨⟨k, hk, rfl⟩, hle, -⟩ := hp
    have hlast := hmul (k + 1) hk
    push_cast at hlast
    exact add_le_add hle hlast
  | openPulse checked =>
    obtain ⟨hle, -⟩ := hp
    simp only [looksAt]
    split
    · exact hnow
    · linarith
  | leave target | openStop target | openClock target =>
    simp only [looksAt]
    split
    · exact hnow
    · exact le_refl _
  | closeArm => exact le_refl _
  | _ => exact hnow

/-- A deadline beyond the instant at which the worker looks is found. -/
theorem awaits_of_looksAt {n : ℕ} {now U : Time} {pc : Pc} (hn : 0 < n)
    (hm : pc.holdsMutex = false) (hp : InPhase now pc) (h : looksAt now pc < U) :
    Awaits n now U now pc := by
  have hperiod := pwmPeriod_pos
  have hhold := closeHold_eq
  have hle := looksAt_le hp
  have hnow : now ≤ now + closeHold := by linarith
  cases pc with
  | closeArm => exact ⟨le_refl _, h⟩
  | closeStop deadline | closeClock deadline | closePulse deadline checked => exact ⟨hle, h⟩
  | leave target | openStop target | openClock target =>
    simp only [looksAt] at h
    split at h
    · exact Or.inl ⟨‹_›, hnow⟩
    · exact Or.inr ⟨le_refl _, h⟩
  | openPulse checked =>
    simp only [looksAt] at h
    split at h
    · exact Or.inl ⟨‹_›, hp.1.trans hnow⟩
    · exact Or.inr ⟨not_le.mp ‹_›, h⟩
  | asleep => exact ⟨hn, hnow, h⟩
  | commit | checkStop | checkClock | readTarget => cases hm
  | ended => exact hp.elim
  | _ => exact ⟨hnow, h⟩

/-- What holds on the ideal clock, whatever the calls. -/
structure Base (openHoldMs : ℤ) (s : State) : Prop where
  stop : s.shared.stop = false
  phase : InPhase s.now s.pc
  flight : ∀ t ∈ s.targets, t = s.now + milliseconds openHoldMs
  openUntil : s.shared.openUntil ≤ s.now ∨
    s.shared.openUntil ≤ s.now + milliseconds openHoldMs

section
variable {openHoldMs : ℤ}

/-- What a step can do on the ideal clock, with its guards: a pulse ends, time passes
where the worker rests and no call is under way, or no time passes. -/
inductive IdealStep (openHoldMs : ℤ) (s : State) : Label → State → Prop where
  | worker {now : Time} {pc : Pc} {e : Option Event} :
      s.now ≤ now → turn s.shared now s.pc = some (pc, e) →
      (∀ checked ∈ pulsing s.pc, now = checked + pwmPeriod) →
      (pulsing s.pc = none → now = s.now) → now = s.now ∨ s.targets = [] →
      IdealStep openHoldMs s (.worker now) { s with
        now := now, pc := pc, log := s.log ++ e.toList }
  | spuriousWake : s.pc = .asleep → IdealStep openHoldMs s .spuriousWake { s with pc := .woken }
  | grantClock {now : Time} : s.now ≤ now → now = s.now ∨ Quiet s ∧ Rests s.pc now →
      IdealStep openHoldMs s (.grantClock now) { s with
        now := now
        targets := s.targets ++ [newTarget openHoldMs now]
        log := s.log ++ [.grant now] }
  | grantStore {i : ℕ} : s.targets ≠ [] → s.pc.holdsMutex = false →
      IdealStep openHoldMs s (.grantStore i) { s with
        shared := { s.shared with
          openUntil := extend s.shared.openUntil (s.now + milliseconds openHoldMs) }
        targets := s.targets.eraseIdx i
        notifying := s.notifying + 1 }
  | grantNotify : 0 < s.notifying →
      IdealStep openHoldMs s .grantNotify { s with
        notifying := s.notifying - 1, pc := s.pc.notify }

theorem ideal_cases {s s' : State} {l : Label} (hi : Base openHoldMs s)
    (h : (ideal openHoldMs).step s l s') : IdealStep openHoldMs s l s' := by
  obtain ⟨hs, hl⟩ := h
  cases step_cases hs with
  | @worker now pc e hn hturn =>
    refine .worker hn hturn (fun checked hc => hl.pulse checked hc now rfl) (fun hnone => ?_) ?_
    · rcases hl.time now rfl with he | ⟨-, hasleep | ⟨checked, hc, -⟩⟩
      · exact he
      · rw [hasleep] at hturn
        cases hturn
      · rw [hnone] at hc
        cases hc
    · exact (hl.time now rfl).imp_right fun hq => hq.1.1
  | spuriousWake hpc => exact .spuriousWake hpc
  | grantClock hn => exact .grantClock hn (hl.time _ rfl)
  | grantStore htarget hm =>
    rw [hi.flight _ htarget]
    exact .grantStore (List.ne_nil_of_mem htarget) hm
  | grantNotify hn => exact .grantNotify hn
  | requestStop hstop => exact absurd rfl hl.noStop
  | notifyStop hstop =>
    rw [hi.stop] at hstop
    cases hstop

theorem InPhase.notify {now : Time} {pc : Pc} (h : InPhase now pc) : InPhase now pc.notify := by
  cases pc <;> exact h

/-- Time passes where the worker rests. -/
theorem InPhase.rest {now now' : Time} {pc : Pc} (h : InPhase now pc) (hle : now ≤ now')
    (hr : Rests pc now') : InPhase now' pc := by
  rcases hr with rfl | ⟨checked, hc, hend⟩
  · trivial
  · cases pc with
    | closePulse deadline c =>
      cases hc
      exact ⟨h.1, h.2.1.trans hle, hend⟩
    | openPulse c =>
      cases hc
      exact ⟨h.1.trans hle, hend⟩
    | _ => cases hc

/-- A deadline is at most one hold ahead. -/
theorem ahead_mono {U now now' hold : Time} (h : U ≤ now ∨ U ≤ now + hold) (hle : now ≤ now') :
    U ≤ now' ∨ U ≤ now' + hold :=
  h.imp (·.trans hle) (·.trans (add_le_add_left hle hold))

theorem base_step {s s' : State} {l : Label} (hi : Base openHoldMs s)
    (hs : (ideal openHoldMs).step s l s') : Base openHoldMs s' := by
  cases ideal_cases hi hs with
  | worker hn hturn hpulse hnow hsame =>
    refine ⟨hi.stop, turn_phase hi.stop hturn hi.phase hpulse hnow, fun t ht => ?_,
      ahead_mono hi.openUntil hn⟩
    rcases hsame with rfl | hnil
    · exact hi.flight t ht
    · rw [hnil] at ht
      cases ht
  | spuriousWake hpc => exact ⟨hi.stop, trivial, hi.flight, hi.openUntil⟩
  | grantClock hn htime =>
    refine ⟨hi.stop, ?_, fun t ht => ?_, ahead_mono hi.openUntil hn⟩
    · rcases htime with rfl | ⟨-, hrest⟩
      · exact hi.phase
      · exact hi.phase.rest hn hrest
    · rcases List.mem_append.mp ht with hold | hnew
      · rcases htime with rfl | ⟨hquiet, -⟩
        · exact hi.flight t hold
        · rw [hquiet.1] at hold
          cases hold
      · exact List.mem_singleton.mp hnew
  | grantStore htargets hm =>
    refine ⟨hi.stop, hi.phase, fun t ht => hi.flight t (List.mem_of_mem_eraseIdx ht), ?_⟩
    rcases extend_cases s.shared.openUntil (s.now + milliseconds openHoldMs) with hold | hnew
    · exact hold.symm ▸ hi.openUntil
    · exact Or.inr hnew.le
  | grantNotify hn => exact ⟨hi.stop, hi.phase.notify, hi.flight, hi.openUntil⟩

theorem inductive_base :
    (ideal openHoldMs).Inductive (Base openHoldMs) where
  init s h := by
    obtain ⟨t, ht, rfl⟩ := h
    exact ⟨rfl, trivial, fun _ ht => (nomatch ht), Or.inl ht⟩
  step _ _ _ hi hs := base_step hi hs

theorem base_run {s b : State} {ls : List Label} (hrun : (ideal openHoldMs).Run s ls b)
    (hi : Base openHoldMs s) : Base openHoldMs b := hrun.invariant inductive_base.step hi

/-- A hold longer than the closing phase is always long enough. -/
theorem timely_of_long (hlong : kCloseHoldMs < openHoldMs) {s : State}
    (hr : (ideal openHoldMs).Reachable s) : Timely openHoldMs s := by
  have hle := looksAt_le (inductive_base.reachable s hr).phase
  have hlt : closeHold < milliseconds openHoldMs :=
    mul_lt_mul_of_pos_right hlong (by decide)
  exact hle.trans_lt (by linarith)

/-! ## After a call -/

/-- An open pulse let through at `g` or later. -/
def Opens (g : Time) (log : List Event) : Prop :=
  ∃ checked, g ≤ checked ∧ .pulse .opened checked ∈ log

theorem Opens.append_left {g : Time} {l : List Event} (h : Opens g l) (m : List Event) :
    Opens g (l ++ m) := by
  obtain ⟨checked, hg, hm⟩ := h
  exact ⟨checked, hg, List.mem_append_left m hm⟩

theorem Opens.append_right {g : Time} {m : List Event} (h : Opens g m) (l : List Event) :
    Opens g (l ++ m) := by
  obtain ⟨checked, hg, hm⟩ := h
  exact ⟨checked, hg, List.mem_append_right l hm⟩

theorem opens_append {g : Time} {l m : List Event} (h : Opens g (l ++ m)) :
    Opens g l ∨ Opens g m := by
  obtain ⟨checked, hg, hm⟩ := h
  rcases List.mem_append.mp hm with hm | hm
  · exact Or.inl ⟨checked, hg, hm⟩
  · exact Or.inr ⟨checked, hg, hm⟩

theorem not_opens_nil (g : Time) : ¬ Opens g [] := by simp [Opens]

/-- A step that logs nothing. -/
theorem unlogged {log : List Event} {P : List Event → Prop} (h : P []) :
    ∃ new, log = log ++ new ∧ P new := ⟨[], (List.append_nil log).symm, h⟩

theorem now_le {s s' : State} {l : Label} (hs : Step openHoldMs s l s') : s.now ≤ s'.now := by
  cases hs with
  | worker hn | grantClock hn => exact hn
  | spuriousWake | grantStore | grantNotify | requestStop | notifyStop => exact le_refl _

theorem log_step {s s' : State} {l : Label} (hs : Step openHoldMs s l s') :
    ∃ new, s'.log = s.log ++ new := by
  cases hs with
  | worker | grantClock => exact ⟨_, rfl⟩
  | spuriousWake | grantStore | grantNotify | requestStop | notifyStop =>
    exact ⟨[], (List.append_nil _).symm⟩

theorem Awaits.notify {n : ℕ} {now U g : Time} {pc : Pc} (h : Awaits n now U g pc) (m : ℕ) :
    Awaits m now U g pc.notify := by
  cases pc with
  | asleep => exact h.2
  | _ => exact h

theorem Awaits.rest {n : ℕ} {now now' U g : Time} {pc : Pc} (h : Awaits n now U g pc)
    (hn : n = 0) (hr : Rests pc now') : Awaits n now' U g pc := by
  rcases hr with rfl | ⟨checked, hc, -⟩
  · exact absurd h.1 (by rw [hn]; exact lt_irrefl 0)
  · cases pc with
    | closePulse deadline c | openPulse c => exact h
    | _ => cases hc

/-- A grant that the worker will open for is answered, or goes on waiting. -/
theorem awaits_step {s s' : State} {l : Label} {g : Time} (hi : Base openHoldMs s)
    (hs : (ideal openHoldMs).step s l s') (hg : g ≤ s.now)
    (ha : Awaits s.notifying s.now s.shared.openUntil g s.pc) :
    ∃ new, s'.log = s.log ++ new ∧
      (Opens g new ∨ Awaits s'.notifying s'.now s'.shared.openUntil g s'.pc) := by
  cases ideal_cases hi hs with
  | @worker now pc e hn hturn hpulse hnow =>
    refine ⟨e.toList, rfl, ?_⟩
    by_cases ho : Opens g e.toList
    · exact Or.inl ho
    · right
      refine turn_awaits hi.stop hturn hi.phase hpulse hnow hg (fun checked he => ?_) ha
      subst he
      exact not_le.mp fun hle => ho ⟨checked, hle, List.mem_cons_self⟩
  | spuriousWake hpc =>
    rw [hpc] at ha
    exact unlogged (Or.inr ha.2)
  | @grantClock now hn htime =>
    refine ⟨[.grant now], rfl, Or.inr ?_⟩
    rcases htime with rfl | ⟨hquiet, hrest⟩
    · exact ha
    · exact ha.rest hquiet.2 hrest
  | grantStore htargets hm => exact unlogged (Or.inr (ha.mono (Nat.le_succ _) (le_extend _ _)))
  | grantNotify hn => exact unlogged (Or.inr (ha.notify _))

theorem awaits_run {s b : State} {ls : List Label} {g : Time}
    (hrun : (ideal openHoldMs).Run s ls b) (hi : Base openHoldMs s) (hg : g ≤ s.now)
    (ha : Awaits s.notifying s.now s.shared.openUntil g s.pc) :
    ∃ new, b.log = s.log ++ new ∧
      (Opens g new ∨ Awaits b.notifying b.now b.shared.openUntil g b.pc) := by
  refine (hrun.invariant (P := fun x => Base openHoldMs x ∧ g ≤ x.now ∧ ∃ new,
    x.log = s.log ++ new ∧ (Opens g new ∨ Awaits x.notifying x.now x.shared.openUntil g x.pc))
    ?_ ⟨hi, hg, unlogged (Or.inr ha)⟩).2.2
  rintro x l x' ⟨hix, hgx, new, hnew, hcase⟩ hs
  refine ⟨base_step hix hs, hgx.trans (now_le (step_cases hs.1)), ?_⟩
  rcases hcase with hopened | hawaits
  · obtain ⟨more, hmore⟩ := log_step (step_cases hs.1)
    exact ⟨new ++ more, by rw [hmore, hnew, List.append_assoc], Or.inl (hopened.append_left more)⟩
  · obtain ⟨more, hmore, hopened | hawaits⟩ := awaits_step hix hs hgx hawaits
    · exact ⟨new ++ more, by rw [hmore, hnew, List.append_assoc],
        Or.inl (hopened.append_right new)⟩
    · exact ⟨new ++ more, by rw [hmore, hnew, List.append_assoc], Or.inr hawaits⟩

/-- A grant waits no longer than a closing phase and a pulse. -/
theorem Awaits.soon {n : ℕ} {now U g : Time} {pc : Pc} (h : Awaits n now U g pc)
    (hp : InPhase now pc) : now ≤ g + closeHold + pwmPeriod := by
  have hperiod := pwmPeriod_pos
  have hhold := closeHold_eq
  have hnat : ∀ k : ℕ, 0 ≤ (k : ℤ) * pwmPeriod := fun k =>
    mul_nonneg (Int.natCast_nonneg k) hperiod.le
  cases pc with
  | closeArm => linarith [h.1]
  | closeStop deadline | closeClock deadline =>
    obtain ⟨k, -, rfl⟩ := hp
    linarith [h.1, hnat k]
  | closePulse deadline checked =>
    obtain ⟨⟨k, -, rfl⟩, -, hend⟩ := hp
    have hle := h.1
    rw [add_mul, one_mul] at hle
    linarith [hnat k]
  | leave target | openStop target | openClock target =>
    rcases h with h | h
    · linarith [h.2]
    · linarith [h.1]
  | openPulse checked =>
    obtain ⟨-, hend⟩ := hp
    rcases h with h | h
    · linarith [h.2]
    · linarith [h.1]
  | asleep => linarith [h.2.1]
  | commit | ended => exact h.elim
  | _ => linarith [h.1]

/-! ## Too late -/

/-- The worker will open no more for the last deadline, `openUntil`; a pulse under way
was let through before `g`. -/
def Misses (now openUntil g : Time) : Pc → Prop
  | .closeArm => openUntil ≤ now + closeHold
  | .closeStop deadline | .closeClock deadline | .closePulse deadline _ => openUntil ≤ deadline
  | .leave target | .openStop target | .openClock target =>
    target ≤ now ∧ openUntil ≤ now + closeHold
  | .openPulse checked => checked < g ∧ openUntil ≤ checked + pwmPeriod
  | .ended => True
  | _ => openUntil ≤ now

theorem closeHold_nonneg : 0 ≤ closeHold := by decide

theorem turn_misses {s : Shared} {now₀ now g : Time} {pc pc' : Pc} {e : Option Event}
    (hstop : s.stop = false) (h : turn s now pc = some (pc', e))
    (hpulse : ∀ checked ∈ pulsing pc, now = checked + pwmPeriod)
    (hnow : pulsing pc = none → now = now₀) (hm : Misses now₀ s.openUntil g pc) :
    Misses now s.openUntil g pc' ∧ ¬ Opens g e.toList := by
  have hhold := closeHold_nonneg
  cases pc with
  | closeArm =>
    obtain rfl := hnow rfl
    cases h
    exact ⟨hm, by simp [Opens]⟩
  | closeStop deadline =>
    simp only [turn, hstop, Bool.false_eq_true, if_false] at h
    cases h
    exact ⟨hm, not_opens_nil g⟩
  | closeClock deadline =>
    simp only [turn] at h
    split at h <;> cases h
    · exact ⟨hm, by simp [Opens]⟩
    · exact ⟨hm.trans (not_lt.mp ‹_›), by simp [Opens]⟩
  | closePulse deadline checked =>
    cases h
    exact ⟨hm, by simp [Opens]⟩
  | deenergize | woken | commit =>
    obtain rfl := hnow rfl
    cases h
    exact ⟨hm, not_opens_nil g⟩
  | lock =>
    obtain rfl := hnow rfl
    cases h
    exact ⟨hm, by simp [Opens]⟩
  | loopStop | checkStop | leave target | openStop target =>
    obtain rfl := hnow rfl
    simp only [turn, hstop, Bool.false_eq_true, if_false] at h
    cases h
    exact ⟨hm, not_opens_nil g⟩
  | checkClock =>
    obtain rfl := hnow rfl
    simp only [turn] at h
    split at h <;> cases h
    · exact absurd hm (not_le.mpr ‹_›)
    · exact ⟨hm, not_opens_nil g⟩
  | readTarget | openRefresh =>
    obtain rfl := hnow rfl
    cases h
    exact ⟨⟨hm, hm.trans (le_add_of_nonneg_right hhold)⟩, not_opens_nil g⟩
  | openClock target =>
    obtain rfl := hnow rfl
    simp only [turn] at h
    split at h <;> cases h
    · exact ⟨hm.2, not_opens_nil g⟩
    · exact absurd hm.1 ‹_›
  | openPulse checked =>
    cases h
    refine ⟨hm.2.trans (hpulse checked rfl).ge, ?_⟩
    rintro ⟨c, hle, hc⟩
    cases List.mem_singleton.mp hc
    exact absurd hm.1 (not_lt.mpr hle)
  | asleep | ended => cases h

theorem Misses.notify {now U g : Time} {pc : Pc} (h : Misses now U g pc) :
    Misses now U g pc.notify := by
  cases pc <;> exact h

theorem misses_step {s s' : State} {l : Label} {g : Time} (hi : Base openHoldMs s)
    (hs : (ideal openHoldMs).step s l s') (hlast : s.targets = [])
    (hcall : ∀ now, l ≠ .grantClock now) (hm : Misses s.now s.shared.openUntil g s.pc) :
    s'.targets = [] ∧ Misses s'.now s'.shared.openUntil g s'.pc ∧
      ∃ new, s'.log = s.log ++ new ∧ ¬ Opens g new := by
  cases ideal_cases hi hs with
  | worker hn hturn hpulse hnow =>
    obtain ⟨hpc, he⟩ := turn_misses hi.stop hturn hpulse hnow hm
    exact ⟨hlast, hpc, _, rfl, he⟩
  | spuriousWake hpc =>
    rw [hpc] at hm
    exact ⟨hlast, hm, unlogged (not_opens_nil g)⟩
  | @grantClock now hn => exact absurd rfl (hcall now)
  | grantStore htargets hmutex => exact absurd hlast htargets
  | grantNotify hn => exact ⟨hlast, hm.notify, unlogged (not_opens_nil g)⟩

theorem misses_run {s b : State} {ls : List Label} {g : Time}
    (hrun : (ideal openHoldMs).Run s ls b) (hi : Base openHoldMs s) (hlast : s.targets = [])
    (hcall : ∀ now, .grantClock now ∉ ls) (hm : Misses s.now s.shared.openUntil g s.pc) :
    ∃ new, b.log = s.log ++ new ∧ ¬ Opens g new := by
  induction hrun with
  | nil => exact unlogged (not_opens_nil g)
  | @cons s s' b l ls hs _ ih =>
    obtain ⟨hlast', hm', new, hnew, hnone⟩ := misses_step hi hs hlast
      (fun now hl => hcall now (hl ▸ List.mem_cons_self)) hm
    obtain ⟨more, hmore, hnone'⟩ := ih (base_step hi hs) hlast'
      (fun now hmem => hcall now (List.mem_cons_of_mem l hmem)) hm'
    refine ⟨new ++ more, by rw [hmore, hnew, List.append_assoc], fun ho => ?_⟩
    exact (opens_append ho).elim hnone hnone'

/-- A deadline that the worker finds passed. -/
theorem misses_of_looksAt {now U : Time} {pc : Pc} (hU : now < U) (h : U ≤ looksAt now pc) :
    Misses now U now pc := by
  cases pc with
  | leave target | openStop target | openClock target =>
    simp only [looksAt] at h
    split at h
    · exact absurd h (not_le.mpr hU)
    · exact ⟨not_lt.mp ‹_›, h⟩
  | openPulse checked =>
    simp only [looksAt] at h
    split at h
    · exact absurd h (not_le.mpr hU)
    · exact ⟨not_le.mp ‹_›, h⟩
  | ended => trivial
  | _ => exact h

/-! ## A call of `grant_access` -/

/-- A run after a call is long enough to judge it: 520 ms have passed, or the worker
sleeps with no call under way. -/
def Judged (g : Time) (b : State) : Prop :=
  g + milliseconds 520 < b.now ∨ b.pc = .asleep ∧ Quiet b

instance (g : Time) (b : State) : Decidable (Judged g b) := inferInstanceAs (Decidable (_ ∨ _))

theorem opens_of_timely {s s₁ b : State} {i : ℕ} {ls : List Label} (hi : Base openHoldMs s)
    (hs : (ideal openHoldMs).step s (.grantStore i) s₁) (hrun : (ideal openHoldMs).Run s₁ ls b)
    (hb : Judged s.now b) (h : Timely openHoldMs s) :
    Opens s.now (b.log.drop s.log.length) := by
  have hi₁ := base_step hi hs
  cases ideal_cases hi hs with
  | grantStore htargets hmutex =>
    have hU := target_le_extend s.shared.openUntil (s.now + milliseconds openHoldMs)
    have hawaits := awaits_of_looksAt (Nat.succ_pos s.notifying) hmutex hi.phase (h.trans_le hU)
    obtain ⟨new, hnew, hcase⟩ := awaits_run hrun hi₁ (le_refl s.now) hawaits
    rw [hnew, List.drop_left]
    refine hcase.resolve_right fun hawaits => ?_
    rcases hb with hlate | ⟨hasleep, hquiet⟩
    · have hsoon := hawaits.soon (base_run hrun hi₁).phase
      rw [add_assoc] at hsoon
      exact absurd hsoon (not_le.mpr hlate)
    · rw [hasleep, hquiet.2] at hawaits
      exact absurd hawaits.1 (lt_irrefl 0)

theorem timely_of_opens (hhold : 0 < openHoldMs) {s s₁ b : State} {i : ℕ} {ls : List Label}
    (hi : Base openHoldMs s) (hs : (ideal openHoldMs).step s (.grantStore i) s₁)
    (hrun : (ideal openHoldMs).Run s₁ ls b) (hlast : s₁.targets = [])
    (hcall : ∀ now, .grantClock now ∉ ls) (h : Opens s.now (b.log.drop s.log.length)) :
    Timely openHoldMs s := by
  have hi₁ := base_step hi hs
  cases ideal_cases hi hs with
  | grantStore htargets hmutex =>
    have hpositive : 0 < milliseconds openHoldMs := mul_pos hhold (by decide)
    by_contra hnot
    have hU : extend s.shared.openUntil (s.now + milliseconds openHoldMs) =
        s.now + milliseconds openHoldMs := by
      unfold extend
      rcases hi.openUntil with h | h <;> split <;> linarith
    have hmiss := misses_of_looksAt (lt_add_of_pos_right s.now hpositive) (not_lt.mp hnot)
    obtain ⟨new, hnew, hnone⟩ := misses_run hrun hi₁ hlast hcall (hU.symm ▸ hmiss)
    rw [hnew, List.drop_left] at h
    exact hnone h

/-- **A grant opens the gate exactly if its hold reaches beyond the instant at which the
worker next looks at the deadline**; the converse is about a call that no other one
follows. -/
theorem grant_opens_iff {K : Type} [LinearOrder K] [FloatArith K] {cfg : Config K}
    (hvalid : cfg.validate = .ok ()) (hgpio : cfg.gpio.enabled = true) {s s₁ b : State} {i : ℕ}
    {ls : List Label} (hr : (ideal cfg.gpio.servoOpenMs).Reachable s)
    (hs : (ideal cfg.gpio.servoOpenMs).step s (.grantStore i) s₁)
    (hrun : (ideal cfg.gpio.servoOpenMs).Run s₁ ls b) (hb : Judged s.now b) :
    (Timely cfg.gpio.servoOpenMs s → Opens s.now (b.log.drop s.log.length)) ∧
      (s₁.targets = [] → (∀ now, .grantClock now ∉ ls) →
        (Opens s.now (b.log.drop s.log.length) ↔ Timely cfg.gpio.servoOpenMs s)) := by
  have hi := inductive_base.reachable s hr
  have hhold := ((Config.validate_ok.mp hvalid).2.gpio hgpio).servoOpenMs
  have hopens := opens_of_timely hi hs hrun hb
  exact ⟨hopens, fun hlast hcall => ⟨timely_of_opens hhold hi hs hrun hlast hcall, hopens⟩⟩

end

/-- The first `n` closed pulses of a closing phase that began at `ms`. -/
def closing (ms : ℤ) (n : ℕ) : List Label :=
  (List.range n).flatMap fun k => turns (ms + 20 * k) 2 ++ turns (ms + 20 * k + 20) 1

/-- A call 10 ms after the boot: its clock, until its critical section. -/
def bootCall : List Label := turns 0 3 ++ [.grantClock (milliseconds 10)]

/-- Its notification, and the rest of the boot close. -/
def bootRest : List Label := [.grantNotify] ++ turns 20 1 ++ closing 20 24

/-- With the hold of the example, the gate opens at 500 ms. -/
theorem grant_opens_boot : ∃ (s s₁ b : State) (ls : List Label),
    (ideal 5000).step s (.grantStore 0) s₁ ∧ (ideal 5000).Run s₁ ls b ∧
      Opens s.now (b.log.drop s.log.length) := by
  obtain ⟨s, hr, hs, hb⟩ := LTS.exists_reachable_where (fun s => ∃ t, 0 ≤ t ∧ s = .start t)
    (step 5000) Ideal bootCall ⟨0, le_refl 0, rfl⟩
    (fun s => Ideal s (.grantStore 0) ∧ Timely 5000 s ∧
      (step 5000 s (.grantStore 0)).any fun s₁ => (LTS.execWhere (step 5000) Ideal s₁
        (bootRest ++ turns 500 11 ++ turns 520 4 ++ turns 540 1)).any (Judged s.now ·))
    (by decide +kernel)
  obtain ⟨s₁, hs₁, b, hrun, hjudged⟩ : ∃ s₁, step 5000 s (.grantStore 0) = some s₁ ∧
      ∃ b, (ideal 5000).Run s₁ (bootRest ++ turns 500 11 ++ turns 520 4 ++ turns 540 1) b ∧
        Judged s.now b := by
    obtain ⟨s₁, hs₁, he⟩ := (Option.any_eq_true _ _).mp hb.2
    obtain ⟨b, hrun, hj⟩ := LTS.exists_run_where (fun s => ∃ t, 0 ≤ t ∧ s = .start t) _ _ _ _ _ he
    exact ⟨s₁, hs₁, b, hrun, hj⟩
  exact ⟨s, s₁, b, _, ⟨hs₁, hs⟩, hrun, (grant_opens_iff exampleConfig_valid rfl hr ⟨hs₁, hs⟩ hrun
    hjudged).1 hb.1⟩

/-- A hold of 400 ms, granted 10 ms after the boot: the deadline has passed when the boot
close is over, and the worker goes to sleep. -/
theorem grant_lost :
    ({ exampleConfig with gpio := { exampleConfig.gpio with servoOpenMs := 400 } } :
        Config ExtRat).validate = .ok () ∧
      ∃ s : State, (ideal 400).Reachable s ∧ .grant (milliseconds 10) ∈ s.log ∧ s.pc = .asleep ∧
        Quiet s ∧ ∀ x ∈ s.log, x.angle? ≠ some .opened :=
  ⟨by decide +kernel, LTS.exists_reachable_where (fun s => ∃ t, 0 ≤ t ∧ s = .start t) (step 400)
    Ideal (bootCall ++ [.grantStore 0] ++ bootRest ++ turns 500 8) ⟨0, le_refl 0, rfl⟩ _
    (by decide +kernel)⟩

/-! ## The clock stops nobody -/

section
variable {openHoldMs : ℤ}

/-- The worker goes on, unless it sleeps or has ended. -/
theorem worker_goes {s : State} (hs : s.pc ≠ .asleep) (he : s.pc ≠ .ended) {now : Time}
    (hle : s.now ≤ now) : ∃ s', (system openHoldMs).step s (.worker now) s' := by
  have hturn : ∃ r, turn s.shared now s.pc = some r := by
    cases hpc : s.pc with
    | asleep => exact absurd hpc hs
    | ended => exact absurd hpc he
    | closeClock deadline =>
      simp only [turn]
      split <;> exact ⟨_, rfl⟩
    | _ => exact ⟨_, rfl⟩
  obtain ⟨r, hr⟩ := hturn
  refine ⟨{ s with now := now, pc := r.1, log := s.log ++ r.2.toList }, ?_⟩
  show step openHoldMs s (.worker now) = _
  simp only [step, if_pos hle, hr, Option.map_some]

/-- A step that reads no clock. -/
theorem ideal_of_untimed {s : State} {l : Label} (hstop : l ≠ .requestStop)
    (h : reading l = none) : Ideal s l := by
  refine ⟨hstop, by simp [h], fun checked hc now hn => ?_⟩
  cases l with
  | worker t => cases h
  | _ => cases hn

/-- The worker's next step on the ideal clock. -/
theorem worker_ideal {s : State} (hp : InPhase s.now s.pc) (hs : s.pc ≠ .asleep)
    (h : Quiet s ∨ pulsing s.pc = none) :
    ∃ now s', (system openHoldMs).step s (.worker now) s' ∧ Ideal s (.worker now) := by
  have he : s.pc ≠ .ended := by
    intro he
    rw [he] at hp
    exact hp
  cases hpulse : pulsing s.pc with
  | none =>
    obtain ⟨s', hstep⟩ : ∃ s', (system openHoldMs).step s (.worker s.now) s' :=
      worker_goes hs he (le_refl s.now)
    refine ⟨s.now, s', hstep, by simp, fun now hn => Or.inl ?_, fun c hc => ?_⟩
    · exact (Option.some.inj hn).symm
    · rw [hpulse] at hc
      cases hc
  | some checked =>
    have hquiet := h.resolve_right (by simp [hpulse])
    have hend : s.now ≤ checked + pwmPeriod := by
      cases hpc : s.pc <;> rw [hpc] at hpulse hp <;> cases hpulse
      · exact hp.2.2
      · exact hp.2
    obtain ⟨s', hstep⟩ : ∃ s', (system openHoldMs).step s (.worker (checked + pwmPeriod)) s' :=
      worker_goes hs he hend
    refine ⟨_, s', hstep, by simp, fun now hn => Or.inr ⟨hquiet, Or.inr ?_⟩,
      fun c hc now hn => ?_⟩
    · exact ⟨checked, hpulse, (Option.some.inj hn).ge⟩
    · rw [hpulse] at hc
      rw [← Option.some.inj hn, Option.some.inj hc]

/-- On the ideal clock the threads go on without a new call, until the worker sleeps. -/
theorem never_stuck {s : State}
    (hr : (ideal openHoldMs).Reachable s) :
    s.pc = .asleep ∧ Quiet s ∨ ∃ l s', (system openHoldMs).step s l s' ∧ Ideal s l ∧
      ∀ now, l ≠ .grantClock now := by
  have hi := inductive_base.reachable s hr
  have hworker : s.pc ≠ .asleep → Quiet s ∨ pulsing s.pc = none →
      ∃ l s', (system openHoldMs).step s l s' ∧ Ideal s l ∧ ∀ now, l ≠ .grantClock now := by
    intro hs h
    obtain ⟨now, s', hstep, hideal⟩ := worker_ideal hi.phase hs h
    exact ⟨_, s', hstep, hideal, by simp⟩
  by_cases hquiet : Quiet s
  · by_cases hasleep : s.pc = .asleep
    · exact Or.inl ⟨hasleep, hquiet⟩
    · exact Or.inr (hworker hasleep (Or.inl hquiet))
  · right
    cases hm : s.pc.holdsMutex with
    | true =>
      refine hworker ?_ (Or.inr ?_)
      · intro h
        rw [h] at hm
        cases hm
      · cases hpc : s.pc <;> rw [hpc] at hm <;> first | rfl | cases hm
    | false =>
      cases htargets : s.targets with
      | cons t ts =>
        obtain ⟨s', hstep⟩ : ∃ s', step openHoldMs s (.grantStore 0) = some s' := by
          simp [step, htargets, hm]
        exact ⟨_, s', hstep, ideal_of_untimed (by simp) rfl, by simp⟩
      | nil =>
        have hpos : 0 < s.notifying := Nat.pos_of_ne_zero fun h => hquiet ⟨htargets, h⟩
        obtain ⟨s', hstep⟩ : ∃ s', step openHoldMs s .grantNotify = some s' := by
          simp [step, hpos]
        exact ⟨_, s', hstep, ideal_of_untimed (by simp) rfl, by simp⟩

end

end FaceGate.L2.GrantTiming
