import FaceGate.Core.Log
import FaceGate.L2Device.RgbLed

/-!
# What the LED shows

`RgbLed.system` with a history of the commands stored and consumed and of the writes to
the channels. A command is displayed when it is consumed and its colour is the next
thing written.

* `shows_latest`: in the wait for the deadline the channels show the command consumed
  last; in the wait for a command and at the end they are off, and they are switched off
  in between only when that command's deadline has passed. A command is displayed, or
  replaced by a later one before it is consumed, or the worker is still to display it,
  unless a stop was requested.
* `displayed_soon`: nine steps of the worker display a command that none replaces.
-/
namespace FaceGate.L2.LedChannels

open Core FaceGate.L1.Domain RgbLed

inductive Event where
  | armed (c : Command)
  | consumed (c : Command)
  | written (color : Color)
  deriving DecidableEq, Repr

def Event.consumed? : Event → Option Command
  | .consumed c => some c
  | _ => none

/-- What a step adds to the history. -/
def event (s : State) : Label → Option Event
  | .armStore i => s.arming[i]?.map .armed
  | .worker => (turn s.shared s.pc).bind fun t =>
    if t.takes then some (.consumed s.shared.command) else t.writes.map .written
  | _ => none

def recorded : LTS (State × List Event) Label :=
  system.recording (fun _ => []) fun log s l _ => log ++ (event s l).toList

def lastConsumed (log : List Event) : Option Command := (log.filterMap Event.consumed?).getLast?

/-! ## The channels -/

/-- Where the worker is, what the channels show, the command consumed last and the flags
fit together. -/
def Shows (s : State) (last : Option Command) : Pc → Prop
  | .loopStop | .lock | .check | .woken => s.shared.dirty = true ∨ s.channels = .off
  | .commit => s.shared.dirty = false ∧ s.channels = .off
  | .asleep => (s.shared.dirty = true → 0 < s.notifying) ∧ s.channels = .off
  | .take => s.shared.stop = true ∨ s.shared.dirty = true
  | .write c => last = some c
  | .holdLock c => last = some c ∧ s.channels = c.color
  | .holdCheck c timedOut | .holdWoken c timedOut =>
    (timedOut = true → c.offAt ≤ s.now) ∧ last = some c ∧ s.channels = c.color
  | .holdCommit c => s.shared.dirty = false ∧ last = some c ∧ s.channels = c.color
  | .holdAsleep c =>
    (s.shared.dirty = true → 0 < s.notifying) ∧ last = some c ∧ s.channels = c.color
  | .held => s.shared.stop = true ∨ s.shared.dirty = true ∨ ∃ c, last = some c ∧ c.offAt ≤ s.now
  | .off => ∃ c, last = some c ∧ c.offAt ≤ s.now
  | .finalOff => s.shared.stop = true
  | .ended => s.shared.stop = true ∧ s.channels = .off

theorem lastConsumed_append (log : List Event) (o : Option Event) :
    lastConsumed (log ++ o.toList) = (o.bind Event.consumed?).or (lastConsumed log) := by
  cases o with
  | none => simp
  | some x => cases h : x.consumed? <;> simp [lastConsumed, List.filterMap_append, h]

/-- A step of the worker. -/
theorem shows_worker {s : State} {t : Turn} {last : Option Command}
    (hturn : turn s.shared s.pc = some t) (h : Shows s last s.pc) :
    Shows { s with
        pc := t.pc
        shared := { s.shared with dirty := s.shared.dirty && !t.takes }
        channels := t.writes.getD s.channels }
      (((event s .worker).bind Event.consumed?).or last) t.pc := by
  obtain ⟨⟨stop, dirty, command⟩, now, pc, channels, arming, notifying, stopNotified⟩ := s
  cases pc with
  | loopStop =>
    cases hturn
    cases stop
    · exact h.imp (by simp [Turn.to]) id
    · rfl
  | lock | woken =>
    cases hturn
    exact h.imp (by simp [Turn.to]) id
  | check =>
    cases hturn
    cases stop
    · cases dirty
      · exact ⟨rfl, h.resolve_left (by simp)⟩
      · exact Or.inr rfl
    · exact Or.inl rfl
  | commit =>
    cases hturn
    obtain ⟨rfl, hoff⟩ := h
    exact ⟨by simp, hoff⟩
  | take =>
    cases stop with
    | true =>
      cases hturn
      rfl
    | false =>
      cases hturn
      rfl
  | write c =>
    cases hturn
    exact ⟨h, rfl⟩
  | holdLock c =>
    cases hturn
    exact ⟨by simp, h⟩
  | holdWoken c timedOut =>
    cases hturn
    exact h
  | holdCheck c timedOut =>
    cases hturn
    obtain ⟨hpast, hlast, hc⟩ := h
    cases stop
    · cases dirty
      · cases timedOut
        · exact ⟨rfl, hlast, hc⟩
        · exact Or.inr (Or.inr ⟨c, hlast, hpast rfl⟩)
      · exact Or.inr (Or.inl rfl)
    · exact Or.inl rfl
  | holdCommit c =>
    cases hturn
    obtain ⟨rfl, hc⟩ := h
    exact ⟨by simp, hc⟩
  | held =>
    cases hturn
    cases stop
    · cases dirty
      · exact (h.resolve_left (by simp)).resolve_left (by simp)
      · exact Or.inl rfl
    · rfl
  | off =>
    cases hturn
    exact Or.inr rfl
  | finalOff =>
    cases hturn
    exact ⟨h, rfl⟩
  | asleep | holdAsleep c | ended => cases hturn

theorem shows_notify {s : State} {last : Option Command} {pc : Pc} (h : Shows s last pc) :
    Shows s last pc.notify := by
  cases pc with
  | asleep => exact Or.inr h.2
  | holdAsleep c => exact ⟨by simp, h.2⟩
  | _ => exact h

theorem shows_step {s s' : State} {l : Label} {last : Option Command} (hs : Step s l s')
    (h : Shows s last s.pc) : Shows s' (((event s l).bind Event.consumed?).or last) s'.pc := by
  cases hs with
  | worker hturn => exact shows_worker hturn h
  | spuriousWake | notifyStop => exact shows_notify h
  | armNotify hn =>
    show Shows _ last s.pc.notify
    generalize hpc : s.pc = pc at h
    cases pc with
    | asleep => exact Or.inr h.2
    | holdAsleep c => exact ⟨by simp, h.2⟩
    | _ => exact h
  | timeout hpc hn hoff =>
    rw [hpc] at h
    exact ⟨fun _ => hoff, h.2⟩
  | armClock hn =>
    show Shows _ last s.pc
    generalize hpc : s.pc = pc at h
    cases pc with
    | holdCheck c timedOut | holdWoken c timedOut => exact ⟨fun ht => (h.1 ht).trans hn, h.2⟩
    | held => exact h.imp_right (·.imp_right fun ⟨c, hc, hoff⟩ => ⟨c, hc, hoff.trans hn⟩)
    | off => exact h.imp fun c hc => ⟨hc.1, hc.2.trans hn⟩
    | _ => exact h
  | @armStore i c harm hm =>
    have hev : (event s (.armStore i)).bind Event.consumed? = none := by
      simp [event, harm, Event.consumed?]
    rw [hev]
    show Shows _ last s.pc
    generalize hpc : s.pc = pc at h hm
    cases pc with
    | loopStop | lock | woken => exact Or.inl rfl
    | asleep | holdAsleep c => exact ⟨fun _ => Nat.succ_pos _, h.2⟩
    | check | commit | take | holdCheck c timedOut | holdCommit c | held => cases hm
    | _ => exact h
  | requestStop hstop =>
    show Shows _ last s.pc
    generalize hpc : s.pc = pc at h
    cases pc with
    | take => exact Or.inl rfl
    | held => exact Or.inl rfl
    | finalOff => rfl
    | ended => exact ⟨rfl, h.2⟩
    | _ => exact h

/-! ## The commands -/

def Writes (l : List Event) : Prop := ∀ x ∈ l, ∃ color, x = .written color

def Arms (l : List Event) : Prop := ∀ x ∈ l, ∃ c, x = .armed c

/-- The next command consumed is `c`, and then the next colour written is its own. -/
def Displayed (c : Command) (post : List Event) : Prop :=
  ∃ mid between rest, post = mid ++ .consumed c :: (between ++ .written c.color :: rest) ∧
    Writes mid ∧ Arms between

/-- Another command is stored before one is consumed. -/
def Replaced (post : List Event) : Prop :=
  ∃ mid c rest, post = mid ++ .armed c :: rest ∧ Writes mid

/-- Steps of the worker until it takes a command that is there. -/
def togo : Pc → ℕ
  | .check => 1
  | .lock | .woken => 2
  | .loopStop | .asleep => 3
  | .held | .off => 4
  | .holdCheck _ _ => 5
  | .holdLock _ | .holdWoken _ _ => 6
  | .holdAsleep _ | .write _ => 7
  | .take | .commit | .holdCommit _ | .finalOff | .ended => 0

/-- What has become of the stored command `c`; unless stopped, the worker displays it in
`n` steps. -/
inductive Fate (s : State) (c : Command) (n : ℕ) (post : List Event) : Prop where
  | displayed : Displayed c post → Fate s c n post
  | replaced : Replaced post → Fate s c n post
  | pending : Writes post → s.shared.dirty = true → s.shared.command = c →
      togo s.pc + 2 ≤ n → Fate s c n post
  | taken (mid between : List Event) : post = mid ++ .consumed c :: between → Writes mid →
      Arms between → s.pc = .write c → 1 ≤ n → Fate s c n post

theorem togo_le (pc : Pc) : togo pc ≤ 7 := by cases pc <;> simp [togo]

theorem togo_notify (pc : Pc) : togo pc.notify ≤ togo pc := by cases pc <;> simp [togo, Pc.notify]

theorem turn_takes {s : Shared} {pc : Pc} {t : Turn} (h : turn s pc = some t)
    (ht : t.takes = true) : t.pc = .write s.command ∧ s.stop = false := by
  cases pc with
  | take =>
    simp only [turn] at h
    split at h <;> cases h
    · cases ht
    · exact ⟨rfl, Bool.eq_false_iff.mpr ‹_›⟩
  | asleep | holdAsleep c | ended => cases h
  | _ =>
    cases h
    cases ht

/-- With a command there, the worker comes nearer to it. -/
theorem turn_togo {s : State} {t : Turn} {last : Option Command}
    (h : turn s.shared s.pc = some t) (hshows : Shows s last s.pc)
    (hdirty : s.shared.dirty = true) (ht : t.takes = false) :
    togo t.pc ≤ togo s.pc ∧ (s.shared.stop = false → togo t.pc < togo s.pc) := by
  obtain ⟨⟨stop, dirty, command⟩, now, pc, channels, arming, notifying, stopNotified⟩ := s
  obtain rfl : dirty = true := hdirty
  cases pc with
  | commit => cases hshows.1
  | holdCommit c => cases hshows.1
  | finalOff =>
    obtain rfl : stop = true := hshows
    cases h
    simp [togo]
  | take =>
    cases stop <;> cases h
    · cases ht
    · simp [togo, Turn.to]
  | asleep | holdAsleep c | ended => cases h
  | _ =>
    cases h
    cases stop <;> simp [togo, Turn.to]

theorem Writes.append_written {l : List Event} (h : Writes l) (color : Option Color) :
    Writes (l ++ (color.map Event.written).toList) := by
  intro x hx
  rcases List.mem_append.mp hx with hx | hx
  · exact h x hx
  · obtain ⟨color, -, rfl⟩ := Option.map_eq_some_iff.mp (Option.mem_toList.mp hx)
    exact ⟨color, rfl⟩

theorem Displayed.append {c : Command} {post : List Event} (h : Displayed c post)
    (more : List Event) : Displayed c (post ++ more) := by
  obtain ⟨mid, between, rest, rfl, hmid, hbetween⟩ := h
  exact ⟨mid, between, rest ++ more, by simp, hmid, hbetween⟩

theorem Replaced.append {post : List Event} (h : Replaced post) (more : List Event) :
    Replaced (post ++ more) := by
  obtain ⟨mid, c, rest, rfl, hmid⟩ := h
  exact ⟨mid, c, rest ++ more, by simp, hmid⟩

theorem Fate.mono {s : State} {c : Command} {n m : ℕ} {post : List Event} (h : Fate s c n post)
    (hle : n ≤ m) : Fate s c m post := by
  cases h with
  | displayed h => exact .displayed h
  | replaced h => exact .replaced h
  | pending hw hd hc hn => exact .pending hw hd hc (hn.trans hle)
  | taken mid between he hm hb hpc hn => exact .taken mid between he hm hb hpc (hn.trans hle)

/-- The steps left after a step. -/
def less (s : State) (l : Label) (n : ℕ) : ℕ :=
  if l = .worker ∧ s.shared.stop = false then n - 1 else n

theorem fate_worker {s : State} {t : Turn} {c : Command} {n : ℕ} {post : List Event}
    {last : Option Command} (hturn : turn s.shared s.pc = some t) (hshows : Shows s last s.pc)
    (h : Fate s c n post) :
    Fate { s with
        pc := t.pc
        shared := { s.shared with dirty := s.shared.dirty && !t.takes }
        channels := t.writes.getD s.channels } c (less s .worker n)
      (post ++ (event s .worker).toList) := by
  cases h with
  | displayed h => exact .displayed (h.append _)
  | replaced h => exact .replaced (h.append _)
  | pending hw hd hc hn =>
    cases ht : t.takes with
    | true =>
      obtain ⟨hpc, hstop⟩ := turn_takes hturn ht
      refine .taken post [] ?_ hw (by simp [Arms]) (hc ▸ hpc) ?_
      · simp [event, hturn, ht, hc]
      · simp only [less, hstop, and_self, if_true]
        omega
    | false =>
      obtain ⟨hle, hlt⟩ := turn_togo hturn hshows hd ht
      refine .pending ?_ (by simp [hd]) hc ?_
      · simpa [event, hturn, ht] using hw.append_written t.writes
      · simp only [less, true_and]
        split
        · have := hlt ‹_›
          omega
        · omega
  | taken mid between he hm hb hpc hn =>
    rw [hpc] at hturn
    cases hturn
    refine .displayed ⟨mid, between, [], ?_, hm, hb⟩
    simp [he, event, hpc, turn]

/-- A step of another thread that stores no command. -/
theorem fate_other {s s' : State} {l : Label} {c : Command} {n : ℕ} {post : List Event}
    (hevent : event s l = none) (hl : l ≠ .worker) (hdirty : s'.shared.dirty = s.shared.dirty)
    (hcommand : s'.shared.command = s.shared.command) (htogo : togo s'.pc ≤ togo s.pc)
    (hwrite : ∀ c, s.pc = .write c → s'.pc = .write c) (h : Fate s c n post) :
    Fate s' c (less s l n) (post ++ (event s l).toList) := by
  rw [hevent, Option.toList_none, List.append_nil, less, if_neg fun hw => hl hw.1]
  cases h with
  | displayed h => exact .displayed h
  | replaced h => exact .replaced h
  | pending hw hd hc hn => exact .pending hw (hdirty.trans hd) (hcommand.trans hc) (by omega)
  | taken mid between he hm hb hpc hn => exact .taken mid between he hm hb (hwrite c hpc) hn

theorem notify_write {pc : Pc} (c : Command) (h : pc = .write c) : pc.notify = .write c := by
  rw [h]
  rfl

theorem fate_step {s s' : State} {l : Label} {c : Command} {n : ℕ} {post : List Event}
    {last : Option Command} (hs : Step s l s') (hshows : Shows s last s.pc)
    (h : Fate s c n post) : Fate s' c (less s l n) (post ++ (event s l).toList) := by
  cases hs with
  | worker hturn => exact fate_worker hturn hshows h
  | spuriousWake | armNotify | notifyStop =>
    exact fate_other rfl (by simp) rfl rfl (togo_notify s.pc) notify_write h
  | timeout hpc hn hoff =>
    refine fate_other rfl (by simp) rfl rfl ?_ (fun c hc => ?_) h
    · rw [hpc]
      simp [togo]
    · rw [hpc] at hc
      cases hc
  | armClock | requestStop => exact fate_other rfl (by simp) rfl rfl (le_refl _) (fun _ hc => hc) h
  | @armStore i c' harm hm =>
    simp only [event, harm, Option.map_some, Option.toList_some, less]
    cases h with
    | displayed h => exact .displayed (h.append _)
    | replaced h => exact .replaced (h.append _)
    | pending hw hd hc hn => exact .replaced ⟨post, c', [], rfl, hw⟩
    | taken mid between he hmid hb hpc hn =>
      refine .taken mid (between ++ [.armed c']) (by simp [he]) hmid ?_ hpc (by simpa using hn)
      intro x hx
      rcases List.mem_append.mp hx with hx | hx
      · exact hb x hx
      · exact ⟨c', List.mem_singleton.mp hx⟩

theorem event_armed {s : State} {l : Label} {c : Command} (h : event s l = some (.armed c)) :
    ∃ i, l = .armStore i ∧ s.arming[i]? = some c := by
  cases l with
  | armStore i =>
    obtain ⟨c', hc, he⟩ := Option.map_eq_some_iff.mp h
    cases he
    exact ⟨i, rfl, hc⟩
  | worker =>
    simp only [event, Option.bind_eq_some_iff] at h
    obtain ⟨t, -, h⟩ := h
    split at h
    · cases h
    · obtain ⟨color, -, he⟩ := Option.map_eq_some_iff.mp h
      cases he
  | _ => cases h

/-- A command just stored is pending. -/
theorem fate_new {s s' : State} {l : Label} {c : Command} (hs : Step s l s')
    (h : event s l = some (.armed c)) : Fate s' c 9 [] := by
  obtain ⟨i, rfl, hc⟩ := event_armed h
  cases hs with
  | armStore harm hm =>
    obtain rfl := Option.some.inj (hc.symm.trans harm)
    exact .pending (by simp [Writes]) rfl rfl (Nat.add_le_add_right (togo_le s.pc) 2)

/-! ## Every run -/

structure Inv (p : State × List Event) : Prop where
  shows : Shows p.1 (lastConsumed p.2) p.1.pc
  fate : Followed (fun x post => ∀ c, x = .armed c → Fate p.1 c 9 post) p.2

theorem inv_step {p p' : State × List Event} {l : Label} (h : Inv p) (hs : recorded.step p l p') :
    Inv p' := by
  obtain ⟨s, log⟩ := p
  obtain ⟨s', log'⟩ := p'
  obtain ⟨hstep, rfl⟩ : system.step s l s' ∧ log' = log ++ (event s l).toList := hs
  have hs := step_cases hstep
  refine ⟨?_, h.fate.append_option (fun x post hx c hc => ?_) (fun x hx c hc => ?_)⟩
  · rw [lastConsumed_append]
    exact shows_step hs h.shows
  · refine (fate_step hs h.shows (hx c hc)).mono ?_
    unfold less
    split <;> omega
  · rw [hc] at hx
    exact fate_new hs hx

theorem inductive_inv : recorded.Inductive Inv where
  init p h := by
    obtain ⟨s, log⟩ := p
    obtain ⟨⟨t, rfl⟩, hlog⟩ := h
    obtain rfl : log = [] := hlog
    exact ⟨Or.inr rfl, followed_nil _⟩
  step _ _ _ h hs := inv_step h hs

/-- The worker is about to write the command's colour, or runs and will find it there:
if it sleeps, a notification is under way. -/
def Coming (s : State) (c : Command) : Prop :=
  s.pc = .write c ∨ s.shared.dirty = true ∧ s.shared.command = c ∧ s.pc ≠ .finalOff ∧
    s.pc ≠ .ended ∧ (s.pc = .asleep ∨ (∃ c, s.pc = .holdAsleep c) → 0 < s.notifying)

theorem coming_of_fate {s : State} {c : Command} {n : ℕ} {post : List Event}
    {last : Option Command} (hshows : Shows s last s.pc) (h : Fate s c n post) :
    Displayed c post ∨ Replaced post ∨ Coming s c ∨ s.shared.stop = true := by
  cases h with
  | displayed h => exact Or.inl h
  | replaced h => exact Or.inr (Or.inl h)
  | taken mid between he hm hb hpc hn => exact Or.inr (Or.inr (Or.inl (Or.inl hpc)))
  | pending hw hd hc hn =>
    refine Or.inr (Or.inr ?_)
    cases hstop : s.shared.stop with
    | true => exact Or.inr rfl
    | false =>
      refine Or.inl (Or.inr ⟨hd, hc, fun hpc => ?_, fun hpc => ?_, ?_⟩)
      · rw [hpc] at hshows
        exact absurd (hstop.symm.trans hshows) (by simp)
      · rw [hpc] at hshows
        exact absurd (hstop.symm.trans hshows.1) (by simp)
      · rintro (hpc | ⟨c, hpc⟩) <;> rw [hpc] at hshows <;> exact hshows.1 hd

/-- **The LED shows the latest command until its deadline and is otherwise off**, in every
run. -/
theorem shows_latest {a s : State} {ls : List Label} (ha : system.init a)
    (hr : system.Run a ls s) :
    ∃ log, recorded.Run (a, []) ls (s, log) ∧
      (∀ c, s.pc = .holdAsleep c → lastConsumed log = some c ∧ s.channels = c.color) ∧
      (s.pc = .asleep → s.channels = .off) ∧
      (∀ pre c post, log = pre ++ .armed c :: post →
        Displayed c post ∨ Replaced post ∨ Coming s c ∨ s.shared.stop = true) ∧
      (s.pc = .ended → s.channels = .off) ∧
      (s.pc = .off → ∃ c, lastConsumed log = some c ∧ c.offAt ≤ s.now) := by
  obtain ⟨log, hrun⟩ := hr.recording []
  obtain ⟨hshows, hfate⟩ := inductive_inv.reachable (s, log) ⟨(a, []), ls, ⟨ha, rfl⟩, hrun⟩
  refine ⟨log, hrun, fun c hpc => ?_, fun hpc => ?_, fun pre c post he => ?_, fun hpc => ?_,
    fun hpc => ?_⟩
  · rw [hpc] at hshows
    exact hshows.2
  · rw [hpc] at hshows
    exact hshows.2
  · exact coming_of_fate hshows (hfate pre _ post he c rfl)
  · rw [hpc] at hshows
    exact hshows.2
  · rw [hpc] at hshows
    exact hshows

/-- A denial for one second, granted before it is over. -/
def regranted : List Label :=
  [.worker, .armClock .denied 1000 0, .armStore 0, .armNotify] ++ List.replicate 7 .worker ++
    [.armClock .granted 1000 (milliseconds 500), .armStore 0, .armNotify] ++
    List.replicate 11 .worker

theorem shows_latest_regranted :
    ∃ s log, s.pc = .holdAsleep ⟨.granted, milliseconds 1500⟩ ∧
      recorded.Run (.start 0, []) regranted (s, log) ∧
      lastConsumed log = some ⟨.granted, milliseconds 1500⟩ ∧ s.channels = .granted := by
  obtain ⟨s, hr, hpc⟩ := LTS.exists_run_where (fun s => ∃ t, s = .start t) step (fun _ _ => True)
    (.start 0) regranted (fun s => s.pc = .holdAsleep ⟨.granted, milliseconds 1500⟩)
    (by decide +kernel)
  obtain ⟨log, hrun, hheld, -⟩ := shows_latest ⟨0, rfl⟩ hr.of_guard
  exact ⟨s, log, hpc, hrun, hheld _ hpc⟩

/-! ## Commands are displayed soon -/

theorem stop_step {s s' : State} {l : Label} (hs : Step s l s') (h : s.shared.stop = true) :
    s'.shared.stop = true := by
  cases hs with
  | requestStop => rfl
  | _ => exact h

theorem fate_run {p q : State × List Event} {ls : List Label} {c : Command} {n : ℕ}
    {post : List Event} (hrun : recorded.Run p ls q) (hi : Inv p)
    (hstop : q.1.shared.stop = false) (hlast : ∀ i, .armStore i ∉ ls) (h : Fate p.1 c n post) :
    ∃ more, q.2 = p.2 ++ more ∧ (∀ c, .armed c ∉ more) ∧
      Fate q.1 c (n - ls.count .worker) (post ++ more) := by
  induction hrun generalizing n post with
  | nil p => exact ⟨[], by simp, by simp, by simpa using h⟩
  | @cons p p' q l ls hs hrun ih =>
    have hstep := step_cases hs.1
    have hstop' : p.1.shared.stop = false := by
      refine Bool.eq_false_iff.mpr fun htrue => ?_
      have hq : q.1.shared.stop = true := by
        refine hrun.invariant (P := fun x => x.1.shared.stop = true) ?_ (stop_step hstep htrue)
        exact fun x l x' hx hs => stop_step (step_cases hs.1) hx
      rw [hq] at hstop
      cases hstop
    obtain ⟨more, hmore, hnone, hfate⟩ := ih (inv_step hi hs) hstop
      (fun i hi => hlast i (List.mem_cons_of_mem l hi)) (fate_step hstep hi.shows h)
    refine ⟨(event p.1 l).toList ++ more, ?_, fun c hc => ?_, ?_⟩
    · rw [hmore, hs.2, List.append_assoc]
    · rcases List.mem_append.mp hc with hc | hc
      · obtain ⟨i, rfl, -⟩ := event_armed (Option.mem_toList.mp hc)
        exact hlast i List.mem_cons_self
      · exact hnone c hc
    · rw [← List.append_assoc]
      have hle : less p.1 l n - ls.count .worker ≤ n - (l :: ls).count .worker := by
        simp only [less, hstop', and_true, List.count_cons, beq_iff_eq]
        split <;> omega
      exact hfate.mono hle

/-- Unless stopped, nine steps of the worker display a command that no other replaces. -/
theorem displayed_soon {s b : State} {log log' : List Event} {ls : List Label}
    (hr : recorded.Reachable (s, log)) (hpending : s.shared.dirty = true)
    (hrun : recorded.Run (s, log) ls (b, log')) (hlast : ∀ i, .armStore i ∉ ls)
    (hstop : b.shared.stop = false) (hlong : 9 ≤ ls.count .worker) :
    Displayed s.shared.command (log'.drop log.length) := by
  have hnew : Fate s s.shared.command 9 [] :=
    .pending (by simp [Writes]) hpending rfl (Nat.add_le_add_right (togo_le s.pc) 2)
  obtain ⟨more, hmore, hnone, hfate⟩ :=
    fate_run hrun (inductive_inv.reachable _ hr) hstop hlast hnew
  have hdrop : log'.drop log.length = more := by
    rw [show log' = log ++ more from hmore, List.drop_left]
  rw [hdrop]
  rw [List.nil_append] at hfate
  cases hfate with
  | displayed h => exact h
  | replaced h =>
    obtain ⟨mid, c, rest, he, -⟩ := h
    exact absurd (by simp [he]) (hnone c)
  | pending hw hd hc hn => omega
  | taken mid between he hm hb hpc hn => omega

end FaceGate.L2.LedChannels
