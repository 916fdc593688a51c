import FaceGate.Core.Spacing
import FaceGate.L1Domain.Json
import FaceGate.L3Edge.MainLoop

/-!
# Deduplication over whole runs

`DESIGN.md` gives the state of the deduplication two results: a recognised
person who stays is one event, and an unrecognised one at most one event per
`unknown_throttle_seconds`. Both rest on the reset after `idle_reset_seconds`
firing only when the face was away. But `last_face_seen_at` is written behind
the matcher, so the block window, the stabilization wait and failed extractions
count as absence although the face is there.

* `granted_once`: while one employee is in view, the gate opens at most once
  exactly if no verdict after the opening finds the face absent.
* `unknown_rate_limited`: Unknown events keep the throttle exactly if no Unknown
  verdict inside the throttle finds the face absent.

`granted_twice` and `unknown_too_soon` are runs of the default configuration in
which it does.
-/
namespace FaceGate.L3.Deduplication

open Core FaceGate.L1 FaceGate.L1.Domain FaceGate.L2 FaceGate.L3.MainLoop

variable {K F D : Type}

/-! ## One verdict -/

theorem emitsGranted_afterIdle (p : Pipeline K) (d : Dedup) (t : Time) (e : EmployeeId) :
    emitsGranted (afterIdle p d t) e = (faceWasAbsent p d t || emitsGranted d e) := by
  unfold afterIdle
  split
  · rename_i h
    simp [h, emitsGranted]
  · rename_i h
    simp [h]

theorem emitsUnknown_afterIdle (p : Pipeline K) (d : Dedup) (t : Time) :
    emitsUnknown p (afterIdle p d t) t = (faceWasAbsent p d t || emitsUnknown p d t) := by
  unfold afterIdle
  split
  · rename_i h
    simp [h, emitsUnknown]
  · rename_i h
    simp [h]

/-- The last decision was to open for `e`. -/
def Holds (d : Dedup) (e : EmployeeId) : Prop :=
  d.lastStatus = some .granted ∧ d.lastEmployee = some e

theorem emitsGranted_of_holds {d : Dedup} {e : EmployeeId} (h : Holds d e) :
    emitsGranted d e = false := by
  simp [emitsGranted, h.1, h.2]

/-- Nothing is decided: the last decision stands. -/
structure Silent (d : Dedup) (j : Judgement K) : Prop where
  grants : j.grants = 0
  events : j.events = []
  lastStatus : j.dedup.lastStatus = d.lastStatus
  lastEmployee : j.dedup.lastEmployee = d.lastEmployee
  lastUnknownEmittedAt : j.dedup.lastUnknownEmittedAt = d.lastUnknownEmittedAt

theorem silent_of_present {p : Pipeline K} {d : Dedup} {c : Cycle K F D}
    (h : faceWasAbsent p d c.current = false) :
    Silent d ⟨(afterIdle p d c.current).seen c.current, 0, ([] : List (AccessEvent K))⟩ := by
  have hd : afterIdle p d c.current = d := by simp [afterIdle, h]
  rw [hd]
  exact ⟨rfl, rfl, rfl, rfl, rfl⟩

/-- A match opens the gate with one Granted event, unless the face was there and
no opening is due. -/
theorem judge_match (p : Pipeline K) (d : Dedup) (c : Cycle K F D) (m : Match K) :
    ((faceWasAbsent p d c.current || emitsGranted d m.employee) = true ∧
      (judge p d c (some m)).grants = 1 ∧
      (judge p d c (some m)).events = [⟨c.wall, .granted, some m.employee, some m.distance⟩] ∧
      Holds (judge p d c (some m)).dedup m.employee ∧
      (judge p d c (some m)).dedup.lastUnknownEmittedAt = d.lastUnknownEmittedAt) ∨
    (faceWasAbsent p d c.current = false ∧ emitsGranted d m.employee = false ∧
      Silent d (judge p d c (some m))) := by
  unfold judge
  dsimp only
  rw [emitsGranted_afterIdle]
  by_cases h : (faceWasAbsent p d c.current || emitsGranted d m.employee) = true
  · refine Or.inl ⟨h, ?_⟩
    rw [if_pos h]
    refine ⟨rfl, rfl, ⟨rfl, rfl⟩, ?_⟩
    unfold afterIdle
    split <;> rfl
  · obtain ⟨ha, he⟩ := Bool.or_eq_false_iff.mp (Bool.eq_false_iff.mpr h)
    refine Or.inr ⟨ha, he, ?_⟩
    rw [if_neg h]
    exact silent_of_present ha

/-- No match hands over one Unknown event, unless the face was there and none is
due. -/
theorem judge_no_match (p : Pipeline K) (d : Dedup) (c : Cycle K F D) :
    ((faceWasAbsent p d c.current || emitsUnknown p d c.current) = true ∧
      (judge p d c none).grants = 0 ∧
      (judge p d c none).events = [⟨c.wall, .unknown, none, none⟩] ∧
      (judge p d c none).dedup.lastStatus = some .unknown ∧
      (judge p d c none).dedup.lastUnknownEmittedAt = c.current) ∨
    (faceWasAbsent p d c.current = false ∧ emitsUnknown p d c.current = false ∧
      Silent d (judge p d c none)) := by
  unfold judge
  dsimp only
  rw [emitsUnknown_afterIdle]
  by_cases h : (faceWasAbsent p d c.current || emitsUnknown p d c.current) = true
  · rw [if_pos h]
    exact Or.inl ⟨h, rfl, rfl, rfl, rfl⟩
  · obtain ⟨ha, he⟩ := Bool.or_eq_false_iff.mp (Bool.eq_false_iff.mpr h)
    refine Or.inr ⟨ha, he, ?_⟩
    rw [if_neg h]
    exact silent_of_present ha

/-! ## One employee in view -/

/-- The calls made since `a`. -/
def since (a s : State K) : List (Time × Effect K) := s.history.drop a.history.length

def grantedEvents (h : List (Time × Effect K)) : ℕ :=
  (eventsIn h).countP fun x => decide (x.2.status = .granted)

@[simp] theorem grantedEvents_append (h k : List (Time × Effect K)) :
    grantedEvents (h ++ k) = grantedEvents h + grantedEvents k := by
  simp only [grantedEvents, eventsIn_append, List.countP_append]

theorem since_append {a s s' : State K} {new : List (Time × Effect K)}
    (ha : a.history <+: s.history) (h : s'.history = s.history ++ new) :
    since a s' = since a s ++ new := by
  unfold since
  rw [h, List.drop_append_of_le_length ha.length_le]

theorem since_self (a : State K) : since a a = [] := List.drop_length

section Held
variable [LinearOrder K] [BoundedOrder K] [FloatArith K] (p : Pipeline K) (e : EmployeeId)

/-- Every captured frame shows `e`, and captures follow each other closely. -/
def InView (s : State K) (c : Cycle K F D) : Prop := Clocked s c ∧ Gapless p s c ∧ Shows p e c

/-- A verdict after an opening made since `a` does not find the face absent. -/
def Remembered (a s : State K) (c : Cycle K F D) : Prop :=
  0 < grantsIn (since a s) → (verdict p s.loop c).isSome →
    faceWasAbsent p s.loop.dedup c.current = false

structure HeldInv (a s : State K) : Prop where
  extends_ : a.history <+: s.history
  granted : grantedEvents (since a s) = grantsIn (since a s)
  holds : 0 < grantsIn (since a s) → Holds s.loop.dedup e

variable {p e}

/-- With `e` in view a verdict opens the gate and notifies, or does neither; it
opens when the face was absent, and only then if the last decision was for `e`. -/
theorem decision_held {s : LoopState} {c : Cycle K F D} (hc : Shows p e c) :
    (Silent s.dedup (decision p s c) ∧
      (verdict p s c = none ∨ faceWasAbsent p s.dedup c.current = false)) ∨
    (∃ m : Match K, (decision p s c).grants = 1 ∧
      (decision p s c).events = [⟨c.wall, .granted, some m.employee, some m.distance⟩] ∧
      Holds (decision p s c).dedup e ∧ (verdict p s c).isSome ∧
      (Holds s.dedup e → faceWasAbsent p s.dedup c.current = true)) := by
  unfold decision
  cases hv : verdict p s c with
  | none => exact Or.inl ⟨⟨rfl, rfl, rfl, rfl, rfl⟩, Or.inl rfl⟩
  | some m =>
    obtain ⟨x, rfl⟩ := verdict_of_shows hc hv
    rcases judge_match p s.dedup c ⟨e, x⟩ with ⟨ho, hg, hev, hh, -⟩ | ⟨ha, -, hs⟩
    · refine Or.inr ⟨⟨e, x⟩, hg, hev, hh, rfl, fun hd => ?_⟩
      rwa [emitsGranted_of_holds hd, Bool.or_false] at ho
    · exact Or.inl ⟨hs, Or.inr ha⟩

theorem held_step {a s s' : State K} {c : Cycle K F D} (hi : HeldInv e a s)
    (hs : ((system p).guard (InView p e)).step s c s') :
    HeldInv e a s' ∧
      (grantsIn (since a s') ≤ 1 ↔ grantsIn (since a s) ≤ 1 ∧ Remembered p a s c) := by
  obtain ⟨hst, -, -, hc⟩ := hs
  obtain ⟨new, hh, hd, hg, he⟩ := step_decision hst
  have hsince := since_append hi.extends_ hh
  have hext : a.history <+: s'.history := hh ▸ hi.extends_.trans (List.prefix_append _ _)
  rcases decision_held (s := s.loop) hc with ⟨hj, hq⟩ | ⟨m, hg1, hev, hhold, hv, habs⟩
  · -- nothing decided
    rw [hj.grants] at hg
    rw [hj.events] at he
    have hgr : grantsIn (since a s') = grantsIn (since a s) := by
      rw [hsince, grantsIn_append, hg, Nat.add_zero]
    refine ⟨⟨hext, ?_, fun h0 => ?_⟩, ?_⟩
    · rw [hgr, hsince, grantedEvents_append, hi.granted]
      simp [grantedEvents, he]
    · have hh := hi.holds (hgr ▸ h0)
      exact ⟨by rw [hd, hj.lastStatus, hh.1], by rw [hd, hj.lastEmployee, hh.2]⟩
    · rw [hgr]
      refine ⟨fun h => ⟨h, fun _ hsome => ?_⟩, And.left⟩
      rcases hq with hn | hp
      · rw [hn] at hsome
        cases hsome
      · exact hp
  · -- one opening, one event
    have hgr : grantsIn (since a s') = grantsIn (since a s) + 1 := by
      rw [hsince, grantsIn_append, hg, hg1]
    refine ⟨⟨hext, ?_, fun _ => hd ▸ hhold⟩, ?_⟩
    · rw [hgr, hsince, grantedEvents_append, hi.granted]
      simp [grantedEvents, he, hev]
    · rw [hgr]
      by_cases h0 : 0 < grantsIn (since a s)
      · -- an opening is behind: a second one needs the face absent
        refine ⟨fun h => absurd h (by omega), fun h => ?_⟩
        have hf := h.2 h0 hv
        rw [habs (hi.holds h0)] at hf
        cases hf
      · exact ⟨fun _ => ⟨by omega, fun h => absurd h h0⟩, fun _ => by omega⟩

/-- **Same employee held in view.** From any state on, while every captured frame
shows `e`, the gate opens at most once and at most one Granted event is handed
over, exactly if no verdict after the opening finds the face absent. -/
theorem granted_once {a b : State K} {cs : List (Cycle K F D)}
    (hr : ((system p).guard (InView p e)).Run a cs b) :
    (grantsIn (since a b) ≤ 1 ∧ grantedEvents (since a b) ≤ 1) ↔
      (((system p).guard (InView p e)).guard (Remembered p a)).Run a cs b := by
  have hempty : grantsIn (since a a) = 0 := by rw [since_self]; rfl
  have h0 : HeldInv e a a := by
    refine ⟨List.prefix_rfl, by rw [since_self]; rfl, fun h => ?_⟩
    rw [hempty] at h
    cases h
  have hi : HeldInv e a b :=
    hr.invariant (P := HeldInv e a) (fun _ _ _ hk hs => (held_step hk hs).1) h0
  have hiff := hr.guard_iff (P := fun s => grantsIn (since a s) ≤ 1)
    (fun _ _ _ hk hs => held_step hk hs) h0
  rw [hi.granted, and_self, hiff, hempty]
  exact and_iff_right (Nat.zero_le 1)

instance (s : State K) (c : Cycle K F D) : Decidable (InView p e s c) :=
  inferInstanceAs (Decidable (_ ∧ _))

end Held

/-- Frames that show employee 7, the only one enrolled. -/
def framesOf7 (ms : List ℤ) : List (Cycle ExtRat Unit Unit) :=
  ms.map (instant (some ()) (some axis) [⟨1, 7, axis⟩])

/-- Four frames a second: the fourth opens the gate, and the next one, after the
block window, is still in the stabilization wait. -/
theorem granted_once_example :
    ∃ b, (((system (.ofConfig exampleConfig)).guard
        (InView (.ofConfig exampleConfig) 7)).guard
        (Remembered (.ofConfig exampleConfig) (.start 0))).Run (.start 0)
        (framesOf7 [1000, 1250, 1500, 1750] ++ blocked 1750 100 ++ framesOf7 [6750]) b ∧
      grantsIn b.history = 1 := by
  obtain ⟨b, hr, hg, he, h1⟩ := LTS.exists_run_where _ (step (.ofConfig exampleConfig))
    (InView (.ofConfig exampleConfig) 7) (.start 0)
    (framesOf7 [1000, 1250, 1500, 1750] ++ blocked 1750 100 ++ framesOf7 [6750])
    (fun b => grantsIn (since (.start 0) b) ≤ 1 ∧ grantedEvents (since (.start 0) b) ≤ 1 ∧
      grantsIn b.history = 1) (by decide +kernel)
  exact ⟨b, (granted_once hr).mp ⟨hg, he⟩, h1⟩

/-- The opening holds the loop for 5 s, longer than the idle reset of 3 s: when
the face, which never left, has passed the stabilization wait again, it opens the
gate again. -/
theorem granted_twice :
    exampleConfig.validate = .ok () ∧
    ∃ (cs : List (Cycle ExtRat Unit Unit)) (b : State ExtRat),
      ((system (.ofConfig exampleConfig)).guard
        (InView (.ofConfig exampleConfig) 7)).Run (.start 0) cs b ∧
      ¬ (grantsIn (since (.start 0) b) ≤ 1 ∧ grantedEvents (since (.start 0) b) ≤ 1) := by
  refine ⟨exampleConfig_valid,
    framesOf7 [1000, 1250, 1500, 1750] ++ blocked 1750 100 ++
      framesOf7 [6750, 7000, 7250, 7500], ?_⟩
  exact LTS.exists_run_where _ (step (.ofConfig exampleConfig)) _ _ _ _ (by decide +kernel)
/-! ## Unknown events -/

/-- Any two Unknown events with no Granted one between them are `T` apart. -/
def RateLimited (T : Time) (evs : List (Time × AccessEvent K)) : Prop :=
  Spaced Prod.fst (fun x => x.2.status = .unknown) (fun x => x.2.status = .granted) T evs

/-- The deduplication state remembers the last event. -/
structure LastEvent (s : State K) : Prop where
  kinds : ∀ x ∈ eventsIn s.history, x.2.status = .unknown ∨ x.2.status = .granted
  status : s.loop.dedup.lastStatus = (eventsIn s.history).getLast?.map fun x => x.2.status
  unknownAt : ∀ x ∈ (eventsIn s.history).getLast?, x.2.status = .unknown →
    s.loop.dedup.lastUnknownEmittedAt = x.1

theorem lastEvent_start (t : Time) : LastEvent (.start t : State K) :=
  ⟨fun _ h => (nomatch h), rfl, fun _ h => (nomatch h)⟩

theorem lastEvent_silent {s s' : State K} {j : Judgement K} (hi : LastEvent s)
    (hev : eventsIn s'.history = eventsIn s.history) (hd : s'.loop.dedup = j.dedup)
    (hj : Silent s.loop.dedup j) : LastEvent s' where
  kinds := by rw [hev]; exact hi.kinds
  status := by rw [hev, hd, hj.lastStatus, hi.status]
  unknownAt := by rw [hev, hd, hj.lastUnknownEmittedAt]; exact hi.unknownAt

theorem lastEvent_concat {s s' : State K} {x : Time × AccessEvent K} (hi : LastEvent s)
    (hev : eventsIn s'.history = eventsIn s.history ++ [x])
    (hk : x.2.status = .unknown ∨ x.2.status = .granted)
    (hst : s'.loop.dedup.lastStatus = some x.2.status)
    (hat : x.2.status = .unknown → s'.loop.dedup.lastUnknownEmittedAt = x.1) : LastEvent s' where
  kinds := by
    rw [hev]
    intro y hy
    rcases List.mem_append.mp hy with hy | hy
    · exact hi.kinds y hy
    · rw [List.mem_singleton.mp hy]
      exact hk
  status := by rw [hev, List.getLast?_concat, hst]; rfl
  unknownAt := by
    rw [hev, List.getLast?_concat]
    intro y hy
    obtain rfl := Option.some.inj hy
    exact hat

/-- The distance from the last Unknown event is what the throttle compares. -/
theorem LastEvent.far_iff {s : State K} (hi : LastEvent s) (t T : Time) :
    (∀ y ∈ (eventsIn s.history).getLast?, y.2.status = .unknown → T ≤ t - y.1) ↔
      (s.loop.dedup.lastStatus = some .unknown → T ≤ t - s.loop.dedup.lastUnknownEmittedAt) := by
  rw [hi.status]
  have hat := hi.unknownAt
  cases hl : (eventsIn s.history).getLast? with
  | none => simp
  | some y =>
    rw [hl] at hat
    constructor
    · intro h hst
      have hy : y.2.status = .unknown := Option.some.inj hst
      rw [hat y rfl hy]
      exact h y rfl hy
    · intro h z hz hu
      obtain rfl := Option.some.inj hz
      rw [← hat y rfl hu]
      exact h (congrArg some hu)

/-- One more event: only an Unknown one asks for a distance. -/
theorem rateLimited_concat {s : State K} {T : Time} (hT : 0 ≤ T) (hi : LastEvent s)
    (x : Time × AccessEvent K) :
    RateLimited T (eventsIn s.history ++ [x]) ↔ RateLimited T (eventsIn s.history) ∧
      (x.2.status = .unknown → s.loop.dedup.lastStatus = some .unknown →
        T ≤ x.1 - s.loop.dedup.lastUnknownEmittedAt) := by
  rw [← hi.far_iff]
  exact spaced_concat hT hi.kinds

theorem emitsUnknown_iff {p : Pipeline K} {d : Dedup} {t : Time} :
    emitsUnknown p d t = true ↔
      (d.lastStatus = some .unknown → p.unknownThrottle ≤ t - d.lastUnknownEmittedAt) := by
  unfold emitsUnknown
  rcases d.lastStatus with _ | (_ | _ | _) <;> simp

/-- An Unknown event is due by the throttle, or the face was absent. -/
theorem due_iff {p : Pipeline K} {d : Dedup} {t : Time}
    (h : (faceWasAbsent p d t || emitsUnknown p d t) = true) :
    (d.lastStatus = some .unknown → p.unknownThrottle ≤ t - d.lastUnknownEmittedAt) ↔
      (d.lastStatus = some .unknown → t - d.lastUnknownEmittedAt < p.unknownThrottle →
        faceWasAbsent p d t = false) := by
  constructor
  · intro hdue hst hlt
    exact absurd (hdue hst) (not_le.mpr hlt)
  · intro hc hst
    by_contra hlt
    have ha : faceWasAbsent p d t = false := hc hst (not_le.mp hlt)
    rw [ha, Bool.false_or, emitsUnknown_iff] at h
    exact hlt (h hst)

section Throttle
variable [LinearOrder K] [BoundedOrder K] [FloatArith K] (p : Pipeline K)

/-- Every captured frame shows a face, and captures follow each other closely. -/
def FaceInView (s : State K) (c : Cycle K F D) : Prop := Clocked s c ∧ Gapless p s c ∧ Detected c

/-- An Unknown verdict inside the throttle does not find the face absent. -/
def Throttled (s : State K) (c : Cycle K F D) : Prop :=
  verdict p s.loop c = some none → s.loop.dedup.lastStatus = some .unknown →
    c.current - s.loop.dedup.lastUnknownEmittedAt < p.unknownThrottle →
    faceWasAbsent p s.loop.dedup c.current = false

variable {p}

/-- What a decision adds to the log of events. -/
theorem decision_events {s : LoopState} {c : Cycle K F D} :
    (Silent s.dedup (decision p s c) ∧
      (verdict p s c = some none → faceWasAbsent p s.dedup c.current = false)) ∨
    (∃ m : Match K, verdict p s c = some (some m) ∧
      (decision p s c).events = [⟨c.wall, .granted, some m.employee, some m.distance⟩] ∧
      Holds (decision p s c).dedup m.employee) ∨
    (verdict p s c = some none ∧ (decision p s c).events = [⟨c.wall, .unknown, none, none⟩] ∧
      (decision p s c).dedup.lastStatus = some .unknown ∧
      (decision p s c).dedup.lastUnknownEmittedAt = c.current ∧
      (faceWasAbsent p s.dedup c.current || emitsUnknown p s.dedup c.current) = true) := by
  unfold decision
  rcases verdict p s c with _ | (_ | m)
  · exact Or.inl ⟨⟨rfl, rfl, rfl, rfl, rfl⟩, fun h => nomatch h⟩
  · rcases judge_no_match p s.dedup c with ⟨ho, -, hev, hst, hat⟩ | ⟨ha, -, hj⟩
    · exact Or.inr (Or.inr ⟨rfl, hev, hst, hat, ho⟩)
    · exact Or.inl ⟨hj, fun _ => ha⟩
  · rcases judge_match p s.dedup c m with ⟨-, -, hev, hh, -⟩ | ⟨-, -, hj⟩
    · exact Or.inr (Or.inl ⟨m, rfl, hev, hh⟩)
    · exact Or.inl ⟨hj, fun h => nomatch h⟩

theorem throttle_step {s s' : State K} {c : Cycle K F D} (hT : 0 ≤ p.unknownThrottle)
    (hi : LastEvent s) (hs : (system p).step s c s') :
    LastEvent s' ∧ (RateLimited p.unknownThrottle (eventsIn s'.history) ↔
      RateLimited p.unknownThrottle (eventsIn s.history) ∧ Throttled p s c) := by
  obtain ⟨new, hh, hd, -, he⟩ := step_decision hs
  have hev : eventsIn s'.history = eventsIn s.history ++
      (decision p s.loop c).events.map fun a => (c.current, a) := by
    rw [hh, eventsIn_append, he]
  rcases decision_events (p := p) (s := s.loop) (c := c) with
    ⟨hj, ha⟩ | ⟨m, hv, hje, hh⟩ | ⟨hv, hje, hst, hat, ho⟩
  · rw [hj.events, List.map_nil, List.append_nil] at hev
    refine ⟨lastEvent_silent hi hev hd hj, ?_⟩
    rw [hev]
    exact ⟨fun h => ⟨h, fun hv _ _ => ha hv⟩, And.left⟩
  · rw [hje] at hev
    refine ⟨lastEvent_concat hi hev (Or.inr rfl) (hd ▸ hh.1) (fun h => nomatch h), ?_⟩
    rw [hev]
    refine (rateLimited_concat hT hi _).trans (and_congr_right fun _ => ?_)
    constructor
    · intro _ hn
      rw [hv] at hn
      cases hn
    · intro _ h
      cases h
  · rw [hje] at hev
    refine ⟨lastEvent_concat hi hev (Or.inl rfl) (hd ▸ hst) fun _ => hd ▸ hat, ?_⟩
    rw [hev]
    refine (rateLimited_concat hT hi _).trans (and_congr_right fun _ => ?_)
    exact ⟨fun h _ => (due_iff ho).mp (h rfl), fun h _ => (due_iff ho).mpr (h hv)⟩

/-- **Unknown events are rate limited.** While every captured frame shows a face,
Unknown events with no Granted one between them are `unknown_throttle` apart,
exactly if no Unknown verdict inside the throttle finds the face absent. -/
theorem unknown_rate_limited {cfg : Config K} (hv : cfg.validate = .ok ()) {t : Time}
    {b : State K} {cs : List (Cycle K F D)}
    (hr : ((system (.ofConfig cfg)).guard (FaceInView (.ofConfig cfg))).Run (.start t) cs b) :
    RateLimited (Pipeline.ofConfig cfg).unknownThrottle (eventsIn b.history) ↔
      (((system (.ofConfig cfg)).guard (FaceInView (.ofConfig cfg))).guard
        (Throttled (.ofConfig cfg))).Run (.start t) cs b := by
  have hT : 0 ≤ (Pipeline.ofConfig cfg).unknownThrottle := by
    obtain ⟨-, h, -, -⟩ := cfg.validate_recognition hv
    exact mul_nonneg h.le (by decide)
  have hstep : ∀ s (c : Cycle K F D) s', LastEvent s →
      ((system (.ofConfig cfg)).guard (FaceInView (.ofConfig cfg))).step s c s' → _ :=
    fun _ _ _ hk hs => throttle_step hT hk hs.1
  exact (hr.guard_iff hstep (lastEvent_start t)).trans (and_iff_right spaced_nil)

instance (s : State K) (c : Cycle K F D) : Decidable (FaceInView p s c) :=
  inferInstanceAs (Decidable (_ ∧ _))

instance (s : State K) (c : Cycle K F D) : Decidable (Throttled p s c) :=
  inferInstanceAs (Decidable (verdict p s.loop c = some none → _))

end Throttle

/-- Frames of a face when nobody is enrolled; on those of `failing` the
extraction fails. -/
def framesOfStranger (failing : List ℤ) (ms : List ℤ) : List (Cycle ExtRat Unit Unit) :=
  ms.map fun t => instant (some ()) (if t ∈ failing then none else some axis) [] t

/-- Four frames a second, all extracted: the second Unknown comes 10 s after the
first. -/
theorem unknown_rate_limited_example :
    ∃ b, ((system (.ofConfig exampleConfig)).guard
        (FaceInView (.ofConfig exampleConfig))).Run (.start 0)
        (framesOfStranger [] [1000, 1250, 1500, 1750] ++ blocked 1750 20 ++
          framesOfStranger [] ((List.range 37).map fun i => 2750 + 250 * i)) b ∧
      (eventsIn b.history).length = 2 ∧
      RateLimited (Pipeline.ofConfig exampleConfig).unknownThrottle (eventsIn b.history) := by
  obtain ⟨b, hr, h2⟩ := LTS.exists_run_where _ (step (.ofConfig exampleConfig))
    (fun s c => FaceInView (.ofConfig exampleConfig) s c ∧ Throttled (.ofConfig exampleConfig) s c)
    (.start 0) (framesOfStranger [] [1000, 1250, 1500, 1750] ++ blocked 1750 20 ++
      framesOfStranger [] ((List.range 37).map fun i => 2750 + 250 * i))
    (fun b => (eventsIn b.history).length = 2) (by decide +kernel)
  exact ⟨b, hr.guard_guard.of_guard, h2,
    (unknown_rate_limited exampleConfig_valid hr.guard_guard.of_guard).mpr hr.guard_guard⟩

/-- From 3.5 s on the extraction fails; at 5 s it succeeds, 3.25 s after the first
Unknown event, and the reset lets a second one through. -/
theorem unknown_too_soon :
    exampleConfig.validate = .ok () ∧
    ∃ (cs : List (Cycle ExtRat Unit Unit)) (b : State ExtRat),
      ((system (.ofConfig exampleConfig)).guard
        (FaceInView (.ofConfig exampleConfig))).Run (.start 0) cs b ∧
      ¬ RateLimited (Pipeline.ofConfig exampleConfig).unknownThrottle (eventsIn b.history) := by
  obtain ⟨b, hr, he⟩ := LTS.exists_run_where _ (step (.ofConfig exampleConfig))
    (FaceInView (.ofConfig exampleConfig)) (.start 0)
    (framesOfStranger [] [1000, 1250, 1500, 1750] ++ blocked 1750 20 ++
      framesOfStranger [3500, 3750, 4000, 4250, 4500, 4750]
        [2750, 3000, 3250, 3500, 3750, 4000, 4250, 4500, 4750, 5000])
    (fun b => eventsIn b.history = [(milliseconds 1750, ⟨1750, .unknown, none, none⟩),
      (milliseconds 5000, ⟨5000, .unknown, none, none⟩)]) (by decide +kernel)
  refine ⟨exampleConfig_valid, _, b, hr, fun h => ?_⟩
  exact absurd (h [] _ [] _ [] he rfl rfl fun _ hy => nomatch hy) (by decide)
end FaceGate.L3.Deduplication
