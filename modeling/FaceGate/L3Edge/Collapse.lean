import FaceGate.Core.Collapse
import FaceGate.L1Domain.Json
import FaceGate.L3Edge.MainLoop

/-!
# The collapsed verdict sequence

Only a frame that reaches the matcher touches the deduplication state, so the
events of a run are those of its frames (`frames`), one step of `machine` each.
Cut where more than `idle_reset` lies between two frames, the run falls into
segments; in front of a segment the state is forgotten, inside it is not.

* `verdicts_collapsed`: within a segment the events, less every Unknown after an
  Unknown, are the verdicts with repetitions collapsed; and an Unknown is repeated
  exactly when `unknown_throttle` has passed since the last one.
-/
namespace FaceGate.L3.Collapse

open Core FaceGate.L1 FaceGate.L1.Domain FaceGate.L2 FaceGate.L3.MainLoop

variable {K F D : Type}

/-! ## Frames and decisions -/

/-- A status with the employee it is about. -/
abbrev Decision := AccessStatus × Option EmployeeId

def Decision.unknown : Decision := (.unknown, none)

def decisionOf : MatchResult K → Decision
  | some m => (.granted, some m.employee)
  | none => .unknown

/-- A frame that reached the matcher: its iteration, its verdict, and the events
handed over. -/
structure Frame (K F D : Type) where
  cycle : Cycle K F D
  verdict : MatchResult K
  events : List (AccessEvent K)

def Frame.time (f : Frame K F D) : Time := f.cycle.current

def Frame.decision (f : Frame K F D) : Decision := decisionOf f.verdict

def Frame.emitted (f : Frame K F D) : List Decision := f.events.map fun e => (e.status, e.employee)

section
variable [LinearOrder K] [BoundedOrder K] [FloatArith K]

def frames (p : Pipeline K) : LoopState → List (Cycle K F D) → List (Frame K F D)
  | _, [] => []
  | s, c :: cs =>
    (verdict p s c).toList.map (fun m => ⟨c, m, events (iterate p s c).2⟩) ++
      frames p (iterate p s c).1 cs

end

/-- Two frames of one segment. -/
def near (p : Pipeline K) (f g : Frame K F D) : Bool := g.time - f.time ≤ p.idleReset

/-- The events of some frames, each with the time of its frame. -/
def emissions (fs : List (Frame K F D)) : List (Time × AccessEvent K) :=
  fs.flatMap fun f => f.events.map fun e => (f.time, e)

/-- The last event is an Unknown, given at least `unknown_throttle` ago. -/
def ThrottleExpired (p : Pipeline K) (pre : List (Frame K F D)) (now : Time) : Prop :=
  ∃ e ∈ (emissions pre).getLast?, e.2.status = .unknown ∧ p.unknownThrottle ≤ now - e.1

/-- `f` gives an Unknown, and so did the last event before it. -/
def Additional (pre : List (Frame K F D)) (f : Frame K F D) : Prop :=
  (∃ e ∈ f.events, e.status = .unknown) ∧ ∃ e ∈ (emissions pre).getLast?, e.2.status = .unknown

structure Collapsed (p : Pipeline K) (seg : List (Frame K F D)) : Prop where
  verdicts : (seg.flatMap Frame.emitted).destutter (fun a b => ¬ (a = .unknown ∧ b = .unknown)) =
    (seg.map Frame.decision).destutter (· ≠ ·)
  throttle : ∀ pre f post, seg = pre ++ f :: post → f.decision = .unknown →
    (Additional pre f ↔ ThrottleExpired p pre f.time)

/-! ## The machine -/

/-- The deduplication state along the frames. -/
def machine (p : Pipeline K) : LTS Dedup (Frame K F D) where
  init d := d = LoopState.start.dedup
  step d f d' := d' = (judge p d f.cycle f.verdict).dedup ∧
    f.events = (judge p d f.cycle f.verdict).events

theorem run_frames [LinearOrder K] [BoundedOrder K] [FloatArith K] (p : Pipeline K) (s : LoopState)
    (cs : List (Cycle K F D)) : ∃ d, (machine p).Run s.dedup (frames p s cs) d := by
  induction cs generalizing s with
  | nil => exact ⟨s.dedup, .nil _⟩
  | cons c cs ih =>
    obtain ⟨d, hd⟩ := ih (iterate p s c).1
    have hj := iterate_judgement p s c
    refine ⟨d, ?_⟩
    unfold frames
    unfold decision at hj
    cases hv : verdict p s c with
    | none =>
      rw [hv] at hj
      have hk : (iterate p s c).1.dedup = s.dedup := congrArg Judgement.dedup hj
      rw [hk] at hd
      exact hd
    | some m =>
      rw [hv] at hj
      exact .cons ⟨congrArg Judgement.dedup hj, congrArg Judgement.events hj⟩ hd

/-- The events of a run are those of its frames. -/
theorem events_frames [LinearOrder K] [BoundedOrder K] [FloatArith K] {p : Pipeline K}
    {a b : State K} {cs : List (Cycle K F D)} (hr : (system p).Run a cs b) :
    eventsIn b.history = eventsIn a.history ++ emissions (frames p a.loop cs) := by
  induction hr with
  | nil => simp [frames, emissions]
  | @cons s s' s'' c cs hs _ ih =>
    obtain rfl := Option.some.inj hs
    have hj := iterate_judgement p s.loop c
    unfold decision at hj
    rw [ih, eventsIn_append, eventsIn_stamp, frames]
    cases hv : verdict p s.loop c with
    | none =>
      rw [hv] at hj
      have he : events (iterate p s.loop c).2 = [] := congrArg Judgement.events hj
      simp [he]
    | some m => simp [emissions, Frame.time]

/-- The last decision, as the state keeps it. -/
def lastDecision (d : Dedup) : Option Decision := d.lastStatus.map fun s => (s, d.lastEmployee)

/-- Only verdicts are decided. -/
def Decided (d : Dedup) : Prop :=
  ∀ x ∈ lastDecision d, x = .unknown ∨ ∃ e, x = (.granted, some e)

theorem emitsGranted_iff {d : Dedup} (hd : Decided d) (m : Match K) :
    emitsGranted d m.employee = true ↔ lastDecision d ≠ some (decisionOf (some m)) := by
  obtain ⟨status, employee, _, _, _⟩ := d
  unfold Decided lastDecision at hd
  unfold emitsGranted lastDecision decisionOf
  rcases status with _ | (_ | _ | _)
  · simp
  · simp
  · simp [Decision.unknown] at hd
  · simp

theorem emitsUnknown_iff {p : Pipeline K} {d : Dedup} (hd : Decided d) (t : Time) :
    emitsUnknown p d t = true ↔
      (lastDecision d = some .unknown → p.unknownThrottle ≤ t - d.lastUnknownEmittedAt) := by
  obtain ⟨status, employee, _, unknownAt, _⟩ := d
  unfold Decided lastDecision at hd
  unfold emitsUnknown lastDecision
  rcases status with _ | (_ | _ | _)
  · simp
  · simp [Decision.unknown]
  · simp [Decision.unknown]
  · simp [Decision.unknown] at hd
    simp [Decision.unknown, hd]

/-- The verdict is answered with its event. -/
structure Answered (p : Pipeline K) (d : Dedup) (c : Cycle K F D) (m : MatchResult K)
    (j : Judgement K) : Prop where
  events : ∃ e, j.events = [e] ∧ (e.status, e.employee) = decisionOf m
  last : lastDecision j.dedup = some (decisionOf m)
  due : lastDecision d = some (decisionOf m) →
    decisionOf m = .unknown ∧ p.unknownThrottle ≤ c.current - d.lastUnknownEmittedAt
  unknownAt : decisionOf m = .unknown → j.dedup.lastUnknownEmittedAt = c.current

/-- The verdict repeats the last decision, and nothing is due. -/
structure Repeated (p : Pipeline K) (d : Dedup) (c : Cycle K F D) (m : MatchResult K)
    (j : Judgement K) : Prop where
  events : j.events = []
  repeats : lastDecision d = some (decisionOf m)
  dedup : j.dedup = d.seen c.current
  early : decisionOf m = .unknown → c.current - d.lastUnknownEmittedAt < p.unknownThrottle

theorem judge_cases (p : Pipeline K) {d : Dedup} (c : Cycle K F D) (m : MatchResult K)
    (hd : Decided d) (ha : afterIdle p d c.current = d) :
    Answered p d c m (judge p d c m) ∨ Repeated p d c m (judge p d c m) := by
  unfold judge
  rw [ha]
  cases m with
  | some m =>
    by_cases h : emitsGranted d m.employee = true
    · simp only [h, if_true]
      have hne := (emitsGranted_iff hd m).mp h
      exact Or.inl ⟨⟨_, rfl, rfl⟩, rfl, fun he => absurd he hne, fun he => nomatch he⟩
    · have heq := not_not.mp ((emitsGranted_iff hd m).not.mp h)
      simp only [h]
      exact Or.inr ⟨rfl, heq, rfl, fun he => nomatch he⟩
  | none =>
    by_cases h : emitsUnknown p d c.current = true
    · simp only [h, if_true]
      have hdue := (emitsUnknown_iff hd c.current).mp h
      exact Or.inl ⟨⟨_, rfl, rfl⟩, rfl, fun he => ⟨rfl, hdue he⟩, fun _ => rfl⟩
    · obtain ⟨heq, hlt⟩ := Classical.not_imp.mp ((emitsUnknown_iff hd c.current).not.mp h)
      simp only [h]
      exact Or.inr ⟨rfl, heq, rfl, fun _ => not_le.mp hlt⟩

/-! ## When the state is forgotten -/

theorem afterIdle_idem (p : Pipeline K) (d : Dedup) (t : Time) :
    afterIdle p (afterIdle p d t) t = afterIdle p d t := by
  by_cases h : faceWasAbsent p d t = true
  · have h' : faceWasAbsent p { d with lastStatus := none, lastEmployee := none } t = true := h
    simp only [afterIdle, h, h', if_true]
  · simp only [afterIdle, h, Bool.false_eq_true, if_false]

theorem judge_afterIdle (p : Pipeline K) (d : Dedup) (c : Cycle K F D) (m : MatchResult K) :
    judge p (afterIdle p d c.current) c m = judge p d c m := by
  unfold judge
  rw [afterIdle_idem]

/-- Every frame is a face seen. -/
theorem judge_seen (p : Pipeline K) (d : Dedup) (c : Cycle K F D) (m : MatchResult K) :
    (judge p d c m).dedup.everSeenFace = true ∧
      (judge p d c m).dedup.lastFaceSeenAt = c.current := by
  unfold judge
  cases m <;> dsimp only <;> split <;> exact ⟨rfl, rfl⟩

theorem absent_iff {p : Pipeline K} {d d' : Dedup} {f g : Frame K F D}
    (hs : (machine p).step d f d') : faceWasAbsent p d' g.time = true ↔ near p f g = false := by
  obtain ⟨rfl, -⟩ := hs
  obtain ⟨hever, hseen⟩ := judge_seen p d f.cycle f.verdict
  unfold faceWasAbsent near Frame.time
  rw [hever, hseen, Bool.true_and, decide_eq_true_iff, decide_eq_false_iff_not, not_le]

/-! ## Inside a segment -/

/-- The relation that deletes an Unknown after an Unknown. -/
abbrev Keeps (a b : Decision) : Prop := ¬ (a = .unknown ∧ b = .unknown)

/-- What a frame does, after the frames `pre` of its segment. -/
structure Lawful (p : Pipeline K) (pre : List (Frame K F D)) (f : Frame K F D) : Prop where
  answers : Answers Keeps Frame.decision Frame.emitted pre f
  throttle : f.decision = .unknown → (Additional pre f ↔ ThrottleExpired p pre f.time)

/-- The state remembers the last frame of the segment, and the last Unknown. -/
structure Tracks (pre : List (Frame K F D)) (d : Dedup) : Prop where
  decision : lastDecision d = (pre.map Frame.decision).getLast?
  emitted : (pre.flatMap Frame.emitted).getLast? = (pre.map Frame.decision).getLast?
  unknownAt : ∀ e ∈ (emissions pre).getLast?, e.2.status = .unknown → d.lastUnknownEmittedAt = e.1

variable {p : Pipeline K} {pre : List (Frame K F D)} {d d' : Dedup} {f : Frame K F D}

theorem Tracks.decided (h : Tracks pre d) : Decided d := by
  intro x hx
  rw [h.decision] at hx
  obtain ⟨f, -, rfl⟩ := List.mem_map.mp (List.mem_of_getLast? hx)
  unfold Frame.decision
  cases f.verdict with
  | none => exact Or.inl rfl
  | some m => exact Or.inr ⟨m.employee, rfl⟩

theorem emitted_emissions (fs : List (Frame K F D)) :
    (emissions fs).map (fun e => (e.2.status, e.2.employee)) = fs.flatMap Frame.emitted := by
  unfold emissions Frame.emitted
  simp [List.map_flatMap, Function.comp_def]

theorem unknown_of_status {s : AccessStatus} {o : Option EmployeeId} {m : MatchResult K}
    (h : (s, o) = decisionOf m) (hs : s = .unknown) : decisionOf m = .unknown := by
  subst hs
  cases m with
  | none => rfl
  | some m => cases h

/-- The last event is an Unknown exactly if the last decision is. -/
theorem Tracks.last_unknown (h : Tracks pre d) {e : Time × AccessEvent K}
    (he : e ∈ (emissions pre).getLast?) (hs : e.2.status = .unknown) :
    lastDecision d = some .unknown := by
  have hmap : (pre.flatMap Frame.emitted).getLast? = some (e.2.status, e.2.employee) := by
    rw [← emitted_emissions, List.getLast?_map, Option.mem_def.mp he]
    rfl
  rw [h.emitted] at hmap
  obtain ⟨g, -, hg⟩ := List.mem_map.mp (List.mem_of_getLast? hmap)
  rw [h.decision, hmap, ← hg]
  exact congrArg some (unknown_of_status hg.symm hs)

theorem lawful_step (ht : Tracks pre d) (ha : afterIdle p d f.time = d)
    (hs : (machine p).step d f d') : Lawful p pre f ∧ Tracks (pre ++ [f]) d' := by
  obtain ⟨rfl, hev⟩ := hs
  rcases judge_cases p f.cycle f.verdict ht.decided ha with hj | hj
  · obtain ⟨e, he, hdec⟩ := hj.events
    rw [he] at hev
    have hout : f.emitted = [f.decision] := by
      unfold Frame.emitted Frame.decision
      rw [hev, ← hdec]
      rfl
    refine ⟨⟨Or.inl ⟨hout, ?_⟩, ?_⟩, ⟨?_, ?_, ?_⟩⟩
    · intro hrep hk
      rw [← ht.decision] at hrep
      obtain ⟨hu, -⟩ := hj.due hrep
      exact hk ⟨hu, hu⟩
    · intro hu
      constructor
      · rintro ⟨-, x, hx, hst⟩
        have hrep := ht.last_unknown hx hst
        obtain ⟨-, hdue⟩ := hj.due (hrep.trans (congrArg some hu.symm))
        rw [ht.unknownAt x hx hst] at hdue
        exact ⟨x, hx, hst, hdue⟩
      · rintro ⟨x, hx, hst, -⟩
        refine ⟨⟨e, by rw [hev]; exact List.mem_singleton_self e, ?_⟩, x, hx, hst⟩
        exact congrArg Prod.fst (hdec.trans hu)
    · rw [hj.last]
      simp [Frame.decision]
    · rw [List.flatMap_append, List.flatMap_singleton, hout]
      simp
    · intro x hx hst
      have hlast : (emissions (pre ++ [f])).getLast? = some (f.time, e) := by
        simp [emissions, hev]
      obtain rfl := Option.some.inj (hlast.symm.trans hx)
      exact hj.unknownAt (unknown_of_status hdec hst)
  · rw [hj.events] at hev
    have hout : f.emitted = [] := by
      unfold Frame.emitted
      rw [hev]
      rfl
    have hsame : emissions (pre ++ [f]) = emissions pre := by simp [emissions, hev]
    refine ⟨⟨Or.inr ⟨hout, ht.decision ▸ hj.repeats⟩, ?_⟩, ⟨?_, ?_, ?_⟩⟩
    · intro hu
      constructor
      · rintro ⟨⟨e, he, -⟩, -⟩
        rw [hev] at he
        cases he
      · rintro ⟨x, hx, hst, hdue⟩
        rw [← ht.unknownAt x hx hst] at hdue
        exact absurd hdue (not_le.mpr (hj.early hu))
    · rw [hj.dedup]
      show lastDecision d = _
      rw [hj.repeats]
      simp [Frame.decision]
    · rw [List.flatMap_append, List.flatMap_singleton, hout, List.append_nil, ht.emitted,
        ← ht.decision, hj.repeats]
      simp [Frame.decision]
    · rw [hsame, hj.dedup]
      exact ht.unknownAt

theorem lawful_run {fs : List (Frame K F D)} (hr : (machine p).Run d fs d') (ht : Tracks pre d)
    (hl : Justified (Lawful p) pre) (ha : ∀ f ∈ fs.head?, afterIdle p d f.time = d)
    (hc : fs.IsChain fun f g => near p f g = true) : Justified (Lawful p) (pre ++ fs) := by
  induction hr generalizing pre with
  | nil => simpa using hl
  | @cons d d₁ d' f fs hs _ ih =>
    obtain ⟨hf, ht'⟩ := lawful_step ht (ha f rfl) hs
    have hnext : ∀ g ∈ fs.head?, afterIdle p d₁ g.time = d₁ := by
      intro g hg
      have hn : near p f g = true := List.isChain_cons.mp hc |>.1 g hg
      have habs : ¬ faceWasAbsent p d₁ g.time = true := by
        rw [absent_iff hs, hn]
        simp
      unfold afterIdle
      rw [if_neg habs]
    have h := ih ht' (justified_concat.mpr ⟨hl, hf⟩) hnext hc.tail
    simpa using h

/-! ## Whole runs -/

theorem tracks_nil {d : Dedup} (h : lastDecision d = none) :
    Tracks ([] : List (Frame K F D)) d :=
  ⟨h, rfl, fun _ he => nomatch he⟩

/-- In front of a segment the state is forgotten. -/
theorem forgotten {before : List (Frame K F D)}
    (hr : (machine p).Run LoopState.start.dedup before d)
    (hc : ∀ x ∈ before.getLast?, near p x f = false) :
    lastDecision (afterIdle p d f.time) = none := by
  rcases before.eq_nil_or_concat' with rfl | ⟨before, x, rfl⟩
  · cases hr
    rfl
  · obtain ⟨d₁, -, hx⟩ := hr.of_append
    cases hx with
    | cons hs hnil =>
      cases hnil
      have habs := (absent_iff (g := f) hs).mpr (hc x (by simp))
      unfold afterIdle
      rw [if_pos habs]
      rfl

theorem lawful_segment {before seg : List (Frame K F D)}
    (hb : (machine p).Run LoopState.start.dedup before d) (hr : (machine p).Run d seg d')
    (hcut : ∀ x ∈ before.getLast?, ∀ y ∈ seg.head?, near p x y = false)
    (hc : seg.IsChain fun f g => near p f g = true) : Justified (Lawful p) seg := by
  cases hr with
  | nil => exact justified_nil
  | @cons _ d₁ _ f rest hs hrest =>
    have hs' : (machine p).step (afterIdle p d f.time) f d₁ := by
      obtain ⟨hd, he⟩ := hs
      exact ⟨by rw [hd, ← judge_afterIdle]; rfl, by rw [he, ← judge_afterIdle]; rfl⟩
    have hforgot := forgotten hb fun x hx => hcut x hx f rfl
    have ha : ∀ g ∈ (f :: rest).head?,
        afterIdle p (afterIdle p d f.time) g.time = afterIdle p d f.time := by
      intro g hg
      obtain rfl := Option.some.inj hg
      exact afterIdle_idem p d f.time
    exact lawful_run (.cons hs' hrest) (tracks_nil hforgot) justified_nil ha hc

theorem collapsed_of_lawful {seg : List (Frame K F D)} (h : Justified (Lawful p) seg) :
    Collapsed p seg where
  verdicts := by
    refine (destutter_emitted (R := Keeps) ?_ fun pre x post e => (h pre x post e).answers).2
    intro a b hab
    obtain ⟨rfl, rfl⟩ := not_not.mp hab
    rfl
  throttle pre f post e := (h pre f post e).throttle

/-- **Deduplication collapses the verdicts**: in every run, in each segment of the
frames that reach the matcher. -/
theorem verdicts_collapsed [LinearOrder K] [BoundedOrder K] [FloatArith K] (p : Pipeline K)
    (cs : List (Cycle K F D)) :
    ∀ seg ∈ (frames p .start cs).splitBy (near p), Collapsed p seg := by
  intro seg hseg
  obtain ⟨before, after, heq, hchain, hcut⟩ := exists_segment hseg
  obtain ⟨d, hr⟩ := run_frames p .start cs
  rw [heq] at hr
  obtain ⟨d₂, hr₂, -⟩ := hr.of_append
  obtain ⟨d₁, hb, hs⟩ := hr₂.of_append
  exact collapsed_of_lawful (lawful_segment hb hs hcut hchain)

/-- A stranger is matched at 1.75 s, 3.5 s and 8.75 s: two segments. -/
theorem verdicts_collapsed_example :
    let p : Pipeline ExtRat := .ofConfig exampleConfig
    let cs : List (Cycle ExtRat Unit Unit) :=
      [1000, 1250, 1500, 1750, 2750, 3000, 3250, 3500, 8000, 8250, 8500, 8750].map
        (instant (some ()) (some axis) [])
    ((frames p .start cs).splitBy (near p)).map List.length = [2, 1] ∧
      ∃ seg ∈ (frames p .start cs).splitBy (near p), seg.length = 2 ∧ Collapsed p seg := by
  intro p cs
  have hlen : ((frames p .start cs).splitBy (near p)).map List.length = [2, 1] := by
    decide +kernel
  refine ⟨hlen, ?_⟩
  obtain ⟨seg, hseg, h2⟩ : ∃ seg ∈ (frames p .start cs).splitBy (near p), seg.length = 2 := by
    refine List.mem_map.mp ?_
    rw [hlen]
    exact List.mem_cons_self
  exact ⟨seg, hseg, h2, verdicts_collapsed p cs seg hseg⟩

end FaceGate.L3.Collapse
