import FaceGate.Core.Log
import FaceGate.L1Domain.Json
import FaceGate.L3Edge.MainLoop
import Mathlib.Data.List.Chain

/-!
# The stabilization streak

A face is handed to the embedder once it has been detected for
`face_stabilization_ms`, no two detections more than 300 ms apart. The loop keeps of
the streak its start and the last detection; `recorded` runs the loop beside the list
of all detections.

* `embedded_stable`: what the two readings say of the list. The streak is a tail of the
  detections with no gap beyond the grace, so a frame that reaches the embedder has
  been seen for long enough, and no iteration acts on another one.
* `never_restarts_iff`: the gap is measured from the end of one detection to the end of
  the next. With a face on every frame a streak breaks exactly when an iteration takes
  longer than the grace, as it does on the target board (`embedding_restarts`).
-/
namespace FaceGate.L3.Stabilization

open Core FaceGate.L1 FaceGate.L1.Domain FaceGate.L2 FaceGate.L3.MainLoop

variable {K F D : Type}

/-! ## What an iteration does to the streak -/

/-- The iteration gets a frame, and a face on it. -/
def detects (s : LoopState) (c : Cycle K F D) : Bool :=
  captures s c && (c.capture.bind c.detectBest).isSome

/-- The iteration hands its frame to the embedder. -/
def embeds (p : Pipeline K) (s : LoopState) (c : Cycle K F D) : Bool := (toEmbedder p s c).isOk

/-- The streak after the iteration. -/
def streakAfter (s : LoopState) (c : Cycle K F D) : Streak :=
  if detects s c then s.streak.detect c.detectEnd else s.streak

theorem toEmbedder_streak (p : Pipeline K) (s : LoopState) (c : Cycle K F D) :
    match toEmbedder p s c with
    | .error out => out.1.streak = streakAfter s c
    | .ok a => a.1.streak = streakAfter s c := by
  unfold toEmbedder blockGate captureStage detectStage streakAfter detects captures
  by_cases hb : c.loopStart < s.blockUntil
  · simp [hb, bind, Except.bind]
  · cases hcap : c.capture with
    | none => simp [hb, bind, Except.bind]
    | some frame =>
      cases hdet : c.detectBest frame with
      | none => simp [hb, hdet, bind, Except.bind]
      | some d =>
        unfold stabilizationGate
        by_cases hst : stabilizing p (s.streak.detect c.detectEnd) c.detectEnd = true
        · simp [hb, hdet, hst, bind, Except.bind]
        · simp [hb, hdet, hst, bind, Except.bind, pure, Except.pure]

theorem decideBranch_streak (p : Pipeline K) (s : LoopState) (c : Cycle K F D)
    (m : MatchResult K) : (decideBranch p s c m).1.streak = s.streak := by
  unfold decideBranch
  split <;> split <;> rfl

/-- A frame gets to the embedder detected, and after the stabilization time. -/
theorem embeds_stable {p : Pipeline K} (hp : 0 < p.faceStabilizationMs) {s : LoopState}
    {c : Cycle K F D} (h : embeds p s c = true) :
    detects s c = true ∧
      p.faceStabilization ≤ c.detectEnd - (s.streak.detect c.detectEnd).streakStart := by
  have hg := gate_toEmbedder p s c
  unfold embeds at h
  cases ht : toEmbedder p s c with
  | error out =>
    rw [ht] at h
    cases h
  | ok a =>
    rw [ht] at hg
    have hs : Stable p s c a.1 a.2.1 a.2.2.1 := hg
    constructor
    · simp [detects, captures, hs.unblocked, hs.capture, hs.detect]
    · have hstable := hs.stable
      rw [hs.state] at hstable
      simpa [stabilizing, hp] using hstable

variable [LinearOrder K] [BoundedOrder K] [FloatArith K]

/-- Only the gate moves the streak, and only on a detection. -/
theorem iterate_streak (p : Pipeline K) (s : LoopState) (c : Cycle K F D) :
    (iterate p s c).1.streak = streakAfter s c := by
  have h := toEmbedder_streak p s c
  unfold iterate toMatcher
  cases ht : toEmbedder p s c with
  | error out =>
    rw [ht] at h
    exact h
  | ok a =>
    rw [ht] at h
    obtain ⟨s', frame, detection, sample⟩ := a
    have hs' : s'.streak = streakAfter s c := h
    simp only [bind, Except.bind, embedStage]
    cases hext : c.extract frame detection with
    | none => exact hs'
    | some v =>
      simp only [pure, Except.pure, decideStage]
      rw [decideBranch_streak]
      exact hs'

/-- Nothing is decided before the embedder has the frame. -/
theorem quiet_of_not_embeds {p : Pipeline K} {s : LoopState} {c : Cycle K F D}
    (h : embeds p s c = false) : verdict p s c = none ∧ Quiet (iterate p s c).2 := by
  have hg := gate_toEmbedder p s c
  unfold embeds at h
  unfold verdict iterate toMatcher
  cases ht : toEmbedder p s c with
  | error out =>
    rw [ht] at hg
    exact ⟨rfl, Passed.quiet hg⟩
  | ok a =>
    rw [ht] at h
    cases h

/-! ## The list of detections -/

/-- What an iteration saw and did: the end of its detection, if there was a face,
whether the embedder got the frame, and whether anything was decided. -/
structure Look where
  detected : Option Time
  embedded : Bool
  acted : Bool
  deriving DecidableEq, Repr

def look (p : Pipeline K) (s : LoopState) (c : Cycle K F D) : Look where
  detected := if detects s c then some c.detectEnd else none
  embedded := embeds p s c
  acted := (verdict p s c).isSome || !(deviceCalls (iterate p s c).2).isEmpty ||
    !(events (iterate p s c).2).isEmpty

def detections (h : List Look) : List Time := h.filterMap Look.detected

def recorded (p : Pipeline K) : LTS (State K × List Look) (Cycle K F D) :=
  ((system p).guard Clocked).recording (fun _ => []) fun h s c _ => h ++ [look p s.loop c]

/-- Consecutive detections of one streak. -/
def Close (a b : Time) : Prop := a ≤ b ∧ b - a ≤ kStreakGapGrace

/-- Before the detection at `t`, and with it, the face has been seen for the
stabilization time. -/
def SeenLongEnough (p : Pipeline K) (seen : List Time) (t : Time) : Prop :=
  ∃ early t₀ streak, seen ++ [t] = early ++ t₀ :: streak ∧ (t₀ :: streak).IsChain Close ∧
    p.faceStabilization ≤ t - t₀

/-- A frame that goes to the embedder, or leads to anything, has been seen long enough. -/
def Sound (p : Pipeline K) (before : List Look) (x : Look) : Prop :=
  x.embedded = true ∨ x.acted = true →
    ∃ t, x.detected = some t ∧ SeenLongEnough p (detections before) t

/-- The streak is the tail of the detections from `streak_start` on. -/
def IsStreak (k : Streak) (seen : List Time) : Prop :=
  ∃ early chain, seen = early ++ chain ∧ chain.IsChain Close ∧
    chain.head? = some k.streakStart ∧ chain.getLast? = some k.lastDetectAt

theorem IsStreak.detect {k : Streak} {seen : List Time} {t : Time}
    (h : k.streakStart ≠ 0 → IsStreak k seen ∧ k.lastDetectAt ≤ t) :
    IsStreak (k.detect t) (seen ++ [t]) := by
  unfold Streak.detect
  by_cases hnew : newStreak k t = true
  · rw [if_pos hnew]
    exact ⟨seen, [t], rfl, .singleton t, rfl, rfl⟩
  · rw [if_neg hnew]
    have hcont : k.streakStart ≠ 0 ∧ t - k.lastDetectAt ≤ kStreakGapGrace := by
      simpa [newStreak] using hnew
    obtain ⟨⟨early, chain, rfl, hchain, hhead, hlast⟩, ht⟩ := h hcont.1
    refine ⟨early, chain ++ [t], List.append_assoc .., ?_, ?_, List.getLast?_concat ..⟩
    · refine List.isChain_append.mpr ⟨hchain, .singleton t, ?_⟩
      intro x hx y hy
      obtain rfl : k.lastDetectAt = x := Option.some.inj (hlast.symm.trans hx)
      obtain rfl : t = y := Option.some.inj hy
      exact ⟨ht, hcont.2⟩
    · rw [List.head?_append, hhead]
      rfl

omit [LinearOrder K] [BoundedOrder K] [FloatArith K] in
/-- The readings between which a detection ends. -/
theorem Clocked.detectEnd {s : State K} {c : Cycle K F D} (h : Clocked s c) :
    s.now ≤ c.detectEnd ∧ c.detectEnd ≤ c.publishEnd := by
  have hsorted := h.pairwise
  unfold Cycle.readings at hsorted
  simp only [List.pairwise_cons, List.mem_cons] at hsorted
  obtain ⟨hnow, -, -, -, -, hdetect, -⟩ := hsorted
  exact ⟨hnow _ (by simp), hdetect _ (by simp)⟩

/-- The streak before an iteration: none, or one the next detection may continue. -/
def Continues (k : Streak) (h : List Look) (now : Time) : Prop :=
  k.streakStart ≠ 0 → IsStreak k (detections h) ∧ k.lastDetectAt ≤ now

theorem Continues.mono {k : Streak} {h : List Look} {now now' : Time} (hk : Continues k h now)
    (hle : now ≤ now') : Continues k h now' :=
  fun h0 => (hk h0).imp_right fun hlast => hlast.trans hle

omit [LinearOrder K] [BoundedOrder K] [FloatArith K] in
theorem detections_concat (h : List Look) (x : Look) :
    detections (h ++ [x]) = detections h ++ x.detected.toList := by
  cases hx : x.detected <;> simp [detections, hx]

theorem streak_look {p : Pipeline K} {s : LoopState} {c : Cycle K F D} {h : List Look}
    (hk : Continues s.streak h c.detectEnd) (hend : c.detectEnd ≤ c.publishEnd) :
    Continues (iterate p s c).1.streak (h ++ [look p s c]) c.publishEnd := by
  rw [iterate_streak, streakAfter]
  unfold Continues
  rw [detections_concat]
  by_cases hd : detects s c = true
  · simp only [hd, if_true, look, Option.toList_some]
    exact fun _ => ⟨IsStreak.detect hk, hend⟩
  · simp only [hd, Bool.false_eq_true, if_false, look, Option.toList_none, List.append_nil]
    exact hk.mono hend

theorem sound_look {p : Pipeline K} (hp : 0 < p.faceStabilizationMs) {s : LoopState}
    {c : Cycle K F D} {h : List Look} (hk : Continues s.streak h c.detectEnd) :
    Sound p h (look p s c) := by
  intro hx
  have hemb : embeds p s c = true := by
    by_contra hne
    obtain ⟨hv, hq⟩ := quiet_of_not_embeds (Bool.eq_false_iff.mpr hne)
    simp [look, hne, hv, hq.devices, hq.events] at hx
  obtain ⟨hd, hlong⟩ := embeds_stable hp hemb
  obtain ⟨early, chain, hseen, hchain, hhead, -⟩ := IsStreak.detect hk
  obtain ⟨rest, rfl⟩ := List.head?_eq_some_iff.mp hhead
  exact ⟨c.detectEnd, if_pos hd, early, _, rest, hseen, hchain, hlong⟩

structure Inv (p : Pipeline K) (s : State K) (h : List Look) : Prop where
  streak : s.loop.streak.streakStart ≠ 0 →
    IsStreak s.loop.streak (detections h) ∧ s.loop.streak.lastDetectAt ≤ s.now
  sound : Justified (Sound p) h

theorem inductive_inv {p : Pipeline K} (hp : 0 < p.faceStabilizationMs) :
    (recorded (F := F) (D := D) p).Inductive fun q => Inv p q.1 q.2 where
  init q hq := by
    obtain ⟨s, h⟩ := q
    obtain ⟨⟨t, hs⟩, hh⟩ := hq
    obtain rfl : s = .start t := hs
    obtain rfl : h = [] := hh
    exact ⟨fun h => absurd rfl h, justified_nil⟩
  step q c q' hi hs := by
    obtain ⟨s, h⟩ := q
    obtain ⟨s', h'⟩ := q'
    obtain ⟨⟨hstep, hclock⟩, hh⟩ := hs
    obtain rfl : h' = h ++ [look p s.loop c] := hh
    obtain rfl := Option.some.inj hstep
    obtain ⟨hnow, hend⟩ := Clocked.detectEnd hclock
    have hk := Continues.mono hi.streak hnow
    exact ⟨streak_look hk hend, justified_concat.mpr ⟨hi.sound, sound_look hp hk⟩⟩

/-- **No face is looked at before it has been seen for long enough.** -/
theorem embedded_stable {p : Pipeline K} (hp : 0 < p.faceStabilizationMs) {a b : State K}
    {cs : List (Cycle K F D)} (ha : (system (F := F) (D := D) p).init a)
    (hr : ((system p).guard Clocked).Run a cs b) :
    ∃ h, (recorded p).Run (a, []) cs (b, h) ∧
      ∀ before x after, h = before ++ x :: after → x.embedded = true ∨ x.acted = true →
        ∃ t, x.detected = some t ∧ SeenLongEnough p (detections before) t := by
  obtain ⟨h, hrun⟩ := hr.recording []
  exact ⟨h, hrun, ((inductive_inv hp).reachable (b, h) ⟨(a, []), cs, ⟨ha, rfl⟩, hrun⟩).sound⟩

/-! ## A face on every frame -/

/-- The camera delivers, and the detector finds a face. -/
def Visible (c : Cycle K F D) : Prop := c.capture.isSome ∧ Detected c

instance (c : Cycle K F D) : Decidable (Visible c) := inferInstanceAs (Decidable (_ ∧ _))

/-- The end of the last detection, unless the loop has waited in a block window since, and
whether a detection has restarted the streak with no block window before it. -/
structure Watch where
  lastSeen : Option Time
  restarted : Bool
  deriving DecidableEq, Repr

def Watch.note (w : Watch) (s : State K) (c : Cycle K F D) (_ : State K) : Watch :=
  if captures s.loop c then
    ⟨some c.detectEnd, w.restarted || (w.lastSeen.isSome && newStreak s.loop.streak c.detectEnd)⟩
  else { w with lastSeen := none }

def watched (p : Pipeline K) : LTS (State K × Watch) (Cycle K F D) :=
  ((system p).recording (fun _ => ⟨none, false⟩) Watch.note).guard fun _ c => Visible c

/-- From the end of a detection to the end of the next at most the grace. A streak that
began at the clock's epoch counts as none. -/
def Prompt (q : State K × Watch) (c : Cycle K F D) : Prop :=
  captures q.1.loop c → ∀ t ∈ q.2.lastSeen,
    c.detectEnd - t ≤ kStreakGapGrace ∧ q.1.loop.streak.streakStart ≠ 0

theorem watch_step {p : Pipeline K} {q q' : State K × Watch} {c : Cycle K F D}
    (hi : ∀ t ∈ q.2.lastSeen, q.1.loop.streak.lastDetectAt = t)
    (hs : (watched p).step q c q') :
    (∀ t ∈ q'.2.lastSeen, q'.1.loop.streak.lastDetectAt = t) ∧
      (q'.2.restarted = false ↔ q.2.restarted = false ∧ Prompt q c) := by
  obtain ⟨s, w⟩ := q
  obtain ⟨s', w'⟩ := q'
  obtain ⟨⟨hstep, hw⟩, hvisible⟩ := hs
  obtain rfl : w' = w.note s c s' := hw
  obtain rfl := Option.some.inj hstep
  unfold Watch.note Prompt
  by_cases hc : captures s.loop c = true
  · have hd : detects s.loop c = true := by
      obtain ⟨frame, hframe⟩ := Option.isSome_iff_exists.mp hvisible.1
      simp [detects, hc, hframe, hvisible.2 frame hframe]
    simp only [hc, if_true, forall_const]
    constructor
    · intro t ht
      obtain rfl := Option.some.inj ht
      rw [iterate_streak, streakAfter, if_pos hd]
      rfl
    · cases hl : w.lastSeen with
      | none => simp
      | some t =>
        have hlast : s.loop.streak.lastDetectAt = t := hi t hl
        simp [newStreak, hlast, and_comm]
  · simp [hc]

/-- **When the streak holds.** With a face on every frame, it is restarted between two
frames with no block window in between exactly if some two of them are too far apart. -/
theorem never_restarts_iff {p : Pipeline K} {a b : State K × Watch} {cs : List (Cycle K F D)}
    (ha : (watched (F := F) (D := D) p).init a) (hr : (watched p).Run a cs b) :
    b.2.restarted = false ↔ ((watched p).guard Prompt).Run a cs b := by
  have hwatch : a.2 = ⟨none, false⟩ := ha.2
  have hiff := hr.guard_iff (P := fun q => q.2.restarted = false)
    (fun _ _ _ hi hs => watch_step hi hs) (by rw [hwatch]; exact fun _ ht => (nomatch ht))
  rw [hiff, hwatch]
  exact and_iff_right rfl

/-! ## Runs -/

/-- A stranger in front of the camera, at a time in milliseconds; the embedder takes as long
as is given. -/
def stranger (ms : ℤ) (embedMs : ℤ) : Cycle ExtRat Unit Unit :=
  let c := instant (some ()) (some (axis.map fun _ => .nan)) [⟨1, 7, axis⟩] ms
  let t := milliseconds (ms + embedMs)
  { c with
    embedEnd := t
    matchStart := t
    matchEnd := t
    current := t
    blockNow := t
    publishStart := t
    publishEnd := t }

/-- The streak of four frames that leads to the first denial, and its block window. -/
def denied : List (Cycle ExtRat Unit Unit) :=
  ([1000, 1250, 1500, 1750] ++ (List.range 20).map fun i : ℕ => (1750 + 50 * i : ℤ)).map
    fun ms => stranger ms 0

theorem embedded_stable_denied :
    ∃ (b : State ExtRat) (h : List Look), 0 < b.history.length ∧
      (recorded (.ofConfig exampleConfig)).Run (.start 0, []) denied (b, h) ∧
      ∀ before x after, h = before ++ x :: after → x.embedded = true ∨ x.acted = true →
        ∃ t, x.detected = some t ∧
          SeenLongEnough (.ofConfig exampleConfig) (detections before) t := by
  obtain ⟨b, hr, hb⟩ := LTS.exists_run_where (fun s => ∃ t, s = State.start t)
    (step (.ofConfig exampleConfig)) Clocked (.start 0) denied
    (fun b => deviceCalls (b.history.map Prod.snd) = [.showDenied 1000, .beepDenied])
    (by decide +kernel)
  have hpos : 0 < b.history.length := by
    refine List.length_pos_iff.mpr ?_
    intro hnil
    rw [hnil] at hb
    cases hb
  obtain ⟨h, hh⟩ := embedded_stable (by decide) ⟨0, rfl⟩ hr
  exact ⟨b, h, hpos, hh⟩

theorem watched_eq (p : Pipeline K) : watched (F := F) (D := D) p =
    (LTS.ofStep (fun q => (∃ t, q.1 = State.start t) ∧ q.2 = ⟨none, false⟩)
      (LTS.recordStep (step p) Watch.note)).guard fun _ c => Visible c := by
  unfold watched system
  rw [LTS.recording_ofStep]

/-- Three frames a quarter of a second apart. -/
theorem never_restarts_prompt :
    ∃ b : State ExtRat × Watch, b.2.restarted = false ∧
      ((watched (.ofConfig exampleConfig)).guard Prompt).Run (.start 0, ⟨none, false⟩)
        ([1000, 1250, 1500].map fun ms => stranger ms 0) b := by
  obtain ⟨b, hr, hb⟩ := LTS.exists_run_where _
    (LTS.recordStep (step (.ofConfig exampleConfig)) Watch.note) (fun _ c => Visible c)
    (.start 0, ⟨none, false⟩) ([1000, 1250, 1500].map fun ms => stranger ms 0)
    (fun b => b.2.restarted = false) (by decide +kernel)
  rw [← watched_eq] at hr
  exact ⟨b, hb, (never_restarts_iff ⟨⟨0, rfl⟩, rfl⟩ hr).mp hb⟩

/-- The denial over, the stranger stays, and nothing more is decided: the embedder takes
634 ms, and the next frame starts a new streak. -/
theorem embedding_restarts :
    exampleConfig.validate = .ok () ∧
    ∃ b : State ExtRat × Watch,
      ((watched (D := Unit) (F := Unit) (.ofConfig exampleConfig)).guard
        fun q c => Clocked q.1 c).Reachable b ∧ b.2.restarted = true := by
  refine ⟨exampleConfig_valid, ?_⟩
  obtain ⟨b, hr, hb⟩ := LTS.exists_run_where _
    (LTS.recordStep (step (.ofConfig exampleConfig)) Watch.note)
    (fun q c => Visible c ∧ Clocked q.1 c) (.start 0, ⟨none, false⟩)
    (denied ++ [2750, 3000, 3250].map (fun ms => stranger ms 0) ++
      [stranger 3500 634, stranger 4150 0])
    (fun b => b.2.restarted = true) (by decide +kernel)
  have hrun := hr.guard_guard
  rw [← watched_eq] at hrun
  exact ⟨b, ⟨_, _, ⟨⟨0, rfl⟩, rfl⟩, hrun⟩, hb⟩

end FaceGate.L3.Stabilization
