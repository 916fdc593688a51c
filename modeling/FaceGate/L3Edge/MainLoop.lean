import FaceGate.Core.LTS
import FaceGate.L1Domain.Config
import FaceGate.L2Device.Matcher

/-!
# The recognition loop

One iteration of `Pipeline::main_loop` is `iterate`: from the locals of the loop
and what the iteration reads (clock, frame, stages, matcher cache, publisher and
storage) to the new locals and the calls it makes, in order. The gates in front
of the matcher (block window, capture, detection, stabilization, embedding) each
may leave with a `continue` (`Stage`); behind them the verdict meets the
deduplication state.

* `gate_toMatcher`: what a frame has passed when it gets to the matcher, and that
  an iteration that does not get there decides nothing.
* `iterate_judgement`: an iteration does what the deduplication machine (`judge`)
  makes of its verdict.

`system` is the loop with the history of its calls, each stamped with the reading
`current` of its iteration.
-/
namespace FaceGate.L3.MainLoop

open Core FaceGate.L1 FaceGate.L1.Domain FaceGate.L2

/-! ## Parameters -/

/-- The values the constructor keeps, and the matcher's threshold.
mirrors edge/src/pipeline/pipeline.cpp:47-67 -/
structure Pipeline (K : Type) where
  threshold : Flt K
  deviceId : String
  idleResetSeconds : ℤ
  unknownThrottleSeconds : ℤ
  openHoldMs : ℤ
  deniedCooldownMs : ℤ
  faceStabilizationMs : ℤ
  profiler : Bool

section Durations
variable {K : Type} (p : Pipeline K)

def Pipeline.idleReset : Time := seconds p.idleResetSeconds
def Pipeline.unknownThrottle : Time := seconds p.unknownThrottleSeconds
def Pipeline.openHold : Time := milliseconds p.openHoldMs
def Pipeline.deniedCooldown : Time := milliseconds p.deniedCooldownMs
def Pipeline.faceStabilization : Time := milliseconds p.faceStabilizationMs

end Durations

/-- mirrors edge/apps/facegate/main.cpp:137-140,170-189 -/
def Pipeline.ofConfig {K : Type} (cfg : Config K) : Pipeline K where
  threshold := cfg.vision.threshold
  deviceId := cfg.deviceId
  idleResetSeconds := cfg.recognition.idleResetSeconds
  unknownThrottleSeconds := cfg.recognition.unknownThrottleSeconds
  openHoldMs := cfg.gpio.servoOpenMs
  deniedCooldownMs := cfg.recognition.deniedCooldownMs
  faceStabilizationMs := cfg.recognition.faceStabilizationMs
  profiler := cfg.metrics.csvPath ≠ "" || 0 < cfg.metrics.summaryIntervalCycles

/-- mirrors edge/src/pipeline/pipeline.cpp:151 -/
def kStreakGapGrace : Time := milliseconds 300

/-! ## State, inputs and calls -/

/-- mirrors edge/src/pipeline/pipeline.cpp:134-138 -/
structure Dedup where
  lastStatus : Option AccessStatus
  lastEmployee : Option EmployeeId
  lastFaceSeenAt : Time
  lastUnknownEmittedAt : Time
  everSeenFace : Bool
  deriving DecidableEq, Repr

/-- mirrors edge/src/pipeline/pipeline.cpp:149-150 -/
structure Streak where
  streakStart : Time
  lastDetectAt : Time
  deriving DecidableEq, Repr

/-- The locals of the loop; a default `time_point` is 0. -/
structure LoopState where
  dedup : Dedup
  blockUntil : Time
  streak : Streak
  deriving DecidableEq, Repr

def LoopState.start : LoopState := ⟨⟨none, none, 0, 0, false⟩, 0, ⟨0, 0⟩⟩

/-- What one iteration reads: the clocks, in program order; the frame the camera
hands over; the two inference stages; the matcher's cache when `find_match` locks
it; whether the publisher takes the message and, if not, Storage the row.
A reading the iteration does not get to has no effect. -/
structure Cycle (K F D : Type) where
  loopStart : Time
  captureStart : Time
  captureEnd : Time
  detectStart : Time
  detectEnd : Time
  embedStart : Time
  embedEnd : Time
  matchStart : Time
  matchEnd : Time
  current : Time
  blockNow : Time
  publishStart : Time
  publishEnd : Time
  wall : Timestamp
  capture : Option F
  detectBest : F → Option D
  extract : F → D → Option (EmbeddingVector K)
  cache : List (Embedding K)
  accepted : Bool
  stored : Bool

/-- Durations in microseconds.
mirrors edge/src/pipeline/stage_profiler.hpp:15-21 -/
structure CycleSample where
  capture : ℤ
  detect : Option ℤ
  embed : Option ℤ
  match_ : Option ℤ
  publish : Option ℤ
  deriving DecidableEq, Repr

/-- `duration_cast<microseconds>` -/
def micros (d : Time) : ℤ := d.tdiv 1000

/-- A message of the loop, as handed to `serialize`. -/
inductive Notice (K : Type) where
  | event (e : AccessEvent K)
  | fault (f : DeviceFault) (deviceId : String)
  deriving DecidableEq, Repr

/-- The calls an iteration makes. `enqueue … false`: Storage threw. -/
inductive Effect (K : Type) where
  | sleep (d : Time)
  | record (s : CycleSample)
  | grantAccess
  | showGranted (holdMs : ℤ)
  | showDenied (holdMs : ℤ)
  | beepDenied
  | publish (n : Notice K) (accepted : Bool)
  | enqueue (n : Notice K) (stored : Bool)
  deriving DecidableEq, Repr

section Loop
variable {K F D : Type}

/-- mirrors edge/src/pipeline/pipeline.cpp:109-122 -/
def tryPublishOrEnqueue (c : Cycle K F D) (n : Notice K) : List (Effect K) :=
  if c.accepted then [.publish n true] else [.publish n false, .enqueue n c.stored]

/-- `if (profiler_) profiler_->record(sample)` -/
def record (p : Pipeline K) (sample : CycleSample) : List (Effect K) :=
  if p.profiler then [.record sample] else []

/-! ## The gates before the matcher -/

/-- The state and the calls with which an iteration ends. -/
abbrev Outcome (K : Type) := LoopState × List (Effect K)

/-- `error` is a `continue`. -/
abbrev Stage (K α : Type) := Except (Outcome K) α

/-- mirrors edge/src/pipeline/pipeline.cpp:154-161 -/
def blockGate (s : LoopState) (c : Cycle K F D) : Stage K Unit :=
  if c.loopStart < s.blockUntil then
    .error (s, [.sleep (min (s.blockUntil - c.loopStart) (milliseconds 50))])
  else .ok ()

/-- mirrors edge/src/pipeline/pipeline.cpp:163-174 -/
def captureStage (s : LoopState) (c : Cycle K F D) : Stage K (F × CycleSample) :=
  match c.capture with
  | none => .error (s, [.sleep (milliseconds 10)])
  | some frame => .ok (frame, ⟨micros (c.captureEnd - c.captureStart), none, none, none, none⟩)

/-- mirrors edge/src/pipeline/pipeline.cpp:176-184 -/
def detectStage (p : Pipeline K) (s : LoopState) (c : Cycle K F D) (frame : F)
    (sample : CycleSample) : Stage K (D × CycleSample) :=
  let sample := { sample with detect := some (micros (c.detectEnd - c.detectStart)) }
  match c.detectBest frame with
  | none => .error (s, record p sample ++ [.sleep (milliseconds 10)])
  | some detection => .ok (detection, sample)

/-- mirrors edge/src/pipeline/pipeline.cpp:191-193 -/
def newStreak (k : Streak) (detectTime : Time) : Bool :=
  k.streakStart = 0 || kStreakGapGrace < detectTime - k.lastDetectAt

/-- mirrors edge/src/pipeline/pipeline.cpp:190-197 -/
def Streak.detect (k : Streak) (detectTime : Time) : Streak where
  streakStart := if newStreak k detectTime then detectTime else k.streakStart
  lastDetectAt := detectTime

/-- mirrors edge/src/pipeline/pipeline.cpp:198-199 -/
def stabilizing (p : Pipeline K) (k : Streak) (detectTime : Time) : Bool :=
  0 < p.faceStabilizationMs && detectTime - k.streakStart < p.faceStabilization

/-- mirrors edge/src/pipeline/pipeline.cpp:190-203 -/
def stabilizationGate (p : Pipeline K) (s : LoopState) (c : Cycle K F D) (sample : CycleSample) :
    Stage K LoopState :=
  let s := { s with streak := s.streak.detect c.detectEnd }
  if stabilizing p s.streak c.detectEnd then
    .error (s, record p sample ++ [.sleep (milliseconds 10)])
  else .ok s

/-- mirrors edge/src/pipeline/pipeline.cpp:205-221 -/
def embedStage (p : Pipeline K) (s : LoopState) (c : Cycle K F D) (frame : F) (detection : D)
    (sample : CycleSample) : Stage K (EmbeddingVector K × CycleSample) :=
  let sample := { sample with embed := some (micros (c.embedEnd - c.embedStart)) }
  match c.extract frame detection with
  | none =>
    let fault : DeviceFault :=
      ⟨c.wall, .inferenceFailure, "FaceEmbedder failed to extract embedding"⟩
    .error (s, tryPublishOrEnqueue c (.fault fault p.deviceId) ++ record p sample ++
      [.sleep (milliseconds 10)])
  | some embedding => .ok (embedding, sample)

/-- The frame and the detection that go to the embedder. -/
def toEmbedder (p : Pipeline K) (s : LoopState) (c : Cycle K F D) :
    Stage K (LoopState × F × D × CycleSample) := do
  blockGate s c
  let (frame, sample) ← captureStage s c
  let (detection, sample) ← detectStage p s c frame sample
  let s ← stabilizationGate p s c sample
  return (s, frame, detection, sample)

/-- The embedding that goes to the matcher.
mirrors edge/src/pipeline/pipeline.cpp:154-221 -/
def toMatcher (p : Pipeline K) (s : LoopState) (c : Cycle K F D) :
    Stage K (LoopState × EmbeddingVector K × CycleSample) := do
  let (s, frame, detection, sample) ← toEmbedder p s c
  let (embedding, sample) ← embedStage p s c frame detection sample
  return (s, embedding, sample)

/-! ## The verdict and the deduplication state -/

/-- mirrors edge/src/pipeline/pipeline.cpp:228-230 -/
def faceWasAbsent (p : Pipeline K) (d : Dedup) (current : Time) : Bool :=
  d.everSeenFace && p.idleReset < current - d.lastFaceSeenAt

/-- mirrors edge/src/pipeline/pipeline.cpp:234-237 -/
def afterIdle (p : Pipeline K) (d : Dedup) (current : Time) : Dedup :=
  if faceWasAbsent p d current then { d with lastStatus := none, lastEmployee := none } else d

/-- mirrors edge/src/pipeline/pipeline.cpp:250-257 -/
def emitsGranted (d : Dedup) (employee : EmployeeId) : Bool :=
  let firstTime := d.lastStatus = none
  let differentEmployee := d.lastStatus = some .granted ∧ d.lastEmployee ≠ some employee
  let wasUnknownBefore := d.lastStatus = some .unknown
  firstTime ∨ differentEmployee ∨ wasUnknownBefore

/-- mirrors edge/src/pipeline/pipeline.cpp:279-286 -/
def emitsUnknown (p : Pipeline K) (d : Dedup) (current : Time) : Bool :=
  let wasNotUnknown := d.lastStatus = none ∨ d.lastStatus ≠ some .unknown
  let throttleExpired :=
    d.lastStatus = some .unknown ∧ p.unknownThrottle ≤ current - d.lastUnknownEmittedAt
  wasNotUnknown ∨ throttleExpired

/-- The state after the branch, its calls, and the event if `should_emit`.
mirrors edge/src/pipeline/pipeline.cpp:239-299 -/
def decideBranch (p : Pipeline K) (s : LoopState) (c : Cycle K F D) :
    MatchResult K → LoopState × List (Effect K) × Option (AccessEvent K)
  | some m =>
    if emitsGranted s.dedup m.employee then
      ({ s with
          dedup := { s.dedup with lastStatus := some .granted, lastEmployee := some m.employee }
          blockUntil := c.blockNow + p.openHold },
        [.grantAccess, .showGranted p.openHoldMs],
        some ⟨c.wall, .granted, some m.employee, some m.distance⟩)
    else (s, [], none)
  | none =>
    if emitsUnknown p s.dedup c.current then
      ({ s with
          dedup := { s.dedup with
            lastStatus := some .unknown
            lastEmployee := none
            lastUnknownEmittedAt := c.current }
          blockUntil := c.blockNow + p.deniedCooldown },
        [.showDenied p.deniedCooldownMs, .beepDenied],
        some ⟨c.wall, .unknown, none, none⟩)
    else (s, [], none)

/-- mirrors edge/src/pipeline/pipeline.cpp:301-302 -/
def Dedup.seen (d : Dedup) (current : Time) : Dedup :=
  { d with lastFaceSeenAt := current, everSeenFace := true }

/-- mirrors edge/src/pipeline/pipeline.cpp:304-312 -/
def finish (p : Pipeline K) (c : Cycle K F D) (sample : CycleSample) :
    Option (AccessEvent K) → List (Effect K)
  | some e => tryPublishOrEnqueue c (.event e) ++
      record p { sample with publish := some (micros (c.publishEnd - c.publishStart)) }
  | none => record p sample

/-- mirrors edge/src/pipeline/pipeline.cpp:228-312 -/
def decideStage (p : Pipeline K) (s : LoopState) (c : Cycle K F D) (sample : CycleSample)
    (m : MatchResult K) : Outcome K :=
  let s := { s with dedup := afterIdle p s.dedup c.current }
  let (s, calls, event) := decideBranch p s c m
  let s := { s with dedup := s.dedup.seen c.current }
  (s, calls ++ finish p c sample event)

variable [LinearOrder K] [BoundedOrder K] [FloatArith K]

/-- mirrors edge/src/pipeline/pipeline.cpp:154-312 -/
def iterate (p : Pipeline K) (s : LoopState) (c : Cycle K F D) : Outcome K :=
  match toMatcher p s c with
  | .error out => out
  | .ok (s, embedding, sample) =>
    let sample := { sample with match_ := some (micros (c.matchEnd - c.matchStart)) }
    decideStage p s c sample (Matcher.findMatch p.threshold c.cache embedding)

/-! ## What an iteration can do -/

/-- What `find_match` answers, if the iteration gets that far. -/
def verdict (p : Pipeline K) (s : LoopState) (c : Cycle K F D) : Option (MatchResult K) :=
  match toMatcher p s c with
  | .error _ => none
  | .ok (_, embedding, _) => some (Matcher.findMatch p.threshold c.cache embedding)

end Loop

section Calls
variable {K : Type}

def grants (l : List (Effect K)) : ℕ := l.countP fun e => e matches .grantAccess

/-- The event a call hands to the publisher. -/
def Effect.event? : Effect K → Option (AccessEvent K)
  | .publish (.event e) _ => some e
  | _ => none

def events (l : List (Effect K)) : List (AccessEvent K) := l.filterMap Effect.event?

@[simp] theorem grants_append (l m : List (Effect K)) : grants (l ++ m) = grants l + grants m :=
  List.countP_append

@[simp] theorem events_append (l m : List (Effect K)) : events (l ++ m) = events l ++ events m :=
  List.filterMap_append

/-- The calls to the turnstile, the LED and the buzzer. -/
def Effect.isDevice : Effect K → Bool
  | .grantAccess | .showGranted _ | .showDenied _ | .beepDenied => true
  | _ => false

def deviceCalls (l : List (Effect K)) : List (Effect K) := l.filter Effect.isDevice

@[simp] theorem deviceCalls_append (l m : List (Effect K)) :
    deviceCalls (l ++ m) = deviceCalls l ++ deviceCalls m := List.filter_append ..

theorem grants_deviceCalls (l : List (Effect K)) : grants (deviceCalls l) = grants l := by
  unfold grants deviceCalls
  rw [List.countP_filter]
  congr 1
  funext e
  cases e <;> rfl

/-- Calls that neither move a device nor hand over an event. -/
structure Quiet (l : List (Effect K)) : Prop where
  devices : deviceCalls l = []
  events : events l = []

theorem Quiet.grants {l : List (Effect K)} (h : Quiet l) : grants l = 0 := by
  rw [← grants_deviceCalls, h.devices]
  rfl

theorem quiet_append {l m : List (Effect K)} (hl : Quiet l) (hm : Quiet m) : Quiet (l ++ m) where
  devices := by rw [deviceCalls_append, hl.devices, hm.devices]; rfl
  events := by rw [events_append, hl.events, hm.events]; rfl

theorem quiet_sleep (d : Time) : Quiet ([.sleep d] : List (Effect K)) := ⟨rfl, rfl⟩

theorem quiet_record (p : Pipeline K) (sample : CycleSample) : Quiet (record p sample) := by
  unfold record
  split <;> exact ⟨rfl, rfl⟩

variable {F D : Type}

theorem quiet_fault (c : Cycle K F D) (f : DeviceFault) (deviceId : String) :
    Quiet (tryPublishOrEnqueue c (.fault f deviceId)) := by
  unfold tryPublishOrEnqueue
  split <;> exact ⟨rfl, rfl⟩

theorem devices_event (c : Cycle K F D) (e : AccessEvent K) :
    deviceCalls (tryPublishOrEnqueue c (.event e)) = [] := by
  unfold tryPublishOrEnqueue
  split <;> rfl

theorem events_event (c : Cycle K F D) (e : AccessEvent K) :
    events (tryPublishOrEnqueue c (.event e)) = [e] := by
  unfold tryPublishOrEnqueue
  split <;> rfl

/-- After the branch, only the event itself is handed over. -/
theorem devices_finish (p : Pipeline K) (c : Cycle K F D) (sample : CycleSample)
    (o : Option (AccessEvent K)) : deviceCalls (finish p c sample o) = [] := by
  cases o with
  | none => exact (quiet_record p sample).devices
  | some e =>
    rw [finish, deviceCalls_append, devices_event, (quiet_record _ _).devices]
    rfl

theorem grants_finish (p : Pipeline K) (c : Cycle K F D) (sample : CycleSample)
    (o : Option (AccessEvent K)) : grants (finish p c sample o) = 0 := by
  rw [← grants_deviceCalls, devices_finish]
  rfl

theorem events_finish (p : Pipeline K) (c : Cycle K F D) (sample : CycleSample)
    (o : Option (AccessEvent K)) : events (finish p c sample o) = o.toList := by
  cases o with
  | none => exact (quiet_record p sample).events
  | some e => rw [finish, events_append, events_event, (quiet_record _ _).events]; rfl

/-! ### The gates -/

/-- A `continue`: the deduplication state and the block window stay, and nothing
is decided. -/
structure Passed (s : LoopState) (out : Outcome K) : Prop where
  dedup : out.1.dedup = s.dedup
  blockUntil : out.1.blockUntil = s.blockUntil
  quiet : Quiet out.2

/-- A gate either leaves with a `continue` or lets through what meets `P`. -/
def Gate (s : LoopState) {α : Type} (P : α → Prop) : Stage K α → Prop
  | .error out => Passed s out
  | .ok a => P a

theorem Gate.bind {s : LoopState} {α β : Type} {P : α → Prop} {Q : β → Prop} {x : Stage K α}
    {f : α → Stage K β} (hx : Gate s P x) (hf : ∀ a, P a → Gate s Q (f a)) :
    Gate s Q (x >>= f) := by
  cases x with
  | error out => exact hx
  | ok a => exact hf a hx

theorem gate_block (s : LoopState) (c : Cycle K F D) :
    Gate s (fun _ => ¬ c.loopStart < s.blockUntil) (blockGate s c) := by
  unfold blockGate
  split
  · exact ⟨rfl, rfl, quiet_sleep _⟩
  · assumption

theorem gate_capture (s : LoopState) (c : Cycle K F D) :
    Gate s (fun a => c.capture = some a.1) (captureStage s c) := by
  unfold captureStage
  split
  · exact ⟨rfl, rfl, quiet_sleep _⟩
  · assumption

theorem gate_detect (p : Pipeline K) (s : LoopState) (c : Cycle K F D) (frame : F)
    (sample : CycleSample) :
    Gate s (fun a => c.detectBest frame = some a.1) (detectStage p s c frame sample) := by
  unfold detectStage
  dsimp only
  split
  · exact ⟨rfl, rfl, quiet_append (quiet_record _ _) (quiet_sleep _)⟩
  · assumption

theorem gate_stabilization (p : Pipeline K) (s : LoopState) (c : Cycle K F D)
    (sample : CycleSample) :
    Gate s (fun s' => s' = { s with streak := s.streak.detect c.detectEnd } ∧
      stabilizing p s'.streak c.detectEnd = false) (stabilizationGate p s c sample) := by
  unfold stabilizationGate
  dsimp only
  split
  · exact ⟨rfl, rfl, quiet_append (quiet_record _ _) (quiet_sleep _)⟩
  · rename_i h
    exact ⟨rfl, by simpa using h⟩

theorem gate_embed (p : Pipeline K) (s : LoopState) (c : Cycle K F D) (frame : F) (detection : D)
    (sample : CycleSample) :
    Gate s (fun a => c.extract frame detection = some a.1)
      (embedStage p s c frame detection sample) := by
  unfold embedStage
  dsimp only
  split
  · exact ⟨rfl, rfl, quiet_append (quiet_append (quiet_fault _ _ _) (quiet_record _ _))
      (quiet_sleep _)⟩
  · assumption

theorem Passed.trans {s s' : LoopState} {out : Outcome K} (hd : s'.dedup = s.dedup)
    (hb : s'.blockUntil = s.blockUntil) (h : Passed s' out) : Passed s out :=
  ⟨h.dedup.trans hd, h.blockUntil.trans hb, h.quiet⟩

/-- What lets a frame through to the embedder. -/
structure Stable (p : Pipeline K) (s : LoopState) (c : Cycle K F D) (s' : LoopState) (frame : F)
    (detection : D) : Prop where
  unblocked : ¬ c.loopStart < s.blockUntil
  capture : c.capture = some frame
  detect : c.detectBest frame = some detection
  state : s' = { s with streak := s.streak.detect c.detectEnd }
  stable : stabilizing p s'.streak c.detectEnd = false

theorem gate_toEmbedder (p : Pipeline K) (s : LoopState) (c : Cycle K F D) :
    Gate s (fun a => Stable p s c a.1 a.2.1 a.2.2.1) (toEmbedder p s c) := by
  refine (gate_block s c).bind fun _ hb => ?_
  refine (gate_capture s c).bind fun a hf => ?_
  refine (gate_detect p s c a.1 a.2).bind fun b hd => ?_
  refine (gate_stabilization p s c b.2).bind fun s' hs => ?_
  exact ⟨hb, hf, hd, hs.1, hs.2⟩

theorem gate_toMatcher (p : Pipeline K) (s : LoopState) (c : Cycle K F D) :
    Gate s (fun a => ∃ frame detection, Stable p s c a.1 frame detection ∧
      c.extract frame detection = some a.2.1) (toMatcher p s c) := by
  refine (gate_toEmbedder p s c).bind fun ⟨s', frame, detection, sample⟩ h => ?_
  have hs : Stable p s c s' frame detection := h
  have he := gate_embed p s' c frame detection sample
  have hd : s'.dedup = s.dedup := by rw [hs.state]
  have hb : s'.blockUntil = s.blockUntil := by rw [hs.state]
  unfold Gate at he
  dsimp only
  split at he
  · rename_i out hout
    rw [hout]
    exact Passed.trans hd hb he
  · rename_i a ha
    rw [ha]
    exact ⟨frame, detection, hs, he⟩

end Calls

/-! ### The deduplication machine -/

section Machine
variable {K F D : Type}

/-- What a verdict does to the deduplication state, how many times it opens the
gate and the event it hands over. -/
structure Judgement (K : Type) where
  dedup : Dedup
  grants : ℕ
  events : List (AccessEvent K)

def judge (p : Pipeline K) (d : Dedup) (c : Cycle K F D) (m : MatchResult K) : Judgement K :=
  let d := afterIdle p d c.current
  match m with
  | some m =>
    if emitsGranted d m.employee then
      ⟨{ d.seen c.current with lastStatus := some .granted, lastEmployee := some m.employee }, 1,
        [⟨c.wall, .granted, some m.employee, some m.distance⟩]⟩
    else ⟨d.seen c.current, 0, []⟩
  | none =>
    if emitsUnknown p d c.current then
      ⟨{ d.seen c.current with
          lastStatus := some .unknown
          lastEmployee := none
          lastUnknownEmittedAt := c.current }, 0, [⟨c.wall, .unknown, none, none⟩]⟩
    else ⟨d.seen c.current, 0, []⟩

def Outcome.judgement (out : Outcome K) : Judgement K :=
  ⟨out.1.dedup, MainLoop.grants out.2, MainLoop.events out.2⟩

theorem decideStage_judgement (p : Pipeline K) (s : LoopState) (c : Cycle K F D)
    (sample : CycleSample) (m : MatchResult K) :
    (decideStage p s c sample m).judgement = judge p s.dedup c m := by
  unfold decideStage Outcome.judgement
  simp only [grants_append, events_append, grants_finish, events_finish]
  unfold judge
  rcases m with _ | m
  · by_cases h : emitsUnknown p (afterIdle p s.dedup c.current) c.current = true
    · simp only [decideBranch, h, if_true]
      rfl
    · simp only [decideBranch, h]
      rfl
  · by_cases h : emitsGranted (afterIdle p s.dedup c.current) m.employee = true
    · simp only [decideBranch, h, if_true]
      rfl
    · simp only [decideBranch, h]
      rfl

variable [LinearOrder K] [BoundedOrder K] [FloatArith K]

/-- The verdict of an iteration goes through the machine; without one nothing is
decided. -/
def decision (p : Pipeline K) (s : LoopState) (c : Cycle K F D) : Judgement K :=
  match verdict p s c with
  | none => ⟨s.dedup, 0, []⟩
  | some m => judge p s.dedup c m

/-- The loop does what the machine decides. -/
theorem iterate_judgement (p : Pipeline K) (s : LoopState) (c : Cycle K F D) :
    (iterate p s c).judgement = decision p s c := by
  have hg := gate_toMatcher p s c
  unfold iterate decision verdict
  cases ht : toMatcher p s c with
  | error out =>
    rw [ht] at hg
    have hp : Passed s out := hg
    simp only [Outcome.judgement, hp.dedup, hp.quiet.grants, hp.quiet.events]
  | ok a =>
    rw [ht] at hg
    obtain ⟨frame, detection, hs, -⟩ := hg
    have hd : a.1.dedup = s.dedup := by rw [hs.state]
    rw [← hd]
    exact decideStage_judgement _ _ _ _ _

/-- A verdict is the matcher's answer on what a frame that passed the gates shows. -/
theorem verdict_stable {p : Pipeline K} {s : LoopState} {c : Cycle K F D} {m : MatchResult K}
    (h : verdict p s c = some m) :
    ∃ s' frame detection embedding, Stable p s c s' frame detection ∧
      c.extract frame detection = some embedding ∧
      m = Matcher.findMatch p.threshold c.cache embedding := by
  have hg := gate_toMatcher p s c
  unfold verdict at h
  split at h
  · cases h
  · rename_i s' embedding sample ht
    rw [ht] at hg
    obtain ⟨frame, detection, hs, he⟩ := hg
    exact ⟨s', frame, detection, embedding, hs, he, (Option.some.inj h).symm⟩

end Machine

/-! ## The system -/

section System
variable {K F D : Type}

/-- The locals, the calls made so far with the reading `current` of their
iteration, the last reading of the clock and when the last frame was taken. -/
structure State (K : Type) where
  loop : LoopState
  history : List (Time × Effect K)
  now : Time
  lastCapture : Option Time
  deriving DecidableEq

def State.start (t : Time) : State K := ⟨.start, [], t, none⟩

/-- The iteration gets past the block gate and a frame. -/
def captures (s : LoopState) (c : Cycle K F D) : Bool :=
  !decide (c.loopStart < s.blockUntil) && c.capture.isSome

def stamp (t : Time) (l : List (Effect K)) : List (Time × Effect K) := l.map fun e => (t, e)

def grantsIn (h : List (Time × Effect K)) : ℕ := grants (h.map Prod.snd)

def eventsIn (h : List (Time × Effect K)) : List (Time × AccessEvent K) :=
  h.filterMap fun e => e.2.event?.map fun a => (e.1, a)

@[simp] theorem grantsIn_append (h k : List (Time × Effect K)) :
    grantsIn (h ++ k) = grantsIn h + grantsIn k := by
  simp only [grantsIn, List.map_append, grants_append]

@[simp] theorem eventsIn_append (h k : List (Time × Effect K)) :
    eventsIn (h ++ k) = eventsIn h ++ eventsIn k := List.filterMap_append

theorem grantsIn_stamp (t : Time) (l : List (Effect K)) : grantsIn (stamp t l) = grants l := by
  simp only [grantsIn, stamp, List.map_map, Function.comp_def, List.map_id']

theorem eventsIn_stamp (t : Time) (l : List (Effect K)) :
    eventsIn (stamp t l) = (events l).map fun a => (t, a) := by
  simp only [eventsIn, stamp, events, List.filterMap_map, List.map_filterMap, Function.comp_def]

/-- All readings of an iteration, in program order. -/
def Cycle.readings (c : Cycle K F D) : List Time :=
  [c.loopStart, c.captureStart, c.captureEnd, c.detectStart, c.detectEnd, c.embedStart, c.embedEnd,
    c.matchStart, c.matchEnd, c.current, c.blockNow, c.publishStart, c.publishEnd]

variable [LinearOrder K] [BoundedOrder K] [FloatArith K]

def step (p : Pipeline K) (s : State K) (c : Cycle K F D) : Option (State K) :=
  let out := iterate p s.loop c
  some {
    loop := out.1
    history := s.history ++ stamp c.current out.2
    now := c.publishEnd
    lastCapture := if captures s.loop c then some c.captureEnd else s.lastCapture }

/-- mirrors edge/src/pipeline/pipeline.cpp:126-314 -/
def system (p : Pipeline K) : LTS (State K) (Cycle K F D) :=
  LTS.ofStep (fun s => ∃ t, s = .start t) (step p)

/-- A step appends to the history what the machine decides. -/
theorem step_decision {p : Pipeline K} {s s' : State K} {c : Cycle K F D}
    (h : (system p).step s c s') :
    ∃ new, s'.history = s.history ++ new ∧ s'.loop.dedup = (decision p s.loop c).dedup ∧
      grantsIn new = (decision p s.loop c).grants ∧
      eventsIn new = (decision p s.loop c).events.map fun a => (c.current, a) := by
  obtain rfl := Option.some.inj h
  rw [← iterate_judgement]
  exact ⟨_, rfl, rfl, grantsIn_stamp _ _, eventsIn_stamp _ _⟩

/-! ### What a run may be told of its inputs -/

/-- The clock never runs back. -/
def Clocked (s : State K) (c : Cycle K F D) : Prop := (s.now :: c.readings).IsChain (· ≤ ·)

/-- From one captured frame to the next at most `idle_reset`, not counting the
block window in between. -/
def Gapless (p : Pipeline K) (s : State K) (c : Cycle K F D) : Prop :=
  captures s.loop c → ∀ t ∈ s.lastCapture,
    c.captureEnd - max t s.loop.blockUntil ≤ p.idleReset

/-- A captured frame shows a face. -/
def Detected (c : Cycle K F D) : Prop := ∀ frame ∈ c.capture, (c.detectBest frame).isSome

/-- A captured frame shows a face that is extracted and matched to `e`. -/
def Shows (p : Pipeline K) (e : EmployeeId) (c : Cycle K F D) : Prop :=
  ∀ frame ∈ c.capture, ∃ detection ∈ c.detectBest frame,
    ∃ embedding ∈ c.extract frame detection,
      ∃ m ∈ Matcher.findMatch p.threshold c.cache embedding, m.employee = e

theorem verdict_of_shows {p : Pipeline K} {s : LoopState} {c : Cycle K F D} {e : EmployeeId}
    (hc : Shows p e c) {m : MatchResult K} (h : verdict p s c = some m) :
    ∃ x, m = some ⟨e, x⟩ := by
  obtain ⟨s', frame, detection, embedding, hs, he, rfl⟩ := verdict_stable h
  obtain ⟨d, hd, v, hv, m, hm, rfl⟩ := hc frame hs.capture
  obtain rfl : detection = d := Option.some.inj (hs.detect.symm.trans hd)
  obtain rfl : embedding = v := Option.some.inj (he.symm.trans hv)
  exact ⟨m.distance, hm⟩

instance (s : State K) (c : Cycle K F D) : Decidable (Clocked s c) :=
  inferInstanceAs (Decidable (List.IsChain _ _))

instance (p : Pipeline K) (s : State K) (c : Cycle K F D) : Decidable (Gapless p s c) :=
  inferInstanceAs (Decidable (captures s.loop c → _))

instance (c : Cycle K F D) : Decidable (Detected c) :=
  inferInstanceAs (Decidable (∀ frame ∈ c.capture, _))

instance (p : Pipeline K) (e : EmployeeId) (c : Cycle K F D) : Decidable (Shows p e c) :=
  inferInstanceAs (Decidable (∀ frame ∈ c.capture, ∃ detection ∈ c.detectBest frame,
    ∃ embedding ∈ c.extract frame detection,
      ∃ m ∈ Matcher.findMatch p.threshold c.cache embedding, m.employee = e))

end System

/-! ## Iterations to compute with -/

/-- An iteration that takes no time, at a time in milliseconds; a captured frame
shows a face, extracted as `embedding`. -/
def instant (capture : Option Unit) (embedding : Option (EmbeddingVector ExtRat))
    (cache : List (Embedding ExtRat)) (ms : ℤ) : Cycle ExtRat Unit Unit :=
  let t := milliseconds ms
  ⟨t, t, t, t, t, t, t, t, t, t, t, t, t, ms, capture, fun _ => some (), fun _ _ => embedding,
    cache, true, true⟩

/-- The loop sleeping in its block window, 50 ms at a time. -/
def blocked (ms : ℤ) (n : ℕ) : List (Cycle ExtRat Unit Unit) :=
  (List.range n).map fun i => instant none none [] (ms + 50 * i)

end FaceGate.L3.MainLoop
