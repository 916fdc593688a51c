import FaceGate.L3Edge.Deduplication

/-!
# The camera and the loop

The capture thread keeps the last frame it read; `capture` hands out a copy of
it, also when every read since has failed. `system` interleaves the thread with
the recognition loop. A frame is handed over whole: that `read` may reuse the
buffer of the frame before is below this model.

Ghosts: `reads` numbers the successful reads, `grantedOn` holds, for every call of
`grant_access`, the number of the read its frame came from.

* `one_grant_per_read`: the gate opens at most once on a read, exactly if every
  match on a frame already used repeats the last decision in time; so when a read
  succeeds during every opening (`one_grant_of_fresh`).
* `dead_camera_reopens`: with a camera that died after one frame it does not.
-/
namespace FaceGate.L3.CameraLoop

open Core FaceGate.L1 FaceGate.L1.Domain FaceGate.L2 FaceGate.L3.MainLoop FaceGate.L3.Deduplication

variable {K F D : Type}

/-! ## The capture thread -/

/-- mirrors edge/src/hardware/camera.cpp:50 -/
def kFailureLogThreshold : ℕ := 30

/-- The slot (`has_frame_` and `latest_frame_`) and the locals of the thread. -/
structure Camera (F : Type) where
  latestFrame : Option F
  consecutiveFailures : ℕ
  wasFailing : Bool

def Camera.opened : Camera F := ⟨none, 0, false⟩

/-- One `read`, `none` if it fails or gives an empty frame, and what is logged.
mirrors edge/src/hardware/camera.cpp:56-80 -/
def captureTurn (s : Camera F) : Option F → Camera F × Option String
  | none =>
    let failures := s.consecutiveFailures + 1
    if failures = kFailureLogThreshold then
      (⟨s.latestFrame, failures, true⟩,
        some s!"Camera: capture failing ({kFailureLogThreshold} consecutive read failures)")
    else (⟨s.latestFrame, failures, s.wasFailing⟩, none)
  | some frame =>
    (⟨some frame, 0, false⟩,
      if s.wasFailing then
        some s!"Camera: capture recovered after {s.consecutiveFailures} failed reads"
      else none)

/-- mirrors edge/src/hardware/camera.cpp:83-89 -/
def Camera.capture (s : Camera F) : Option F := s.latestFrame

theorem capture_failed (s : Camera F) : (captureTurn s none).1.capture = s.capture := by
  unfold captureTurn Camera.capture
  dsimp only
  split <;> rfl

/-- However many reads fail, `capture` hands out the same frame. -/
theorem capture_dead (n : ℕ) (s : Camera F) :
    ((fun s => (captureTurn s none).1)^[n] s).capture = s.capture := by
  induction n with
  | zero => rfl
  | succ n ih => rw [Function.iterate_succ_apply', capture_failed, ih]

/-! ## The system -/

structure State (F : Type) where
  camera : Camera F
  reads : ℕ
  loop : LoopState
  grantedOn : List ℕ

def State.start : State F := ⟨.opened, 0, .start, []⟩

inductive Label (K F D : Type) where
  | read (frame : Option F)
  | iterate (c : Cycle K F D)

/-- The iteration gets its frame from the camera. -/
def withFrame (camera : Camera F) (c : Cycle K F D) : Cycle K F D :=
  { c with capture := camera.capture }

section
variable [LinearOrder K] [BoundedOrder K] [FloatArith K] (p : Pipeline K)

def step (s : State F) : Label K F D → Option (State F)
  | .read frame => some { s with
      camera := (captureTurn s.camera frame).1
      reads := if frame.isSome then s.reads + 1 else s.reads }
  | .iterate c =>
    let out := iterate p s.loop (withFrame s.camera c)
    some { s with
      loop := out.1
      grantedOn := s.grantedOn ++ List.replicate (grants out.2) s.reads }

def system : LTS (State F) (Label K F D) := LTS.ofStep (· = .start) (step p)

/-- A match on a frame the gate was opened on before repeats the last decision:
the face was not absent, and the opening was for the same employee. -/
def Repeats (s : State F) : Label K F D → Prop
  | .read _ => True
  | .iterate c => s.reads ∈ s.grantedOn →
      ∀ m, verdict p s.loop (withFrame s.camera c) = some (some m) →
        faceWasAbsent p s.loop.dedup c.current = false ∧ Holds s.loop.dedup m.employee

/-! ## One opening for one read -/

variable {p}

theorem holds_iff {d : Dedup} (hd : d.lastStatus ≠ some .denied) (e : EmployeeId) :
    emitsGranted d e = false ↔ Holds d e := by
  unfold emitsGranted Holds
  rcases hs : d.lastStatus with _ | (_ | _ | _) <;> simp_all

/-- The loop never decides Denied. -/
theorem decision_not_denied {s : LoopState} {c : Cycle K F D}
    (h : s.dedup.lastStatus ≠ some .denied) :
    (decision p s c).dedup.lastStatus ≠ some .denied := by
  rcases decision_events (p := p) (s := s) (c := c) with ⟨hj, -⟩ | ⟨m, -, -, hh⟩ | ⟨-, -, hst, -⟩
  · rwa [hj.lastStatus]
  · simp [hh.1]
  · simp [hst]

/-- An iteration opens the gate at most once: on a match that does not repeat the
last decision. -/
theorem decision_grants (s : LoopState) (c : Cycle K F D) (h : s.dedup.lastStatus ≠ some .denied) :
    ((decision p s c).grants = 0 ∧ ∀ m, verdict p s c = some (some m) →
      faceWasAbsent p s.dedup c.current = false ∧ Holds s.dedup m.employee) ∨
    ((decision p s c).grants = 1 ∧ ∃ m, verdict p s c = some (some m) ∧
      ¬ (faceWasAbsent p s.dedup c.current = false ∧ Holds s.dedup m.employee)) := by
  unfold decision
  rcases verdict p s c with _ | (_ | m)
  · exact Or.inl ⟨rfl, fun m h => (nomatch h)⟩
  · refine Or.inl ⟨?_, fun m h => (nomatch h)⟩
    rcases judge_no_match p s.dedup c with ⟨-, hg, -⟩ | ⟨-, -, hj⟩
    · exact hg
    · exact hj.grants
  · rcases judge_match p s.dedup c m with ⟨ho, hg, -⟩ | ⟨ha, he, hj⟩
    · refine Or.inr ⟨hg, m, rfl, fun ⟨ha, hh⟩ => ?_⟩
      rw [ha, (holds_iff h _).mpr hh] at ho
      cases ho
    · refine Or.inl ⟨hj.grants, fun m' hm => ?_⟩
      obtain rfl : m = m' := Option.some.inj (Option.some.inj hm)
      exact ⟨ha, (holds_iff h _).mp he⟩

theorem read_step {s s' : State F} {l : Label K F D} (hi : s.loop.dedup.lastStatus ≠ some .denied)
    (hs : (system p).step s l s') :
    s'.loop.dedup.lastStatus ≠ some .denied ∧
      (s'.grantedOn.Nodup ↔ s.grantedOn.Nodup ∧ Repeats p s l) := by
  cases l with
  | read frame =>
    obtain rfl := Option.some.inj hs
    exact ⟨hi, (and_iff_left trivial).symm⟩
  | iterate c =>
    obtain rfl := Option.some.inj hs
    have hj := iterate_judgement p s.loop (withFrame s.camera c)
    have hd : (iterate p s.loop (withFrame s.camera c)).1.dedup =
      (decision p s.loop (withFrame s.camera c)).dedup := congrArg Judgement.dedup hj
    have hg : grants (iterate p s.loop (withFrame s.camera c)).2 =
      (decision p s.loop (withFrame s.camera c)).grants := congrArg Judgement.grants hj
    refine ⟨?_, ?_⟩
    · show (iterate p s.loop (withFrame s.camera c)).1.dedup.lastStatus ≠ _
      rw [hd]
      exact decision_not_denied hi
    · dsimp only
      rw [hg]
      rcases decision_grants s.loop (withFrame s.camera c) hi with ⟨h0, hrep⟩ | ⟨h1, m, hv, hn⟩
      · rw [h0, List.replicate_zero, List.append_nil]
        exact ⟨fun h => ⟨h, fun _ => hrep⟩, And.left⟩
      · -- one opening, on read number `s.reads`
        rw [h1, List.replicate_one, List.nodup_append]
        constructor
        · intro h
          exact ⟨h.1, fun hm => absurd rfl (h.2.2 _ hm _ (List.mem_singleton_self _))⟩
        · intro ⟨h, hr⟩
          refine ⟨h, List.nodup_singleton _, fun a ha b hb hab => ?_⟩
          rw [hab, List.mem_singleton.mp hb] at ha
          exact hn (hr ha m hv)

/-- **One camera frame opens the gate at most once**, in every run exactly if
every match on a frame already used repeats the last decision. -/
theorem one_grant_per_read {b : State F} {ls : List (Label K F D)}
    (hr : (system p).Run .start ls b) :
    b.grantedOn.Nodup ↔ ((system p).guard (Repeats p)).Run .start ls b :=
  (hr.guard_iff (fun _ _ _ hi hs => read_step hi hs) (fun h => nomatch h)).trans
    (and_iff_right List.nodup_nil)

/-- The loop sees a frame the gate was opened on only from inside its block
window: a read succeeded before the window ended. -/
def Fresh (s : State F) : Label K F D → Prop
  | .read _ => True
  | .iterate c => s.reads ∈ s.grantedOn → c.loopStart < s.loop.blockUntil

theorem repeats_of_fresh {s : State F} {l : Label K F D} (h : Fresh s l) : Repeats p s l := by
  cases l with
  | read frame => trivial
  | iterate c =>
    intro hm m hv
    obtain ⟨_, _, _, _, hs, _⟩ := verdict_stable hv
    exact absurd (h hm) hs.unblocked

/-- A camera that delivers during every opening. -/
theorem one_grant_of_fresh {b : State F} {ls : List (Label K F D)}
    (hr : ((system p).guard Fresh).Run .start ls b) : b.grantedOn.Nodup := by
  have hrep := hr.guard_mono (D := Repeats p) fun _ _ => repeats_of_fresh
  have hi := hr.of_guard.guard_iff (fun _ _ _ hi hs => read_step hi hs) (fun h => nomatch h)
  exact hi.mpr ⟨List.nodup_nil, hrep⟩

end

/-! ## Two runs -/

/-- One successful read of employee 7, and the loop until the block window of its
opening ends. -/
def firstOpening : List (Label ExtRat Unit Unit) :=
  .read (some ()) ::
    (framesOf7 [1000, 1250, 1500, 1750] ++ blocked 1750 100 ++ framesOf7 [6750]).map .iterate

/-- A fresh read comes in time. -/
theorem one_grant_per_read_example :
    ∃ (ls : List (Label ExtRat Unit Unit)) (b : State Unit),
      ((system (.ofConfig exampleConfig)).guard
        (Repeats (.ofConfig exampleConfig))).Run .start ls b ∧ b.grantedOn = [1, 2] := by
  obtain ⟨b, ⟨_, ls, rfl, hr⟩, hg⟩ := LTS.exists_reachable (· = .start)
    (step (K := ExtRat) (.ofConfig exampleConfig))
    (firstOpening ++ .read (some ()) :: (framesOf7 [7000, 7250, 7500]).map .iterate) rfl
    (fun b => b.grantedOn = [1, 2]) (by decide +kernel)
  exact ⟨ls, b, (one_grant_per_read hr).mp (by rw [hg]; decide), hg⟩

/-- After one successful read every further one fails: the same frame opens the
gate again once the idle reset has passed in the block window. -/
theorem dead_camera_reopens :
    exampleConfig.validate = .ok () ∧
    ∃ b : State Unit,
      (system (K := ExtRat) (D := Unit) (.ofConfig exampleConfig)).Reachable b ∧
        ¬ b.grantedOn.Nodup :=
  ⟨exampleConfig_valid, LTS.exists_reachable (· = .start) (step (.ofConfig exampleConfig))
    (firstOpening ++ List.replicate 40 (.read none) ++ (framesOf7 [7000, 7250, 7500]).map .iterate)
    rfl _ (by decide +kernel)⟩

end FaceGate.L3.CameraLoop
