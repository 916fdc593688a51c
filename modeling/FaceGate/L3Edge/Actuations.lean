import FaceGate.L1Domain.Json
import FaceGate.L3Edge.MainLoop

/-!
# Actuations and their events

An iteration of the recognition loop does one of three things (`Iteration`):
nothing to the devices; it opens the gate for a match; or it denies. With each
actuation goes one event, handed to `try_publish_or_enqueue` in the same
iteration.

* `iterate_cases`: the three cases, with the calls and the block window of each.
* `actuations_audited`: over whole runs, the device calls are those of the
  actuations, the events are theirs, one to one and in order, and while Storage
  does not throw each event is accepted or stored before its iteration ends.
-/
namespace FaceGate.L3.Actuations

open Core FaceGate.L1 FaceGate.L1.Domain FaceGate.L2 FaceGate.L3.MainLoop

variable {K F D : Type}

/-! ## One iteration -/

inductive Actuation (K : Type) where
  | granted (m : Match K)
  | denied

/-- mirrors edge/src/pipeline/pipeline.cpp:265-266,292-294 -/
def Actuation.calls (p : Pipeline K) : Actuation K → List (Effect K)
  | granted _ => [.grantAccess, .showGranted p.openHoldMs]
  | denied => [.showDenied p.deniedCooldownMs, .beepDenied]

/-- The block window it leaves.
mirrors edge/src/pipeline/pipeline.cpp:267,293 -/
def Actuation.blockUntil (p : Pipeline K) (c : Cycle K F D) : Actuation K → Time
  | granted _ => c.blockNow + p.openHold
  | denied => c.blockNow + p.deniedCooldown

/-- mirrors edge/src/pipeline/pipeline.cpp:241-246,272-274 -/
def Actuation.event (wall : Timestamp) : Actuation K → AccessEvent K
  | granted m => ⟨wall, .granted, some m.employee, some m.distance⟩
  | denied => ⟨wall, .unknown, none, none⟩

/-- What the matcher answered. -/
def Actuation.verdict : Actuation K → MatchResult K
  | granted m => some m
  | denied => none

/-- The publisher took the event, or else Storage was given it. -/
def Delivered (c : Cycle K F D) (e : AccessEvent K) (calls : List (Effect K)) : Prop :=
  .publish (.event e) true ∈ calls ∨ .enqueue (.event e) c.stored ∈ calls

/-- What an iteration with the actuation `a` has done. -/
structure Acts (p : Pipeline K) (s : LoopState) (c : Cycle K F D) (a : Actuation K)
    (out : Outcome K) : Prop where
  unblocked : ¬ c.loopStart < s.blockUntil
  devices : deviceCalls out.2 = a.calls p
  events : events out.2 = [a.event c.wall]
  blockUntil : out.1.blockUntil = a.blockUntil p c
  delivered : Delivered c (a.event c.wall) out.2

theorem delivered_event (c : Cycle K F D) (e : AccessEvent K) :
    Delivered c e (tryPublishOrEnqueue c (.event e)) := by
  unfold tryPublishOrEnqueue Delivered
  split
  · exact Or.inl List.mem_cons_self
  · exact Or.inr (List.mem_cons_of_mem _ List.mem_cons_self)

theorem Delivered.mono {c : Cycle K F D} {e : AccessEvent K} {l m : List (Effect K)}
    (h : Delivered c e l) (hs : l ⊆ m) : Delivered c e m :=
  h.imp (fun h => hs h) (fun h => hs h)

/-- After the verdict: no device is touched, or the branch of the verdict acts. -/
theorem decideStage_cases (p : Pipeline K) (s : LoopState) (c : Cycle K F D)
    (sample : CycleSample) (m : MatchResult K) (hb : ¬ c.loopStart < s.blockUntil) :
    (Quiet (decideStage p s c sample m).2 ∧
        (decideStage p s c sample m).1.blockUntil = s.blockUntil) ∨
      ∃ a : Actuation K, a.verdict = m ∧ Acts p s c a (decideStage p s c sample m) := by
  have hquiet : Quiet (finish p c sample none) := quiet_record p sample
  have hevent (a : Actuation K) : Delivered c (a.event c.wall)
      (a.calls p ++ finish p c sample (some (a.event c.wall))) :=
    (delivered_event c _).mono fun x hx => by simp [finish, hx]
  unfold decideStage
  rcases m with _ | m
  · by_cases h : emitsUnknown p (afterIdle p s.dedup c.current) c.current = true
    · simp only [decideBranch, h, if_true]
      refine Or.inr ⟨.denied, rfl, hb, ?_, ?_, rfl, hevent .denied⟩
      · rw [deviceCalls_append, devices_finish]
        rfl
      · rw [events_append, events_finish]
        rfl
    · simp only [decideBranch, h]
      exact Or.inl ⟨hquiet, rfl⟩
  · by_cases h : emitsGranted (afterIdle p s.dedup c.current) m.employee = true
    · simp only [decideBranch, h, if_true]
      refine Or.inr ⟨.granted m, rfl, hb, ?_, ?_, rfl, hevent (.granted m)⟩
      · rw [deviceCalls_append, devices_finish]
        rfl
      · rw [events_append, events_finish]
        rfl
    · simp only [decideBranch, h]
      exact Or.inl ⟨hquiet, rfl⟩

section
variable [LinearOrder K] [BoundedOrder K] [FloatArith K]

/-- An iteration leaves the devices and the block window alone, or acts on its
verdict. -/
theorem iterate_cases (p : Pipeline K) (s : LoopState) (c : Cycle K F D) :
    (Quiet (iterate p s c).2 ∧ (iterate p s c).1.blockUntil = s.blockUntil) ∨
      ∃ a : Actuation K, verdict p s c = some a.verdict ∧ Acts p s c a (iterate p s c) := by
  have hg := gate_toMatcher p s c
  unfold iterate verdict
  cases ht : toMatcher p s c with
  | error out =>
    rw [ht] at hg
    have hp : Passed s out := hg
    exact Or.inl ⟨hp.quiet, hp.blockUntil⟩
  | ok r =>
    rw [ht] at hg
    obtain ⟨frame, detection, hs, -⟩ := hg
    have hb : r.1.blockUntil = s.blockUntil := by rw [hs.state]
    have hu : ¬ c.loopStart < r.1.blockUntil := hb ▸ hs.unblocked
    dsimp only
    rcases decideStage_cases p r.1 c _ (Matcher.findMatch p.threshold c.cache r.2.1) hu with
      ⟨hq, hk⟩ | ⟨a, ha, hacts⟩
    · exact Or.inl ⟨hq, hk.trans hb⟩
    · exact Or.inr ⟨a, by rw [ha], hs.unblocked, hacts.devices, hacts.events, hacts.blockUntil,
        hacts.delivered⟩

/-! ## Whole runs -/

/-- What one iteration did. -/
structure Turn (K : Type) where
  verdict : Option (MatchResult K)
  calls : List (Effect K)

def turns (p : Pipeline K) : LoopState → List (Cycle K F D) → List (Turn K)
  | _, [] => []
  | s, c :: cs => ⟨verdict p s c, (iterate p s c).2⟩ :: turns p (iterate p s c).1 cs

/-- The turns of a run are its history. -/
theorem history_turns {p : Pipeline K} {a b : State K} {cs : List (Cycle K F D)}
    (hr : (system p).Run a cs b) :
    b.history.map Prod.snd = a.history.map Prod.snd ++ (turns p a.loop cs).flatMap Turn.calls := by
  induction hr with
  | nil => simp [turns]
  | cons hs _ ih =>
    obtain rfl := Option.some.inj hs
    rw [ih]
    simp [turns, stamp, Function.comp_def]

end

/-- The actuation of a turn: the two device calls of an opening or of a denial. A
granted one is for the match of that turn. -/
def Turn.actuation? (t : Turn K) : Option (Actuation K) :=
  match t.verdict, deviceCalls t.calls with
  | some (some m), [.grantAccess, .showGranted _] => some (.granted m)
  | _, [.showDenied _, .beepDenied] => some .denied
  | _, _ => none

/-- The event of an actuation: Granted, with the employee and the distance of the
match, or Unknown, with neither. -/
def Actuation.Records : Actuation K → AccessEvent K → Prop
  | granted m, e =>
    e.status = .granted ∧ e.employee = some m.employee ∧ e.distance = some m.distance
  | denied, e => e.status = .unknown ∧ e.employee = none ∧ e.distance = none

theorem records_event (a : Actuation K) (wall : Timestamp) : a.Records (a.event wall) := by
  cases a <;> exact ⟨rfl, rfl, rfl⟩

structure Audited (p : Pipeline K) (ts : List (Turn K)) : Prop where
  devices : ts.flatMap (fun t => deviceCalls t.calls) =
    (ts.filterMap Turn.actuation?).flatMap (Actuation.calls p)
  events : List.Forall₂ Actuation.Records (ts.filterMap Turn.actuation?)
    (ts.flatMap fun t => MainLoop.events t.calls)
  delivered : ∀ t ∈ ts, ∀ e ∈ MainLoop.events t.calls,
    .publish (.event e) true ∈ t.calls ∨ .enqueue (.event e) true ∈ t.calls

theorem audited_nil (p : Pipeline K) : Audited p [] := ⟨rfl, .nil, fun _ h => (nomatch h)⟩

theorem Audited.quiet {p : Pipeline K} {ts : List (Turn K)} (h : Audited p ts) {t : Turn K}
    (ht : Quiet t.calls) : Audited p (t :: ts) := by
  have ha : t.actuation? = none := by
    unfold Turn.actuation?
    rw [ht.devices]
    split <;> simp_all
  refine ⟨?_, ?_, ?_⟩
  · rw [List.flatMap_cons, ht.devices, List.filterMap_cons_none ha]
    exact h.devices
  · rw [List.flatMap_cons, ht.events, List.filterMap_cons_none ha]
    exact h.events
  · intro u hu e he
    rcases List.mem_cons.mp hu with rfl | hu
    · rw [ht.events] at he
      cases he
    · exact h.delivered u hu e he

theorem Audited.acts {p : Pipeline K} {ts : List (Turn K)} (h : Audited p ts) {t : Turn K}
    {a : Actuation K} {s : LoopState} {c : Cycle K F D} {out : Outcome K}
    (hv : t.verdict = some a.verdict) (hc : t.calls = out.2) (ht : Acts p s c a out)
    (hs : c.stored = true) : Audited p (t :: ts) := by
  have hdev : deviceCalls t.calls = a.calls p := hc ▸ ht.devices
  have hev : MainLoop.events t.calls = [a.event c.wall] := hc ▸ ht.events
  have ha : t.actuation? = some a := by
    unfold Turn.actuation?
    rw [hv, hdev]
    cases a <;> rfl
  refine ⟨?_, ?_, ?_⟩
  · rw [List.flatMap_cons, hdev, List.filterMap_cons_some ha, List.flatMap_cons, h.devices]
  · rw [List.flatMap_cons, hev, List.filterMap_cons_some ha]
    exact .cons (records_event a c.wall) h.events
  · intro u hu e he
    rcases List.mem_cons.mp hu with rfl | hu
    · rw [hev] at he
      obtain rfl := List.mem_singleton.mp he
      have hd := ht.delivered
      unfold Delivered at hd
      rw [hs] at hd
      exact hc ▸ hd
    · exact h.delivered u hu e he

section
variable [LinearOrder K] [BoundedOrder K] [FloatArith K]

theorem audited_run {p : Pipeline K} {a b : State K} {cs : List (Cycle K F D)}
    (hr : ((system p).guard fun _ c => c.stored = true).Run a cs b) :
    Audited p (turns p a.loop cs) := by
  induction hr with
  | nil => exact audited_nil p
  | @cons s s' s'' c cs hs _ ih =>
    obtain ⟨hstep, hstored⟩ := hs
    obtain rfl := Option.some.inj hstep
    rcases iterate_cases p s.loop c with ⟨hq, -⟩ | ⟨act, hv, hacts⟩
    · exact ih.quiet hq
    · exact ih.acts hv rfl hacts hstored

/-- **Every opening is auditable**: in a run in which Storage does not throw, the
device calls are those of the actuations, each has its event, in order, and the
event is accepted or stored before its iteration ends. -/
theorem actuations_audited {p : Pipeline K} {t : Time} {b : State K} {cs : List (Cycle K F D)}
    (hr : ((system p).guard fun _ c => c.stored = true).Run (.start t) cs b) :
    b.history.map Prod.snd = (turns p .start cs).flatMap Turn.calls ∧
      Audited p (turns p .start cs) :=
  ⟨history_turns hr.of_guard, audited_run hr⟩

end

/-- Four frames of employee 7, offline on the last one: the gate opens, and the
event is stored. -/
theorem actuations_audited_example :
    ∃ (cs : List (Cycle ExtRat Unit Unit)) (b : State ExtRat),
      Audited (.ofConfig exampleConfig) (turns (.ofConfig exampleConfig) .start cs) ∧
        deviceCalls (b.history.map Prod.snd) = [.grantAccess, .showGranted 5000] ∧
        b.history.getLast?.map Prod.snd = some (.enqueue (.event
          ⟨1750, .granted, some 7, some (.num (.ofRat 0))⟩) true) := by
  let frame : ℤ → Cycle ExtRat Unit Unit := instant (some ()) (some axis) [⟨1, 7, axis⟩]
  obtain ⟨b, hr, hb⟩ := LTS.exists_run_where (fun s => ∃ t, s = State.start t)
    (step (.ofConfig exampleConfig)) (fun _ c => c.stored = true) (.start 0)
    (([1000, 1250, 1500, 1750].map frame).map fun c => { c with accepted := false })
    (fun b => deviceCalls (b.history.map Prod.snd) = [.grantAccess, .showGranted 5000] ∧
      b.history.getLast?.map Prod.snd = some (.enqueue (.event
        ⟨1750, .granted, some 7, some (.num (.ofRat 0))⟩) true)) (by decide +kernel)
  exact ⟨_, b, (actuations_audited hr).2, hb⟩

end FaceGate.L3.Actuations
