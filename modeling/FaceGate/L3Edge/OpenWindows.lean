import FaceGate.L2Device.RgbLed
import FaceGate.L2Device.Turnstile
import FaceGate.L3Edge.Actuations
import Mathlib.Data.List.Chain

/-!
# Block windows and device windows

Three components put a deadline to an actuation, each on its own reading of the
clock: the turnstile (`open_until_`), the LED (`off_at_`) and the loop itself
(`block_until`). `system` runs the loop against the two deadlines; the workers
read them and never write them. Turnstile and Pipeline have the same open hold,
as `main` gives it to both.

* `windows_disjoint`: with a clock that never runs back, a frame that leads to an
  actuation is taken after the block window of the actuation before, which ends no
  earlier than the deadlines it set; so every deadline a device call finds has
  passed before the frame was taken.
-/
namespace FaceGate.L3.OpenWindows

open Core FaceGate.L1 FaceGate.L1.Domain FaceGate.L2 FaceGate.L3.MainLoop FaceGate.L3.Actuations

variable {K F D : Type}

/-! ## The devices -/

/-- Which devices are there; the others are in mock mode.
mirrors edge/apps/facegate/main.cpp:101-121 -/
structure Rig where
  turnstile : Bool
  led : Bool
  deriving DecidableEq, Repr

/-- `open_until_`, and the command of the LED with `off_at_`. -/
structure Devices where
  openUntil : Time
  command : RgbLed.Command
  deriving DecidableEq, Repr

def Devices.start : Devices := ⟨0, ⟨.off, 0⟩⟩

/-- A call of a device: the reading it takes, the deadline it finds and the one it
writes, if any. -/
structure DeviceCall where
  at_ : Time
  found : Time
  armed : Option Time
  deriving DecidableEq, Repr

/-- What an iteration reads, with the readings in `grant_access` and in `arm`. -/
structure Readings (K F D : Type) where
  cycle : Cycle K F D
  grantNow : Time
  armNow : Time

/-- mirrors edge/src/hardware/turnstile.cpp:104-124 -/
def grantAccess (rig : Rig) (openHoldMs : ℤ) (now : Time) (d : Devices) :
    Devices × List DeviceCall :=
  if rig.turnstile then
    let target := Turnstile.newTarget openHoldMs now
    ({ d with openUntil := Turnstile.extend d.openUntil target },
      [⟨now, d.openUntil, if d.openUntil < target then some target else none⟩])
  else (d, [])

/-- mirrors edge/src/hardware/rgb_led.cpp:105-136 -/
def armLed (rig : Rig) (color : RgbLed.Color) (holdMs : ℤ) (now : Time) (d : Devices) :
    Devices × List DeviceCall :=
  if rig.led then
    let offAt := RgbLed.deadline holdMs now
    ({ d with command := ⟨color, offAt⟩ }, [⟨now, d.command.offAt, some offAt⟩])
  else (d, [])

def perform (rig : Rig) (p : Pipeline K) (r : Readings K F D) (d : Devices) :
    Effect K → Devices × List DeviceCall
  | .grantAccess => grantAccess rig p.openHoldMs r.grantNow d
  | .showGranted holdMs => armLed rig .granted holdMs r.armNow d
  | .showDenied holdMs => armLed rig .denied holdMs r.armNow d
  | _ => (d, [])

def performAll (rig : Rig) (p : Pipeline K) (r : Readings K F D) :
    Devices → List (Effect K) → Devices × List DeviceCall
  | d, [] => (d, [])
  | d, e :: l =>
    let (d, calls) := perform rig p r d e
    let (d, more) := performAll rig p r d l
    (d, calls ++ more)

/-- Only the device calls count. -/
theorem performAll_deviceCalls (rig : Rig) (p : Pipeline K) (r : Readings K F D) (d : Devices)
    (l : List (Effect K)) : performAll rig p r d (deviceCalls l) = performAll rig p r d l := by
  induction l generalizing d with
  | nil => rfl
  | cons e l ih =>
    by_cases h : e.isDevice = true
    · rw [deviceCalls, List.filter_cons_of_pos h]
      simp only [performAll]
      rw [← ih]
      rfl
    · have hp : perform rig p r d e = (d, []) := by
        cases e <;> first | rfl | exact absurd rfl h
      rw [deviceCalls, List.filter_cons_of_neg h]
      simp only [performAll, hp, List.nil_append]
      rw [← ih]
      rfl

/-! ## The loop against its devices -/

/-- An actuation: when its frame was taken, its device calls, and the block window
it leaves. -/
structure Window where
  capturedAt : Time
  calls : List DeviceCall
  blockUntil : Time
  deriving DecidableEq, Repr

structure State where
  loop : LoopState
  now : Time
  devices : Devices
  windows : List Window
  deriving DecidableEq, Repr

def State.start (t : Time) : State := ⟨.start, t, .start, []⟩

section
variable [LinearOrder K] [BoundedOrder K] [FloatArith K]

def step (rig : Rig) (p : Pipeline K) (s : State) (r : Readings K F D) : Option State :=
  let out := iterate p s.loop r.cycle
  let (devices, calls) := performAll rig p r s.devices out.2
  some {
    loop := out.1
    now := r.cycle.publishEnd
    devices := devices
    windows := s.windows ++
      if deviceCalls out.2 = [] then [] else [⟨r.cycle.captureStart, calls, out.1.blockUntil⟩] }

/-- mirrors edge/src/pipeline/pipeline.cpp:126-314 -/
def system (rig : Rig) (p : Pipeline K) : LTS State (Readings K F D) :=
  LTS.ofStep (fun s => ∃ t, s = .start t) (step rig p)

end

/-- All readings, in program order. -/
def Readings.all (r : Readings K F D) : List Time :=
  [r.cycle.loopStart, r.cycle.captureStart, r.cycle.captureEnd, r.cycle.detectStart,
    r.cycle.detectEnd, r.cycle.embedStart, r.cycle.embedEnd, r.cycle.matchStart, r.cycle.matchEnd,
    r.cycle.current, r.grantNow, r.armNow, r.cycle.blockNow, r.cycle.publishStart,
    r.cycle.publishEnd]

/-- The clock never runs back. -/
def Clocked (s : State) (r : Readings K F D) : Prop := (s.now :: r.all).IsChain (· ≤ ·)

instance (s : State) (r : Readings K F D) : Decidable (Clocked s r) :=
  inferInstanceAs (Decidable (List.IsChain _ _))

/-- The order of the readings an actuation rests on. -/
structure InOrder (now : Time) (r : Readings K F D) : Prop where
  loopStart : now ≤ r.cycle.loopStart
  captureStart : r.cycle.loopStart ≤ r.cycle.captureStart
  grantNow : r.cycle.captureStart ≤ r.grantNow
  armNow : r.grantNow ≤ r.armNow
  blockNow : r.armNow ≤ r.cycle.blockNow
  publishEnd : r.cycle.blockNow ≤ r.cycle.publishEnd

theorem Clocked.inOrder {s : State} {r : Readings K F D} (h : Clocked s r) : InOrder s.now r := by
  unfold Clocked Readings.all at h
  simp only [List.isChain_cons_cons, List.IsChain.singleton, and_true] at h
  obtain ⟨h₁, h₂, h₃, h₄, h₅, h₆, h₇, h₈, h₉, h₁₀, h₁₁, h₁₂, h₁₃, h₁₄, h₁₅⟩ := h
  refine ⟨h₁, h₂, ?_, h₁₂, h₁₃, h₁₄.trans h₁₅⟩
  calc r.cycle.captureStart ≤ r.cycle.captureEnd := h₃
    _ ≤ r.cycle.detectStart := h₄
    _ ≤ r.cycle.detectEnd := h₅
    _ ≤ r.cycle.embedStart := h₆
    _ ≤ r.cycle.embedEnd := h₇
    _ ≤ r.cycle.matchStart := h₈
    _ ≤ r.cycle.matchEnd := h₉
    _ ≤ r.cycle.current := h₁₀
    _ ≤ r.grantNow := h₁₁

/-! ## The windows -/

/-- Every deadline the call finds has passed when the frame is taken; the one it
writes ends inside the block window. -/
structure DeviceCall.Within (k : DeviceCall) (w : Window) : Prop where
  found : k.found ≤ w.capturedAt
  reading : w.capturedAt ≤ k.at_
  armed : ∀ t ∈ k.armed, t ≤ w.blockUntil

structure Disjoint (ws : List Window) : Prop where
  /-- A frame is taken after the block window of the actuation before. -/
  chain : ws.IsChain fun a b => a.blockUntil ≤ b.capturedAt
  calls : ∀ w ∈ ws, ∀ k ∈ w.calls, k.Within w

/-- The deadlines have passed by the time the block window has. -/
structure Inv (s : State) : Prop where
  openUntil : s.devices.openUntil ≤ max s.loop.blockUntil s.now
  offAt : s.devices.command.offAt ≤ max s.loop.blockUntil s.now
  last : ∀ w ∈ s.windows.getLast?, w.blockUntil = s.loop.blockUntil
  windows : Disjoint s.windows

/-- The calls of one device: they find the deadline `found` and write `target`. -/
def Sets (found now target : Time) (ks : List DeviceCall) : Prop :=
  ∀ k ∈ ks, k.found = found ∧ k.at_ = now ∧ ∀ t ∈ k.armed, t = target

theorem grantAccess_spec (rig : Rig) (ms : ℤ) (now : Time) (d : Devices) :
    (grantAccess rig ms now d).1.command = d.command ∧
      (grantAccess rig ms now d).1.openUntil ≤ max d.openUntil (now + milliseconds ms) ∧
      Sets d.openUntil now (now + milliseconds ms) (grantAccess rig ms now d).2 := by
  unfold grantAccess
  split
  · refine ⟨rfl, ?_, ?_⟩
    · rcases Turnstile.extend_cases d.openUntil (Turnstile.newTarget ms now) with h | h
      · exact h.le.trans (le_max_left _ _)
      · exact h.le.trans (le_max_right _ _)
    · intro k hk
      obtain rfl := List.mem_singleton.mp hk
      refine ⟨rfl, rfl, ?_⟩
      intro t ht
      dsimp only at ht
      split at ht
      · exact (Option.some.inj ht).symm
      · cases ht
  · exact ⟨rfl, le_max_left _ _, fun _ hk => nomatch hk⟩

theorem armLed_spec (rig : Rig) (color : RgbLed.Color) (ms : ℤ) (now : Time) (d : Devices) :
    (armLed rig color ms now d).1.openUntil = d.openUntil ∧
      (armLed rig color ms now d).1.command.offAt ≤ max d.command.offAt (now + milliseconds ms) ∧
      Sets d.command.offAt now (now + milliseconds ms) (armLed rig color ms now d).2 := by
  unfold armLed
  split
  · refine ⟨rfl, le_max_right _ _, ?_⟩
    intro k hk
    obtain rfl := List.mem_singleton.mp hk
    exact ⟨rfl, rfl, fun t ht => (Option.some.inj ht).symm⟩
  · exact ⟨rfl, le_max_left _ _, fun _ hk => nomatch hk⟩

theorem Sets.within {found now target : Time} {ks : List DeviceCall} {w : Window}
    (h : Sets found now target ks) (hf : found ≤ w.capturedAt) (hn : w.capturedAt ≤ now)
    (ht : target ≤ w.blockUntil) : ∀ k ∈ ks, k.Within w := by
  intro k hk
  obtain ⟨hfound, hat, harmed⟩ := h k hk
  refine ⟨hfound ▸ hf, hat ▸ hn, ?_⟩
  intro t hmem
  rw [harmed t hmem]
  exact ht

/-- What an actuation leaves: no deadline beyond the old ones and the end of the
block window. -/
structure Armed (d d' : Devices) (w : Window) : Prop where
  openUntil : d'.openUntil ≤ max d.openUntil w.blockUntil
  offAt : d'.command.offAt ≤ max d.command.offAt w.blockUntil
  calls : ∀ k ∈ w.calls, k.Within w

def windowOf (rig : Rig) (p : Pipeline K) (r : Readings K F D) (d : Devices) (a : Actuation K) :
    Window :=
  ⟨r.cycle.captureStart, (performAll rig p r d (a.calls p)).2, a.blockUntil p r.cycle⟩

/-- The block window is set last, on the latest of the readings. -/
theorem armed_actuation (rig : Rig) (p : Pipeline K) {r : Readings K F D} {now : Time}
    (ho : InOrder now r) {d : Devices} (hu : d.openUntil ≤ r.cycle.captureStart)
    (hf : d.command.offAt ≤ r.cycle.captureStart) (a : Actuation K) :
    Armed d (performAll rig p r d (a.calls p)).1 (windowOf rig p r d a) := by
  have hcap : r.cycle.captureStart ≤ r.armNow := ho.grantNow.trans ho.armNow
  have hblock (ms : ℤ) : r.armNow + milliseconds ms ≤ r.cycle.blockNow + milliseconds ms :=
    add_le_add_left ho.blockNow _
  have hgrant (ms : ℤ) : r.grantNow + milliseconds ms ≤ r.cycle.blockNow + milliseconds ms :=
    add_le_add_left (ho.armNow.trans ho.blockNow) _
  cases a with
  | granted m =>
    obtain ⟨hc, hg, hcalls⟩ := grantAccess_spec rig p.openHoldMs r.grantNow d
    obtain ⟨hk, hl, hled⟩ := armLed_spec rig .granted p.openHoldMs r.armNow
      (grantAccess rig p.openHoldMs r.grantNow d).1
    rw [hc] at hl hled
    refine ⟨?_, ?_, ?_⟩
    · exact hk.le.trans (hg.trans (max_le_max_left _ (hgrant _)))
    · exact hl.trans (max_le_max_left _ (hblock _))
    · intro k hk
      rcases List.mem_append.mp hk with hk | hk
      · exact hcalls.within hu ho.grantNow (hgrant _) k hk
      · rw [List.append_nil] at hk
        exact hled.within hf hcap (hblock _) k hk
  | denied =>
    obtain ⟨hk, hl, hled⟩ := armLed_spec rig .denied p.deniedCooldownMs r.armNow d
    refine ⟨hk.le.trans (le_max_left _ _), hl.trans (max_le_max_left _ (hblock _)), ?_⟩
    intro k hk
    have hk' : k ∈ (armLed rig .denied p.deniedCooldownMs r.armNow d).2 := by
      simpa [windowOf, performAll, perform, Actuation.calls] using hk
    exact hled.within hf hcap (hblock _) k hk'

theorem Disjoint.concat {ws : List Window} {w : Window} (h : Disjoint ws)
    (hl : ∀ a ∈ ws.getLast?, a.blockUntil ≤ w.capturedAt) (hw : ∀ k ∈ w.calls, k.Within w) :
    Disjoint (ws ++ [w]) where
  chain := by
    refine List.isChain_append.mpr ⟨h.chain, .singleton w, ?_⟩
    intro a ha b hb
    obtain rfl := Option.some.inj hb
    exact hl a ha
  calls := by
    intro v hv
    rcases List.mem_append.mp hv with hv | hv
    · exact h.calls v hv
    · obtain rfl := List.mem_singleton.mp hv
      exact hw

section
variable [LinearOrder K] [BoundedOrder K] [FloatArith K] {rig : Rig} {p : Pipeline K}

/-- A step leaves the devices and the windows alone, or is an actuation. -/
theorem step_cases {s s' : State} {r : Readings K F D} (hs : (system rig p).step s r s') :
    s'.now = r.cycle.publishEnd ∧
      ((s'.devices = s.devices ∧ s'.windows = s.windows ∧
          s'.loop.blockUntil = s.loop.blockUntil) ∨
        ∃ a : Actuation K, ¬ r.cycle.loopStart < s.loop.blockUntil ∧
          s'.devices = (performAll rig p r s.devices (a.calls p)).1 ∧
          s'.windows = s.windows ++ [windowOf rig p r s.devices a] ∧
          s'.loop.blockUntil = a.blockUntil p r.cycle) := by
  obtain rfl := Option.some.inj hs
  refine ⟨rfl, ?_⟩
  dsimp only
  rw [← performAll_deviceCalls]
  rcases iterate_cases p s.loop r.cycle with ⟨hq, hb⟩ | ⟨a, -, ha⟩
  · rw [hq.devices, if_pos rfl, List.append_nil]
    exact Or.inl ⟨rfl, rfl, hb⟩
  · have hne : a.calls p ≠ [] := by cases a <;> exact List.cons_ne_nil _ _
    rw [ha.devices, if_neg hne, ha.blockUntil]
    exact Or.inr ⟨a, ha.unblocked, rfl, rfl, rfl⟩

theorem inductive_inv : ((system (F := F) (D := D) rig p).guard Clocked).Inductive Inv where
  init s h := by
    obtain ⟨t, rfl⟩ := h
    exact ⟨le_max_left _ _, le_max_left _ _, fun _ h => (nomatch h),
      ⟨.nil, fun _ h => (nomatch h)⟩⟩
  step s r s' hi hs := by
    obtain ⟨hstep, hc⟩ := hs
    have ho := hc.inOrder
    have hcap : r.cycle.captureStart ≤ r.cycle.publishEnd :=
      ho.grantNow.trans (ho.armNow.trans (ho.blockNow.trans ho.publishEnd))
    obtain ⟨hnow, ⟨hd, hw, hb⟩ | ⟨a, hu, hd, hw, hb⟩⟩ := step_cases hstep
    · have hmax : max s.loop.blockUntil s.now ≤ max s'.loop.blockUntil s'.now := by
        rw [hb, hnow]
        exact max_le_max_left _ (ho.loopStart.trans (ho.captureStart.trans hcap))
      refine ⟨?_, ?_, ?_, ?_⟩
      · exact hd ▸ hi.openUntil.trans hmax
      · exact hd ▸ hi.offAt.trans hmax
      · rw [hw, hb]
        exact hi.last
      · exact hw ▸ hi.windows
    · -- the frame was taken when every deadline had passed
      have hpast : max s.loop.blockUntil s.now ≤ r.cycle.captureStart :=
        (max_le (not_lt.mp hu) ho.loopStart).trans ho.captureStart
      have hopen := hi.openUntil.trans hpast
      have hoff := hi.offAt.trans hpast
      have harm := armed_actuation rig p ho hopen hoff a
      have hmax {t : Time} (ht : t ≤ r.cycle.captureStart) :
          max t (a.blockUntil p r.cycle) ≤ max s'.loop.blockUntil s'.now := by
        rw [hb, hnow]
        exact max_le ((ht.trans hcap).trans (le_max_right _ _)) (le_max_left _ _)
      refine ⟨?_, ?_, ?_, ?_⟩
      · exact hd ▸ harm.openUntil.trans (hmax hopen)
      · exact hd ▸ harm.offAt.trans (hmax hoff)
      · rw [hw, hb]
        intro w hmem
        rw [List.getLast?_concat] at hmem
        obtain rfl := Option.some.inj hmem
        rfl
      · rw [hw]
        refine hi.windows.concat ?_ harm.calls
        intro b hmem
        rw [hi.last b hmem]
        exact (le_max_left _ _).trans hpast

/-- **The windows are disjoint**: a frame that leads to an actuation is taken
after the block window of the actuation before, no deadline an actuation sets is
beyond its block window, and every deadline it finds has passed. -/
theorem windows_disjoint {s : State}
    (hr : ((system (F := F) (D := D) rig p).guard Clocked).Reachable s) : Disjoint s.windows :=
  (inductive_inv.reachable s hr).windows

end

/-- An iteration at a time in milliseconds, and a device call 1 and 2 ms later. -/
def spread (embedding : EmbeddingVector ExtRat) (ms : ℤ) : Readings ExtRat Unit Unit :=
  let c := instant (some ()) (some embedding) [⟨1, 7, axis⟩] ms
  let t := milliseconds (ms + 3)
  ⟨{ c with blockNow := t, publishStart := t, publishEnd := t }, milliseconds (ms + 1),
    milliseconds (ms + 2)⟩

/-- Employee 7 opens the gate, and a stranger is denied once the window is over. -/
theorem windows_disjoint_example :
    ∃ s : State, Disjoint s.windows ∧ s.windows.map Window.blockUntil =
      [milliseconds 6753, milliseconds 8503] := by
  obtain ⟨s, hr, hs⟩ := LTS.exists_reachable_where (fun s => ∃ t, s = State.start t)
    (step ⟨true, true⟩ (.ofConfig exampleConfig)) Clocked
    ([1000, 1250, 1500, 1750].map (spread axis) ++
      [6800, 7050, 7200, 7400, 7500].map (spread (axis.map fun _ => .nan))) ⟨0, rfl⟩
    (fun s => s.windows.map Window.blockUntil = [milliseconds 6753, milliseconds 8503])
    (by decide +kernel)
  exact ⟨s, windows_disjoint hr, hs⟩

end FaceGate.L3.OpenWindows
