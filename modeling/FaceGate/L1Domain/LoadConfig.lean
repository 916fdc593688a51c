import FaceGate.L1Domain.Config

/-!
# Loading the configuration

`load_config` reads the sections of a TOML document, with a default for every
value that is missing or of the wrong type, and then validates. What toml++ makes
of a value when an `int`, a `bool`, a `double` or a C string is asked for is a
parameter (`Retrieval`); the results rest on what it does with floats
(`Retrieval.Lawful`). `tomlplusplus` is an instance.

* `readConfig_threshold`: the threshold that is read is NaN exactly if that is what
  the document says.
* `loadConfig_valid`: a document is refused or gives a valid configuration, unless
  its threshold is NaN and nothing else is wrong with it.
-/
namespace FaceGate.L1

open Core FaceGate.L1.Domain

/-! ## TOML documents -/

/-- `toml::node`. An array, a date or a time: `other`. -/
inductive Node (K : Type) where
  | string (s : String)
  | integer (n : ℤ)
  | floatingPoint (x : Flt K)
  | boolean (b : Bool)
  | table (entries : List (String × Node K))
  | other

abbrev Table (K : Type) := List (String × Node K)

/-- `toml::node::value<T>()`, for the types `value_or` is called with. -/
structure Retrieval (K : Type) where
  int : Node K → Option ℤ
  bool : Node K → Option Bool
  double : Node K → Option (Flt K)
  cstr : Node K → Option String

/-- A float comes out as it is, and NaN comes from nothing else. -/
structure Retrieval.Lawful {K : Type} (r : Retrieval K) : Prop where
  double_float : ∀ x, r.double (.floatingPoint x) = some x
  float_of_nan : ∀ node, r.double node = some .nan → node = .floatingPoint .nan

variable {K : Type}

section
variable (r : Retrieval K) (t : Table K)

/-- `root[name].as_table()` -/
def Table.section? (name : String) : Option (Table K) :=
  match t.lookup name with
  | some (.table entries) => some entries
  | _ => none

def Table.required (name : String) : Except String (Table K) :=
  match t.section? name with
  | some entries => .ok entries
  | none => .error ("Config: missing or invalid [" ++ name ++ "] section")

/-- `section[key].value_or(default)` -/
def Table.valueOr {α : Type} (get : Node K → Option α) (key : String) (default : α) : α :=
  ((t.lookup key).bind get).getD default

/-- A `const char*` assigned to a `std::string` ends at the first NUL. -/
def cString (s : String) : String := .ofList (s.toList.takeWhile fun c => c.toNat ≠ 0)

/-- `section[key].value_or("…")` into a `std::string`. -/
def Table.stringOr (key default : String) : String := cString (t.valueOr r.cstr key default)

/-! ## The sections -/

/-- mirrors edge/src/config/config.cpp:25-37 -/
def parseVision [FloatArith K] : Except String (VisionConfig K) := do
  let s ← t.required "vision"
  return {
    threshold := FloatArith.narrow (s.valueOr r.double "threshold" (FloatArith.lit (45 / 100)))
    blazefaceModel := s.stringOr r "blazeface_model" ""
    mobilefacenetModel := s.stringOr r "mobilefacenet_model" ""
    onnxThreads := s.valueOr r.int "onnx_threads" 2 }

/-- mirrors edge/src/config/config.cpp:39-51 -/
def parseCamera : Except String CameraConfig := do
  let s ← t.required "camera"
  return {
    device := s.stringOr r "device" ""
    width := s.valueOr r.int "width" 640
    height := s.valueOr r.int "height" 480
    fps := s.valueOr r.int "fps" 30 }

/-- mirrors edge/src/config/config.cpp:53-70 -/
def parseGpio : Except String GpioConfig := do
  let s ← t.required "gpio"
  return {
    enabled := s.valueOr r.bool "enabled" true
    servoPin := s.valueOr r.int "servo_pin" (-1)
    buzzerPin := s.valueOr r.int "buzzer_pin" (-1)
    rgbRedPin := s.valueOr r.int "rgb_red_pin" (-1)
    rgbGreenPin := s.valueOr r.int "rgb_green_pin" (-1)
    rgbBluePin := s.valueOr r.int "rgb_blue_pin" (-1)
    rgbActiveHigh := s.valueOr r.bool "rgb_active_high" true
    servoOpenMs := s.valueOr r.int "servo_open_ms" 5000
    buzzerBeepMs := s.valueOr r.int "buzzer_beep_ms" 300 }

/-- mirrors edge/src/config/config.cpp:72-92 -/
def parseRecognition : RecognitionConfig :=
  match t.section? "recognition" with
  | some s => {
      idleResetSeconds := s.valueOr r.int "idle_reset_seconds" 3
      unknownThrottleSeconds := s.valueOr r.int "unknown_throttle_seconds" 10
      deniedCooldownMs := s.valueOr r.int "denied_cooldown_ms" 1000
      faceStabilizationMs := s.valueOr r.int "face_stabilization_ms" 700 }
  | none => ⟨3, 10, 1000, 700⟩

/-- mirrors edge/src/config/config.cpp:94-103 -/
def parseStorage : Except String StorageConfig := do
  let s ← t.required "storage"
  return { sqlitePath := s.stringOr r "sqlite_path" "" }

/-- mirrors edge/src/config/config.cpp:105-120 -/
def parseMqtt : Except String MqttConfig := do
  let s ← t.required "mqtt"
  return {
    brokerHost := s.stringOr r "broker_host" ""
    brokerPort := s.valueOr r.int "broker_port" 1883
    clientId := s.stringOr r "client_id" ""
    keepaliveSeconds := s.valueOr r.int "keepalive_seconds" 60
    heartbeatIntervalSeconds := s.valueOr r.int "heartbeat_interval_seconds" 30
    username := s.stringOr r "username" ""
    password := s.stringOr r "password" "" }

/-- mirrors edge/src/config/config.cpp:122-131 -/
def parseLogging : Except String LoggingConfig := do
  let s ← t.required "logging"
  return { level := s.stringOr r "level" "info" }

/-- mirrors edge/src/config/config.cpp:133-145 -/
def parseMetrics : MetricsConfig :=
  match t.section? "metrics" with
  | some s => {
      csvPath := s.stringOr r "csv_path" ""
      summaryIntervalCycles := s.valueOr r.int "summary_interval_cycles" 0 }
  | none => ⟨"", 0⟩

/-- mirrors edge/src/config/config.cpp:264-273 -/
def readConfig [FloatArith K] : Except String (Config K) := do
  let vision ← parseVision r t
  let camera ← parseCamera r t
  let gpio ← parseGpio r t
  let storage ← parseStorage r t
  let mqtt ← parseMqtt r t
  let logging ← parseLogging r t
  return {
    deviceId := t.stringOr r "device_id" ""
    vision, camera, gpio
    recognition := parseRecognition r t
    storage, mqtt, logging
    metrics := parseMetrics r t }

/-- From what `toml::parse_file` gave, or its description of the error.
mirrors edge/src/config/config.cpp:254-277 -/
def loadConfig [LinearOrder K] [FloatArith K] (path : String) :
    Except String (Table K) → Except String (Config K)
  | .error description =>
    .error ("Failed to parse config file '" ++ path ++ "': " ++ description)
  | .ok root => do
    let cfg ← readConfig r root
    cfg.validate
    return cfg

end

/-! ## What is accepted -/

/-- The document sets `vision.threshold` to NaN. -/
def ThresholdNan (root : Table K) : Prop :=
  ∃ s, root.section? "vision" = some s ∧ s.lookup "threshold" = some (.floatingPoint .nan)

theorem required_ok {t s : Table K} {name : String} :
    t.required name = .ok s ↔ t.section? name = some s := by
  unfold Table.required
  cases t.section? name <;> simp

theorem valueOr_eq_nan {r : Retrieval K} {t : Table K} {key : String} {x : Flt K} (hr : r.Lawful)
    (hx : x ≠ .nan) :
    t.valueOr r.double key x = .nan ↔ t.lookup key = some (.floatingPoint .nan) := by
  unfold Table.valueOr
  cases hk : t.lookup key with
  | none => simp [hx]
  | some node =>
    simp only [Option.bind_some, Option.some.injEq]
    constructor
    · intro h
      cases hd : r.double node with
      | none =>
        rw [hd] at h
        exact absurd h hx
      | some y =>
        rw [hd] at h
        obtain rfl : y = .nan := h
        exact hr.float_of_nan node hd
    · rintro rfl
      rw [hr.double_float]
      rfl

section
variable [FloatArith K] {r : Retrieval K} {root : Table K} {cfg : Config K}

theorem vision_of_readConfig (h : readConfig r root = .ok cfg) :
    parseVision r root = .ok cfg.vision := by
  unfold readConfig at h
  obtain ⟨vision, hv, h⟩ := bind_ok.mp h
  obtain ⟨_, -, h⟩ := bind_ok.mp h
  obtain ⟨_, -, h⟩ := bind_ok.mp h
  obtain ⟨_, -, h⟩ := bind_ok.mp h
  obtain ⟨_, -, h⟩ := bind_ok.mp h
  obtain ⟨_, -, h⟩ := bind_ok.mp h
  cases h
  exact hv

/-- The threshold is NaN exactly if the document says so. -/
theorem readConfig_threshold [LawfulFloatArith K] (hr : r.Lawful)
    (h : readConfig r root = .ok cfg) : cfg.vision.threshold = .nan ↔ ThresholdNan root := by
  obtain ⟨s, hs, hv⟩ := bind_ok.mp (vision_of_readConfig h)
  have hs' := required_ok.mp hs
  rw [← Except.ok.inj hv, LawfulFloatArith.narrow_eq_nan,
    valueOr_eq_nan hr (LawfulFloatArith.lit_ne_nan _)]
  unfold ThresholdNan
  simp [hs']

variable [LinearOrder K]

theorem loadConfig_ok {path : String} {parsed : Except String (Table K)} :
    loadConfig r path parsed = .ok cfg ↔
      ∃ root, parsed = .ok root ∧ readConfig r root = .ok cfg ∧ cfg.validate = .ok () := by
  unfold loadConfig
  cases parsed with
  | error e => simp
  | ok root =>
    dsimp only
    rw [bind_ok]
    constructor
    · rintro ⟨a, ha, h⟩
      obtain ⟨u, hu, h⟩ := bind_ok.mp h
      cases h
      exact ⟨root, rfl, ha, hu⟩
    · rintro ⟨root', he, ha, hu⟩
      cases he
      exact ⟨cfg, ha, bind_ok.mpr ⟨(), hu, rfl⟩⟩

/-- **An accepted configuration is valid**: `load_config` throws or gives a valid
configuration exactly if the document does not set the threshold to NaN, or lacks a
section, or breaks the invariant of another field. -/
theorem loadConfig_valid [LawfulFloatArith K] (hr : r.Lawful) (path : String)
    (parsed : Except String (Table K)) :
    (∀ cfg, loadConfig r path parsed = .ok cfg → cfg.Valid) ↔
      ∀ root cfg, parsed = .ok root → readConfig r root = .ok cfg →
        ThresholdNan root → ¬ cfg.ValidFields := by
  constructor
  · rintro h root cfg rfl hcfg hnan hf
    have ht := (readConfig_threshold hr hcfg).mpr hnan
    have hv : cfg.validate = .ok () := by
      rw [Config.validate_ok, ht]
      exact ⟨⟨Flt.not_nan_lt _, Flt.not_lt_nan _⟩, hf⟩
    exact (Config.valid_iff hv).mp (h cfg (loadConfig_ok.mpr ⟨root, rfl, hcfg, hv⟩)) ht
  · intro h cfg hcfg
    obtain ⟨root, rfl, hread, hv⟩ := loadConfig_ok.mp hcfg
    rw [Config.valid_iff hv, ne_eq, readConfig_threshold hr hread]
    exact fun hnan => h root cfg rfl hread hnan (Config.validate_ok.mp hv).2

end

/-! ## toml++ -/

/-- In the range of an `int`. -/
def toInt32 (n : ℤ) : Option ℤ := if -2 ^ 31 ≤ n ∧ n < 2 ^ 31 then some n else none

/-- An integer becomes a float if it is exact, a float an integer if it is whole and
in range; a boolean becomes 0 or 1, an integer a boolean. -/
def tomlplusplus [LinearOrder K] [BoundedOrder K] [FloatArith K] : Retrieval K where
  int
    | .integer n => toInt32 n
    | .floatingPoint x =>
      if x.isFinite ∧ FloatArith.lit (FloatArith.toInt x) = x then toInt32 (FloatArith.toInt x)
      else none
    | .boolean b => some (if b then 1 else 0)
    | _ => none
  bool
    | .boolean b => some b
    | .integer n => some (n ≠ 0)
    | _ => none
  double
    | .floatingPoint x => some x
    | .integer n => if |n| ≤ 2 ^ 53 then some (FloatArith.lit n) else none
    | _ => none
  cstr
    | .string s => some s
    | _ => none

theorem tomlplusplus_lawful [LinearOrder K] [BoundedOrder K] [FloatArith K] [LawfulFloatArith K] :
    (tomlplusplus : Retrieval K).Lawful where
  double_float _ := rfl
  float_of_nan node h := by
    unfold tomlplusplus at h
    cases node with
    | floatingPoint x => rw [Option.some.inj h]
    | integer n =>
      dsimp only at h
      split at h
      · exact absurd (Option.some.inj h) (LawfulFloatArith.lit_ne_nan _)
      · cases h
    | string s | boolean b | table entries | other => cases h

/-- mirrors edge/config/config.example.toml -/
def exampleDocument (threshold : Flt ExtRat) : Table ExtRat :=
  [("device_id", .string "rpi-entrance-01"),
    ("vision", .table [("threshold", .floatingPoint threshold),
      ("blazeface_model", .string "models/blaze.onnx"),
      ("mobilefacenet_model", .string "models/arc.onnx"), ("onnx_threads", .integer 2)]),
    ("camera", .table [("device", .string "/dev/video0"), ("width", .integer 640),
      ("height", .integer 480), ("fps", .integer 30)]),
    ("gpio", .table [("servo_pin", .integer 17), ("buzzer_pin", .integer 27),
      ("rgb_red_pin", .integer 22), ("rgb_green_pin", .integer 23), ("rgb_blue_pin", .integer 24),
      ("rgb_active_high", .boolean true), ("servo_open_ms", .integer 5000),
      ("buzzer_beep_ms", .integer 400), ("enabled", .boolean true)]),
    ("recognition", .table [("idle_reset_seconds", .integer 3),
      ("unknown_throttle_seconds", .integer 10), ("denied_cooldown_ms", .integer 1000),
      ("face_stabilization_ms", .integer 700)]),
    ("storage", .table [("sqlite_path", .string "/var/lib/facegate/cache.db")]),
    ("mqtt", .table [("broker_host", .string "192.168.1.100"), ("broker_port", .integer 1883),
      ("client_id", .string "rpi-entrance-01"), ("keepalive_seconds", .integer 60),
      ("heartbeat_interval_seconds", .integer 30), ("username", .string ""),
      ("password", .string "")]),
    ("logging", .table [("level", .string "info")]),
    ("metrics", .table [("csv_path", .string ""), ("summary_interval_cycles", .integer 0)])]

/-- The example configuration as a document. -/
theorem loadConfig_valid_example : exampleConfig.Valid := by
  refine (loadConfig_valid tomlplusplus_lawful "config.toml"
    (.ok (exampleDocument (.num (.ofRat (1 / 2)))))).mpr ?_ exampleConfig (by decide +kernel)
  rintro root cfg he - ⟨s, hs, ht⟩
  cases he
  cases hs
  cases ht

/-- `threshold = nan` passes both comparisons. -/
theorem nan_accepted :
    ∃ cfg, loadConfig tomlplusplus "config.toml" (.ok (exampleDocument .nan)) = .ok cfg ∧
      ¬ cfg.Valid := by
  refine ⟨{ exampleConfig with vision := { exampleConfig.vision with threshold := .nan } },
    by decide +kernel, ?_⟩
  intro h
  exact Flt.not_le_nan _ h.threshold.1

end FaceGate.L1
