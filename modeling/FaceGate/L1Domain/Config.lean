import FaceGate.Core.Except
import FaceGate.L1Domain.Types

/-!
# The configuration of the edge

The structures of `config.hpp` and the checks `load_config` makes on them. A
check that fails throws its text; `validate` stops at the first one.

A number that no check rejects need not be in range: a NaN threshold is neither
below 0 nor above 2. `Config.valid_iff`: that is the only way in which an accepted
configuration breaks an invariant.
-/
namespace FaceGate.L1

open Core FaceGate.L1.Domain

/-- mirrors edge/src/config/config.hpp:9-14 -/
structure VisionConfig (K : Type) where
  threshold : Flt K
  blazefaceModel : String
  mobilefacenetModel : String
  onnxThreads : ℤ
  deriving DecidableEq

/-- mirrors edge/src/config/config.hpp:16-21 -/
structure CameraConfig where
  device : String
  width : ℤ
  height : ℤ
  fps : ℤ
  deriving DecidableEq

/-- mirrors edge/src/config/config.hpp:23-33 -/
structure GpioConfig where
  enabled : Bool
  servoPin : ℤ
  buzzerPin : ℤ
  rgbRedPin : ℤ
  rgbGreenPin : ℤ
  rgbBluePin : ℤ
  rgbActiveHigh : Bool
  servoOpenMs : ℤ
  buzzerBeepMs : ℤ
  deriving DecidableEq

/-- mirrors edge/src/config/config.hpp:35-44 -/
structure RecognitionConfig where
  idleResetSeconds : ℤ
  unknownThrottleSeconds : ℤ
  deniedCooldownMs : ℤ
  faceStabilizationMs : ℤ
  deriving DecidableEq

/-- mirrors edge/src/config/config.hpp:46-48 -/
structure StorageConfig where
  sqlitePath : String
  deriving DecidableEq

/-- mirrors edge/src/config/config.hpp:50-61 -/
structure MqttConfig where
  brokerHost : String
  brokerPort : ℤ
  clientId : String
  keepaliveSeconds : ℤ
  heartbeatIntervalSeconds : ℤ
  username : String
  password : String
  deriving DecidableEq

/-- mirrors edge/src/config/config.hpp:63-65 -/
structure LoggingConfig where
  level : String
  deriving DecidableEq

/-- mirrors edge/src/config/config.hpp:67-72 -/
structure MetricsConfig where
  csvPath : String
  summaryIntervalCycles : ℤ
  deriving DecidableEq

/-- mirrors edge/src/config/config.hpp:74-84 -/
structure Config (K : Type) where
  deviceId : String
  vision : VisionConfig K
  camera : CameraConfig
  gpio : GpioConfig
  recognition : RecognitionConfig
  storage : StorageConfig
  mqtt : MqttConfig
  logging : LoggingConfig
  metrics : MetricsConfig
  deriving DecidableEq

/-! ## Validation -/

/-- `if (bad) throw std::runtime_error(text)` -/
def reject (bad : Prop) [Decidable bad] (text : String) : Except String Unit :=
  if bad then .error text else .ok ()

@[simp] theorem reject_ok {bad : Prop} [Decidable bad] {text : String} :
    reject bad text = .ok () ↔ ¬ bad := by
  unfold reject
  split <;> simp_all

section
variable {K : Type} [LinearOrder K] [FloatArith K]

open FloatArith

/-- mirrors edge/src/config/config.cpp:152-163 -/
def validateVision (cfg : VisionConfig K) : Except String Unit := do
  reject (cfg.threshold < lit 0 ∨ lit 2 < cfg.threshold)
    "Config: vision.threshold must be between 0.0 and 2.0"
  reject (cfg.blazefaceModel = "") "Config: vision.blazeface_model is required"
  reject (cfg.mobilefacenetModel = "") "Config: vision.mobilefacenet_model is required"
  reject (cfg.onnxThreads ≤ 0) "Config: vision.onnx_threads must be positive"

/-- mirrors edge/src/config/config.cpp:165-173 -/
def validateCamera (cfg : CameraConfig) : Except String Unit := do
  reject (cfg.device = "") "Config: camera.device is required"
  reject (cfg.width ≤ 0 ∨ cfg.height ≤ 0) "Config: camera.width and camera.height must be positive"
  reject (cfg.fps ≤ 0) "Config: camera.fps must be positive"

def GpioConfig.pins (cfg : GpioConfig) : List ℤ :=
  [cfg.servoPin, cfg.buzzerPin, cfg.rgbRedPin, cfg.rgbGreenPin, cfg.rgbBluePin]

/-- mirrors edge/src/config/config.cpp:175-208 -/
def validateGpio (cfg : GpioConfig) : Except String Unit :=
  if cfg.enabled then do
    reject (cfg.servoPin < 0) "Config: gpio.servo_pin is required (positive integer)"
    reject (cfg.buzzerPin < 0) "Config: gpio.buzzer_pin is required (positive integer)"
    reject (cfg.rgbRedPin < 0 ∨ cfg.rgbGreenPin < 0 ∨ cfg.rgbBluePin < 0)
      "Config: gpio.rgb_red_pin/rgb_green_pin/rgb_blue_pin are required (positive integers)"
    reject (¬ cfg.pins.Nodup) "Config: gpio pin assignments must all differ"
    reject (cfg.servoOpenMs ≤ 0 ∨ cfg.buzzerBeepMs ≤ 0)
      "Config: gpio servo/buzzer durations must be positive"
  else .ok ()

/-- mirrors edge/src/config/config.cpp:210-221 -/
def validateRecognition (cfg : RecognitionConfig) : Except String Unit := do
  reject (cfg.idleResetSeconds ≤ 0) "Config: recognition.idle_reset_seconds must be positive"
  reject (cfg.unknownThrottleSeconds ≤ 0)
    "Config: recognition.unknown_throttle_seconds must be positive"
  reject (cfg.deniedCooldownMs ≤ 0) "Config: recognition.denied_cooldown_ms must be positive"
  reject (cfg.faceStabilizationMs < 0) "Config: recognition.face_stabilization_ms must be >= 0"

/-- mirrors edge/src/config/config.cpp:227-241 -/
def validateMqtt (cfg : MqttConfig) : Except String Unit := do
  reject (cfg.brokerHost = "") "Config: mqtt.broker_host is required"
  reject (cfg.brokerPort ≤ 0 ∨ 65535 < cfg.brokerPort)
    "Config: mqtt.broker_port must be in 1..65535"
  reject (cfg.clientId = "") "Config: mqtt.client_id is required"
  reject (cfg.keepaliveSeconds ≤ 0) "Config: mqtt.keepalive_seconds must be positive"
  reject (cfg.heartbeatIntervalSeconds ≤ 0)
    "Config: mqtt.heartbeat_interval_seconds must be positive"

/-- mirrors edge/src/config/config.cpp:147-250 -/
def Config.validate (cfg : Config K) : Except String Unit := do
  reject (cfg.deviceId = "") "Config: device_id is required"
  validateVision cfg.vision
  validateCamera cfg.camera
  validateGpio cfg.gpio
  validateRecognition cfg.recognition
  reject (cfg.storage.sqlitePath = "") "Config: storage.sqlite_path is required"
  validateMqtt cfg.mqtt
  reject (cfg.logging.level ∉ ["trace", "debug", "info", "warn", "error"])
    "Config: logging.level must be one of trace|debug|info|warn|error"

/-! ## What the checks establish -/

structure CameraConfig.Valid (cfg : CameraConfig) : Prop where
  device : cfg.device ≠ ""
  width : 0 < cfg.width
  height : 0 < cfg.height
  fps : 0 < cfg.fps

structure GpioConfig.Valid (cfg : GpioConfig) : Prop where
  pins : ∀ pin ∈ cfg.pins, 0 ≤ pin
  differ : cfg.pins.Nodup
  servoOpenMs : 0 < cfg.servoOpenMs
  buzzerBeepMs : 0 < cfg.buzzerBeepMs

structure RecognitionConfig.Valid (cfg : RecognitionConfig) : Prop where
  idleResetSeconds : 0 < cfg.idleResetSeconds
  unknownThrottleSeconds : 0 < cfg.unknownThrottleSeconds
  deniedCooldownMs : 0 < cfg.deniedCooldownMs
  faceStabilizationMs : 0 ≤ cfg.faceStabilizationMs

structure MqttConfig.Valid (cfg : MqttConfig) : Prop where
  brokerHost : cfg.brokerHost ≠ ""
  brokerPort : 1 ≤ cfg.brokerPort ∧ cfg.brokerPort ≤ 65535
  clientId : cfg.clientId ≠ ""
  keepaliveSeconds : 0 < cfg.keepaliveSeconds
  heartbeatIntervalSeconds : 0 < cfg.heartbeatIntervalSeconds

/-- The invariants of all fields but the threshold. -/
structure Config.ValidFields (cfg : Config K) : Prop where
  deviceId : cfg.deviceId ≠ ""
  blazefaceModel : cfg.vision.blazefaceModel ≠ ""
  mobilefacenetModel : cfg.vision.mobilefacenetModel ≠ ""
  onnxThreads : 0 < cfg.vision.onnxThreads
  camera : cfg.camera.Valid
  gpio : cfg.gpio.enabled = true → cfg.gpio.Valid
  recognition : cfg.recognition.Valid
  sqlitePath : cfg.storage.sqlitePath ≠ ""
  mqtt : cfg.mqtt.Valid
  level : cfg.logging.level ∈ ["trace", "debug", "info", "warn", "error"]

/-- The documented invariants.
mirrors edge/DESIGN.md:121-129 -/
structure Config.Valid (cfg : Config K) : Prop where
  threshold : lit 0 ≤ cfg.vision.threshold ∧ cfg.vision.threshold ≤ lit 2
  fields : cfg.ValidFields

theorem validateCamera_ok {cfg : CameraConfig} : validateCamera cfg = .ok () ↔ cfg.Valid := by
  simp only [validateCamera, checks_ok, reject_ok, not_or, not_le]
  exact ⟨fun ⟨h₁, ⟨h₂, h₃⟩, h₄⟩ => ⟨h₁, h₂, h₃, h₄⟩, fun h => ⟨h.1, ⟨h.2, h.3⟩, h.4⟩⟩

theorem validateGpio_ok {cfg : GpioConfig} :
    validateGpio cfg = .ok () ↔ (cfg.enabled = true → cfg.Valid) := by
  unfold validateGpio
  cases cfg.enabled with
  | false => simp
  | true =>
    simp only [if_true, forall_const, checks_ok, reject_ok, not_or, not_lt, not_le, not_not]
    constructor
    · rintro ⟨h₁, h₂, ⟨h₃, h₄, h₅⟩, hd, ho, hb⟩
      refine ⟨?_, hd, ho, hb⟩
      simp [GpioConfig.pins, h₁, h₂, h₃, h₄, h₅]
    · intro h
      have hp := h.pins
      simp only [GpioConfig.pins, List.forall_mem_cons] at hp
      exact ⟨hp.1, hp.2.1, ⟨hp.2.2.1, hp.2.2.2.1, hp.2.2.2.2.1⟩, h.differ, h.servoOpenMs,
        h.buzzerBeepMs⟩

theorem validateRecognition_ok {cfg : RecognitionConfig} :
    validateRecognition cfg = .ok () ↔ cfg.Valid := by
  simp only [validateRecognition, checks_ok, reject_ok, not_lt, not_le]
  exact ⟨fun ⟨h₁, h₂, h₃, h₄⟩ => ⟨h₁, h₂, h₃, h₄⟩, fun h => ⟨h.1, h.2, h.3, h.4⟩⟩

theorem validateMqtt_ok {cfg : MqttConfig} : validateMqtt cfg = .ok () ↔ cfg.Valid := by
  simp only [validateMqtt, checks_ok, reject_ok, not_or, not_lt, not_le]
  exact ⟨fun ⟨h₁, h₂, h₃, h₄, h₅⟩ => ⟨h₁, h₂, h₃, h₄, h₅⟩,
    fun h => ⟨h.1, h.2, h.3, h.4, h.5⟩⟩

/-- What is accepted: the threshold is not out of range, and all else holds. -/
theorem Config.validate_ok {cfg : Config K} :
    cfg.validate = .ok () ↔
      (¬ cfg.vision.threshold < lit 0 ∧ ¬ lit 2 < cfg.vision.threshold) ∧ cfg.ValidFields := by
  simp only [Config.validate, validateVision, checks_ok, reject_ok, not_or, not_le, not_not,
    validateCamera_ok, validateGpio_ok, validateRecognition_ok, validateMqtt_ok]
  constructor
  · rintro ⟨hid, ⟨ht, hb, hm, ho⟩, hc, hg, hr, hs, hq, hl⟩
    exact ⟨ht, ⟨hid, hb, hm, ho, hc, hg, hr, hs, hq, hl⟩⟩
  · rintro ⟨ht, h⟩
    exact ⟨h.deviceId, ⟨ht, h.blazefaceModel, h.mobilefacenetModel, h.onnxThreads⟩, h.camera,
      h.gpio, h.recognition, h.sqlitePath, h.mqtt, h.level⟩

/-- The durations of the deduplication that `validate` lets through. -/
theorem Config.validate_recognition {cfg : Config K} (h : cfg.validate = .ok ()) :
    0 < cfg.recognition.idleResetSeconds ∧ 0 < cfg.recognition.unknownThrottleSeconds ∧
      0 < cfg.recognition.deniedCooldownMs ∧ 0 ≤ cfg.recognition.faceStabilizationMs := by
  have hr := (Config.validate_ok.mp h).2.recognition
  exact ⟨hr.idleResetSeconds, hr.unknownThrottleSeconds, hr.deniedCooldownMs,
    hr.faceStabilizationMs⟩

/-- An accepted configuration is valid unless its threshold is NaN. -/
theorem Config.valid_iff [LawfulFloatArith K] {cfg : Config K} (h : cfg.validate = .ok ()) :
    cfg.Valid ↔ cfg.vision.threshold ≠ .nan := by
  obtain ⟨⟨hlo, hhi⟩, hf⟩ := Config.validate_ok.mp h
  constructor
  · intro hv hnan
    have hle := hv.threshold.1
    rw [hnan] at hle
    exact Flt.not_le_nan _ hle
  · intro hne
    exact ⟨⟨Flt.le_of_not_lt hne (LawfulFloatArith.lit_ne_nan 0) hlo,
      Flt.le_of_not_lt (LawfulFloatArith.lit_ne_nan 2) hne hhi⟩, hf⟩

end

/-- mirrors edge/config/config.example.toml -/
def exampleConfig : Config ExtRat where
  deviceId := "rpi-entrance-01"
  vision := ⟨.num (.ofRat (1 / 2)), "models/blaze.onnx", "models/arc.onnx", 2⟩
  camera := ⟨"/dev/video0", 640, 480, 30⟩
  gpio := ⟨true, 17, 27, 22, 23, 24, true, 5000, 400⟩
  recognition := ⟨3, 10, 1000, 700⟩
  storage := ⟨"/var/lib/facegate/cache.db"⟩
  mqtt := ⟨"192.168.1.100", 1883, "rpi-entrance-01", 60, 30, "", ""⟩
  logging := ⟨"info"⟩
  metrics := ⟨"", 0⟩

theorem exampleConfig_valid : exampleConfig.validate = .ok () := by decide +kernel

end FaceGate.L1
