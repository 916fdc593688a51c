import FaceGate.L1Domain.Json

/-!
# The messages of the edge

`serialize` turns an event of the recognition loop into a topic and a JSON text.
`nlohmann::json` keeps the members of an object in the order of their keys, prints
an integer without its width, and widens a `float` to the `double` that is the same
number. What the code relies on is `JsonText.CarriesEvent`.
-/
namespace FaceGate.L1

open Core FaceGate.L1.Domain

/-- mirrors edge/src/mqtt/topics.hpp:5 -/
def kAccessEvent : String := "facegate/events/access"

/-- mirrors edge/src/mqtt/topics.hpp:6 -/
def kHeartbeat : String := "facegate/health/heartbeat"

/-- mirrors edge/src/mqtt/topics.hpp:7 -/
def kDeviceFault : String := "facegate/health/fault"

/-- `duration_cast<milliseconds>` rounds towards zero.
mirrors edge/src/mqtt/serialization.cpp:13-17 -/
def toEpochMs (ts : Timestamp) : ℤ := ts.tdiv 1000000

/-- mirrors edge/src/mqtt/serialization.cpp:19-26 -/
def statusToString : AccessStatus → String
  | .granted => "granted"
  | .denied => "denied"
  | .unknown => "unknown"

/-- mirrors edge/src/mqtt/serialization.cpp:28-36 -/
def faultKindToString : FaultKind → String
  | .cameraFailure => "camera_failure"
  | .inferenceFailure => "inference_failure"
  | .storageFailure => "storage_failure"
  | .other => "other"

variable {K : Type}

/-- mirrors edge/src/mqtt/serialization.cpp:40-55 -/
def eventJson (event : AccessEvent K) : Json K :=
  .object
    [("distance", event.distance.elim .null .numberFloat),
     ("employee_id", event.employee.elim .null .numberInteger),
     ("status", .string (statusToString event.status)),
     ("timestamp_ms", .numberInteger (toEpochMs event.timestamp))]

/-- mirrors edge/src/mqtt/serialization.cpp:62-64 -/
def heartbeatJson (heartbeat : Heartbeat) (deviceId : String) : Json K :=
  .object
    [("device_id", .string deviceId),
     ("timestamp_ms", .numberInteger (toEpochMs heartbeat.timestamp))]

/-- mirrors edge/src/mqtt/serialization.cpp:71-76 -/
def faultJson (fault : DeviceFault) (deviceId : String) : Json K :=
  .object
    [("device_id", .string deviceId),
     ("kind", .string (faultKindToString fault.kind)),
     ("message", .string fault.message),
     ("timestamp_ms", .numberInteger (toEpochMs fault.timestamp))]

/-- mirrors edge/src/mqtt/serialization.cpp:40-58 -/
def serialize (text : JsonText K) (event : AccessEvent K) : SerializedMessage :=
  ⟨kAccessEvent, text.toVec (eventJson event)⟩

/-- mirrors edge/src/mqtt/serialization.cpp:60-67 -/
def serializeHeartbeat (text : JsonText K) (heartbeat : Heartbeat) (deviceId : String) :
    SerializedMessage :=
  ⟨kHeartbeat, text.toVec (heartbeatJson heartbeat deviceId)⟩

/-- mirrors edge/src/mqtt/serialization.cpp:69-79 -/
def serializeFault (text : JsonText K) (fault : DeviceFault) (deviceId : String) :
    SerializedMessage :=
  ⟨kDeviceFault, text.toVec (faultJson fault deviceId)⟩

/-! ## What the text carries -/

/-- In the range of an `int64_t`. -/
def IsInt64 (i : ℤ) : Prop := -2 ^ 63 ≤ i ∧ i < 2 ^ 63

theorem isInt64_toEpochMs {ts : Timestamp} (h : IsInt64 ts) : IsInt64 (toEpochMs ts) := by
  have hs : Int.sign 1000000 = 1 := rfl
  unfold IsInt64 at h ⊢
  unfold toEpochMs
  rw [Int.tdiv_eq_ediv, hs]
  split <;> omega

/-- The members of the event are values of their types, and its distance has a
JSON form. -/
structure Printable [LinearOrder K] [BoundedOrder K] (event : AccessEvent K) : Prop where
  timestamp : IsInt64 event.timestamp
  employee : ∀ e ∈ event.employee, IsInt64 e
  distance : ∀ x ∈ event.distance, x.isFinite = true

/-- serde takes an integer for unsigned if it has no sign. -/
def Json.reread : Json K → Json K
  | .numberInteger i => .ofInt i
  | j => j

def Json.rereadMembers : Json K → Json K
  | .object m => .object (m.map fun kv => (kv.1, kv.2.reread))
  | j => j.reread

/-- `nlohmann::json::dump` on one side, `serde_json` on the other. -/
def JsonText.CarriesEvent [LinearOrder K] [BoundedOrder K] (text : JsonText K)
    (event : AccessEvent K) : Prop :=
  Printable event → text.parse (text.toVec (eventJson event)) = some (eventJson event).rereadMembers

end FaceGate.L1
