import FaceGate.Core.Flt
import Mathlib.Data.Vector.Basic

/-!
# Domain types of the edge

The types of `edge/src/domain/`. `float` is `Flt K` for an ordered type `K` of
numbers, so that nothing below depends on a rounding. Ids and times are
integers: no code of the edge adds to an id, and a clock reading plus a
configured duration stays far below 2^63 ns.
-/
namespace FaceGate.L1.Domain

open Core

/-- mirrors edge/src/domain/types.hpp:8 -/
abbrev EmployeeId := ℤ

/-- A `steady_clock` reading or duration, in nanoseconds. -/
abbrev Time := ℤ

/-- A `system_clock` time since the epoch: nanoseconds in a `time_point`,
milliseconds in a column.
mirrors edge/src/domain/types.hpp:10 -/
abbrev Timestamp := ℤ

def seconds (n : ℤ) : Time := n * 1000000000
def milliseconds (n : ℤ) : Time := n * 1000000

/-- mirrors edge/src/domain/embedding.hpp:11 -/
def EMBEDDING_DIM : ℕ := 512

abbrev EmbeddingVector (K : Type) := List.Vector (Flt K) EMBEDDING_DIM

/-- mirrors edge/src/domain/embedding.hpp:19-23 -/
structure Embedding (K : Type) where
  id : ℤ
  owner : EmployeeId
  vector : EmbeddingVector K
  deriving DecidableEq

/-- mirrors edge/src/domain/match.hpp:9-14 -/
structure Match (K : Type) where
  employee : EmployeeId
  distance : Flt K
  deriving DecidableEq, Repr

abbrev MatchResult (K : Type) := Option (Match K)

/-- mirrors edge/src/domain/events.hpp:9-13 -/
inductive AccessStatus where
  | granted | denied | unknown
  deriving DecidableEq, Repr

/-- mirrors edge/src/domain/events.hpp:15-20 -/
structure AccessEvent (K : Type) where
  timestamp : Timestamp
  status : AccessStatus
  employee : Option EmployeeId
  distance : Option (Flt K)
  deriving DecidableEq, Repr

/-- mirrors edge/src/domain/events.hpp:22-27 -/
inductive FaultKind where
  | cameraFailure | inferenceFailure | storageFailure | other
  deriving DecidableEq, Repr

/-- mirrors edge/src/domain/events.hpp:29-33 -/
structure DeviceFault where
  timestamp : Timestamp
  kind : FaultKind
  message : String
  deriving DecidableEq, Repr

/-- mirrors edge/src/domain/events.hpp:35-37 -/
structure Heartbeat where
  timestamp : Timestamp
  deriving DecidableEq, Repr

end FaceGate.L1.Domain
