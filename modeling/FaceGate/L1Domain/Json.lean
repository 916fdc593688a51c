import FaceGate.L1Domain.Types

/-!
# JSON values and the embedding sync message

Both programs exchange JSON text. The text itself (nlohmann::json on the edge,
serde_json on the backend) is a parameter, `JsonText`; here are the values, the
conversions each side applies to them and the object the backend derives for a
sync message.

What the code relies on is `JsonText.Carries`. The libraries promise it for
messages whose vector components are finite floats, which is what a
`vector(512)` column stores: NaN and infinities have no JSON form.
-/
namespace FaceGate.L1

open Core FaceGate.L1.Domain

/-- `nlohmann::json`; the three number constructors are its `value_t`s. -/
inductive Json (K : Type) where
  | null
  | boolean (b : Bool)
  | numberUnsigned (n : ℕ)
  | numberInteger (i : ℤ)
  | numberFloat (x : Flt K)
  | string (s : String)
  | array (l : List (Json K))
  | object (m : List (String × Json K))

/-- The exceptions of nlohmann::json. -/
inductive JsonError where
  | parseError | typeError | outOfRange
  deriving DecidableEq, Repr

abbrev Bytes := List UInt8

/-- mirrors edge/src/mqtt/serialization.hpp:9-12 -/
structure SerializedMessage where
  topic : String
  payload : Bytes
  deriving DecidableEq, Repr

variable {K : Type}

namespace Json

/-- `j.at(key)`: `type_error` on a value that is no object, `out_of_range` on a
missing key. -/
def at' (key : String) : Json K → Except JsonError (Json K)
  | object m =>
    match m.find? (fun kv => kv.1 = key) with
    | some kv => .ok kv.2
    | none => .error .outOfRange
  | _ => .error .typeError

/-- `get<std::int64_t>()`: any number, cast. -/
def getInt64 [FloatArith K] : Json K → Except JsonError ℤ
  | numberUnsigned n => .ok (Int.bmod n (2 ^ 64))
  | numberInteger i => .ok i
  | numberFloat x => .ok (FloatArith.toInt x)
  | _ => .error .typeError

/-- `get<float>()`: any number, and a boolean as 0 or 1. -/
def getFloat [FloatArith K] : Json K → Except JsonError (Flt K)
  | numberUnsigned n => .ok (FloatArith.lit n)
  | numberInteger i => .ok (FloatArith.lit i)
  | numberFloat x => .ok (FloatArith.narrow x)
  | boolean b => .ok (FloatArith.lit (if b then 1 else 0))
  | _ => .error .typeError

/-- A Rust integer as JSON. -/
def ofInt (i : ℤ) : Json K := if 0 ≤ i then numberUnsigned i.toNat else numberInteger i

theorem getInt64_ofInt [FloatArith K] {i : ℤ} (h0 : 0 ≤ i) (h : i < 2 ^ 63) :
    (ofInt i : Json K).getInt64 = .ok i := by
  obtain ⟨n, rfl⟩ := Int.eq_ofNat_of_zero_le h0
  have hb : Int.bmod (n : ℤ) (2 ^ 64) = n := Int.bmod_eq_of_le (by omega) (by omega)
  simp only [ofInt, h0, if_true, Int.toNat_natCast, getInt64, hb]

end Json

/-! ## Deserialising with serde -/

/-- `serde_json::Error`. -/
inductive SerdeError where
  | syntax'
  | missingField (name : String)
  | duplicateField (name : String)
  | invalidType
  | outOfRange
  | invalidLength
  deriving DecidableEq, Repr

namespace Json

/-- `i64` -/
def toI64 : Json K → Except SerdeError ℤ
  | numberUnsigned n => if n < 2 ^ 63 then .ok n else .error .outOfRange
  | numberInteger i => .ok i
  | _ => .error .invalidType

/-- `i32` -/
def toI32 : Json K → Except SerdeError ℤ
  | numberUnsigned n => if n < 2 ^ 31 then .ok n else .error .outOfRange
  | numberInteger i => if -2 ^ 31 ≤ i ∧ i < 2 ^ 31 then .ok i else .error .outOfRange
  | _ => .error .invalidType

theorem toI64_ofInt {i : ℤ} (h : i < 2 ^ 63) : (ofInt i : Json K).toI64 = .ok i := by
  unfold ofInt
  split
  · rename_i h0
    obtain ⟨n, rfl⟩ := Int.eq_ofNat_of_zero_le h0
    have hn : n < 2 ^ 63 := by omega
    simp only [Int.toNat_natCast, toI64, hn, if_true]
  · rfl

theorem toI32_ofInt {i : ℤ} (h : -2 ^ 31 ≤ i ∧ i < 2 ^ 31) :
    (ofInt i : Json K).toI32 = .ok i := by
  unfold ofInt
  split
  · rename_i h0
    obtain ⟨n, rfl⟩ := Int.eq_ofNat_of_zero_le h0
    have hn : n < 2 ^ 31 := by omega
    simp only [Int.toNat_natCast, toI32, hn, if_true]
  · simp only [toI32, h, and_self, if_true]

/-- `f64`: any number. -/
def toF64 [FloatArith K] : Json K → Except SerdeError (Flt K)
  | numberUnsigned n => .ok (FloatArith.lit n)
  | numberInteger i => .ok (FloatArith.lit i)
  | numberFloat x => .ok x
  | _ => .error .invalidType

/-- `String` -/
def toStr : Json K → Except SerdeError String
  | string s => .ok s
  | _ => .error .invalidType

/-- `Option<T>`: `null` is `None`. -/
def toOption {A : Type} (conv : Json K → Except SerdeError A) :
    Json K → Except SerdeError (Option A)
  | null => .ok none
  | j => some <$> conv j

theorem toOption_ofInt {A : Type} (conv : Json K → Except SerdeError A) (i : ℤ) :
    (ofInt i).toOption conv = some <$> conv (ofInt i) := by
  unfold ofInt
  split <;> rfl

/-- A member of an object that is a struct: at most one of the name. -/
def field (m : List (String × Json K)) (name : String) : Except SerdeError (Option (Json K)) :=
  match m.filter fun kv => kv.1 = name with
  | [] => .ok none
  | [kv] => .ok (some kv.2)
  | _ => .error (.duplicateField name)

/-- A field that must be there. -/
def required {A : Type} (m : List (String × Json K)) (name : String)
    (conv : Json K → Except SerdeError A) : Except SerdeError A := do
  match ← field m name with
  | some j => conv j
  | none => .error (.missingField name)

/-- A field with a default; the default of an `Option` is `None`. -/
def withDefault {A : Type} (m : List (String × Json K)) (name : String) (default : A)
    (conv : Json K → Except SerdeError A) : Except SerdeError A := do
  match ← field m name with
  | some j => conv j
  | none => pure default

theorem withDefault_ok {A : Type} {m : List (String × Json K)} {name : String} {default a : A}
    {conv : Json K → Except SerdeError A} (h : withDefault m name default conv = .ok a) :
    (field m name = .ok none ∧ a = default) ∨
      ∃ j, field m name = .ok (some j) ∧ conv j = .ok a := by
  unfold withDefault at h
  rcases hf : field m name with e | (_ | j)
  · rw [hf] at h
    cases h
  · rw [hf] at h
    cases h
    exact Or.inl ⟨rfl, rfl⟩
  · rw [hf] at h
    exact Or.inr ⟨j, rfl, h⟩

end Json

/-! ## The sync message -/

/-- mirrors backend/src/routes/embeddings.rs:54-60 -/
structure EmbeddingSyncMsg (K : Type) where
  embeddingId : ℤ
  employeeId : ℤ
  vector : EmbeddingVector K
  createdAtMs : ℤ
  deriving DecidableEq

/-- Ids are `SERIAL` columns. -/
structure EmbeddingSyncMsg.Serial (m : EmbeddingSyncMsg K) : Prop where
  id_pos : 0 < m.embeddingId
  id_i32 : m.embeddingId < 2 ^ 31
  employee_pos : 0 < m.employeeId
  employee_i32 : m.employeeId < 2 ^ 31

/-- `#[derive(Serialize)]`: one member per field, in order.
mirrors backend/src/routes/embeddings.rs:54-60 -/
def EmbeddingSyncMsg.toJson (m : EmbeddingSyncMsg K) : Json K :=
  .object
    [("embedding_id", .ofInt m.embeddingId),
     ("employee_id", .ofInt m.employeeId),
     ("vector", .array (m.vector.toList.map .numberFloat)),
     ("created_at_ms", .ofInt m.createdAtMs)]

/-- `serde_json::to_vec` on one side, `nlohmann::json::parse` on the other. -/
structure JsonText (K : Type) where
  toVec : Json K → Bytes
  parse : Bytes → Option (Json K)

/-- The text of `m` is read back. A `float` is printed in its shortest decimal
form and read as a `double`, which need not be the same number: it is the one
that `static_cast<float>` takes to the float printed. -/
structure JsonText.Carries [FloatArith K] (text : JsonText K) (m : EmbeddingSyncMsg K) : Prop where
  ne_nil : text.toVec m.toJson ≠ []
  parsed : ∃ doubles : EmbeddingVector K, doubles.map FloatArith.narrow = m.vector ∧
    text.parse (text.toVec m.toJson) = some { m with vector := doubles }.toJson

/-! ## A text to compute with -/

/-- The compact form both libraries write. Strings are written without escapes
and floats with one decimal, so it is that form for plain strings and whole
numbers only. -/
def Json.compact : Json ExtRat → List Char
  | null => "null".toList
  | boolean b => (toString b).toList
  | numberUnsigned n => Nat.toDigits 10 n
  | numberInteger i => (if i < 0 then ['-'] else []) ++ Nat.toDigits 10 i.natAbs
  | numberFloat (.num (some (some q))) =>
    (if q < 0 then ['-'] else []) ++ Nat.toDigits 10 q.num.natAbs ++ ".0".toList
  | numberFloat _ => "null".toList
  | string s => '"' :: s.toList ++ ['"']
  | array l => '[' :: elements l ++ [']']
  | object m => '\x7b' :: members m ++ ['\x7d']
where
  elements : List (Json ExtRat) → List Char
    | [] => []
    | [j] => j.compact
    | j :: l => j.compact ++ ',' :: elements l
  members : List (String × Json ExtRat) → List Char
    | [] => []
    | [(k, j)] => '"' :: k.toList ++ '"' :: ':' :: j.compact
    | (k, j) :: m => '"' :: k.toList ++ '"' :: ':' :: j.compact ++ ',' :: members m

/-- Prints any value; reads the texts of `known` values back. -/
def JsonText.compact (known : List (Json ExtRat)) : JsonText ExtRat :=
  let toVec j := j.compact.map fun c => c.toNat.toUInt8
  ⟨toVec, fun b => known.find? fun j => toVec j = b⟩

/-- The first unit vector. -/
def axis : EmbeddingVector ExtRat :=
  ⟨.num (.ofRat 1) :: List.replicate 511 (.num (.ofRat 0)),
    by simp only [List.length_cons, List.length_replicate, EMBEDDING_DIM]⟩

/-- An upsert of that vector. -/
def axisMsg (embeddingId employeeId : ℤ) : EmbeddingSyncMsg ExtRat :=
  ⟨embeddingId, employeeId, axis, 1700000000000⟩

end FaceGate.L1
