import FaceGate.Core.Base64
import FaceGate.Core.JsonText
import FaceGate.L1Domain.Json

/-!
# The session token

`login` signs three claims. The signature is the library's (`Jwt`); what the programs
rely on is `Jwt.Documented`: a token that was signed verifies under its secret, and its
middle part is the base64url form of the claims' JSON text. That text is written out
here, since the panel takes the token apart by itself.
-/
namespace FaceGate.L4

open Core Core.Base64 Core.JsonText FaceGate.L1

/-- mirrors backend/src/routes/auth.rs:35-43 -/
structure Claims where
  sub : ℤ
  email : String
  exp : ℕ
  deriving DecidableEq, Repr

/-- `{"sub":` -/
def subMember : List Char := ['\x7b', '"', 's', 'u', 'b', '"', ':']

/-- `"email":"` -/
def emailMember : List Char := ['"', 'e', 'm', 'a', 'i', 'l', '"', ':', '"']

/-- `,"exp":` -/
def expMember : List Char := [',', '"', 'e', 'x', 'p', '"', ':']

/-- The members of `Claims` in order, without white space. -/
def claimsText (sub : ℤ) (email : List Char) (exp : ℕ) : List Char :=
  subMember ++ (intChars sub ++ ',' :: (emailMember ++ (email.flatMap escape ++
    '"' :: (expMember ++ (Nat.toDigits 10 exp ++ ['\x7d'])))))

/-- `serde_json::to_vec` -/
def Claims.toVec (c : Claims) : Bytes := utf8 (claimsText c.sub c.email.toList c.exp)

/-- Header, claims and signature. -/
def compact (header claims signature : Bytes) : List Char :=
  ['.'].intercalate [encode urlChar header, encode urlChar claims, encode urlChar signature]

/-! ## The library -/

/-- `jsonwebtoken` under a secret: `encode`, and `decode` up to the check of `exp`. -/
structure Jwt where
  encode : String → Claims → List Char
  verify : String → List Char → Option Claims

structure Jwt.Documented (jwt : Jwt) : Prop where
  verify_encode : ∀ secret c, jwt.verify secret (jwt.encode secret c) = some c
  encode_compact : ∀ secret c, ∃ header signature,
    jwt.encode secret c = compact header c.toVec signature

/-- `Validation::default()`: seconds a token is still accepted after its `exp`. -/
def LEEWAY_SECS : ℕ := 60

/-- `decode` with that validation. -/
def Jwt.decode (jwt : Jwt) (secret : String) (now : ℕ) (token : List Char) : Option Claims :=
  (jwt.verify secret token).filter fun c => now ≤ c.exp + LEEWAY_SECS

theorem Jwt.decode_eq_some {jwt : Jwt} {secret : String} {now : ℕ} {token : List Char}
    {c : Claims} : jwt.decode secret now token = some c ↔
      jwt.verify secret token = some c ∧ now ≤ c.exp + LEEWAY_SECS := by
  rw [Jwt.decode, Option.filter_eq_some_iff, decide_eq_true_iff]

/-! ## Taking a token apart -/

theorem splitOn_compact (header claims signature : Bytes) :
    (compact header claims signature).splitOn '.' =
      [encode urlChar header, encode urlChar claims, encode urlChar signature] := by
  have hdot : ∀ bs, '.' ∉ encode urlChar bs := not_mem_encode fun v hv => by
    have hall : ∀ i : Fin 64, urlChar i ≠ '.' := by decide
    exact hall ⟨v, hv⟩
  refine List.splitOn_intercalate '.' ?_ (List.cons_ne_nil _ _)
  intro l hl
  simp only [List.mem_cons, List.not_mem_nil, or_false] at hl
  rcases hl with rfl | rfl | rfl
  · exact hdot header
  · exact hdot claims
  · exact hdot signature

theorem ascii_of_isDigit {c : Char} (h : c.isDigit = true) : c.toNat < 128 := by
  obtain ⟨-, hhi⟩ := Char.isDigit_iff_toNat.mp h
  exact Nat.lt_of_le_of_lt hhi (by decide)

theorem garbled_intChars (n : ℤ) : garbled (intChars n) = intChars n :=
  garbled_of_ascii fun c hc => by
    rcases mem_intChars hc with rfl | hd
    · decide
    · exact ascii_of_isDigit hd

theorem garbled_toDigits (n : ℕ) : garbled (Nat.toDigits 10 n) = Nat.toDigits 10 n :=
  garbled_of_ascii fun _ hc => ascii_of_isDigit (isDigit_of_mem_toDigits hc)

/-- Read as Latin-1, the text is that of claims with another email. -/
theorem garbled_claimsText (sub : ℤ) (email : List Char) (exp : ℕ) :
    garbled (claimsText sub email exp) = claimsText sub (garbled email) exp := by
  have h₁ : garbled subMember = subMember := garbled_of_all rfl
  have h₂ : garbled emailMember = emailMember := garbled_of_all rfl
  have h₃ : garbled expMember = expMember := garbled_of_all rfl
  have h₄ : garbled ['\x7d'] = ['\x7d'] := garbled_of_all rfl
  have hcons : ∀ c : Char, c.toNat < 128 → ∀ l, garbled (c :: l) = c :: garbled l := by
    intro c hc l
    rw [← List.singleton_append, garbled_append,
      garbled_of_ascii (s := [c]) fun d hd => by rwa [List.mem_singleton.mp hd],
      List.singleton_append]
  unfold claimsText
  rw [garbled_append, garbled_append, hcons ',' (by decide), garbled_append, garbled_append,
    hcons '"' (by decide), garbled_append, garbled_append, h₁, h₂, h₃, h₄, garbled_intChars,
    garbled_toDigits, latin1_escape]

/-! ## A library to compute with -/

/-- The part before a character, and what comes after it. -/
def untilChar (c : Char) (l : List Char) : List Char × List Char :=
  (l.takeWhile (· ≠ c), (l.dropWhile (· ≠ c)).drop 1)

/-- Reads what `claimsText` writes. -/
def readClaims (l : List Char) : Option (ℤ × List Char × ℕ) := do
  let l ← stripPrefix subMember l
  let sub ← readInt (untilChar ',' l).1
  let l ← stripPrefix emailMember (untilChar ',' l).2
  let (email, l) ← readString l
  let l ← stripPrefix expMember l
  let exp ← readNat (untilChar '\x7d' l).1
  return (sub, email, exp)

theorem untilChar_append {c : Char} {l : List Char} (h : c ∉ l) (rest : List Char) :
    untilChar c (l ++ c :: rest) = (l, rest) := by
  have hall : ∀ d ∈ l, (decide (d ≠ c)) = true := fun d hd =>
    decide_eq_true fun e => h (e ▸ hd)
  rw [untilChar, List.takeWhile_append_of_pos hall, List.dropWhile_append_of_pos hall]
  simp

theorem readClaims_claimsText (sub : ℤ) (email : List Char) (exp : ℕ) :
    readClaims (claimsText sub email exp) = some (sub, email, exp) := by
  have hcomma : ',' ∉ intChars sub := fun h => by
    rcases mem_intChars h with h | h
    · exact absurd h (by decide)
    · exact absurd h (by decide)
  have hbrace : '\x7d' ∉ Nat.toDigits 10 exp := fun h =>
    absurd (isDigit_of_mem_toDigits h) (by decide)
  unfold readClaims claimsText
  rw [stripPrefix_append, Option.bind_eq_bind, Option.bind_some, untilChar_append hcomma,
    readInt_intChars, Option.bind_eq_bind, Option.bind_some, stripPrefix_append,
    Option.bind_eq_bind, Option.bind_some, readString_escape, Option.bind_eq_bind,
    Option.bind_some]
  dsimp only
  rw [stripPrefix_append, Option.bind_some, untilChar_append hbrace, readNat_toDigits]
  rfl

/-- The header of HS256. -/
def plainHeader : Bytes := utf8
  ['\x7b', '"', 't', 'y', 'p', '"', ':', '"', 'J', 'W', 'T', '"', ',',
    '"', 'a', 'l', 'g', '"', ':', '"', 'H', 'S', '2', '5', '6', '"', '\x7d']

/-- The claims of a text. -/
def claimsOf (text : List Char) : Option Claims :=
  (readClaims text).map fun (sub, email, exp) => ⟨sub, .ofList email, exp⟩

/-- In the place of the signature stands the secret: nothing is kept secret, and
only what `encode` writes verifies. -/
def Jwt.plain : Jwt where
  encode secret c := compact plainHeader c.toVec (utf8 secret.toList)
  verify secret token :=
    match token.splitOn '.' with
    | [_, claims, _] => do
      let c ← claimsOf (← decodeUtf8 (← atob (toStandard claims)))
      if compact plainHeader c.toVec (utf8 secret.toList) = token then some c else none
    | _ => none

theorem claimsOf_claimsText (c : Claims) :
    claimsOf (claimsText c.sub c.email.toList c.exp) = some c := by
  rw [claimsOf, readClaims_claimsText, Option.map_some]
  dsimp only
  rw [String.ofList_toList]

theorem Jwt.plain_documented : Jwt.plain.Documented where
  verify_encode secret c := by
    simp only [plain, splitOn_compact, atob_toStandard, Claims.toVec, Option.bind_eq_bind,
      Option.bind_some, decodeUtf8_utf8, claimsOf_claimsText, if_true]
  encode_compact secret c := ⟨_, _, rfl⟩

end FaceGate.L4
