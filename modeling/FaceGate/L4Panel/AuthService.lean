import FaceGate.L4Backend.Auth

/-!
# The panel's session

The panel keeps the token in `localStorage`, which all its tabs share, and reads `exp` out of it
in two places: the route guard (`isAuthenticated`) refuses a page once `exp` has passed, and the
interceptor (`isTokenExpired`) ends the session ten seconds earlier. Both undo base64url by
hand and give the bytes, one character each, to `JSON.parse`; an email outside ASCII comes
out garbled, `exp` does not (`decodePart_payload`).

`JSON.parse` is a parameter that reads what it is documented to read (`ReadsClaims`).
-/
namespace FaceGate.L4.AuthService

open Core Core.Base64 Core.JsonText FaceGate.L1 FaceGate.L4.Auth

/-- mirrors panel/src/app/core/models/auth.model.ts:13-17 -/
structure JwtClaims where
  sub : ℤ
  email : List Char
  exp : Option ℤ
  deriving DecidableEq, Repr

/-- `Number.isSafeInteger` -/
def Safe (n : ℤ) : Prop := |n| < 2 ^ 53

instance (n : ℤ) : Decidable (Safe n) := inferInstanceAs (Decidable (_ < _))

/-- The text of an object with these members is read as that object; larger numbers
would be rounded. -/
def ReadsClaims (parse : List Char → Option JwtClaims) : Prop :=
  ∀ (sub : ℤ) (email : List Char) (exp : ℕ), Safe sub → Safe exp →
    parse (claimsText sub email exp) = some ⟨sub, email, some exp⟩

/-- The panel's numbers hold those of the token. -/
structure SafeClaims (c : Claims) : Prop where
  sub : Safe c.sub
  exp : Safe c.exp

instance (c : Claims) : Decidable (SafeClaims c) :=
  decidable_of_iff (Safe c.sub ∧ Safe c.exp) ⟨fun h => ⟨h.1, h.2⟩, fun h => ⟨h.sub, h.exp⟩⟩

/-- `localStorage` and the signal of one tab.
mirrors panel/src/app/core/auth/auth.service.ts:28,37 -/
structure Session where
  token : Option (List Char)
  isLoggedIn : Bool
  deriving DecidableEq, Repr

/-- mirrors panel/src/app/core/auth/auth.service.ts:70-73 -/
def Session.store (token : List Char) : Session := ⟨some token, true⟩

/-- mirrors panel/src/app/core/auth/auth.service.ts:83-86 -/
def Session.clearToken : Session := ⟨none, false⟩

/-- A token that is there and not empty.
mirrors panel/src/app/core/auth/auth.service.ts:88-90 -/
def hasToken (token : Option (List Char)) : Bool := token.any (· ≠ [])

section
variable (parse : List Char → Option JwtClaims)

/-- Base64url to Base64, `atob`, `JSON.parse`.
mirrors panel/src/app/core/auth/auth.service.ts:99-100 and auth.interceptor.ts:16-18 -/
def decodePart (part : List Char) : Option JwtClaims :=
  (atob (toStandard part)).bind fun bytes => parse (latin1 bytes)

/-- mirrors panel/src/app/core/auth/auth.service.ts:92-104 -/
def decodeToken (token : Option (List Char)) : Option JwtClaims :=
  if !hasToken token then none
  else
    match (token.getD []).splitOn '.' with
    | [_, payload, _] => decodePart parse payload
    | _ => none

/-- `now` is `Date.now()`. An `exp` that is not there makes the comparison false.
mirrors panel/src/app/core/auth/auth.service.ts:49-58 -/
def isAuthenticated (now : ℤ) (s : Session) : Bool × Session :=
  match decodeToken parse s.token with
  | none => (false, s)
  | some claims =>
    if claims.exp.any fun exp => exp * 1000 ≤ now then (false, .clearToken) else (true, s)

/-- The middle part is not required to be one of three; what fails is caught.
mirrors panel/src/app/core/auth/auth.interceptor.ts:11-29 -/
def isTokenExpired (now : ℤ) (token : List Char) : Bool :=
  match token.splitOn '.' with
  | _ :: payload :: _ =>
    match decodePart parse payload with
    | none => true
    | some claims => claims.exp.any fun exp => exp ≠ 0 && exp - 10 ≤ now / 1000
  | _ => true

/-- What becomes of a request: "Local session expired", or it goes out. -/
inductive Outgoing where
  | expired
  | sent (authorization : Option (List Char))
  deriving DecidableEq, Repr

/-- mirrors panel/src/app/core/auth/auth.interceptor.ts:43-67 -/
def intercept (now : ℤ) (isAuthFlow : Bool) (s : Session) : Outgoing × Session :=
  match s.token with
  | none => (.sent none, s)
  | some token =>
    if token ≠ [] ∧ !isAuthFlow ∧ isTokenExpired parse now token then (.expired, .clearToken)
    else if isAuthFlow ∨ token = [] then (.sent none, s)
    else (.sent (some (bearer ++ token)), s)

/-- mirrors panel/src/app/core/auth/auth.interceptor.ts:71-85 -/
def onError (status : ℕ) (isAuthFlow : Bool) (s : Session) : Session :=
  if status = 401 && !isAuthFlow then .clearToken else s

end

/-! ## What the panel reads -/

variable {parse : List Char → Option JwtClaims} {jwt : Jwt}

/-- The claims as the panel reads them. -/
def readBack (c : Claims) : JwtClaims := ⟨c.sub, garbled c.email.toList, some c.exp⟩

theorem decodePart_payload (hparse : ReadsClaims parse) {c : Claims} (hc : SafeClaims c) :
    decodePart parse (encode urlChar c.toVec) = some (readBack c) := by
  rw [decodePart, atob_toStandard, Option.bind_some, Claims.toVec]
  change parse (garbled _) = _
  rw [garbled_claimsText, hparse _ _ _ hc.sub hc.exp]
  rfl

/-- A signed token is three parts with the claims in the middle. -/
theorem splitOn_encode (hjwt : jwt.Documented) (secret : String) (c : Claims) :
    ∃ header signature, (jwt.encode secret c).splitOn '.' =
      [header, encode urlChar c.toVec, signature] := by
  obtain ⟨header, signature, he⟩ := hjwt.encode_compact secret c
  exact ⟨_, _, he ▸ splitOn_compact header c.toVec signature⟩

theorem encode_ne_nil (hjwt : jwt.Documented) (secret : String) (c : Claims) :
    jwt.encode secret c ≠ [] := by
  obtain ⟨header, signature, hs⟩ := splitOn_encode hjwt secret c
  intro he
  rw [he, List.splitOn_nil] at hs
  cases hs

theorem decodeToken_encode (hjwt : jwt.Documented) (hparse : ReadsClaims parse) (secret : String)
    {c : Claims} (hc : SafeClaims c) :
    decodeToken parse (some (jwt.encode secret c)) = some (readBack c) := by
  obtain ⟨header, signature, hs⟩ := splitOn_encode hjwt secret c
  have hne : hasToken (some (jwt.encode secret c)) = true :=
    decide_eq_true (encode_ne_nil hjwt secret c)
  simp only [decodeToken, hne, Option.getD_some, hs, decodePart_payload hparse hc,
    Bool.not_true, Bool.false_eq_true, if_false]

theorem isTokenExpired_encode (hjwt : jwt.Documented) (hparse : ReadsClaims parse)
    (secret : String) {c : Claims} (hc : SafeClaims c) (now : ℤ) :
    isTokenExpired parse now (jwt.encode secret c) =
      decide ((c.exp : ℤ) ≠ 0 ∧ (c.exp : ℤ) - 10 ≤ now / 1000) := by
  obtain ⟨header, signature, hs⟩ := splitOn_encode hjwt secret c
  simp only [isTokenExpired, hs, decodePart_payload hparse hc, readBack, Option.any_some,
    Bool.decide_and]

theorem isAuthenticated_encode (hjwt : jwt.Documented) (hparse : ReadsClaims parse)
    (secret : String) {c : Claims} (hc : SafeClaims c) (now : ℤ) (b : Bool) :
    isAuthenticated parse now ⟨some (jwt.encode secret c), b⟩ =
      if (c.exp : ℤ) * 1000 ≤ now then (false, .clearToken)
      else (true, ⟨some (jwt.encode secret c), b⟩) := by
  simp only [isAuthenticated, decodeToken_encode hjwt hparse secret hc, readBack, Option.any_some,
    decide_eq_true_iff]

/-- What the interceptor does with the token of a login. -/
theorem intercept_encode (hjwt : jwt.Documented) (hparse : ReadsClaims parse)
    (secret : String) {row : UserRow} {issuedAt : ℕ} (hc : SafeClaims (claimsFor row issuedAt))
    (now : ℤ) (b : Bool) :
    intercept parse now false ⟨some (jwt.encode secret (claimsFor row issuedAt)), b⟩ =
      if (issuedAt + TOKEN_TTL_SECS : ℤ) - 10 ≤ now / 1000 then (.expired, .clearToken)
      else (.sent (some (bearer ++ jwt.encode secret (claimsFor row issuedAt))),
        ⟨some (jwt.encode secret (claimsFor row issuedAt)), b⟩) := by
  have hne := encode_ne_nil hjwt secret (claimsFor row issuedAt)
  have hexp : ((claimsFor row issuedAt).exp : ℤ) = issuedAt + TOKEN_TTL_SECS := by
    simp [claimsFor]
  have hpos : (issuedAt + TOKEN_TTL_SECS : ℤ) ≠ 0 := by
    unfold TOKEN_TTL_SECS
    omega
  simp only [intercept, isTokenExpired_encode hjwt hparse secret hc, hexp]
  simp [hne, hpos]

/-- Reads what `claimsText` writes. -/
def plainParse (l : List Char) : Option JwtClaims :=
  (readClaims l).map fun (sub, email, exp) => ⟨sub, email, some exp⟩

theorem plainParse_reads : ReadsClaims plainParse := fun sub email exp _ _ => by
  rw [plainParse, readClaims_claimsText, Option.map_some]

end FaceGate.L4.AuthService
