import FaceGate.L4Panel.AuthService

/-!
# A panel session from login to logout

The panel's tabs share the stored token. Requests, their refusals, logins and their
answers are on the way at the same time, in any number and order; a 401 to any of them ends the
session that is stored when it arrives, not the one the request belonged to.
`Date.now()` and the backend's clock are read where the code reads them and need not agree.

`session_lasts`: as long as the backend checks a request at most 71 seconds after it was sent, by
the two clocks (`Timely`), a stored token is only removed by a click on logout, by the panel
itself when no more than ten seconds of the eight hours are left, or by the refusal of a request
that was sent without a token. That last way is a race: such a request, sent before a login and
refused after it, ends the new session.
-/
namespace FaceGate.L5.Session

open Core Core.JsonText FaceGate.L4 FaceGate.L4.Auth FaceGate.L4.AuthService

/-! ## The clocks -/

section
variable {parse : List Char → Option JwtClaims} {jwt : Jwt}

theorem fromRequestParts_issued_iff (hjwt : jwt.Documented) (secret : String) (row : UserRow)
    (issuedAt now : ℕ) : fromRequestParts jwt secret now
      (some (bearer ++ jwt.encode secret (claimsFor row issuedAt))) = .ok (claimsFor row issuedAt) ↔
        now ≤ issuedAt + TOKEN_TTL_SECS + LEEWAY_SECS := by
  refine ⟨fun h => ?_, fromRequestParts_issued hjwt secret row⟩
  obtain ⟨header, token, -, -, -, hexp⟩ := fromRequestParts_ok h
  exact hexp

/-- **Guard, interceptor and backend read the same end of a session**, whatever characters
are in the email: the interceptor stops 10 seconds before it, the backend 60 seconds after it. -/
theorem session_end_agrees (hjwt : jwt.Documented) (hparse : ReadsClaims parse) (secret : String)
    {row : UserRow} {issuedAt : ℕ} (hc : SafeClaims (claimsFor row issuedAt)) (isLoggedIn : Bool) :
    (∀ now, (isAuthenticated parse now
        ⟨some (jwt.encode secret (claimsFor row issuedAt)), isLoggedIn⟩).1 = true ↔
          now < (issuedAt + TOKEN_TTL_SECS : ℤ) * 1000) ∧
    (∀ now, (intercept parse now false
        ⟨some (jwt.encode secret (claimsFor row issuedAt)), isLoggedIn⟩).1 =
          .sent (some (bearer ++ jwt.encode secret (claimsFor row issuedAt))) ↔
          now < (issuedAt + TOKEN_TTL_SECS - 10 : ℤ) * 1000) ∧
    ∀ now, fromRequestParts jwt secret now
        (some (bearer ++ jwt.encode secret (claimsFor row issuedAt))) =
          .ok (claimsFor row issuedAt) ↔ now ≤ issuedAt + TOKEN_TTL_SECS + 60 := by
  refine ⟨fun now => ?_, fun now => ?_, fromRequestParts_issued_iff hjwt secret row issuedAt⟩
  · have hexp : ((claimsFor row issuedAt).exp : ℤ) = issuedAt + TOKEN_TTL_SECS := by
      simp [claimsFor]
    rw [isAuthenticated_encode hjwt hparse secret hc, hexp]
    split
    · simp only [Bool.false_eq_true, false_iff]
      omega
    · simp only [true_iff]
      omega
  · rw [intercept_encode hjwt hparse secret hc]
    split
    · simp only [reduceCtorEq, false_iff]
      omega
    · simp only [true_iff]
      omega

/-- The email is not ASCII. -/
theorem session_end_agrees_accented :
    (isAuthenticated plainParse 28799999
        ⟨some (Jwt.plain.encode "s" (claimsFor ⟨1, "joão@b.c", "", 0⟩ 0)), true⟩).1 = true ∧
      (intercept plainParse 28799999 false
        ⟨some (Jwt.plain.encode "s" (claimsFor ⟨1, "joão@b.c", "", 0⟩ 0)), true⟩).1 ≠
          .sent (some (bearer ++ Jwt.plain.encode "s" (claimsFor ⟨1, "joão@b.c", "", 0⟩ 0))) := by
  have hc : SafeClaims (claimsFor ⟨1, "joão@b.c", "", 0⟩ 0) := by decide
  obtain ⟨hguard, hsend, -⟩ :=
    session_end_agrees Jwt.plain_documented plainParse_reads "s" hc true
  exact ⟨(hguard _).mpr (by decide), fun h => absurd ((hsend _).mp h) (by decide)⟩

end

/-! ## The system -/

/-- A protected request; `sentAt` is the panel's clock. -/
structure Call where
  tab : ℕ
  authorization : Option (List Char)
  sentAt : ℤ
  deriving DecidableEq, Repr

/-- Why a token was removed. -/
inductive Cause where
  | logout
  /-- By the guard or the interceptor. -/
  | expired (now : ℤ)
  | refused (call : Call)
  deriving DecidableEq, Repr

structure Removal where
  token : List Char
  cause : Cause
  deriving DecidableEq, Repr

/-- `signals`: `isLoggedIn` of each tab. Ghosts: `issues` and `removals`. -/
structure State where
  users : Users
  token : Option (List Char)
  signals : List Bool
  logins : List (ℕ × LoginRequest)
  answers : List (ℕ × List Char)
  calls : List Call
  refusals : List Call
  issues : List Issue
  removals : List Removal

namespace State

/-- What a tab sees. -/
def session (s : State) (tab : ℕ) : Session := ⟨s.token, s.signals.getD tab false⟩

/-- A tab's session becomes `t`. -/
def put (s : State) (tab : ℕ) (t : Session) : State :=
  { s with token := t.token, signals := s.signals.set tab t.isLoggedIn }

/-- `put`, and if that removes a token, why. -/
def putBecause (s : State) (tab : ℕ) (t : Session) (cause : Cause) : State :=
  { s.put tab t with
    removals := s.removals ++
      (if t.token = none then s.token.toList.map fun token => ⟨token, cause⟩ else []) }

end State

inductive Label where
  | setUsers (users : Users)
  | openTab
  | login (tab : ℕ) (body : LoginRequest)
  | serveLogin (i now : ℕ) (dbUp : Bool)
  | loggedIn (i : ℕ)
  | navigate (tab : ℕ) (now : ℤ)
  | call (tab : ℕ) (now : ℤ)
  | serveCall (i now : ℕ)
  | refused (i : ℕ)
  | logout (tab : ℕ)

section
variable (parse : List Char → Option JwtClaims) (jwt : Jwt) (hash : String → String)
  (secret : String)

def step (s : State) : Label → Option State
  | .setUsers users => some { s with users := users }
  | .openTab => some { s with signals := s.signals ++ [hasToken s.token] }
  | .login tab body =>
    -- The interceptor neither checks nor attaches a token here.
    some { s with logins := s.logins ++ [(tab, body)] }
  | .serveLogin i now dbUp =>
    match s.logins[i]? with
    | some (tab, body) =>
      match selectUser hash dbUp s.users body with
      | .ok row => some { s with
          logins := Pool.advance s.logins i none
          answers := s.answers ++ [(tab, jwt.encode secret (claimsFor row now))]
          issues := s.issues ++ [⟨row, body.password, now⟩] }
      | .error _ => some { s with logins := Pool.advance s.logins i none }
    | none => none
  | .loggedIn i =>
    match s.answers[i]? with
    | some (tab, token) =>
      some { s.put tab (.store token) with answers := Pool.advance s.answers i none }
    | none => none
  | .navigate tab now =>
    some (s.putBecause tab (isAuthenticated parse now (s.session tab)).2 (.expired now))
  | .call tab now =>
    match intercept parse now false (s.session tab) with
    | (.expired, t) => some (s.putBecause tab t (.expired now))
    | (.sent authorization, _) => some { s with calls := s.calls ++ [⟨tab, authorization, now⟩] }
  | .serveCall i now =>
    match s.calls[i]? with
    | some call =>
      match fromRequestParts jwt secret now call.authorization with
      | .ok _ => some { s with calls := Pool.advance s.calls i none }
      | .error _ => some { s with
          calls := Pool.advance s.calls i none
          refusals := s.refusals ++ [call] }
    | none => none
  | .refused i =>
    match s.refusals[i]? with
    | some call => some { s.putBecause call.tab (onError 401 false (s.session call.tab))
        (.refused call) with refusals := Pool.advance s.refusals i none }
    | none => none
  | .logout tab => some (s.putBecause tab .clearToken .logout)

/-- Nothing on the way, and a token in the storage only if a login has issued it. -/
structure Initial (s : State) : Prop where
  logins : s.logins = []
  answers : s.answers = []
  calls : s.calls = []
  refusals : s.refusals = []
  removals : s.removals = []
  token : ∀ token ∈ s.token, ∃ i ∈ s.issues, token = jwt.encode secret i.claims
  safe : ∀ i ∈ s.issues, SafeClaims i.claims

def system : LTS State Label := .ofStep (Initial jwt secret) (step parse jwt hash secret)

/-- The condition on a step: the backend's clock, at the check of a request, is at most 71 seconds
ahead of what the panel's was when it sent it, and ids and times are numbers the panel can
hold. -/
def Timely (s : State) : Label → Prop
  | .serveCall i now => ∀ call ∈ s.calls[i]?, (now : ℤ) ≤ call.sentAt / 1000 + 71
  | .serveLogin _ now _ => ∀ row ∈ s.users.rows, SafeClaims (claimsFor row now)
  | _ => True

instance (s : State) (l : Label) : Decidable (Timely s l) := by
  unfold Timely
  split <;> infer_instance

/-! ## Who removes a token -/

variable {parse jwt hash secret} {s s' : State}

/-- What may end the session of a login. -/
def Allowed (i : Issue) : Cause → Prop
  | .logout => True
  | .expired now => (i.issuedAt + TOKEN_TTL_SECS - 10 : ℤ) ≤ now / 1000
  | .refused call => call.authorization = none

/-- The token is one of a login. -/
def Issued (jwt : Jwt) (secret : String) (s : State) (token : List Char) : Prop :=
  ∃ i ∈ s.issues, token = jwt.encode secret i.claims

structure Inv (jwt : Jwt) (secret : String) (s : State) : Prop where
  safe : ∀ i ∈ s.issues, SafeClaims i.claims
  token : ∀ token ∈ s.token, Issued jwt secret s token
  answers : ∀ a ∈ s.answers, Issued jwt secret s a.2
  calls : ∀ call ∈ s.calls, ∀ header ∈ call.authorization, ∃ i ∈ s.issues,
    header = bearer ++ jwt.encode secret i.claims ∧
      call.sentAt / 1000 < (i.issuedAt + TOKEN_TTL_SECS - 10 : ℤ)
  refusals : ∀ call ∈ s.refusals, call.authorization = none
  removals : ∀ r ∈ s.removals, ∃ i ∈ s.issues, r.token = jwt.encode secret i.claims ∧
    Allowed i r.cause

theorem Initial.inv (h : Initial jwt secret s) : Inv jwt secret s where
  safe := h.safe
  token := h.token
  answers a ha := absurd ha (by rw [h.answers]; exact List.not_mem_nil)
  calls a ha := absurd ha (by rw [h.calls]; exact List.not_mem_nil)
  refusals a ha := absurd ha (by rw [h.refusals]; exact List.not_mem_nil)
  removals a ha := absurd ha (by rw [h.removals]; exact List.not_mem_nil)

/-- A tab may keep the token, or remove it for a reason that is allowed. -/
theorem Inv.putBecause (hi : Inv jwt secret s) (tab : ℕ) {t : Session} {cause : Cause}
    (ht : t.token = s.token ∨ t.token = none ∧ ∀ token ∈ s.token, ∃ i ∈ s.issues,
      token = jwt.encode secret i.claims ∧ Allowed i cause) :
    Inv jwt secret (s.putBecause tab t cause) where
  safe := hi.safe
  token token h := by
    rcases ht with ht | ⟨ht, -⟩
    · exact hi.token token (ht ▸ h)
    · change token ∈ t.token at h
      rw [ht] at h
      cases h
  answers := hi.answers
  calls := hi.calls
  refusals := hi.refusals
  removals r h := by
    rcases List.mem_append.mp h with h | h
    · exact hi.removals r h
    · split at h
      · rename_i hnone
        obtain ⟨token, htoken, rfl⟩ := List.mem_map.mp h
        have hs : s.token = some token := Option.mem_toList.mp htoken
        rcases ht with ht | ⟨-, hallowed⟩
        · rw [ht, hs] at hnone
          cases hnone
        · exact hallowed token hs
      · cases h

/-- The session of a tab, when the token is that of a login. -/
theorem session_eq {token : List Char} (hs : s.token = some token) (tab : ℕ) :
    s.session tab = ⟨some token, s.signals.getD tab false⟩ := by
  rw [State.session, hs]

theorem inv_navigate (hjwt : jwt.Documented) (hparse : ReadsClaims parse) (hi : Inv jwt secret s)
    (tab : ℕ) (now : ℤ) : Inv jwt secret
      (s.putBecause tab (isAuthenticated parse now (s.session tab)).2 (.expired now)) := by
  refine hi.putBecause tab ?_
  cases hs : s.token with
  | none =>
    left
    have hd : decodeToken parse (s.session tab).token = none := by
      simp [decodeToken, hasToken, State.session, hs]
    simp only [isAuthenticated, hd]
    exact hs
  | some token =>
    obtain ⟨i, hmem, rfl⟩ := hi.token token hs
    rw [session_eq hs, isAuthenticated_encode hjwt hparse secret (hi.safe i hmem)]
    split
    · rename_i hexp
      refine Or.inr ⟨rfl, fun token ht => ⟨i, hmem, (Option.some.inj ht).symm, ?_⟩⟩
      have hclaims : (i.claims.exp : ℤ) = i.issuedAt + TOKEN_TTL_SECS := by
        simp [Issue.claims, claimsFor]
      rw [hclaims] at hexp
      change (_ : ℤ) ≤ _
      omega
    · exact Or.inl rfl

theorem inv_call (hjwt : jwt.Documented) (hparse : ReadsClaims parse) (hi : Inv jwt secret s)
    {tab : ℕ} {now : ℤ} (h : step parse jwt hash secret s (.call tab now) = some s') :
    Inv jwt secret s' := by
  have hadd : ∀ authorization, (∀ header ∈ authorization, ∃ i ∈ s.issues,
      header = bearer ++ jwt.encode secret i.claims ∧
        now / 1000 < (i.issuedAt + TOKEN_TTL_SECS - 10 : ℤ)) →
      Inv jwt secret { s with calls := s.calls ++ [⟨tab, authorization, now⟩] } :=
    fun authorization hauth => { hi with
      calls := fun call hc => by
        rcases List.mem_append.mp hc with hc | hc
        · exact hi.calls call hc
        · rw [List.mem_singleton.mp hc]
          exact hauth }
  simp only [step] at h
  cases hs : s.token with
  | none =>
    rw [show intercept parse now false (s.session tab) = (.sent none, s.session tab) by
      simp only [intercept, State.session, hs]] at h
    cases h
    exact hadd none fun _ hh => absurd hh (Option.not_mem_none _)
  | some token =>
    obtain ⟨i, hmem, rfl⟩ := hi.token token hs
    rw [session_eq hs, Issue.claims, intercept_encode hjwt hparse secret (hi.safe i hmem)] at h
    split at h
    · rename_i t hexp
      split at hexp
      · rename_i hnow
        cases hexp
        cases h
        exact hi.putBecause tab (Or.inr ⟨rfl, fun token ht => ⟨i, hmem,
          by rw [hs] at ht; exact (Option.some.inj ht).symm, hnow⟩⟩)
      · cases hexp
    · rename_i authorization t hsent
      split at hsent
      · cases hsent
      · rename_i hnow
        cases hsent
        cases h
        refine hadd _ fun header hh => ⟨i, hmem, (Option.some.inj hh).symm, by omega⟩

/-- A request that carries a token is not refused in time. -/
theorem authorization_of_refused (hjwt : jwt.Documented) (hi : Inv jwt secret s) {call : Call}
    (hmem : call ∈ s.calls) {now : ℕ} (hnow : (now : ℤ) ≤ call.sentAt / 1000 + 71) {e : ℕ × String}
    (h : fromRequestParts jwt secret now call.authorization = .error e) :
    call.authorization = none := by
  cases ha : call.authorization with
  | none => rfl
  | some header =>
    obtain ⟨i, -, rfl, hsent⟩ := hi.calls call hmem header ha
    rw [ha, Issue.claims, fromRequestParts_issued hjwt secret i.row
      (by unfold LEEWAY_SECS; omega)] at h
    cases h

theorem inv_step (hjwt : jwt.Documented) (hparse : ReadsClaims parse) {l : Label}
    (hi : Inv jwt secret s) (h : step parse jwt hash secret s l = some s') (ht : Timely s l) :
    Inv jwt secret s' := by
  cases l with
  | setUsers users =>
    cases h
    exact { hi with }
  | openTab =>
    cases h
    exact { hi with }
  | login tab body =>
    cases h
    exact { hi with }
  | serveLogin i now dbUp =>
    simp only [step] at h
    split at h
    · rename_i tab body hlogin
      split at h
      · rename_i row hrow
        cases h
        have hissued : ∀ token, Issued jwt secret s token → ∃ i ∈ s.issues ++
            [⟨row, body.password, now⟩], token = jwt.encode secret i.claims :=
          fun token ⟨i, hmem, he⟩ => ⟨i, List.mem_append_left _ hmem, he⟩
        exact {
          safe := fun i hmem => by
            rcases List.mem_append.mp hmem with hmem | hmem
            · exact hi.safe i hmem
            · rw [List.mem_singleton.mp hmem]
              exact ht row (selectUser_ok hrow).1
          token := fun token ht => hissued token (hi.token token ht)
          answers := fun a ha => by
            rcases List.mem_append.mp ha with ha | ha
            · exact hissued a.2 (hi.answers a ha)
            · rw [List.mem_singleton.mp ha]
              exact ⟨_, List.mem_append_right _ (List.mem_singleton_self _), rfl⟩
          calls := fun call hc header hh => by
            obtain ⟨i, hmem, hrest⟩ := hi.calls call hc header hh
            exact ⟨i, List.mem_append_left _ hmem, hrest⟩
          refusals := hi.refusals
          removals := fun r hr => by
            obtain ⟨i, hmem, hrest⟩ := hi.removals r hr
            exact ⟨i, List.mem_append_left _ hmem, hrest⟩ }
      · cases h
        exact { hi with }
    · cases h
  | loggedIn i =>
    simp only [step] at h
    split at h
    · rename_i tab token hanswer
      cases h
      exact { hi with
        token := fun t ht => by
          cases ht
          exact hi.answers (tab, token) (List.mem_of_getElem? hanswer)
        answers := fun a ha => hi.answers a (Pool.mem_of_mem_finish ha) }
    · cases h
  | navigate tab now =>
    cases h
    exact inv_navigate hjwt hparse hi tab now
  | call tab now => exact inv_call hjwt hparse hi h
  | serveCall i now =>
    simp only [step] at h
    split at h
    · rename_i call hcall
      split at h
      · cases h
        exact { hi with calls := fun c hc => hi.calls c (Pool.mem_of_mem_finish hc) }
      · rename_i e he
        cases h
        have hnone := authorization_of_refused hjwt hi (List.mem_of_getElem? hcall)
          (ht call hcall) he
        exact { hi with
          calls := fun c hc => hi.calls c (Pool.mem_of_mem_finish hc)
          refusals := fun c hc => by
            rcases List.mem_append.mp hc with hc | hc
            · exact hi.refusals c hc
            · rwa [List.mem_singleton.mp hc] }
    · cases h
  | refused i =>
    simp only [step] at h
    split at h
    · rename_i call hcall
      cases h
      have hnone := hi.refusals call (List.mem_of_getElem? hcall)
      have hput := hi.putBecause call.tab (t := onError 401 false (s.session call.tab))
        (Or.inr ⟨rfl, fun token ht => by
          obtain ⟨i, hmem, he⟩ := hi.token token ht
          exact ⟨i, hmem, he, show Allowed i (.refused call) from hnone⟩⟩)
      exact { hput with refusals := fun c hc => hi.refusals c (Pool.mem_of_mem_finish hc) }
    · cases h
  | logout tab =>
    cases h
    refine hi.putBecause tab (Or.inr ⟨rfl, fun token ht => ?_⟩)
    obtain ⟨i, hmem, he⟩ := hi.token token ht
    exact ⟨i, hmem, he, trivial⟩

/-- **A session lasts its eight hours**, but for a logout or a request sent without a token. -/
theorem session_lasts (hjwt : jwt.Documented) (hparse : ReadsClaims parse) (s : State)
    (hr : ((system parse jwt hash secret).guard Timely).Reachable s) :
    ∀ r ∈ s.removals, ∃ i ∈ s.issues, r.token = jwt.encode secret i.claims ∧
      (r.cause = .logout ∨
        (∃ now, r.cause = .expired now ∧ (i.issuedAt + TOKEN_TTL_SECS - 10 : ℤ) ≤ now / 1000) ∨
        ∃ call, r.cause = .refused call ∧ call.authorization = none) := by
  have hinv : ((system parse jwt hash secret).guard Timely).Inductive (Inv jwt secret) :=
    ⟨fun _ h => h.inv, fun _ _ _ hi h => inv_step hjwt hparse hi h.1 h.2⟩
  intro r h
  obtain ⟨i, hmem, htoken, hallowed⟩ := (hinv.reachable s hr).removals r h
  refine ⟨i, hmem, htoken, ?_⟩
  cases hc : r.cause with
  | logout => exact Or.inl rfl
  | expired now =>
    rw [hc] at hallowed
    exact Or.inr (Or.inl ⟨now, rfl, hallowed⟩)
  | refused call =>
    rw [hc] at hallowed
    exact Or.inr (Or.inr ⟨call, rfl, hallowed⟩)

/-- A request without a token, a login, and then the refusal. -/
theorem session_lasts_race : ∃ s : State, ∃ r ∈ s.removals, ∃ i ∈ s.issues,
    r.token = Jwt.plain.encode "s" i.claims ∧
      (r.cause = .logout ∨
        (∃ now, r.cause = .expired now ∧ (i.issuedAt + TOKEN_TTL_SECS - 10 : ℤ) ≤ now / 1000) ∨
        ∃ call, r.cause = .refused call ∧ call.authorization = none) := by
  have hrun : ((system plainParse Jwt.plain id "s").guard Timely).Run
      ⟨adminOnly, none, [false], [], [], [], [], [], []⟩
      [.call 0 0, .login 0 ⟨"admin@facegate.local", "admin123"⟩, .serveLogin 0 1 true,
        .loggedIn 0, .serveCall 0 2, .refused 0] _ :=
    .cons ⟨rfl, trivial⟩ (.cons ⟨rfl, trivial⟩ (.cons ⟨rfl, by decide⟩ (.cons ⟨rfl, trivial⟩
      (.cons ⟨rfl, by decide⟩ (.single ⟨rfl, trivial⟩)))))
  have h₀ : Initial Jwt.plain "s" ⟨adminOnly, none, [false], [], [], [], [], [], []⟩ :=
    ⟨rfl, rfl, rfl, rfl, rfl, fun _ h => absurd h (Option.not_mem_none _),
      fun _ h => absurd h List.not_mem_nil⟩
  exact ⟨_, _, List.mem_singleton_self _, session_lasts Jwt.plain_documented plainParse_reads _
    ⟨_, _, h₀, hrun⟩ _ (List.mem_singleton_self _)⟩

end
end FaceGate.L5.Session
