import FaceGate.Core.LTS
import FaceGate.L4Backend.Employees
import FaceGate.L4Backend.Token
import Mathlib.Data.List.Infix

/-!
# Accounts, logins and protected endpoints

`POST /auth/login` exchanges an email and a password for a token; every other endpoint
takes `Claims` as a parameter, whose extractor refuses a request without a valid
token before the body of the handler runs. `POST /users` is one of them: "any logged-in operator
can create more users" (`users.rs:7`). `system` interleaves logins, requests between their
extraction and their body, and what clients send, which may be any text. Each label
carries the clock its step reads; clocks need not agree.

Signatures cannot be guessed: a token that verifies was issued (`Unforged`).

* `run_of_login`: a handler body runs only on the claims of a login that came before, with
  the password of the account that the claims name, at most `TOKEN_TTL_SECS` and the
  leeway earlier.
* `accounts_descend`: every account goes back to one of the installation, each created by a
  request of the one before.
* `created_can_log_in`: what `create` stored is what `login` asks for, in every later state.
-/
namespace FaceGate.L4.Auth

open Core Core.Keyed Core.JsonText FaceGate.L1 FaceGate.L4.Employees

/-! ## Accounts -/

/-- mirrors infra/migrations/00_init.sql:53-58 -/
structure UserRow where
  id : ℤ
  email : String
  passwordHash : String
  createdAt : ℤ
  deriving DecidableEq, Repr

/-- `PRIMARY KEY` and `UNIQUE`. Rows are in the order they were committed. -/
structure Users where
  rows : List UserRow
  distinctIds : DistinctKeys UserRow.id rows
  distinctEmails : DistinctKeys UserRow.email rows

/-- The statement, under an id that its sequence has not given before. -/
def Users.insert (users : Users) (r : UserRow) (hid : lookup UserRow.id r.id users.rows = none)
    (hemail : lookup UserRow.email r.email users.rows = none) : Users where
  rows := users.rows ++ [r]
  distinctIds := distinctKeys_append users.distinctIds hid
  distinctEmails := distinctKeys_append users.distinctEmails hemail

/-! ## The handlers -/

/-- mirrors backend/src/routes/auth.rs:29 -/
def TOKEN_TTL_SECS : ℕ := 60 * 60 * 8

/-- mirrors backend/src/routes/auth.rs:80-86 -/
structure LoginRequest where
  email : String
  password : String
  deriving DecidableEq, Repr

/-- mirrors backend/src/routes/users.rs:35-41 -/
structure CreateUser where
  email : String
  password : String
  deriving DecidableEq, Repr

/-- `hash` is `sha256_hex` of a string's bytes, here and in all that follows.
mirrors backend/src/routes/auth.rs:109-134 -/
def selectUser (hash : String → String) (dbUp : Bool) (users : Users) (body : LoginRequest) :
    Except HttpError UserRow :=
  if !dbUp then .error (500, "internal error")
  else
    match users.rows.find? fun r => r.email = body.email && r.passwordHash = hash body.password with
    | some row => .ok row
    | none => .error (401, "invalid credentials")

/-- mirrors backend/src/routes/auth.rs:137-145 -/
def claimsFor (row : UserRow) (now : ℕ) : Claims := ⟨row.id, row.email, now + TOKEN_TTL_SECS⟩

/-- The token.
mirrors backend/src/routes/auth.rs:104-159 -/
def login (jwt : Jwt) (hash : String → String) (secret : String) (dbUp : Bool) (users : Users)
    (now : ℕ) (body : LoginRequest) : Except HttpError (List Char) := do
  let row ← selectUser hash dbUp users body
  return jwt.encode secret (claimsFor row now)

/-- `"Bearer "` -/
def bearer : List Char := ['B', 'e', 'a', 'r', 'e', 'r', ' ']

/-- mirrors backend/src/routes/auth.rs:51-73 -/
def fromRequestParts (jwt : Jwt) (secret : String) (now : ℕ) (authorization : Option (List Char)) :
    Except HttpError Claims :=
  match authorization with
  | none => .error (401, "missing Authorization header")
  | some header =>
    match stripPrefix bearer header with
    | none => .error (401, "expected Bearer token")
    | some token =>
      match jwt.decode secret now token with
      | none => .error (401, "invalid or expired token")
      | some claims => .ok claims

/-- `id` and `createdAt` are the defaults of the columns.
mirrors backend/src/routes/users.rs:85-123 -/
def create (hash : String → String) (dbUp : Bool) (users : Users) (id createdAt : ℤ)
    (hid : lookup UserRow.id id users.rows = none) (body : CreateUser) :
    Except HttpError (UserRow × Users) :=
  if (trim body.email).isEmpty then .error (400, "email is required")
  else if body.password.utf8ByteSize < 4 then .error (400, "password must be ≥ 4 chars")
  else if !dbUp then .error (500, "db error")
  else
    let row : UserRow := ⟨id, trim body.email, hash body.password, createdAt⟩
    if hemail : lookup UserRow.email row.email users.rows = none then
      .ok (row, users.insert row hid hemail)
    else .error (409, "email already registered")

/-! ## The system -/

inductive Op where
  | createUser (body : CreateUser)
  /-- Any other protected endpoint. -/
  | other
  deriving DecidableEq, Repr

/-- A login that was answered with a token. -/
structure Issue where
  row : UserRow
  password : String
  issuedAt : ℕ
  deriving DecidableEq, Repr

def Issue.claims (i : Issue) : Claims := claimsFor i.row i.issuedAt

/-- A protected request between two of its steps. `known`: how many tokens had been
issued when its own was checked. -/
inductive Request where
  | received (authorization : Option (List Char)) (op : Op)
  | authorised (claims : Claims) (checkedAt known : ℕ) (op : Op)
  deriving DecidableEq, Repr

/-- A handler body that ran; `made` is the account it created. -/
structure Handled where
  claims : Claims
  checkedAt : ℕ
  known : ℕ
  op : Op
  made : Option UserRow
  deriving DecidableEq, Repr

/-- Ghosts: `issues` and `handled`. -/
structure State where
  users : Users
  requests : List Request
  issues : List Issue
  handled : List Handled

inductive Label where
  | login (body : LoginRequest) (now : ℕ) (dbUp : Bool)
  | arrive (authorization : Option (List Char)) (op : Op)
  | check (i : ℕ) (now : ℕ)
  | handle (i : ℕ) (dbUp : Bool) (id createdAt : ℤ)
  deriving DecidableEq, Repr

section
variable (jwt : Jwt) (hash : String → String) (secret : String)

/-- The body of a handler; only `create` touches the accounts. -/
def run (dbUp : Bool) (users : Users) (id createdAt : ℤ)
    (hid : lookup UserRow.id id users.rows = none) : Op → Option UserRow × Users
  | .other => (none, users)
  | .createUser body =>
    match create hash dbUp users id createdAt hid body with
    | .ok (row, users) => (some row, users)
    | .error _ => (none, users)

def step (s : State) : Label → Option State
  | .login body now dbUp =>
    match selectUser hash dbUp s.users body with
    | .ok row => some { s with issues := s.issues ++ [⟨row, body.password, now⟩] }
    | .error _ => some s
  | .arrive authorization op =>
    some { s with requests := s.requests ++ [.received authorization op] }
  | .check i now =>
    match s.requests[i]? with
    | some (.received authorization op) =>
      match fromRequestParts jwt secret now authorization with
      | .ok claims => some { s with
          requests := Pool.advance s.requests i
            (some (.authorised claims now s.issues.length op)) }
      | .error _ => some { s with requests := Pool.advance s.requests i none }
    | _ => none
  | .handle i dbUp id createdAt =>
    match s.requests[i]? with
    | some (.authorised claims checkedAt known op) =>
      if hid : lookup UserRow.id id s.users.rows = none then
        some { s with
          users := (run hash dbUp s.users id createdAt hid op).2
          requests := Pool.advance s.requests i none
          handled := s.handled ++ [⟨claims, checkedAt, known, op,
            (run hash dbUp s.users id createdAt hid op).1⟩] }
      else none
    | _ => none

/-- Any accounts, and nothing going on. -/
structure Initial (s : State) : Prop where
  requests : s.requests = []
  issues : s.issues = []
  handled : s.handled = []

def system : LTS State Label := .ofStep Initial (step jwt hash secret)

/-- The condition on a step: a token that verifies is one that `login` has returned. -/
def Unforged (s : State) : Label → Prop
  | .check i _ =>
    match s.requests[i]? with
    | some (.received (some header) _) =>
      ∀ token ∈ stripPrefix bearer header, (jwt.verify secret token).isSome →
        ∃ i ∈ s.issues, token = jwt.encode secret i.claims
    | _ => True
  | _ => True

instance (s : State) (l : Label) : Decidable (Unforged jwt secret s l) := by
  unfold Unforged
  split
  · split <;> infer_instance
  · infer_instance

/-! ## What a step does -/

variable {jwt hash secret} {s s' : State}

/-- A body leaves the accounts alone or adds the one it was asked for. -/
theorem run_cases (hash : String → String) (dbUp : Bool) (users : Users) (id createdAt : ℤ)
    (hid : lookup UserRow.id id users.rows = none) (op : Op) :
    run hash dbUp users id createdAt hid op = (none, users) ∨
      ∃ body row, op = .createUser body ∧
        row = ⟨id, trim body.email, hash body.password, createdAt⟩ ∧
        (run hash dbUp users id createdAt hid op).1 = some row ∧
        (run hash dbUp users id createdAt hid op).2.rows = users.rows ++ [row] := by
  cases op with
  | other => exact Or.inl rfl
  | createUser body =>
    unfold run
    dsimp only
    split
    · rename_i row users' hcreate
      unfold create at hcreate
      split at hcreate
      · cases hcreate
      split at hcreate
      · cases hcreate
      split at hcreate
      · cases hcreate
      dsimp only at hcreate
      split at hcreate
      · cases hcreate
        exact Or.inr ⟨body, _, rfl, rfl, rfl, rfl⟩
      · cases hcreate
    · exact Or.inl rfl

/-- Accounts and ghosts only grow. -/
structure Grows (s s' : State) : Prop where
  users : s.users.rows <+: s'.users.rows
  issues : s.issues <+: s'.issues
  handled : s.handled <+: s'.handled

theorem step_grows {l : Label} (h : step jwt hash secret s l = some s') : Grows s s' := by
  cases l with
  | login body now dbUp =>
    simp only [step] at h
    split at h
    · cases h
      exact ⟨List.prefix_refl _, List.prefix_append _ _, List.prefix_refl _⟩
    · cases h
      exact ⟨List.prefix_refl _, List.prefix_refl _, List.prefix_refl _⟩
  | arrive authorization op =>
    cases h
    exact ⟨List.prefix_refl _, List.prefix_refl _, List.prefix_refl _⟩
  | check i now =>
    simp only [step] at h
    split at h
    · split at h
      · cases h
        exact ⟨List.prefix_refl _, List.prefix_refl _, List.prefix_refl _⟩
      · cases h
        exact ⟨List.prefix_refl _, List.prefix_refl _, List.prefix_refl _⟩
    · cases h
  | handle i dbUp id createdAt =>
    simp only [step] at h
    split at h
    · rename_i op _
      split at h
      · rename_i hid
        cases h
        refine ⟨?_, List.prefix_refl _, List.prefix_append _ _⟩
        rcases run_cases hash dbUp s.users id createdAt hid op with
          hrun | ⟨_, _, -, -, -, hrun⟩
        · rw [hrun]
        · dsimp only
          rw [hrun]
          exact List.prefix_append _ _
      · cases h
    · cases h

/-! ## A login opens the protected endpoints -/

/-- The token of a login passes the check until it has run out. -/
theorem fromRequestParts_issued (hjwt : jwt.Documented) (secret : String) (row : UserRow)
    {issuedAt now : ℕ}
    (h : now ≤ issuedAt + TOKEN_TTL_SECS + LEEWAY_SECS) :
    fromRequestParts jwt secret now
      (some (bearer ++ jwt.encode secret (claimsFor row issuedAt))) =
        .ok (claimsFor row issuedAt) := by
  have hdecode : jwt.decode secret now (jwt.encode secret (claimsFor row issuedAt)) =
      some (claimsFor row issuedAt) := Jwt.decode_eq_some.mpr ⟨hjwt.verify_encode _ _, h⟩
  simp only [fromRequestParts, stripPrefix_append, hdecode]

/-- A login and a request with its token, from any accounts. -/
theorem exists_handled (hjwt : jwt.Documented) (hash : String → String) (secret : String)
    {users : Users} {body : LoginRequest} {row : UserRow} {now checkedAt : ℕ} {id : ℤ}
    (hrow : selectUser hash true users body = .ok row)
    (hat : checkedAt ≤ now + TOKEN_TTL_SECS + LEEWAY_SECS)
    (hid : lookup UserRow.id id users.rows = none) (op : Op) (createdAt : ℤ) :
    ∃ s ls, ((system jwt hash secret).guard (Unforged jwt secret)).Run ⟨users, [], [], []⟩ ls s ∧
      s.users = (run hash true users id createdAt hid op).2 ∧
      s.handled = [⟨claimsFor row now, checkedAt, 1, op,
        (run hash true users id createdAt hid op).1⟩] := by
  have hcheck := fromRequestParts_issued hjwt secret row hat
  have hissued : step jwt hash secret ⟨users, [], [], []⟩ (.login body now true) =
      some ⟨users, [], [⟨row, body.password, now⟩], []⟩ := by
    simp only [step, hrow, List.nil_append]
  have harrived : step jwt hash secret ⟨users, [], [⟨row, body.password, now⟩], []⟩
      (.arrive (some (bearer ++ jwt.encode secret (claimsFor row now))) op) =
      some ⟨users, [.received (some (bearer ++ jwt.encode secret (claimsFor row now))) op],
        [⟨row, body.password, now⟩], []⟩ := rfl
  have hchecked : step jwt hash secret
      ⟨users, [.received (some (bearer ++ jwt.encode secret (claimsFor row now))) op],
        [⟨row, body.password, now⟩], []⟩ (.check 0 checkedAt) =
      some ⟨users, [.authorised (claimsFor row now) checkedAt 1 op],
        [⟨row, body.password, now⟩], []⟩ := by
    simp only [step, List.getElem?_cons_zero, hcheck]
    rfl
  have hunforged : Unforged jwt secret
      ⟨users, [.received (some (bearer ++ jwt.encode secret (claimsFor row now))) op],
        [⟨row, body.password, now⟩], []⟩ (.check 0 checkedAt) := by
    intro token htoken _
    rw [stripPrefix_append] at htoken
    exact ⟨_, List.mem_singleton_self _, (Option.some.inj htoken).symm⟩
  have hhandled : step jwt hash secret
      ⟨users, [.authorised (claimsFor row now) checkedAt 1 op],
        [⟨row, body.password, now⟩], []⟩ (.handle 0 true id createdAt) =
      some ⟨(run hash true users id createdAt hid op).2, [], [⟨row, body.password, now⟩],
        [⟨claimsFor row now, checkedAt, 1, op, (run hash true users id createdAt hid op).1⟩]⟩ := by
    simp only [step, List.getElem?_cons_zero, hid, dif_pos]
    rfl
  exact ⟨_, _, .cons ⟨hissued, trivial⟩ (.cons ⟨harrived, trivial⟩
    (.cons ⟨hchecked, hunforged⟩ (.single ⟨hhandled, trivial⟩))), rfl, rfl⟩

/-- The account of the installation. -/
def adminRow : UserRow := ⟨1, "admin@facegate.local", "admin123", 0⟩

def adminOnly : Users where
  rows := [adminRow]
  distinctIds := List.nodup_singleton _
  distinctEmails := List.nodup_singleton _

theorem adminLogin : selectUser id true adminOnly ⟨"admin@facegate.local", "admin123"⟩ =
    .ok adminRow := rfl

theorem adminOnly_fresh : lookup UserRow.id 2 adminOnly.rows = none := rfl

/-! ## Every body runs on the claims of a login -/

/-- The claims are those of a login among the first `known`, not too long ago. -/
def Backed (s : State) (claims : Claims) (checkedAt known : ℕ) : Prop :=
  ∃ i ∈ s.issues.take known, i.claims = claims ∧ checkedAt ≤ claims.exp + LEEWAY_SECS

theorem Backed.grow (hg : Grows s s') {claims : Claims} {checkedAt known : ℕ}
    (h : Backed s claims checkedAt known) : Backed s' claims checkedAt known := by
  obtain ⟨i, hi, hrest⟩ := h
  exact ⟨i, (List.IsPrefix.take hg.issues known).subset hi, hrest⟩

structure Inv (hash : String → String) (s : State) : Prop where
  issued : ∀ i ∈ s.issues, i.row ∈ s.users.rows ∧ i.row.passwordHash = hash i.password
  authorised : ∀ claims checkedAt known op,
    .authorised claims checkedAt known op ∈ s.requests → Backed s claims checkedAt known
  handled : ∀ r ∈ s.handled, Backed s r.claims r.checkedAt r.known

/-- What was issued and what was done stays so; what is new is to be shown. -/
theorem Inv.grow (hi : Inv hash s) (hg : Grows s s')
    (hissued : ∀ i ∈ s'.issues, i ∈ s.issues ∨
      i.row ∈ s.users.rows ∧ i.row.passwordHash = hash i.password)
    (hreq : ∀ claims checkedAt known op, .authorised claims checkedAt known op ∈ s'.requests →
      .authorised claims checkedAt known op ∈ s.requests ∨ Backed s' claims checkedAt known)
    (hhandled : ∀ r ∈ s'.handled, r ∈ s.handled ∨ Backed s' r.claims r.checkedAt r.known) :
    Inv hash s' where
  issued i h := by
    rcases hissued i h with h | h
    · exact (hi.issued i h).imp_left fun hrow => hg.users.subset hrow
    · exact h.imp_left fun hrow => hg.users.subset hrow
  authorised c t k op h := by
    rcases hreq c t k op h with h | h
    · exact (hi.authorised c t k op h).grow hg
    · exact h
  handled r h := by
    rcases hhandled r h with h | h
    · exact (hi.handled r h).grow hg
    · exact h

theorem selectUser_ok {dbUp : Bool} {users : Users} {body : LoginRequest} {row : UserRow}
    (h : selectUser hash dbUp users body = .ok row) :
    row ∈ users.rows ∧ row.email = body.email ∧ row.passwordHash = hash body.password := by
  unfold selectUser at h
  split at h
  · cases h
  split at h
  · rename_i r hfind
    cases h
    have hp := List.find?_some hfind
    simp only [Bool.and_eq_true, decide_eq_true_iff] at hp
    exact ⟨List.mem_of_find?_eq_some hfind, hp⟩
  · cases h

/-- The extractor lets a request through on claims that verify and have not run out. -/
theorem fromRequestParts_ok {now : ℕ} {authorization : Option (List Char)} {claims : Claims}
    (h : fromRequestParts jwt secret now authorization = .ok claims) :
    ∃ header token, authorization = some header ∧ stripPrefix bearer header = some token ∧
      jwt.verify secret token = some claims ∧ now ≤ claims.exp + LEEWAY_SECS := by
  unfold fromRequestParts at h
  split at h
  · cases h
  · rename_i header
    split at h
    · cases h
    · rename_i token htoken
      split at h
      · cases h
      · rename_i c hdecode
        cases h
        obtain ⟨hverify, hexp⟩ := Jwt.decode_eq_some.mp hdecode
        exact ⟨header, token, rfl, htoken, hverify, hexp⟩

/-- A request that passes the check is backed by a login. -/
theorem check_backed (hjwt : jwt.Documented) {i now : ℕ} {authorization : Option (List Char)}
    {op : Op} {claims : Claims} (hreq : s.requests[i]? = some (.received authorization op))
    (hu : Unforged jwt secret s (.check i now))
    (h : fromRequestParts jwt secret now authorization = .ok claims) :
    ∃ i ∈ s.issues, i.claims = claims ∧ now ≤ claims.exp + LEEWAY_SECS := by
  obtain ⟨header, token, rfl, htoken, hverify, hexp⟩ := fromRequestParts_ok h
  simp only [Unforged, hreq] at hu
  obtain ⟨j, hj, rfl⟩ := hu token htoken (by rw [hverify]; rfl)
  rw [hjwt.verify_encode] at hverify
  exact ⟨j, hj, Option.some.inj hverify, hexp⟩

theorem inv_step (hjwt : jwt.Documented) {l : Label} (hi : Inv hash s)
    (h : step jwt hash secret s l = some s') (hu : Unforged jwt secret s l) : Inv hash s' := by
  have hg := step_grows h
  cases l with
  | login body now dbUp =>
    simp only [step] at h
    split at h
    · rename_i row hrow
      cases h
      obtain ⟨hmem, -, hhash⟩ := selectUser_ok hrow
      refine hi.grow hg (fun j hj => ?_) (fun _ _ _ _ h => Or.inl h) fun _ h => Or.inl h
      rcases List.mem_append.mp hj with hj | hj
      · exact Or.inl hj
      · rw [List.mem_singleton.mp hj]
        exact Or.inr ⟨hmem, hhash⟩
    · cases h
      exact hi
  | arrive authorization op =>
    cases h
    refine hi.grow hg (fun _ h => Or.inl h) (fun c t k op' h => Or.inl ?_) fun _ h => Or.inl h
    rcases List.mem_append.mp h with h | h
    · exact h
    · cases List.mem_singleton.mp h
  | check i now =>
    simp only [step] at h
    split at h
    · rename_i authorization op hreq
      split at h
      · rename_i claims hclaims
        cases h
        refine hi.grow hg (fun _ h => Or.inl h) (fun c t k op' h => ?_) fun _ h => Or.inl h
        dsimp only at h
        rcases Pool.mem_advance h with h | h
        · exact Or.inl h
        · cases h
          obtain ⟨j, hj, hrest⟩ := check_backed hjwt hreq hu hclaims
          exact Or.inr ⟨j, by rwa [List.take_length], hrest⟩
      · cases h
        exact hi.grow hg (fun _ h => Or.inl h) (fun _ _ _ _ h => Or.inl (Pool.mem_of_mem_finish h))
          fun _ h => Or.inl h
    · cases h
  | handle i dbUp id createdAt =>
    simp only [step] at h
    split at h
    · rename_i claims checkedAt known op hreq
      split at h
      · cases h
        refine hi.grow hg (fun _ h => Or.inl h)
          (fun _ _ _ _ h => Or.inl (Pool.mem_of_mem_finish h)) fun r h => ?_
        rcases List.mem_append.mp h with h | h
        · exact Or.inl h
        · rw [List.mem_singleton.mp h]
          have hb := hi.authorised claims checkedAt known op (List.mem_of_getElem? hreq)
          exact Or.inr (hb.grow hg)
      · cases h
    · cases h

theorem Initial.inv (h : Initial s) : Inv hash s where
  issued i hi := by
    rw [h.issues] at hi
    cases hi
  authorised _ _ _ _ hr := by
    rw [h.requests] at hr
    cases hr
  handled r hr := by
    rw [h.handled] at hr
    cases hr

theorem inv_inductive (hjwt : jwt.Documented) :
    ((system jwt hash secret).guard (Unforged jwt secret)).Inductive (Inv hash) where
  init _ h := h.inv
  step _ _ _ hi h := inv_step hjwt hi h.1 h.2

/-- **No body runs without a login.** -/
theorem run_of_login (hjwt : jwt.Documented) (s : State)
    (hr : ((system jwt hash secret).guard (Unforged jwt secret)).Reachable s) :
    ∀ r ∈ s.handled, ∃ i ∈ s.issues.take r.known, r.claims = claimsFor i.row i.issuedAt ∧
      i.row ∈ s.users.rows ∧ i.row.passwordHash = hash i.password ∧
      r.checkedAt ≤ i.issuedAt + TOKEN_TTL_SECS + LEEWAY_SECS ∧
      ∀ row ∈ s.users.rows, row.email = r.claims.email → row = i.row := by
  intro r h
  have hi := (inv_inductive hjwt).reachable s hr
  obtain ⟨i, hk, hclaims, hexp⟩ := hi.handled r h
  obtain ⟨hrow, hhash⟩ := hi.issued i (List.mem_of_mem_take hk)
  rw [← hclaims] at hexp ⊢
  exact ⟨i, hk, rfl, hrow, hhash, hexp, fun row hm he =>
    eq_of_key s.users.distinctEmails hm hrow he⟩

theorem run_of_login_admin : ∃ s : State, ∃ r ∈ s.handled, ∃ i ∈ s.issues.take r.known,
    r.claims = claimsFor i.row i.issuedAt ∧ i.row ∈ s.users.rows ∧
      r.checkedAt ≤ i.issuedAt + TOKEN_TTL_SECS + LEEWAY_SECS := by
  obtain ⟨s, ls, hr, -, hs⟩ := exists_handled Jwt.plain_documented id "s" adminLogin
    (show 29860 ≤ 1000 + TOKEN_TTL_SECS + LEEWAY_SECS by decide) adminOnly_fresh .other 0
  have hmem : _ ∈ s.handled := hs ▸ List.mem_singleton_self _
  obtain ⟨i, hi, hclaims, hrow, -, hexp, -⟩ := run_of_login Jwt.plain_documented s
    ⟨_, ls, ⟨rfl, rfl, rfl⟩, hr⟩ _ hmem
  exact ⟨s, _, hmem, i, hi, hclaims, hrow, hexp⟩

/-! ## Where accounts come from -/

/-- A request of `a` has created `b`. -/
def CreatedBy (s : State) (a b : UserRow) : Prop :=
  ∃ r ∈ s.handled, r.claims.sub = a.id ∧ r.made = some b

theorem CreatedBy.grow (hg : Grows s s') {a b : UserRow} (h : CreatedBy s a b) :
    CreatedBy s' a b := by
  obtain ⟨r, hr, hrest⟩ := h
  exact ⟨r, hg.handled.subset hr, hrest⟩

/-- Every account goes back to one of `seeds`. -/
def Descends (seeds : List UserRow) (s : State) : Prop :=
  ∀ row ∈ s.users.rows, ∃ seed ∈ seeds, Relation.ReflTransGen (CreatedBy s) seed row

theorem descends_step {seeds : List UserRow} {l : Label} (hi : Inv hash s)
    (hd : Descends seeds s) (h : step jwt hash secret s l = some s') : Descends seeds s' := by
  have hg := step_grows h
  have hold : ∀ row ∈ s.users.rows,
      ∃ seed ∈ seeds, Relation.ReflTransGen (CreatedBy s') seed row := fun row hrow => by
    obtain ⟨seed, hseed, hpath⟩ := hd row hrow
    exact ⟨seed, hseed, Relation.ReflTransGen.mono (fun _ _ (hc : CreatedBy s _ _) => hc.grow hg)
      _ _ hpath⟩
  cases l with
  | login body now dbUp =>
    simp only [step] at h
    split at h <;> (cases h; exact hold)
  | arrive authorization op =>
    cases h
    exact hold
  | check i now =>
    simp only [step] at h
    split at h
    · split at h <;> (cases h; exact hold)
    · cases h
  | handle i dbUp id createdAt =>
    simp only [step] at h
    split at h
    · rename_i claims checkedAt known op hreq
      split at h
      · rename_i hid
        cases h
        rcases run_cases hash dbUp s.users id createdAt hid op with
          hrun | ⟨body, row, -, -, hmade, hrun⟩
        · intro row hrow
          rw [hrun] at hrow
          exact hold row hrow
        · intro a ha
          dsimp only at ha
          rw [hrun] at ha
          rcases List.mem_append.mp ha with ha | ha
          · exact hold a ha
          · rw [List.mem_singleton.mp ha]
            obtain ⟨j, hj, hclaims, -⟩ :=
              hi.authorised claims checkedAt known op (List.mem_of_getElem? hreq)
            obtain ⟨seed, hseed, hpath⟩ := hold j.row (hi.issued j (List.mem_of_mem_take hj)).1
            refine ⟨seed, hseed, hpath.tail ?_⟩
            refine ⟨_, List.mem_append_right _ (List.mem_singleton_self _), ?_, hmade⟩
            rw [← hclaims]
            rfl
      · cases h
    · cases h

/-- **Every account goes back to one of the installation.** -/
theorem accounts_descend (hjwt : jwt.Documented) {s₀ s : State} {ls : List Label}
    (h₀ : Initial s₀) (hr : ((system jwt hash secret).guard (Unforged jwt secret)).Run s₀ ls s) :
    ∀ row ∈ s.users.rows, ∃ seed ∈ s₀.users.rows, seed ∈ s.users.rows ∧
      Relation.ReflTransGen (CreatedBy s) seed row := by
  have hall : Inv hash s ∧ Descends s₀.users.rows s ∧ s₀.users.rows <+: s.users.rows := by
    refine hr.invariant (P := fun t => Inv hash t ∧ Descends s₀.users.rows t ∧
      s₀.users.rows <+: t.users.rows) (fun t l t' hp hs => ?_)
      ⟨h₀.inv, fun row hrow => ⟨row, hrow, .refl⟩, List.prefix_refl _⟩
    obtain ⟨hs, hu⟩ := hs
    exact ⟨inv_step hjwt hp.1 hs hu, descends_step hp.1 hp.2.1 hs,
      hp.2.2.trans (step_grows hs).users⟩
  intro row hrow
  obtain ⟨seed, hseed, hpath⟩ := hall.2.1 row hrow
  exact ⟨seed, hseed, hall.2.2.subset hseed, hpath⟩

theorem accounts_descend_operator : ∃ s : State, ∃ row ∈ s.users.rows, row.email = "ana@b.c" ∧
    ∃ seed ∈ adminOnly.rows, seed ∈ s.users.rows ∧
      Relation.ReflTransGen (CreatedBy s) seed row := by
  obtain ⟨s, ls, hr, hu, -⟩ := exists_handled Jwt.plain_documented id "s" adminLogin
    (show 2000 ≤ 1000 + TOKEN_TTL_SECS + LEEWAY_SECS by decide) adminOnly_fresh
    (.createUser ⟨" ana@b.c", "1234"⟩) 0
  have hrow : (⟨2, "ana@b.c", "1234", 0⟩ : UserRow) ∈ s.users.rows := by
    rw [hu]
    decide
  exact ⟨s, _, hrow, rfl, accounts_descend Jwt.plain_documented ⟨rfl, rfl, rfl⟩ hr _ hrow⟩

/-! ## An account that was created can log in -/

def Stored (hash : String → String) (s : State) : Prop :=
  ∀ r ∈ s.handled, ∀ body row, r.op = .createUser body → r.made = some row →
    row ∈ s.users.rows ∧ row.email = trim body.email ∧ row.passwordHash = hash body.password

theorem stored_step {l : Label} (hi : Stored hash s) (h : step jwt hash secret s l = some s') :
    Stored hash s' := by
  have hg := step_grows h
  have hold : ∀ r ∈ s.handled, ∀ body row, r.op = .createUser body → r.made = some row →
      row ∈ s'.users.rows ∧ row.email = trim body.email ∧ row.passwordHash = hash body.password :=
    fun r hr body row ho hm => (hi r hr body row ho hm).imp_left fun hrow => hg.users.subset hrow
  cases l with
  | login body now dbUp =>
    simp only [step] at h
    split at h <;> (cases h; exact hold)
  | arrive authorization op =>
    cases h
    exact hold
  | check i now =>
    simp only [step] at h
    split at h
    · split at h <;> (cases h; exact hold)
    · cases h
  | handle i dbUp id createdAt =>
    simp only [step] at h
    split at h
    · rename_i claims checkedAt known op hreq
      split at h
      · rename_i hid
        cases h
        intro r hr body row ho hm
        rcases List.mem_append.mp hr with hr | hr
        · exact hold r hr body row ho hm
        · rw [List.mem_singleton.mp hr] at ho hm
          rcases run_cases hash dbUp s.users id createdAt hid op with
            hrun | ⟨body', row', hop, hrow, hmade, hrun⟩
          · dsimp only at hm
            rw [hrun] at hm
            cases hm
          · dsimp only at ho hm
            rw [hmade] at hm
            rw [hop] at ho
            cases hm
            cases ho
            dsimp only
            rw [hrun]
            refine ⟨List.mem_append_right _ (List.mem_singleton_self _), ?_⟩
            rw [hrow]
            exact ⟨rfl, rfl⟩
      · cases h
    · cases h

theorem stored_inductive : (system jwt hash secret).Inductive (Stored hash) where
  init s h₀ r hr := by
    rw [h₀.handled] at hr
    cases hr
  step _ _ _ hi hs := stored_step hi hs

/-- **What was created can log in, with its password.** -/
theorem created_can_log_in (s : State) (hr : (system jwt hash secret).Reachable s) :
    ∀ r ∈ s.handled, ∀ body row, r.op = .createUser body → r.made = some row →
      ∀ now password, login jwt hash secret true s.users now ⟨trim body.email, password⟩ =
        if hash password = hash body.password then .ok (jwt.encode secret (claimsFor row now))
        else .error (401, "invalid credentials") := by
  intro r h body row ho hm now password
  obtain ⟨hrow, hemail, hhash⟩ := stored_inductive.reachable s hr r h body row ho hm
  have hother : ∀ a ∈ s.users.rows, a.email = trim body.email → a = row := fun a ha he =>
    eq_of_key s.users.distinctEmails ha hrow (he.trans hemail.symm)
  simp only [login, selectUser, Bool.not_true, Bool.false_eq_true, if_false]
  cases hf : s.users.rows.find? fun r =>
      r.email = trim body.email && r.passwordHash = hash password with
  | none =>
    have hne := List.find?_eq_none.mp hf row hrow
    simp only [hemail, hhash, decide_true, Bool.true_and, decide_eq_true_iff] at hne
    rw [if_neg fun e => hne e.symm]
    rfl
  | some a =>
    have hp := List.find?_some hf
    simp only [Bool.and_eq_true, decide_eq_true_iff] at hp
    obtain rfl := hother a (List.mem_of_find?_eq_some hf) hp.1
    rw [if_pos (hp.2.symm.trans hhash)]
    rfl

theorem created_can_log_in_operator : ∃ s : State, ∃ r ∈ s.handled, ∃ row, r.made = some row ∧
    login Jwt.plain id "s" true s.users 7 ⟨"ana@b.c", "1234"⟩ =
      .ok (Jwt.plain.encode "s" (claimsFor row 7)) ∧
    login Jwt.plain id "s" true s.users 7 ⟨"ana@b.c", "4321"⟩ =
      .error (401, "invalid credentials") := by
  obtain ⟨s, ls, hr, -, hs⟩ := exists_handled Jwt.plain_documented id "s" adminLogin
    (show 2000 ≤ 1000 + TOKEN_TTL_SECS + LEEWAY_SECS by decide) adminOnly_fresh
    (.createUser ⟨" ana@b.c", "1234"⟩) 0
  have hmem : _ ∈ s.handled := hs ▸ List.mem_singleton_self _
  have hlogin := @created_can_log_in Jwt.plain id "s" s
    ⟨_, ls, ⟨rfl, rfl, rfl⟩, hr.of_guard⟩ _ hmem ⟨" ana@b.c", "1234"⟩
    ⟨2, "ana@b.c", "1234", 0⟩ rfl (by decide) 7
  exact ⟨s, _, hmem, _, by decide, hlogin "1234", hlogin "4321"⟩

end
end FaceGate.L4.Auth
