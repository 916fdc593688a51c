import FaceGate.Core.LTS
import FaceGate.L1Domain.Json
import FaceGate.L4Backend.Database

/-!
# The enrolment wizard of the panel

The wizard collects captures and uploads them one by one; the first failure ends
the attempt, and the next attempt starts again from the first capture. A request
may fail after the row is stored (`Upload.replyLost`). A capture may still be in
work when an upload starts. After a cancel the dashboard deletes the employee,
if it was created for this enrolment.

No other session writes the employee's rows. A capture has a number (`serial`) here,
to tell the rows apart; `uploads` records which row came from which capture.

`retry_safe_iff`: a run stores each current capture once on completion and nothing
on cancellation exactly if, at its last step,

* no capture was stored by an earlier attempt, and none was added during the last;
* the wizard is cancelled before any upload has taken effect, or the employee is
  deleted with it.
-/
namespace FaceGate.L4.EnrollmentWizard

open Core Core.Keyed FaceGate.L1 FaceGate.L1.Domain FaceGate.L4

variable {K : Type}

/-! ## State -/

/-- mirrors panel/src/app/features/enrollment/enrollment-wizard.component.ts:45-50 -/
structure Shot (K : Type) where
  serial : ℕ
  embedding : EmbeddingVector K
  deriving DecidableEq

inductive CamState where
  | idle | live | denied | error
  deriving DecidableEq, Repr

/-- Where the wizard was opened from.
mirrors panel/src/app/dashboard/dashboard.page.ts:330-333 -/
inductive Source where
  | cadastro
  | funcionarios
  deriving DecidableEq, Repr

structure Session where
  employeeId : ℤ
  source : Source

/-- mirrors panel/src/app/features/enrollment/enrollment-wizard.component.ts:89 -/
def MIN_CAPTURES : ℕ := 0

inductive Phase (K : Type) where
  | editing
  /-- The captures of the attempt, those left to upload, and what was stored before. -/
  | uploading (shots rest prior : List (Shot K))
  | completed (count : ℕ)
  /-- Dismissed; the dashboard is deleting the employee. -/
  | reverting
  | cancelled
  deriving DecidableEq

def Phase.isEditing : Phase K → Bool
  | .editing => true
  | _ => false

def Phase.isReverting : Phase K → Bool
  | .reverting => true
  | _ => false

structure WizardState (K : Type) where
  camState : CamState
  captures : List (Shot K)
  nextSerial : ℕ
  processingCapture : Bool
  phase : Phase K
  uploadProgress : ℕ
  db : Database K
  uploads : List (ℤ × Shot K)

/-- What becomes of one upload. `skipped` ids were taken from the sequence by others. -/
inductive Upload where
  | created (skipped : ℕ) (createdAt : Timestamp)
  | replyLost (skipped : ℕ) (createdAt : Timestamp)
  | failed
  deriving DecidableEq, Repr

inductive Label (K : Type) where
  | startCamera (camState : CamState)
  | capture
  /-- `none`: no face, or an exception. -/
  | processed (embedding : Option (EmbeddingVector K))
  | removeCapture (idx : ℕ)
  | submit
  | upload (outcome : Upload)
  | cancel
  /-- The employee is deleted, or is not. -/
  | undo (deleted : Bool)

/-! ## Steps -/

/-- The row of an upload.
mirrors backend/src/routes/embeddings.rs:134-144 -/
def create (session : Session) (skipped : ℕ) (createdAt : Timestamp) (shot : Shot K)
    (s : WizardState K) : Option (WizardState K) :=
  let id := s.db.embeddings.last + 1 + skipped
  match s.db.insertEmbedding ⟨id, session.employeeId, shot.embedding, createdAt⟩
    (show s.db.embeddings.last < id by omega) with
  | .ok db => some { s with db := db, uploads := s.uploads ++ [(id, shot)] }
  | .error _ => none

/-- The rows of this session that are in the table, as captures. -/
def stored (s : WizardState K) : List (Shot K) :=
  (s.uploads.filter fun u => (s.db.embeddings.find u.1).isSome).map Prod.snd

/-- The next turn of the loop over `shots`, or what comes after it.
mirrors panel/src/app/features/enrollment/enrollment-wizard.component.ts:213-236 -/
def nextShot (shots prior : List (Shot K)) : List (Shot K) → Phase K
  | [] => .completed shots.length
  | shot :: rest => .uploading shots (shot :: rest) prior

/-- Cancel, capture, remove and submit are disabled during an upload.
mirrors panel/src/app/features/enrollment/enrollment-wizard.component.ts:137-243,
panel/src/app/features/enrollment/enrollment-wizard.component.html and
panel/src/app/dashboard/dashboard.page.ts:346-376 -/
def step (session : Session) (s : WizardState K) : Label K → Option (WizardState K)
  | .startCamera camState =>
    if s.phase.isEditing ∧ s.camState = .idle then some { s with camState := camState } else none
  | .capture =>
    if s.phase.isEditing ∧ s.camState = .live ∧ ¬ s.processingCapture then
      some { s with processingCapture := true }
    else none
  | .processed embedding =>
    if s.processingCapture then
      match s.phase, embedding with
      | .editing, some v | .uploading _ _ _, some v =>
        some { s with
          captures := s.captures ++ [⟨s.nextSerial, v⟩]
          nextSerial := s.nextSerial + 1
          processingCapture := false }
      | .editing, none | .uploading _ _ _, none => some { s with processingCapture := false }
      -- the component is gone
      | _, _ => none
    else none
  | .removeCapture idx =>
    if s.phase.isEditing then some { s with captures := s.captures.eraseIdx idx } else none
  | .submit =>
    if s.phase.isEditing ∧ MIN_CAPTURES ≤ s.captures.length then
      some { s with phase := nextShot s.captures (stored s) s.captures, uploadProgress := 0 }
    else none
  | .upload outcome =>
    match s.phase with
    | .uploading shots (shot :: rest) prior =>
      match outcome with
      | .created skipped createdAt =>
        (create session skipped createdAt shot s).map fun s' =>
          { s' with phase := nextShot shots prior rest, uploadProgress := s.uploadProgress + 1 }
      | .replyLost skipped createdAt =>
        (create session skipped createdAt shot s).map fun s' => { s' with phase := .editing }
      | .failed => some { s with phase := .editing }
    | _ => none
  | .cancel =>
    if s.phase.isEditing then
      match session.source with
      | .cadastro => some { s with phase := .reverting }
      | .funcionarios => some { s with phase := .cancelled }
    else none
  | .undo deleted =>
    if s.phase.isReverting then
      some { s with
        phase := .cancelled
        db := if deleted then s.db.deleteEmployee session.employeeId else s.db }
    else none

def start (db : Database K) : WizardState K := ⟨.idle, [], 0, false, .editing, 0, db, []⟩

def system (K : Type) (session : Session) : LTS (WizardState K) (Label K) :=
  .ofStep (fun s => ∃ db, s = start db) (step session)

/-! ## The property and its condition -/

def serials (l : List (Shot K)) : List ℕ := l.map Shot.serial

/-- On completion each capture is stored once; on cancellation nothing is. -/
def RetrySafe (s : WizardState K) : Prop :=
  match s.phase with
  | .completed _ => ∀ c ∈ serials s.captures, (serials (stored s)).count c = 1
  | .cancelled => stored s = []
  | _ => True

/-- The last upload of an attempt finds every capture in the attempt and none stored
before it; the wizard is cancelled before any upload has taken effect, or the employee
is deleted. -/
def Clean (session : Session) (s : WizardState K) : Label K → Prop
  | .upload (.created _ _) => ∀ shots shot prior, s.phase = .uploading shots [shot] prior →
      ∀ c ∈ serials s.captures, c ∈ serials shots ∧ c ∉ serials prior
  | .cancel => session.source = .funcionarios → s.uploads = []
  | .undo deleted => deleted = false → s.uploads = []
  | _ => True

variable {session : Session} {s s' : WizardState K}

theorem phase_editing {p : Phase K} (h : p.isEditing = true) : p = .editing := by
  cases p <;> first | rfl | cases h

theorem phase_reverting {p : Phase K} (h : p.isReverting = true) : p = .reverting := by
  cases p <;> first | rfl | cases h

/-! ## One step -/

/-- Phases in which a capture that is being processed still arrives. -/
def Phase.isOpen : Phase K → Bool
  | .editing => true
  | .uploading .. => true
  | _ => false

/-- What a step can do. -/
inductive Step (session : Session) (s : WizardState K) : Label K → WizardState K → Prop where
  | camera {l : Label K} {camState : CamState} {processing : Bool}
      (hopen : s.phase.isOpen = true) (hclean : Clean session s l) :
      Step session s l { s with camState := camState, processingCapture := processing }
  | captured {v : EmbeddingVector K} (hopen : s.phase.isOpen = true) :
      Step session s (.processed (some v))
        { s with
          captures := s.captures ++ [⟨s.nextSerial, v⟩]
          nextSerial := s.nextSerial + 1
          processingCapture := false }
  | removed {idx : ℕ} (hphase : s.phase = .editing) :
      Step session s (.removeCapture idx) { s with captures := s.captures.eraseIdx idx }
  | submit (hphase : s.phase = .editing) : Step session s .submit
      { s with phase := nextShot s.captures (stored s) s.captures, uploadProgress := 0 }
  | created {skipped : ℕ} {createdAt : Timestamp} {shots rest prior : List (Shot K)}
      {shot : Shot K} {s₁ : WizardState K}
      (hphase : s.phase = .uploading shots (shot :: rest) prior)
      (hcreate : create session skipped createdAt shot s = some s₁) :
      Step session s (.upload (.created skipped createdAt))
        { s₁ with phase := nextShot shots prior rest, uploadProgress := s.uploadProgress + 1 }
  | replyLost {skipped : ℕ} {createdAt : Timestamp} {shots rest prior : List (Shot K)}
      {shot : Shot K} {s₁ : WizardState K}
      (hphase : s.phase = .uploading shots (shot :: rest) prior)
      (hcreate : create session skipped createdAt shot s = some s₁) :
      Step session s (.upload (.replyLost skipped createdAt)) { s₁ with phase := .editing }
  | failed {shots rest prior : List (Shot K)} (hphase : s.phase = .uploading shots rest prior) :
      Step session s (.upload .failed) { s with phase := .editing }
  | reverting (hphase : s.phase = .editing) (hsource : session.source = .cadastro) :
      Step session s .cancel { s with phase := .reverting }
  | cancelled (hphase : s.phase = .editing) (hsource : session.source = .funcionarios) :
      Step session s .cancel { s with phase := .cancelled }
  | deleted : Step session s (.undo true)
      { s with phase := .cancelled, db := s.db.deleteEmployee session.employeeId }
  | notDeleted (hphase : s.phase = .reverting) :
      Step session s (.undo false) { s with phase := .cancelled }

theorem step_cases {l : Label K} (h : step session s l = some s') : Step session s l s' := by
  cases l with
  | startCamera camState =>
    simp only [step] at h
    split at h
    · rename_i hc
      cases h
      refine .camera ?_ trivial
      rw [phase_editing hc.1]
      rfl
    · cases h
  | capture =>
    simp only [step] at h
    split at h
    · rename_i hc
      cases h
      refine .camera ?_ trivial
      rw [phase_editing hc.1]
      rfl
    · cases h
  | processed embedding =>
    simp only [step] at h
    split at h
    · split at h
      · rename_i hphase
        cases h
        refine .captured ?_
        rw [hphase]
        rfl
      · rename_i hphase
        cases h
        refine .captured ?_
        rw [hphase]
        rfl
      · rename_i hphase
        cases h
        refine .camera ?_ trivial
        rw [hphase]
        rfl
      · rename_i hphase
        cases h
        refine .camera ?_ trivial
        rw [hphase]
        rfl
      · cases h
    · cases h
  | removeCapture idx =>
    simp only [step] at h
    split at h
    · rename_i hc
      cases h
      exact .removed (phase_editing hc)
    · cases h
  | submit =>
    simp only [step] at h
    split at h
    · rename_i hc
      cases h
      exact .submit (phase_editing hc.1)
    · cases h
  | upload outcome =>
    simp only [step] at h
    split at h
    · rename_i shots shot rest prior hphase
      cases outcome with
      | created skipped createdAt =>
        obtain ⟨s₁, hcreate, rfl⟩ := Option.map_eq_some_iff.mp h
        exact .created hphase hcreate
      | replyLost skipped createdAt =>
        obtain ⟨s₁, hcreate, rfl⟩ := Option.map_eq_some_iff.mp h
        exact .replyLost hphase hcreate
      | failed =>
        cases h
        exact .failed hphase
    · cases h
  | cancel =>
    simp only [step] at h
    split at h
    · rename_i hc
      split at h
      · rename_i hsource
        cases h
        exact .reverting (phase_editing hc) hsource
      · rename_i hsource
        cases h
        exact .cancelled (phase_editing hc) hsource
    · cases h
  | undo deleted =>
    simp only [step] at h
    split at h
    · rename_i hc
      cases deleted with
      | true =>
        cases h
        exact .deleted
      | false =>
        cases h
        exact .notDeleted (phase_reverting hc)
    · cases h

/-! ## What is stored -/

/-- Every row of the session is the employee's, if it is there, and no later one. -/
def Owned (session : Session) (s : WizardState K) : Prop :=
  ∀ u ∈ s.uploads, u.1 ≤ s.db.embeddings.last ∧
    ∀ r ∈ s.db.embeddings.find u.1, r.employeeId = session.employeeId

/-- The rows of the session are all there. -/
def Kept (s : WizardState K) : Prop :=
  ∀ u ∈ s.uploads, (s.db.embeddings.find u.1).isSome = true

theorem Kept.stored_eq_nil (hk : Kept s) : stored s = [] ↔ s.uploads = [] := by
  rw [stored, List.filter_eq_self.mpr hk, List.map_eq_nil_iff]

theorem create_cases {skipped : ℕ} {createdAt : Timestamp} {shot : Shot K}
    (h : create session skipped createdAt shot s = some s') :
    ∃ (db : Database K) (r : EmbeddingRow K) (hr : s.db.embeddings.last < r.id),
      r.employeeId = session.employeeId ∧ db.embeddings = s.db.embeddings.insert r hr ∧
        s' = { s with db := db, uploads := s.uploads ++ [(r.id, shot)] } := by
  simp only [create] at h
  split at h
  · rename_i db hins
    cases h
    exact ⟨db, _, _, rfl, Database.embeddings_of_insertEmbedding hins, rfl⟩
  · cases h

theorem stored_create {skipped : ℕ} {createdAt : Timestamp} {shot : Shot K}
    (ho : Owned session s) (h : create session skipped createdAt shot s = some s') :
    Owned session s' ∧ (Kept s → Kept s') ∧ stored s' = stored s ++ [shot] ∧
      s'.captures = s.captures ∧ s'.nextSerial = s.nextSerial := by
  obtain ⟨db, r, hr, howner, hdb, rfl⟩ := create_cases h
  have hfind : ∀ k, db.embeddings.find k =
      if r.id = k then some r else s.db.embeddings.find k := by
    intro k
    rw [hdb]
    exact Serial.find_insert _ _ _ k
  have hlast : db.embeddings.last = r.id := by
    rw [hdb]
    rfl
  have hold : ∀ u ∈ s.uploads, db.embeddings.find u.1 = s.db.embeddings.find u.1 := by
    intro u hu
    have hle := (ho u hu).1
    rw [hfind, if_neg (by omega)]
  have hnew : (db.embeddings.find r.id).isSome = true := by
    rw [hfind, if_pos rfl]
    rfl
  refine ⟨?_, ?_, ?_, rfl, rfl⟩
  · intro u hu
    rcases List.mem_append.mp hu with hu | hu
    · refine ⟨(ho u hu).1.trans (by rw [hlast]; exact hr.le), ?_⟩
      rw [hold u hu]
      exact (ho u hu).2
    · obtain rfl := List.mem_singleton.mp hu
      refine ⟨hlast.ge, ?_⟩
      intro a ha
      rw [hfind, if_pos rfl] at ha
      cases ha
      exact howner
  · intro hk u hu
    rcases List.mem_append.mp hu with hu | hu
    · exact (congrArg Option.isSome (hold u hu)).trans (hk u hu)
    · obtain rfl := List.mem_singleton.mp hu
      exact hnew
  · simp only [stored, List.filter_append, List.map_append]
    rw [List.filter_congr fun u hu => by rw [hold u hu]]
    simp [hnew]

theorem stored_deleteEmployee (ho : Owned session s) (phase : Phase K) :
    stored { s with phase := phase, db := s.db.deleteEmployee session.employeeId } = [] ∧
      Owned session { s with phase := phase, db := s.db.deleteEmployee session.employeeId } := by
  have hfind : ∀ u ∈ s.uploads,
      (s.db.deleteEmployee session.employeeId).embeddings.find u.1 = none := by
    intro u hu
    have hf : (s.db.deleteEmployee session.employeeId).embeddings.find u.1 = _ :=
      Table.find_deleteWhere s.db.embeddings.toTable _ u.1
    rw [hf]
    cases hr : s.db.embeddings.find u.1 with
    | none => rfl
    | some r =>
      have howner := (ho u hu).2 r hr
      simp [howner]
  constructor
  · have hnone : (s.uploads.filter fun u =>
        ((s.db.deleteEmployee session.employeeId).embeddings.find u.1).isSome) = [] := by
      refine List.filter_eq_nil_iff.mpr ?_
      intro u hu
      rw [hfind u hu]
      exact nofun
    simp only [stored, hnone, List.map_nil]
  · intro u hu
    refine ⟨(ho u hu).1, ?_⟩
    intro r hr
    rw [hfind u hu] at hr
    cases hr

/-! ## Invariant -/

/-- During an upload: what the attempt has stored so far, and the captures it does not
know of. -/
def Attempt (s : WizardState K) : Prop :=
  match s.phase with
  | .uploading shots rest prior => rest ≠ [] ∧ ∃ done added : List (Shot K),
      shots = done ++ rest ∧ stored s = prior ++ done ∧ s.captures = shots ++ added ∧
        ∀ c ∈ serials added, c ∉ serials prior
  | _ => True

structure Inv (session : Session) (s : WizardState K) : Prop where
  owned : Owned session s
  kept : s.phase ≠ .cancelled → Kept s
  captured : ∀ c ∈ serials s.captures, c < s.nextSerial
  distinct : (serials s.captures).Nodup
  recorded : ∀ c ∈ serials (stored s), c < s.nextSerial
  attempt : Attempt s

theorem inv_start (session : Session) (db : Database K) : Inv session (start db) where
  owned _ hu := absurd hu List.not_mem_nil
  kept _ _ hu := absurd hu List.not_mem_nil
  captured _ hc := absurd hc List.not_mem_nil
  distinct := List.nodup_nil
  recorded _ hc := absurd hc List.not_mem_nil
  attempt := trivial

theorem attempt_next {shots prior rest : List (Shot K)} {progress : ℕ} {t : WizardState K}
    {done added : List (Shot K)} (hshots : shots = done ++ rest)
    (hstored : stored t = prior ++ done) (hcaptures : t.captures = shots ++ added)
    (hadded : ∀ c ∈ serials added, c ∉ serials prior) :
    Attempt { t with phase := nextShot shots prior rest, uploadProgress := progress } := by
  cases rest with
  | nil => exact trivial
  | cons shot rest => exact ⟨nofun, done, added, hshots, hstored, hcaptures, hadded⟩

/-- The row is there; the attempt is one capture further. -/
theorem inv_create {skipped : ℕ} {createdAt : Timestamp} {shots rest prior : List (Shot K)}
    {shot : Shot K} (hi : Inv session s) (hphase : s.phase = .uploading shots (shot :: rest) prior)
    (h : create session skipped createdAt shot s = some s') :
    Inv session { s' with phase := .editing } ∧ ∃ done added : List (Shot K),
      shots = done ++ rest ∧ stored s' = prior ++ done ∧ s'.captures = shots ++ added ∧
        ∀ c ∈ serials added, c ∉ serials prior := by
  obtain ⟨howned', hkept', hstored', hcaptures', hserial'⟩ := stored_create hi.owned h
  have hkept : Kept s := hi.kept (by rw [hphase]; exact nofun)
  have hattempt := hi.attempt
  unfold Attempt at hattempt
  rw [hphase] at hattempt
  obtain ⟨-, done, added, hshots, hstored, hcaptures, hadded⟩ := hattempt
  have hshot : shot.serial ∈ serials s.captures := by
    rw [hcaptures, hshots]
    exact List.mem_map_of_mem (by simp)
  refine ⟨⟨howned', fun _ => hkept' hkept, ?_, ?_, ?_, trivial⟩, done ++ [shot], added,
    ?_, ?_, ?_, hadded⟩
  · change ∀ c ∈ serials s'.captures, c < s'.nextSerial
    rw [hcaptures', hserial']
    exact hi.captured
  · change (serials s'.captures).Nodup
    rw [hcaptures']
    exact hi.distinct
  · change ∀ c ∈ serials (stored s'), c < s'.nextSerial
    rw [hstored', hserial', serials, List.map_append]
    intro c hc
    rcases List.mem_append.mp hc with hc | hc
    · exact hi.recorded c hc
    · rw [List.mem_singleton.mp hc]
      exact hi.captured _ hshot
  · rw [hshots, List.append_assoc]
    rfl
  · rw [hstored', hstored, List.append_assoc]
  · rw [hcaptures', hcaptures]

theorem inv_step {l : Label K} (hi : Inv session s) (h : Step session s l s') :
    Inv session s' := by
  obtain ⟨howned, hkept, hcaptured, hdistinct, hrecorded, hattempt⟩ := hi
  cases h with
  | camera => exact ⟨howned, hkept, hcaptured, hdistinct, hrecorded, hattempt⟩
  | @captured v hopen =>
    have hfresh : s.nextSerial ∉ serials s.captures := fun hmem =>
      lt_irrefl _ (hcaptured _ hmem)
    have hserials : serials (s.captures ++ [⟨s.nextSerial, v⟩]) =
        serials s.captures ++ [s.nextSerial] := List.map_append
    refine ⟨howned, hkept, ?_, ?_, fun c hc => (hrecorded c hc).trans (Nat.lt_succ_self _), ?_⟩
    · intro c hc
      rw [hserials] at hc
      rcases List.mem_append.mp hc with hc | hc
      · exact (hcaptured c hc).trans (Nat.lt_succ_self _)
      · rw [List.mem_singleton.mp hc]
        exact Nat.lt_succ_self _
    · change (serials (s.captures ++ [⟨s.nextSerial, v⟩])).Nodup
      rw [hserials]
      exact List.nodup_append.mpr ⟨hdistinct, List.nodup_singleton _, fun a ha b hb => by
        rw [List.mem_singleton.mp hb]
        exact fun e => hfresh (e ▸ ha)⟩
    · unfold Attempt at hattempt ⊢
      dsimp only
      split
      · rename_i shots rest prior hphase
        rw [hphase] at hattempt
        obtain ⟨hne, done, added, hshots, hstored, hcaptures, hadded⟩ := hattempt
        refine ⟨hne, done, added ++ [⟨s.nextSerial, v⟩], hshots, hstored, ?_, ?_⟩
        · rw [hcaptures, List.append_assoc]
        · intro c hc
          rw [serials, List.map_append] at hc
          rcases List.mem_append.mp hc with hc | hc
          · exact hadded c hc
          · -- the new capture is later than all that is stored
            obtain rfl := List.mem_singleton.mp hc
            intro hprior
            refine lt_irrefl s.nextSerial (hrecorded _ ?_)
            rw [hstored, serials, List.map_append]
            exact List.mem_append_left _ hprior
      · trivial
  | @removed idx hphase =>
    have hsub : (serials (s.captures.eraseIdx idx)).Sublist (serials s.captures) :=
      (List.eraseIdx_sublist s.captures idx).map _
    refine ⟨howned, hkept, fun c hc => hcaptured c (hsub.mem hc), hdistinct.sublist hsub,
      hrecorded, ?_⟩
    unfold Attempt
    dsimp only
    rw [hphase]
    trivial
  | submit hphase =>
    have hall : Kept s := hkept (by rw [hphase]; exact nofun)
    refine ⟨howned, fun _ => hall, hcaptured, hdistinct, hrecorded, ?_⟩
    exact attempt_next (List.nil_append _).symm (List.append_nil _).symm
      (List.append_nil _).symm fun c hc => absurd hc List.not_mem_nil
  | created hphase hcreate =>
    obtain ⟨hi', done, added, hshots, hstored, hcaptures, hadded⟩ :=
      inv_create ⟨howned, hkept, hcaptured, hdistinct, hrecorded, hattempt⟩ hphase hcreate
    have hall := hi'.kept nofun
    exact ⟨hi'.owned, fun _ => hall, hi'.captured, hi'.distinct, hi'.recorded,
      attempt_next hshots hstored hcaptures hadded⟩
  | replyLost hphase hcreate =>
    exact (inv_create ⟨howned, hkept, hcaptured, hdistinct, hrecorded, hattempt⟩
      hphase hcreate).1
  | failed hphase =>
    have hall : Kept s := hkept (by rw [hphase]; exact nofun)
    exact ⟨howned, fun _ => hall, hcaptured, hdistinct, hrecorded, trivial⟩
  | reverting hphase =>
    have hall : Kept s := hkept (by rw [hphase]; exact nofun)
    exact ⟨howned, fun _ => hall, hcaptured, hdistinct, hrecorded, trivial⟩
  | cancelled =>
    exact ⟨howned, fun hne => absurd rfl hne, hcaptured, hdistinct, hrecorded, trivial⟩
  | deleted =>
    obtain ⟨hnone, howned'⟩ := stored_deleteEmployee howned .cancelled
    refine ⟨howned', fun hne => absurd rfl hne, hcaptured, hdistinct, ?_, trivial⟩
    rw [hnone]
    exact fun c hc => absurd hc List.not_mem_nil
  | notDeleted =>
    exact ⟨howned, fun hne => absurd rfl hne, hcaptured, hdistinct, hrecorded, trivial⟩

/-! ## Runs -/

theorem count_of_nodup {l : List ℕ} (h : l.Nodup) (c : ℕ) :
    l.count c = if c ∈ l then 1 else 0 := by
  split
  · rename_i hc
    exact List.count_eq_one_of_mem h hc
  · rename_i hc
    exact List.count_eq_zero_of_not_mem hc

/-- At the end of an attempt: stored once is captured before it and not stored before. -/
theorem stored_once_iff {t : WizardState K} {shots prior added : List (Shot K)}
    (hstored : stored t = prior ++ shots) (hcaptures : t.captures = shots ++ added)
    (hdistinct : (serials t.captures).Nodup) (hadded : ∀ c ∈ serials added, c ∉ serials prior) :
    (∀ c ∈ serials t.captures, (serials (stored t)).count c = 1) ↔
      ∀ c ∈ serials t.captures, c ∈ serials shots ∧ c ∉ serials prior := by
  have hsplit : serials t.captures = serials shots ++ serials added := by
    rw [hcaptures, serials, List.map_append]
    rfl
  rw [hsplit] at hdistinct
  have hnodup : (serials shots).Nodup := (List.nodup_append.mp hdistinct).1
  have hcount : ∀ c, (serials (stored t)).count c =
      (serials prior).count c + if c ∈ serials shots then 1 else 0 := by
    intro c
    rw [hstored, serials, List.map_append, List.count_append]
    exact congrArg _ (count_of_nodup hnodup c)
  refine forall₂_congr fun c hc => ?_
  rw [hcount]
  by_cases hshots : c ∈ serials shots
  · rw [if_pos hshots]
    constructor
    · intro h
      exact ⟨hshots, List.count_eq_zero.mp (by omega)⟩
    · intro h
      rw [List.count_eq_zero.mpr h.2]
  · rw [hsplit] at hc
    have hprior : c ∉ serials prior :=
      hadded c ((List.mem_append.mp hc).resolve_left hshots)
    rw [if_neg hshots, List.count_eq_zero.mpr hprior]
    constructor
    · intro h
      omega
    · intro h
      exact absurd h.1 hshots

theorem RetrySafe.of_open (h : s.phase.isOpen = true) : RetrySafe s := by
  unfold RetrySafe
  split
  · rename_i hphase
    rw [hphase] at h
    cases h
  · rename_i hphase
    rw [hphase] at h
    cases h
  · trivial

theorem safe_step {l : Label K} (hi : Inv session s) (h : Step session s l s') :
    RetrySafe s' ↔ Clean session s l := by
  cases h with
  | camera hopen hclean => exact iff_of_true (RetrySafe.of_open hopen) hclean
  | captured hopen => exact iff_of_true (RetrySafe.of_open hopen) trivial
  | removed hphase =>
    have hopen : s.phase.isOpen = true := by
      rw [hphase]
      rfl
    exact iff_of_true (RetrySafe.of_open hopen) trivial
  | submit =>
    refine iff_of_true ?_ trivial
    unfold RetrySafe
    cases hcaptures : s.captures with
    | nil =>
      intro c hc
      exact absurd hc List.not_mem_nil
    | cons => exact trivial
  | @created skipped createdAt shots rest prior shot s₁ hphase hcreate =>
    obtain ⟨hi', done, added, hshots, hstored, hcaptures, hadded⟩ :=
      inv_create hi hphase hcreate
    obtain ⟨-, -, -, hsame, -⟩ := stored_create hi.owned hcreate
    cases rest with
    | nil =>
      rw [List.append_nil] at hshots
      subst hshots
      have hiff := stored_once_iff hstored hcaptures hi'.distinct hadded
      rw [hsame] at hiff
      refine Iff.trans ?_ (hiff.trans ⟨?_, ?_⟩)
      · change (∀ c ∈ serials s₁.captures, _) ↔ _
        rw [hsame]
        rfl
      · intro hc shots' shot' prior' hphase'
        rw [hphase] at hphase'
        cases hphase'
        exact hc
      · intro hc
        exact hc _ _ _ hphase
    | cons next rest =>
      refine iff_of_true trivial ?_
      intro shots' shot' prior' hphase'
      rw [hphase] at hphase'
      cases hphase'
  | replyLost => exact iff_of_true trivial trivial
  | failed => exact iff_of_true trivial trivial
  | reverting _ hsource => exact iff_of_true trivial fun he => by rw [hsource] at he; cases he
  | cancelled hphase hsource =>
    have hall : Kept s := hi.kept (by rw [hphase]; exact nofun)
    exact hall.stored_eq_nil.trans ⟨fun h _ => h, fun h => h hsource⟩
  | deleted => exact iff_of_true (stored_deleteEmployee hi.owned .cancelled).1 (nofun)
  | notDeleted hphase =>
    have hall : Kept s := hi.kept (by rw [hphase]; exact nofun)
    exact hall.stored_eq_nil.trans ⟨fun h _ => h, fun h => h rfl⟩

/-- **Retry.** A run stores each capture once if it completes, and nothing if it is
cancelled, exactly if all its steps are clean. -/
theorem retry_safe_iff (session : Session) (db : Database K) (ls : List (Label K))
    (s : WizardState K) :
    ((system K session).within RetrySafe).Run (start db) ls s ↔
      ((system K session).guard (Clean session)).Run (start db) ls s := by
  refine LTS.Run.within_iff_guard (I := Inv session) ?_ (inv_start session db) trivial
  intro s l s' hi _ hs
  have hstep := step_cases hs
  exact ⟨inv_step hi hstep, safe_step hi hstep⟩

/-! ## A failed upload -/

def exampleDb : Database ExtRat := Database.empty.insertEmployee ⟨1, "Ana", none⟩ (by decide)

/-- Two captures; the second upload of the first attempt fails. -/
def failedAttempt : List (Label ExtRat) :=
  [.startCamera .live, .capture, .processed (some axis), .capture, .processed (some axis),
    .submit, .upload (.created 0 0), .upload .failed]

/-- The retry stores the first capture again; a cancel leaves it stored. -/
theorem stored_twice_or_left :
    (∃ s : WizardState ExtRat, (system ExtRat ⟨1, .funcionarios⟩).Reachable s ∧
      (s.phase = .completed 2 ∧ serials s.captures = [0, 1] ∧
        serials (stored s) = [0, 0, 1])) ∧
      ∃ s : WizardState ExtRat, (system ExtRat ⟨1, .funcionarios⟩).Reachable s ∧
        (s.phase = .cancelled ∧ serials (stored s) = [0]) := by
  constructor
  · exact LTS.exists_reachable (fun s => ∃ db, s = start db) (step ⟨1, .funcionarios⟩)
      (failedAttempt ++ [.submit, .upload (.created 0 0), .upload (.created 0 0)])
      ⟨exampleDb, rfl⟩ (fun s => s.phase = .completed 2 ∧ serials s.captures = [0, 1] ∧
        serials (stored s) = [0, 0, 1]) (by decide +kernel)
  · exact LTS.exists_reachable (fun s => ∃ db, s = start db) (step ⟨1, .funcionarios⟩)
      (failedAttempt ++ [.cancel]) ⟨exampleDb, rfl⟩
      (fun s => s.phase = .cancelled ∧ serials (stored s) = [0]) (by decide +kernel)

end FaceGate.L4.EnrollmentWizard
