import FaceGate.Core.LTS
import FaceGate.L1Domain.SyncTopic
import FaceGate.L2Device.Storage

/-!
# One run of the enroll CLI

`main` deletes the employee's rows, then opens the camera and the models, then
takes the photos one by one, each inserted by a statement of its own. Between
any two steps the process may be killed; an exception outside the insert ends
it with exit code 1. The run is the only writer of the table here
(`FaceGate.L3.Enroll` has the subscriber write as well).

The rows are safe (`Intact`) if, as long as a photo is missing, the employee's
rows are those from before the run.

* `intact_iff`: a run keeps them safe exactly if it deletes no row and saves no photo
  but the last one requested.
* `replaced_when_done`: a run that returns 0 leaves as many rows as it took photos.
-/
namespace FaceGate.L3.EnrollRun

open Core Core.Keyed FaceGate.L1 FaceGate.L1.Domain FaceGate.L1.SyncTopic FaceGate.L2.Storage

variable {K : Type}

/-! ## Arguments -/

/-- mirrors edge/apps/enroll/main.cpp:22-27 -/
structure Args where
  configPath : String
  employeeId : ℤ
  photos : ℕ
  append : Bool
  employeeId_pos : 0 < employeeId
  photos_pos : 0 < photos
  deriving DecidableEq

/-- The locals of `parse_args`. -/
structure Parsed where
  configPath : Option String
  employeeId : Option ℤ
  photos : ℤ
  append : Bool

/-- `std::stoi`: `stoll` within 32 bits. -/
def stoi (s : List Char) : Option ℤ := (stoll s).filter fun v => -2 ^ 31 ≤ v ∧ v < 2 ^ 31

/-- The loop over `argv`. -/
def parseLoop : List String → Parsed → Option Parsed
  | [], p => some p
  | [a], p => if a = "--append" then some { p with append := true } else none
  | a :: v :: rest, p =>
    if a = "--config" then parseLoop rest { p with configPath := some v }
    else if a = "--employee-id" then
      (stoll v.toList).bind fun id => parseLoop rest { p with employeeId := some id }
    else if a = "--photos" then
      (stoi v.toList).bind fun n => parseLoop rest { p with photos := n }
    else if a = "--append" then parseLoop (v :: rest) { p with append := true }
    else none

/-- mirrors edge/apps/enroll/main.cpp:38-70 -/
def parseArgs (argv : List String) : Option Args :=
  match parseLoop argv ⟨none, none, 5, false⟩ with
  | some ⟨some configPath, some employeeId, photos, append⟩ =>
    if h : 0 < employeeId ∧ 0 < photos then
      some ⟨configPath, employeeId, photos.toNat, append, h.1, by omega⟩
    else none
  | _ => none

/-! ## The run -/

/-- Where `main` stands. -/
inductive Stage where
  | loadConfig
  | ensureDirectory
  | openStorage
  | deleteOld
  | openCamera
  | loadDetector
  | loadEmbedder
  | capturing
  | exited (code : ℕ)
  | killed
  deriving DecidableEq, Repr

structure RunState (K : Type) where
  stage : Stage
  captured : ℕ
  table : EmbeddingsTable K

inductive Label (K : Type) where
  /-- What the stage calls has returned. -/
  | returns
  /-- It has thrown. -/
  | throws
  | delete (sqliteOk : Bool)
  /-- No frame, no face or no embedding: try again. -/
  | retry
  | save (sqliteOk : Bool) (random : Option ℤ) (nowMs : Timestamp) (vector : EmbeddingVector K)
  | kill

/-- The stage after one whose only effect is to return. -/
def Stage.next (args : Args) : Stage → Option Stage
  | .loadConfig => some .ensureDirectory
  | .ensureDirectory => some .openStorage
  | .openStorage => some (if args.append then .openCamera else .deleteOld)
  | .openCamera => some .loadDetector
  | .loadDetector => some .loadEmbedder
  | .loadEmbedder => some .capturing
  | _ => none

def Stage.running : Stage → Bool
  | .exited _ => false
  | .killed => false
  | _ => true

def embeddingOf (args : Args) (vector : EmbeddingVector K) : Embedding K :=
  ⟨0, args.employeeId, vector⟩

/-- mirrors edge/apps/enroll/main.cpp:104-193 -/
def step (args : Args) (s : RunState K) : Label K → Option (RunState K)
  | .returns =>
    if s.stage = .capturing then
      -- the loop condition
      if s.captured < args.photos then none else some { s with stage := .exited 0 }
    else (s.stage.next args).map fun stage => { s with stage := stage }
  | .throws => if s.stage.running then some { s with stage := .exited 1 } else none
  | .delete sqliteOk =>
    if s.stage = .deleteOld then
      match deleteEmployeeEmbeddings sqliteOk args.employeeId s.table with
      | .ok t => some { s with stage := .openCamera, table := t }
      | .error _ => some { s with stage := .exited 1 }
    else none
  | .retry => if s.stage = .capturing ∧ s.captured < args.photos then some s else none
  | .save sqliteOk random nowMs vector =>
    if s.stage = .capturing ∧ s.captured < args.photos then
      match insertEmbedding sqliteOk random nowMs (embeddingOf args vector) s.table with
      | .ok t => some { s with captured := s.captured + 1, table := t }
      -- caught in the loop: the photo is taken again
      | .error _ => some s
    else none
  | .kill => if s.stage.running then some { s with stage := .killed } else none

def start (t : EmbeddingsTable K) : RunState K := ⟨.loadConfig, 0, t⟩

def system (K : Type) (args : Args) : LTS (RunState K) (Label K) :=
  .ofStep (fun s => ∃ t, s = start t) (step args)

/-- `SELECT ... WHERE employee_id = ?` -/
def rowsOf (employeeId : ℤ) (t : EmbeddingsTable K) : List (EmbeddingRow K) :=
  t.rows.filter fun r => r.employeeId = employeeId

/-- As long as a photo is missing, the employee has the rows from before the run. -/
def Intact (args : Args) (before : EmbeddingsTable K) (s : RunState K) : Prop :=
  s.captured < args.photos → rowsOf args.employeeId s.table = rowsOf args.employeeId before

/-- A delete finds no row of the employee; a photo is saved only as the last one. -/
def Harmless (args : Args) (s : RunState K) : Label K → Prop
  | .delete sqliteOk => sqliteOk = true → rowsOf args.employeeId s.table = []
  | .save sqliteOk random _ _ =>
    sqliteOk = true → (newRowid random s.table).isSome → s.captured + 1 = args.photos
  | _ => True

variable {args : Args} {s s' : RunState K} {t t' before : EmbeddingsTable K}

/-! ## One step -/

theorem rowsOf_delete (employeeId : ℤ) (t : EmbeddingsTable K) :
    rowsOf employeeId (t.deleteWhere fun r => r.employeeId ≠ employeeId) = [] := by
  refine List.filter_eq_nil_iff.mpr ?_
  intro r hr
  have hne := (List.mem_filter.mp hr).2
  simpa using hne

theorem length_rowsOf_insert {sqliteOk : Bool} {random : Option ℤ} {nowMs : Timestamp}
    {e : Embedding K} (h : insertEmbedding sqliteOk random nowMs e t = .ok t') :
    (rowsOf e.owner t').length = (rowsOf e.owner t).length + 1 := by
  obtain ⟨id, hid, rfl⟩ := insertEmbedding_ok h
  have hperm := (Table.perm_upsert (t := t) (r := ⟨id, e.owner, e.vector, nowMs⟩) hid).filter
    fun r => decide (r.employeeId = e.owner)
  have hlen := hperm.length_eq
  simpa [rowsOf] using hlen

/-- What a step can do. -/
inductive Step (args : Args) (s : RunState K) : Label K → RunState K → Prop where
  | next {stage : Stage} (hnext : s.stage.next args = some stage) :
      Step args s .returns { s with stage := stage }
  | finish (hstage : s.stage = .capturing) (hge : args.photos ≤ s.captured) :
      Step args s .returns { s with stage := .exited 0 }
  | stops {l : Label K} {stage : Stage} (hstage : stage = .exited 1 ∨ stage = .killed)
      (hkeep : Harmless args s l) : Step args s l { s with stage := stage }
  | again {l : Label K} (hkeep : Harmless args s l) : Step args s l s
  | deleted (hstage : s.stage = .deleteOld) : Step args s (.delete true)
      { s with
        stage := .openCamera
        table := s.table.deleteWhere fun r => r.employeeId ≠ args.employeeId }
  | saved {random : Option ℤ} {nowMs : Timestamp} {vector : EmbeddingVector K}
      {t : EmbeddingsTable K} (hstage : s.stage = .capturing) (hlt : s.captured < args.photos)
      (hrow : (newRowid random s.table).isSome)
      (hins : insertEmbedding true random nowMs (embeddingOf args vector) s.table = .ok t) :
      Step args s (.save true random nowMs vector)
        { s with captured := s.captured + 1, table := t }

theorem step_cases {l : Label K} (h : step args s l = some s') : Step args s l s' := by
  cases l with
  | returns =>
    simp only [step] at h
    split at h
    · rename_i hstage
      split at h
      · cases h
      · rename_i hge
        cases h
        exact .finish hstage (not_lt.mp hge)
    · obtain ⟨stage, hnext, rfl⟩ := Option.map_eq_some_iff.mp h
      exact .next hnext
  | throws =>
    simp only [step] at h
    split at h
    · cases h
      exact .stops (Or.inl rfl) trivial
    · cases h
  | delete sqliteOk =>
    simp only [step] at h
    split at h
    · rename_i hstage
      cases sqliteOk with
      | true =>
        cases h
        exact .deleted hstage
      | false =>
        cases h
        exact .stops (Or.inl rfl) (nofun)
    · cases h
  | retry =>
    simp only [step] at h
    split at h
    · cases h
      exact .again trivial
    · cases h
  | save sqliteOk random nowMs vector =>
    simp only [step] at h
    split at h
    · rename_i hc
      cases hins : insertEmbedding sqliteOk random nowMs (embeddingOf args vector) s.table with
      | ok t =>
        rw [hins] at h
        cases h
        have hins' := hins
        unfold insertEmbedding at hins'
        split at hins'
        · rename_i hok
          subst hok
          split at hins'
          · rename_i id hid
            exact .saved hc.1 hc.2 (by rw [hid]; rfl) hins
          · cases hins'
        · cases hins'
      | error e =>
        rw [hins] at h
        cases h
        refine .again ?_
        intro hok hrow
        subst hok
        obtain ⟨id, hid⟩ := Option.isSome_iff_exists.mp hrow
        simp [insertEmbedding, hid] at hins
    · cases h
  | kill =>
    simp only [step] at h
    split at h
    · cases h
      exact .stops (Or.inr rfl) trivial
    · cases h

/-! ## What holds through a run -/

def Stage.beforeLoop : Stage → Bool
  | .capturing | .exited _ | .killed => false
  | _ => true

def Stage.afterDelete : Stage → Bool
  | .openCamera | .loadDetector | .loadEmbedder | .capturing | .exited 0 => true
  | _ => false

structure Inv (args : Args) (s : RunState K) : Prop where
  none_yet : s.stage.beforeLoop = true → s.captured = 0
  done : s.stage = .exited 0 → s.captured = args.photos
  le : s.captured ≤ args.photos
  counted : args.append = false → s.stage.afterDelete = true →
    (rowsOf args.employeeId s.table).length = s.captured

theorem next_beforeLoop {stage stage' : Stage} (h : stage.next args = some stage') :
    stage.beforeLoop = true ∧ stage' ≠ .exited 0 := by
  cases stage with
  | openStorage =>
    cases h
    refine ⟨rfl, ?_⟩
    split <;> exact nofun
  | capturing | exited | killed => cases h
  | loadConfig | ensureDirectory | deleteOld | openCamera | loadDetector | loadEmbedder =>
    cases h
    all_goals exact ⟨rfl, nofun⟩

/-- Without `--append` no stage goes past the delete but the delete. -/
theorem next_afterDelete {stage stage' : Stage} (happend : args.append = false)
    (h : stage.next args = some stage') (hafter : stage'.afterDelete = true) :
    stage.afterDelete = true := by
  cases stage with
  | openStorage =>
    cases h
    rw [happend] at hafter
    cases hafter
  | loadConfig | ensureDirectory =>
    cases h
    all_goals cases hafter
  | deleteOld | capturing | exited | killed => cases h
  | openCamera | loadDetector | loadEmbedder => rfl

theorem inv_start (args : Args) (t : EmbeddingsTable K) : Inv args (start t) where
  none_yet _ := rfl
  done h := by cases h
  le := Nat.zero_le _
  counted _ h := by cases h

theorem inv_step {l : Label K} (hi : Inv args s) (h : Step args s l s') : Inv args s' := by
  cases h with
  | @next stage hnext =>
    obtain ⟨hbefore, hne⟩ := next_beforeLoop hnext
    have hzero := hi.none_yet hbefore
    exact {
      none_yet := fun _ => hzero
      done := fun he => absurd he hne
      le := hi.le
      counted := fun happend hafter => hi.counted happend (next_afterDelete happend hnext hafter) }
  | finish hstage hge =>
    exact {
      none_yet := nofun
      done := fun _ => le_antisymm hi.le hge
      le := hi.le
      counted := fun happend _ => hi.counted happend (by rw [hstage]; rfl) }
  | stops hstage =>
    rcases hstage with rfl | rfl
    · exact ⟨nofun, nofun, hi.le, nofun⟩
    · exact ⟨nofun, nofun, hi.le, nofun⟩
  | again => exact hi
  | deleted hstage =>
    have hzero := hi.none_yet (by rw [hstage]; rfl)
    refine ⟨fun _ => hzero, nofun, hi.le, ?_⟩
    intro _ _
    rw [rowsOf_delete, hzero]
    rfl
  | saved hstage hlt _ hins =>
    refine ⟨?_, ?_, hlt, ?_⟩
    · intro hb
      rw [hstage] at hb
      cases hb
    · intro he
      rw [hstage] at he
      cases he
    · intro happend _
      have hcount := hi.counted happend (by rw [hstage]; rfl)
      rw [← hcount]
      exact length_rowsOf_insert hins

theorem intact_step {l : Label K} (hi : Inv args s) (hp : Intact args before s)
    (h : Step args s l s') : Intact args before s' ↔ Harmless args s l := by
  cases h with
  | next => exact iff_of_true hp trivial
  | finish => exact iff_of_true hp trivial
  | stops _ hkeep => exact iff_of_true hp hkeep
  | again hkeep => exact iff_of_true hp hkeep
  | deleted hstage =>
    have hzero := hi.none_yet (by rw [hstage]; rfl)
    have hlt : s.captured < args.photos := by
      have hpos := args.photos_pos
      omega
    have hold := hp hlt
    constructor
    · intro hp' _
      have hnew := hp' hlt
      rw [rowsOf_delete] at hnew
      rw [hold, ← hnew]
    · intro hk _
      rw [← hold, hk rfl]
      exact rowsOf_delete _ _
  | @saved random nowMs vector t hstage hlt hrow hins =>
    have hold := hp hlt
    have hlen := length_rowsOf_insert hins
    constructor
    · intro hp' _ _
      by_contra hne
      have hmore : s.captured + 1 < args.photos := by omega
      have hnew := congrArg List.length (hp' hmore)
      rw [← hold] at hnew
      simp only [embeddingOf] at hlen hnew
      omega
    · intro hk hmore
      have hlast := hk rfl hrow
      simp only [hlast, lt_irrefl] at hmore

/-! ## Runs -/

theorem intact_start (args : Args) (t : EmbeddingsTable K) : Intact args t (start t) :=
  fun _ => rfl

/-- Wherever a run stops, the employee's rows are those from before it or all photos
are saved: so it is exactly if no step of the run does harm. -/
theorem intact_iff (args : Args) (before : EmbeddingsTable K) (ls : List (Label K))
    (s : RunState K) :
    ((system K args).within (Intact args before)).Run (start before) ls s ↔
      ((system K args).guard (Harmless args)).Run (start before) ls s := by
  refine LTS.Run.within_iff_guard (I := Inv args) ?_ (inv_start args before)
    (intact_start args before)
  intro s l s' hi hp hs
  have hstep := step_cases hs
  exact ⟨inv_step hi hstep, intact_step hi hp hstep⟩

theorem inv_run {ls : List (Label K)} (h : (system K args).Run (start before) ls s) :
    Inv args s := by
  refine h.invariant (P := Inv args) ?_ (inv_start args before)
  intro s l s' hi hs
  exact inv_step hi (step_cases hs)

/-- A run without `--append` that returns 0 leaves one row for each photo. -/
theorem replaced_when_done {ls : List (Label K)} (happend : args.append = false)
    (h : (system K args).Run (start before) ls s) (hdone : s.stage = .exited 0) :
    (rowsOf args.employeeId s.table).length = args.photos := by
  have hi := inv_run h
  have hcount := hi.counted happend (by rw [hdone]; rfl)
  rw [hcount, hi.done hdone]

/-! ## The failing run -/

def exampleArgs : Args := ⟨"config.toml", 7, 5, false, by decide, by decide⟩

example : parseArgs ["--config", "config.toml", "--employee-id", "7"] = some exampleArgs := by
  decide +kernel

def exampleTable : EmbeddingsTable ExtRat := Table.empty.upsert ⟨1, 7, axis, 0⟩

/-- The camera cannot be opened: the employee's only row is gone already. -/
theorem enrolled_face_lost : ∃ s : RunState ExtRat,
    (system ExtRat exampleArgs).Run (start exampleTable)
      [.returns, .returns, .returns, .delete true, .throws] s ∧
      exampleArgs.append = false ∧ s.stage = .exited 1 ∧ s.captured < exampleArgs.photos ∧
      rowsOf exampleArgs.employeeId exampleTable = [⟨1, 7, axis, 0⟩] ∧
      rowsOf exampleArgs.employeeId s.table = [] := by
  refine ⟨⟨.exited 1, 0, ⟨[], List.Pairwise.nil⟩⟩, ?_, rfl, rfl, by decide, rfl, rfl⟩
  exact LTS.run_of_exec rfl

end FaceGate.L3.EnrollRun
