import FaceGate.Core.Except
import FaceGate.Core.LTS
import FaceGate.L1Domain.Json
import FaceGate.L4Backend.Database
import Mathlib.Data.List.DropRight

/-!
# PATCH /employees/:id

`update` reads the row, applies the body to it in memory and writes both columns
back, with no transaction around the two statements. `system` interleaves the
statements of any number of such requests, and creations and deletions.

An absent key "leaves it unchanged" (`employees.rs:63`), but the UPDATE writes
every column as the SELECT found it: what another request has written in between
is lost (`name_lost`).

* `no_lost_update`: no UPDATE changes a column whose field is absent exactly if at
  each UPDATE these columns are as the request's SELECT found them; and then every
  row is its first value with the bodies of its requests applied one after the
  other.
-/
namespace FaceGate.L4.Employees

open Core Core.Keyed FaceGate.L1

variable {K : Type}

/-! ## The body -/

/-- mirrors backend/src/routes/employees.rs:60-66 -/
structure UpdateEmployee where
  name : Option String
  shift : Option (Option String)
  deriving DecidableEq, Repr

/-- A value that is there, `null` or not.
mirrors backend/src/routes/employees.rs:41-48 -/
def doubleOption {A : Type} (conv : Json K → Except SerdeError A) (j : Json K) :
    Except SerdeError (Option (Option A)) :=
  some <$> j.toOption conv

namespace UpdateEmployee

/-- The derived `visit_map`. Unknown members are ignored. -/
def ofObject (m : List (String × Json K)) : Except SerdeError UpdateEmployee := do
  let name ← Json.withDefault m "name" none (Json.toOption Json.toStr)
  let shift ← Json.withDefault m "shift" none (doubleOption Json.toStr)
  return ⟨name, shift⟩

/-- The derived `visit_seq`: the field with `serde(default)` may be missing. -/
def ofSeq : List (Json K) → Except SerdeError UpdateEmployee
  | [n] => do return ⟨← n.toOption Json.toStr, none⟩
  | [n, s] => do return ⟨← n.toOption Json.toStr, ← doubleOption Json.toStr s⟩
  | _ => .error .invalidLength

def ofJson : Json K → Except SerdeError UpdateEmployee
  | .object m => ofObject m
  | .array l => ofSeq l
  | _ => .error .invalidType

end UpdateEmployee

/-! ## update -/

/-- `char::is_whitespace` -/
def isWhitespace (c : Char) : Bool :=
  let n := c.toNat
  (9 ≤ n && n ≤ 13) || n = 0x20 || n = 0x85 || n = 0xa0 || n = 0x1680 ||
    (0x2000 ≤ n && n ≤ 0x200a) || n = 0x2028 || n = 0x2029 || n = 0x202f || n = 0x205f || n = 0x3000

/-- `str::trim` -/
def trim (s : String) : String :=
  .ofList ((s.toList.dropWhile isWhitespace).rdropWhile isWhitespace)

/-- Status and text. -/
abbrev HttpError := ℕ × String

/-- mirrors backend/src/routes/employees.rs:193-203 -/
def fetch (dbUp : Bool) (db : Database K) (id : ℤ) : Except HttpError EmployeeRow :=
  if !dbUp then .error (500, "db error")
  else
    match db.employees.find id with
    | some emp => .ok emp
    | none => .error (404, "employee not found")

/-- mirrors backend/src/routes/employees.rs:205-216 -/
def UpdateEmployee.apply (body : UpdateEmployee) (emp : EmployeeRow) :
    Except HttpError EmployeeRow := do
  let emp ← match body.name with
    | some n =>
      if (trim n).isEmpty then .error (400, "name cannot be empty")
      else .ok { emp with name := trim n }
    | none => .ok emp
  return match body.shift with
    | some s => { emp with shift := s }
    | none => emp

/-- The row after, and the database. A row that is gone is `RowNotFound`.
mirrors backend/src/routes/employees.rs:218-236 -/
def save (dbUp : Bool) (db : Database K) (id : ℤ) (emp : EmployeeRow) :
    Except HttpError (EmployeeRow × Database K) :=
  if !dbUp then .error (500, "db error")
  else
    match db.employees.find id with
    | some row => .ok (row.set id emp.name emp.shift, db.updateEmployee id emp.name emp.shift)
    | none => .error (500, "db error")

/-- What the body asks for. -/
def UpdateEmployee.applied (body : UpdateEmployee) (emp : EmployeeRow) : EmployeeRow :=
  { emp with name := (body.name.map trim).getD emp.name, shift := body.shift.getD emp.shift }

theorem apply_ok {body : UpdateEmployee} {emp emp' : EmployeeRow}
    (h : body.apply emp = .ok emp') : emp' = body.applied emp := by
  obtain ⟨name, shift⟩ := body
  unfold UpdateEmployee.apply at h
  unfold UpdateEmployee.applied
  cases name with
  | none =>
    cases h
    cases shift <;> rfl
  | some n =>
    dsimp only at h
    split at h
    · cases h
    · cases h
      cases shift <;> rfl

theorem UpdateEmployee.ofObject_ok {m : List (String × Json K)} {body : UpdateEmployee}
    (h : UpdateEmployee.ofObject m = .ok body) :
    Json.withDefault m "name" none (Json.toOption Json.toStr) = .ok body.name ∧
      Json.withDefault m "shift" none (doubleOption Json.toStr) = .ok body.shift := by
  unfold UpdateEmployee.ofObject at h
  obtain ⟨name, hn, h⟩ := bind_ok.mp h
  obtain ⟨shift, hs, h⟩ := bind_ok.mp h
  cases h
  exact ⟨hn, hs⟩

/-- An absent key is a field that is `none`; for the shift nothing else is. -/
theorem absent_of_ofObject {m : List (String × Json K)} {body : UpdateEmployee}
    (h : UpdateEmployee.ofObject m = .ok body) :
    (Json.field m "name" = .ok none → body.name = none) ∧
      (Json.field m "shift" = .ok none ↔ body.shift = none) := by
  obtain ⟨hn, hs⟩ := UpdateEmployee.ofObject_ok h
  constructor
  · intro hf
    rcases Json.withDefault_ok hn with ⟨-, hd⟩ | ⟨j, hj, -⟩
    · exact hd
    · rw [hf] at hj
      cases hj
  · rcases Json.withDefault_ok hs with ⟨hf, hd⟩ | ⟨j, hj, hc⟩
    · exact iff_of_true hf hd
    · unfold doubleOption at hc
      refine iff_of_false (fun hf => ?_) (fun hd => ?_)
      · rw [hf] at hj
        cases hj
      · rw [hd] at hc
        obtain ⟨o, -, ho⟩ := map_ok.mp hc
        cases ho

/-! ## The system -/

/-- A request between two of its steps. `fetched`: what the SELECT found, and the
row to be written. -/
inductive Request where
  /-- mirrors backend/src/routes/employees.rs:192 -/
  | received (id : ℤ) (body : UpdateEmployee)
  /-- mirrors backend/src/routes/employees.rs:218 -/
  | fetched (id : ℤ) (body : UpdateEmployee) (found emp : EmployeeRow)
  deriving DecidableEq, Repr

/-- An UPDATE that took effect: the row before and after. -/
structure Update where
  id : ℤ
  body : UpdateEmployee
  before : EmployeeRow
  after : EmployeeRow
  deriving DecidableEq, Repr

/-- Ghosts: `created` has each row as it was first, `updates` the UPDATEs. -/
structure State (K : Type) where
  db : Database K
  requests : List Request
  created : ℤ → Option EmployeeRow
  updates : List Update

/-- `i` is the request that takes the step; `gap` numbers of the sequence were lost
since the last row. -/
inductive Label where
  | patch (id : ℤ) (body : UpdateEmployee)
  | select (i : ℕ) (dbUp : Bool)
  | update (i : ℕ) (dbUp : Bool)
  | create (name : String) (shift : Option String) (gap : ℕ)
  | delete (id : ℤ)
  deriving DecidableEq, Repr

/-- mirrors backend/src/routes/employees.rs:147-169,186-237,268-275 -/
def step (s : State K) : Label → Option (State K)
  | .patch id body => some { s with requests := s.requests ++ [.received id body] }
  | .select i dbUp =>
    match s.requests[i]? with
    | some (.received id body) =>
      match fetch dbUp s.db id with
      | .error _ => some { s with requests := Pool.advance s.requests i none }
      | .ok found =>
        match body.apply found with
        | .error _ => some { s with requests := Pool.advance s.requests i none }
        | .ok emp => some { s with
            requests := Pool.advance s.requests i (some (.fetched id body found emp)) }
    | _ => none
  | .update i dbUp =>
    match s.requests[i]? with
    | some (.fetched id body _ emp) =>
      match s.db.employees.find id, save dbUp s.db id emp with
      | some before, .ok (after, db) => some { s with
          db := db
          requests := Pool.advance s.requests i none
          updates := s.updates ++ [⟨id, body, before, after⟩] }
      | _, _ => some { s with requests := Pool.advance s.requests i none }
    | _ => none
  | .create name shift gap =>
    if (trim name).isEmpty then some s
    else
      let row : EmployeeRow := ⟨s.db.employees.last + 1 + gap, trim name, shift⟩
      some { s with
        db := s.db.insertEmployee row (by simp only [row]; omega)
        created := Function.update s.created row.id (some row) }
  | .delete id => some { s with db := s.db.deleteEmployee id }

def State.empty : State K := ⟨.empty, [], fun _ => none, []⟩

structure Initial (s : State K) : Prop where
  requests : s.requests = []
  created : s.created = s.db.employees.find
  updates : s.updates = []

def system (K : Type) : LTS (State K) Label := .ofStep Initial step

/-! ## What is lost -/

/-- The UPDATE leaves the columns alone whose fields are absent. -/
structure Update.Keeps (u : Update) : Prop where
  name : u.body.name = none → u.after.name = u.before.name
  shift : u.body.shift = none → u.after.shift = u.before.shift

instance (u : Update) : Decidable u.Keeps :=
  decidable_of_iff
    ((u.body.name = none → u.after.name = u.before.name) ∧
      (u.body.shift = none → u.after.shift = u.before.shift))
    ⟨fun h => ⟨h.1, h.2⟩, fun h => ⟨h.name, h.shift⟩⟩

def AbsentKept (s : State K) : Prop := ∀ u ∈ s.updates, u.Keeps

instance (s : State K) : Decidable (AbsentKept s) :=
  inferInstanceAs (Decidable (∀ u ∈ s.updates, u.Keeps))

/-- Each row is its first value with the bodies of its requests applied. -/
def Merged (s : State K) : Prop :=
  ∀ id row, s.db.employees.find id = some row → ∃ first, s.created id = some first ∧
    row = (s.updates.filter fun u => u.id = id).foldl (fun r u => u.body.applied r) first

/-- The condition on a step: when a request writes, the columns absent from its
body are as its SELECT found them. -/
def Undisturbed (s : State K) : Label → Prop
  | .update i true =>
    match s.requests[i]? with
    | some (.fetched id body found _) => ∀ row ∈ s.db.employees.find id,
        (body.name = none → row.name = found.name) ∧ (body.shift = none → row.shift = found.shift)
    | _ => True
  | _ => True

/-! ## What a step does -/

variable {s s' : State K}

/-- `select` reads, and leaves only its own request changed. -/
theorem select_cases {i : ℕ} {dbUp : Bool} (h : step s (.select i dbUp) = some s') :
    ∃ o : Option Request, s' = { s with requests := Pool.advance s.requests i o } ∧
      ∀ id body found emp, o = some (.fetched id body found emp) → emp = body.applied found := by
  simp only [step] at h
  split at h
  · split at h
    · cases h
      exact ⟨none, rfl, fun _ _ _ _ h => nomatch h⟩
    · split at h
      · cases h
        exact ⟨none, rfl, fun _ _ _ _ h => nomatch h⟩
      · rename_i emp hemp
        cases h
        refine ⟨_, rfl, ?_⟩
        intro id body found emp' he
        cases he
        exact apply_ok hemp
  · cases h

/-- The UPDATE of a request for `id`. -/
def written (id : ℤ) (body : UpdateEmployee) (row emp : EmployeeRow) : Update :=
  ⟨id, body, row, { row with name := emp.name, shift := emp.shift }⟩

/-- `update` ends its request, and has written the row or nothing. -/
theorem update_cases {i : ℕ} {dbUp : Bool} (h : step s (.update i dbUp) = some s') :
    ∃ id body found emp, s.requests[i]? = some (.fetched id body found emp) ∧
      ((s' = { s with requests := Pool.advance s.requests i none } ∧
          (dbUp = true → s.db.employees.find id = none)) ∨
        ∃ row, dbUp = true ∧ s.db.employees.find id = some row ∧ s' = { s with
          db := s.db.updateEmployee id emp.name emp.shift
          requests := Pool.advance s.requests i none
          updates := s.updates ++ [written id body row emp] }) := by
  simp only [step] at h
  split at h
  · rename_i id body found emp hreq
    refine ⟨id, body, found, emp, hreq, ?_⟩
    cases hfind : s.db.employees.find id with
    | none =>
      rw [hfind] at h
      cases h
      exact Or.inl ⟨rfl, fun _ => rfl⟩
    | some row =>
      rw [hfind] at h
      unfold save at h
      rw [hfind] at h
      cases dbUp with
      | false =>
        cases h
        exact Or.inl ⟨rfl, fun h => nomatch h⟩
      | true =>
        cases h
        obtain rfl := Table.key_of_find hfind
        refine Or.inr ⟨row, rfl, rfl, ?_⟩
        simp [written, EmployeeRow.set]
  · cases h

/-! ## The invariant -/

/-- The fields that are there are written, and nothing but the two columns is. -/
structure Update.Written (u : Update) : Prop where
  row : u.after = { u.before with name := u.after.name, shift := u.after.shift }
  name : ∀ n ∈ u.body.name, u.after.name = trim n
  shift : ∀ x ∈ u.body.shift, u.after.shift = x

theorem Update.after_eq {u : Update} (hw : u.Written) (hk : u.Keeps) :
    u.after = u.body.applied u.before := by
  have hn : u.after.name = (u.body.name.map trim).getD u.before.name := by
    cases h : u.body.name with
    | none => exact hk.name h
    | some n => exact hw.name n h
  have hs : u.after.shift = u.body.shift.getD u.before.shift := by
    cases h : u.body.shift with
    | none => exact hk.shift h
    | some x => exact hw.shift x h
  rw [hw.row]
  unfold UpdateEmployee.applied
  rw [hn, hs]

/-- The UPDATEs take `first` to the row, each from where the last one left it. -/
inductive History (first : EmployeeRow) : List Update → EmployeeRow → Prop where
  | nil : History first [] first
  | concat {us : List Update} {u : Update} :
      History first us u.before → History first (us ++ [u]) u.after

theorem History.merged {first row : EmployeeRow} {us : List Update} (h : History first us row)
    (hu : ∀ u ∈ us, u.Written ∧ u.Keeps) :
    row = us.foldl (fun r u => u.body.applied r) first := by
  induction h with
  | nil => rfl
  | @concat us u _ ih =>
    obtain ⟨hw, hk⟩ := hu u (by simp)
    have hbefore := ih fun v hv => hu v (List.mem_append_left _ hv)
    rw [List.foldl_append, ← hbefore]
    exact Update.after_eq hw hk

structure Inv (s : State K) : Prop where
  requests : ∀ id body found emp, .fetched id body found emp ∈ s.requests →
    emp = body.applied found
  updates : ∀ u ∈ s.updates, u.id ≤ s.db.employees.last ∧ u.Written
  rows : ∀ id row, s.db.employees.find id = some row → ∃ first, s.created id = some first ∧
    History first (s.updates.filter fun u => u.id = id) row

theorem Inv.merged (hi : Inv s) (hk : AbsentKept s) : Merged s := by
  intro id row hfind
  obtain ⟨first, hfirst, hh⟩ := hi.rows id row hfind
  refine ⟨first, hfirst, hh.merged ?_⟩
  intro u hu
  have hmem := List.mem_of_mem_filter hu
  exact ⟨(hi.updates u hmem).2, hk u hmem⟩

theorem written_of_applied {body : UpdateEmployee} {found emp row : EmployeeRow} {id : ℤ}
    (h : emp = body.applied found) : (written id body row emp).Written := by
  subst h
  refine ⟨rfl, ?_, ?_⟩
  · intro n hn
    have hb : body.name = some n := hn
    simp [written, UpdateEmployee.applied, hb]
  · intro x hx
    have hb : body.shift = some x := hx
    simp [written, UpdateEmployee.applied, hb]

/-- What is written to an absent column is what the SELECT found. -/
theorem keeps_iff {body : UpdateEmployee} {found emp row : EmployeeRow} {id : ℤ}
    (h : emp = body.applied found) : (written id body row emp).Keeps ↔
      (body.name = none → row.name = found.name) ∧
        (body.shift = none → row.shift = found.shift) := by
  subst h
  constructor
  · intro hk
    refine ⟨fun hn => ?_, fun hs => ?_⟩
    · have := hk.name hn
      simpa [written, UpdateEmployee.applied, hn] using this.symm
    · have := hk.shift hs
      simpa [written, UpdateEmployee.applied, hs] using this.symm
  · rintro ⟨hname, hshift⟩
    refine ⟨fun hn => ?_, fun hs => ?_⟩
    · have hb : body.name = none := hn
      simpa [written, UpdateEmployee.applied, hb] using (hname hb).symm
    · have hb : body.shift = none := hs
      simpa [written, UpdateEmployee.applied, hb] using (hshift hb).symm

/-! ## One step -/

/-- A step that leaves the rows and the UPDATEs alone. -/
theorem Inv.of_requests (hi : Inv s) {rs : List Request}
    (hr : ∀ id body found emp, .fetched id body found emp ∈ rs →
      .fetched id body found emp ∈ s.requests ∨ emp = body.applied found) :
    Inv { s with requests := rs } where
  requests := by
    intro id body found emp hmem
    rcases hr id body found emp hmem with hold | hnew
    · exact hi.requests id body found emp hold
    · exact hnew
  updates := hi.updates
  rows := hi.rows

/-- The rows after an UPDATE: the one row gains the UPDATE, the others none. -/
theorem Inv.of_update (hi : Inv s) {i : ℕ} {id : ℤ} {body : UpdateEmployee}
    {found emp row : EmployeeRow} (hreq : .fetched id body found emp ∈ s.requests)
    (hfind : s.db.employees.find id = some row) :
    Inv { s with
      db := s.db.updateEmployee id emp.name emp.shift
      requests := Pool.advance s.requests i none
      updates := s.updates ++ [written id body row emp] } where
  requests := fun k b f e hmem => hi.requests k b f e (Pool.mem_of_mem_finish hmem)
  updates := by
    intro u hu
    rcases List.mem_append.mp hu with hu | hu
    · exact hi.updates u hu
    · obtain rfl := List.mem_singleton.mp hu
      have hrow : row ∈ s.db.employees.rows := Table.mem_rows_iff.mpr (by
        rw [Table.key_of_find hfind]
        exact hfind)
      have hle := s.db.employees.le_last row hrow
      rw [Table.key_of_find hfind] at hle
      exact ⟨hle, written_of_applied (hi.requests id body found emp hreq)⟩
  rows := by
    intro k r hr
    rw [Database.find_updateEmployee] at hr
    obtain ⟨old, hold, rfl⟩ := Option.map_eq_some_iff.mp hr
    obtain ⟨first, hfirst, hh⟩ := hi.rows k old hold
    refine ⟨first, hfirst, ?_⟩
    have hkey : old.id = k := Table.key_of_find hold
    rw [List.filter_append]
    by_cases hk : id = k
    · subst hk
      rw [hfind] at hold
      cases hold
      rw [List.filter_cons_of_pos (by simp [written]), List.filter_nil]
      have hafter :
          EmployeeRow.set id emp.name emp.shift row = (written id body row emp).after := by
        simp [EmployeeRow.set, written, hkey]
      rw [hafter]
      exact History.concat (u := written id body row emp) hh
    · rw [List.filter_cons_of_neg (by simp [written, hk]), List.filter_nil, List.append_nil]
      have hsame : EmployeeRow.set id emp.name emp.shift old = old := by
        unfold EmployeeRow.set
        rw [if_neg (fun e => hk (e.symm.trans hkey))]
      rw [hsame]
      exact hh

/-- A new row has had no UPDATE: their ids are ids already given. -/
theorem Inv.of_create (hi : Inv s) {row : EmployeeRow} (h : s.db.employees.last < row.id) :
    Inv { s with
      db := s.db.insertEmployee row h
      created := Function.update s.created row.id (some row) } where
  requests := hi.requests
  updates := by
    intro u hu
    obtain ⟨hle, hw⟩ := hi.updates u hu
    exact ⟨hle.trans h.le, hw⟩
  rows := by
    intro k r hr
    rw [show (s.db.insertEmployee row h).employees = s.db.employees.insert row h from rfl,
      Serial.find_insert] at hr
    by_cases hk : row.id = k
    · rw [if_pos hk] at hr
      cases hr
      subst hk
      have hnone : s.updates.filter (fun u => u.id = row.id) = [] := by
        refine List.filter_eq_nil_iff.mpr ?_
        intro u hu
        have hle := (hi.updates u hu).1
        simp only [decide_eq_true_eq]
        omega
      refine ⟨row, by simp, ?_⟩
      rw [hnone]
      exact History.nil
    · rw [if_neg hk] at hr
      obtain ⟨first, hfirst, hh⟩ := hi.rows k r hr
      have hold : Function.update s.created row.id (some row) k = s.created k :=
        Function.update_of_ne (Ne.symm hk) _ _
      exact ⟨first, hold.trans hfirst, hh⟩

theorem Inv.of_delete (hi : Inv s) (id : ℤ) : Inv { s with db := s.db.deleteEmployee id } where
  requests := hi.requests
  updates := hi.updates
  rows := by
    intro k r hr
    rw [show (s.db.deleteEmployee id).employees.find k = _ from Table.find_erase ..] at hr
    split at hr
    · cases hr
    · exact hi.rows k r hr

/-- A step keeps `AbsentKept` exactly if it is undisturbed. -/
theorem step_spec {l : Label} (hi : Inv s) (h : step s l = some s') :
    Inv s' ∧ (AbsentKept s' ↔ AbsentKept s ∧ Undisturbed s l) := by
  cases l with
  | patch id body =>
    cases h
    refine ⟨hi.of_requests ?_, (and_iff_left trivial).symm⟩
    intro k b f e hmem
    rcases List.mem_append.mp hmem with hmem | hmem
    · exact Or.inl hmem
    · cases List.mem_singleton.mp hmem
  | select i dbUp =>
    obtain ⟨o, rfl, ho⟩ := select_cases h
    refine ⟨hi.of_requests ?_, (and_iff_left trivial).symm⟩
    intro k b f e hmem
    exact (Pool.mem_advance hmem).imp_right (ho k b f e)
  | update i dbUp =>
    obtain ⟨id, body, found, emp, hreq, ⟨rfl, hnone⟩ | ⟨row, rfl, hfind, rfl⟩⟩ := update_cases h
    · refine ⟨hi.of_requests fun _ _ _ _ hmem => Or.inl (Pool.mem_of_mem_finish hmem), ?_⟩
      refine (and_iff_left ?_).symm
      cases dbUp with
      | false => trivial
      | true =>
        simp only [Undisturbed, hreq, hnone rfl]
        intro row hrow
        cases hrow
    · have hmem := List.mem_of_getElem? hreq
      refine ⟨hi.of_update hmem hfind, ?_⟩
      have hund : Undisturbed s (.update i true) ↔ (written id body row emp).Keeps := by
        simp only [Undisturbed, hreq, hfind, Option.mem_some_iff, forall_eq']
        exact (keeps_iff (hi.requests id body found emp hmem)).symm
      rw [hund]
      simp only [AbsentKept, List.forall_mem_append, List.forall_mem_singleton]
  | create name shift gap =>
    simp only [step] at h
    split at h
    · cases h
      exact ⟨hi, (and_iff_left trivial).symm⟩
    · cases h
      exact ⟨hi.of_create _, (and_iff_left trivial).symm⟩
  | delete id =>
    cases h
    exact ⟨hi.of_delete id, (and_iff_left trivial).symm⟩

theorem inv_init (h : Initial s) : Inv s where
  requests := by simp [h.requests]
  updates := by simp [h.updates]
  rows := by
    intro id row hfind
    refine ⟨row, ?_, ?_⟩
    · rw [h.created]
      exact hfind
    · rw [h.updates]
      exact History.nil

/-! ## Runs -/

/-- The absent columns are kept exactly in the runs whose UPDATEs are undisturbed,
and there every row is the bodies of its requests applied in turn. -/
theorem no_lost_update {a b : State K} {ls : List Label} (ha : Initial a)
    (hr : (system K).Run a ls b) :
    (AbsentKept b ↔ ((system K).guard Undisturbed).Run a ls b) ∧ (AbsentKept b → Merged b) := by
  have hstep : ∀ (s : State K) (l : Label) (s' : State K), Inv s → (system K).step s l s' →
      Inv s' ∧ (AbsentKept s' ↔ AbsentKept s ∧ Undisturbed s l) :=
    fun _ _ _ hi hs => step_spec hi hs
  have hfirst : AbsentKept a := by
    intro u hu
    rw [ha.updates] at hu
    cases hu
  have hinv : Inv b := hr.invariant (fun s l s' hi hs => (hstep s l s' hi hs).1) (inv_init ha)
  refine ⟨?_, hinv.merged⟩
  rw [hr.guard_iff hstep (inv_init ha)]
  exact and_iff_right hfirst

theorem initial_empty : Initial (.empty : State K) := ⟨rfl, rfl, rfl⟩

/-- A name and a shift, one request after the other. -/
theorem no_lost_update_sequential :
    ∃ (a b : State ℚ) (ls : List Label), Initial a ∧ (system ℚ).Run a ls b ∧
      ((system ℚ).guard Undisturbed).Run a ls b ∧ Merged b ∧
      b.db.employees.find 1 = some ⟨1, "Eva", some "B"⟩ := by
  obtain ⟨b, ⟨a, ls, ha, hr⟩, hk, hfind⟩ := LTS.exists_reachable Initial step
    [.create "Ana" (some "A") 0, .patch 1 ⟨some "Eva", none⟩, .patch 1 ⟨none, some (some "B")⟩,
      .select 0 true, .update 0 true, .select 0 true, .update 0 true] (initial_empty (K := ℚ))
    (fun s => AbsentKept s ∧ s.db.employees.find 1 = some ⟨1, "Eva", some "B"⟩)
    (by decide +kernel)
  obtain ⟨hguard, hmerged⟩ := no_lost_update ha hr
  exact ⟨a, b, ls, ha, hr, hguard.mp hk, hmerged hk, hfind⟩

/-- Both SELECTs come first: the second UPDATE writes the old name back. -/
theorem name_lost : ∃ s : State ℚ, (system ℚ).Reachable s ∧
    s.updates.map Update.body = [⟨some "Eva", none⟩, ⟨none, some (some "B")⟩] ∧
    s.db.employees.find 1 = some ⟨1, "Ana", some "B"⟩ ∧ ¬ AbsentKept s ∧ ¬ Merged s := by
  obtain ⟨s, hr, hcreated, hupdates, hfind⟩ := LTS.exists_reachable Initial step
    [.create "Ana" (some "A") 0, .patch 1 ⟨some "Eva", none⟩, .patch 1 ⟨none, some (some "B")⟩,
      .select 0 true, .select 1 true, .update 0 true, .update 0 true] (initial_empty (K := ℚ))
    (fun s => s.created 1 = some ⟨1, "Ana", some "A"⟩ ∧
      s.updates = [⟨1, ⟨some "Eva", none⟩, ⟨1, "Ana", some "A"⟩, ⟨1, "Eva", some "A"⟩⟩,
        ⟨1, ⟨none, some (some "B")⟩, ⟨1, "Eva", some "A"⟩, ⟨1, "Ana", some "B"⟩⟩] ∧
      s.db.employees.find 1 = some ⟨1, "Ana", some "B"⟩)
    (by decide +kernel)
  refine ⟨s, hr, ?_, hfind, ?_, ?_⟩
  · rw [hupdates]
    rfl
  · unfold AbsentKept
    rw [hupdates]
    decide
  · intro hm
    obtain ⟨first, hfirst, hrow⟩ := hm 1 _ hfind
    rw [hcreated] at hfirst
    cases hfirst
    rw [hupdates] at hrow
    revert hrow
    decide +kernel

/-! ## Stored names -/

theorem dropWhile_fixed {p : Char → Bool} {l l' : List Char} (hpre : l' <+: l)
    (h : l.dropWhile p = l) : l'.dropWhile p = l' := by
  obtain ⟨rest, rfl⟩ := hpre
  cases l' with
  | nil => rfl
  | cons a l' =>
    by_cases ha : p a = true
    · have hlen := List.length_dropWhile_le p (l' ++ rest)
      rw [List.cons_append, List.dropWhile_cons_of_pos ha] at h
      rw [h] at hlen
      simp at hlen
    · exact List.dropWhile_cons_of_neg ha

theorem trim_trim (s : String) : trim (trim s) = trim s := by
  simp only [trim, String.toList_ofList]
  rw [dropWhile_fixed (List.rdropWhile_prefix _ _) (List.dropWhile_idempotent _ _),
    List.rdropWhile_idempotent]

/-- A name without white space around it. -/
def Trimmed (row : EmployeeRow) : Prop := trim row.name = row.name

theorem trimmed_applied {body : UpdateEmployee} {found : EmployeeRow} (h : Trimmed found) :
    Trimmed (body.applied found) := by
  unfold Trimmed UpdateEmployee.applied
  cases body.name with
  | none => exact h
  | some n => exact trim_trim n

theorem trimmed_set {id : ℤ} {row emp : EmployeeRow} (hrow : Trimmed row) (hemp : Trimmed emp) :
    Trimmed (row.set id emp.name emp.shift) := by
  unfold EmployeeRow.set
  split
  · exact hemp
  · exact hrow

theorem trimmed_insert {db : Database K} {row : EmployeeRow} {h : db.employees.last < row.id}
    (hdb : ∀ r ∈ db.employees.rows, Trimmed r) (hrow : Trimmed row) :
    ∀ r ∈ (db.insertEmployee row h).employees.rows, Trimmed r := by
  intro r hr
  rcases (Serial.mem_insert (h := h)).mp hr with hold | rfl
  · exact hdb r hold
  · exact hrow

theorem fetch_ok {dbUp : Bool} {db : Database K} {id : ℤ} {emp : EmployeeRow}
    (h : fetch dbUp db id = .ok emp) : dbUp = true ∧ db.employees.find id = some emp := by
  unfold fetch at h
  cases dbUp with
  | false => cases h
  | true =>
    cases hfind : db.employees.find id with
    | none => simp [hfind] at h
    | some row => simpa [hfind] using h

/-- Names are trimmed in the table, and in what is about to be written to it. -/
structure NamesTrimmed (s : State K) : Prop where
  rows : ∀ row ∈ s.db.employees.rows, Trimmed row
  requests : ∀ id body found emp, .fetched id body found emp ∈ s.requests → Trimmed emp

theorem NamesTrimmed.of_requests (hi : NamesTrimmed s) {rs : List Request}
    (hr : ∀ id body found emp, .fetched id body found emp ∈ rs →
      .fetched id body found emp ∈ s.requests ∨ Trimmed emp) :
    NamesTrimmed { s with requests := rs } where
  rows := hi.rows
  requests := by
    intro id body found emp hmem
    rcases hr id body found emp hmem with hold | hnew
    · exact hi.requests id body found emp hold
    · exact hnew

theorem NamesTrimmed.of_finish (hi : NamesTrimmed s) (i : ℕ) :
    NamesTrimmed { s with requests := Pool.advance s.requests i none } :=
  hi.of_requests fun _ _ _ _ hmem => Or.inl (Pool.mem_of_mem_finish hmem)

theorem namesTrimmed_select {i : ℕ} {dbUp : Bool} (hi : NamesTrimmed s)
    (h : step s (.select i dbUp) = some s') : NamesTrimmed s' := by
  simp only [step] at h
  split at h
  · split at h
    · cases h
      exact hi.of_finish i
    · rename_i found hfound
      split at h
      · cases h
        exact hi.of_finish i
      · rename_i emp hemp
        cases h
        refine hi.of_requests fun k b f e hmem => (Pool.mem_advance hmem).imp_right fun hnew => ?_
        cases hnew
        have hfind := (fetch_ok hfound).2
        have hrow : found ∈ s.db.employees.rows := Table.mem_rows_iff.mpr (by
          rw [Table.key_of_find hfind]
          exact hfind)
        rw [apply_ok hemp]
        exact trimmed_applied (hi.rows found hrow)
  · cases h

theorem namesTrimmed_step {l : Label} (hi : NamesTrimmed s) (h : step s l = some s') :
    NamesTrimmed s' := by
  cases l with
  | patch id body =>
    cases h
    refine hi.of_requests fun k b f e hmem => ?_
    rcases List.mem_append.mp hmem with hold | hnew
    · exact Or.inl hold
    · cases List.mem_singleton.mp hnew
  | select i dbUp => exact namesTrimmed_select hi h
  | update i dbUp =>
    obtain ⟨id, body, found, emp, hreq, ⟨rfl, -⟩ | ⟨row, -, -, rfl⟩⟩ := update_cases h
    · exact hi.of_finish i
    · refine ⟨fun r hr => ?_, (hi.of_finish i).requests⟩
      obtain ⟨r₀, hr₀, rfl⟩ := List.mem_map.mp hr
      exact trimmed_set (hi.rows r₀ hr₀)
        (hi.requests id body found emp (List.mem_of_getElem? hreq))
  | create name shift gap =>
    simp only [step] at h
    split at h
    · cases h
      exact hi
    · cases h
      exact ⟨trimmed_insert hi.rows (trim_trim name), hi.requests⟩
  | delete id =>
    cases h
    exact ⟨fun r hr => hi.rows r (List.mem_of_mem_filter hr), hi.requests⟩

/-- The names that the backend has stored have no white space around them. -/
theorem trimmed_of_run {ls : List Label} (hr : (system K).Run .empty ls s) :
    ∀ row ∈ s.db.employees.rows, Trimmed row := by
  have hstep : ∀ (s : State K) (l : Label) (s' : State K), NamesTrimmed s →
      (system K).step s l s' → NamesTrimmed s' := fun _ _ _ hi hs => namesTrimmed_step hi hs
  have hempty : NamesTrimmed (.empty : State K) :=
    ⟨fun _ h => absurd h List.not_mem_nil, fun _ _ _ _ h => absurd h List.not_mem_nil⟩
  have hs : NamesTrimmed s := hr.invariant hstep hempty
  exact hs.rows

end FaceGate.L4.Employees
