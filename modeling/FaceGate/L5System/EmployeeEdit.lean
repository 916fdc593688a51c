import FaceGate.L4Backend.Employees

/-!
# The edit form of an employee

The panel compares the form with the employee it shows and PATCHes the fields that
differ; the backend leaves absent fields alone. "We send both fields every time", says
the page, but the payload leaves out a shift that is `null`: to clear the shift is to
change nothing.

`save_iff`: the stored employee is then what the form says exactly if the form does not
clear a shift, or its name is refused.
-/
namespace FaceGate.L5.EmployeeEdit

open Core Core.Keyed FaceGate.L1 FaceGate.L4 FaceGate.L4.Employees

variable {K : Type}

/-! ## The page -/

/-- `"...".length` in JavaScript: UTF-16 code units. -/
def utf16Length (s : String) : ℕ := (s.toList.map fun c => if c.toNat < 0x10000 then 1 else 2).sum

/-- mirrors panel/src/app/features/employee-detail/employee-detail.page.ts:117-120 -/
structure EditForm where
  name : String
  shift : Option String
  deriving DecidableEq, Repr

/-- `Validators.required` and `Validators.minLength(2)`. -/
def EditForm.valid (form : EditForm) : Bool := form.name ≠ "" && 2 ≤ utf16Length form.name

/-- mirrors panel/src/app/core/models/employee.model.ts:15-18 -/
structure UpdateEmployeeDto where
  name : Option String
  shift : Option String
  deriving DecidableEq, Repr

/-- `JSON.stringify`: a property that is not there is no member. -/
def UpdateEmployeeDto.toJson (dto : UpdateEmployeeDto) : Json K :=
  .object (dto.name.toList.map (fun n => ("name", .string n)) ++
    dto.shift.toList.map (fun s => ("shift", .string s)))

/-- `shift` as a condition: neither `null` nor empty. -/
def truthy (shift : Option String) : Bool := shift ≠ none && shift ≠ some ""

/-- mirrors panel/src/app/features/employee-detail/employee-detail.page.ts:208-210 -/
def diff (emp : EmployeeRow) (form : EditForm) : UpdateEmployeeDto where
  name := if form.name ≠ "" ∧ form.name ≠ emp.name then some form.name else none
  shift := if form.shift ≠ emp.shift ∧ truthy form.shift then form.shift else none

/-- mirrors panel/src/app/features/employee-detail/employee-detail.page.ts:100-103,117-120 -/
structure DetailPage where
  employee : Option EmployeeRow
  editForm : EditForm
  saving : Bool
  pristine : Bool
  deriving DecidableEq, Repr

inductive SaveClick where
  | ignored
  /-- No request: the diff is empty. -/
  | unchanged
  | update (id : ℤ) (payload : UpdateEmployeeDto)
  deriving DecidableEq, Repr

/-- mirrors panel/src/app/features/employee-detail/employee-detail.page.ts:199-217 -/
def onSaveClick (page : DetailPage) : SaveClick :=
  match page.employee with
  | none => .ignored
  | some emp =>
    if !page.editForm.valid || page.saving || page.pristine then .ignored
    else if diff emp page.editForm = ⟨none, none⟩ then .unchanged
    else .update emp.id (diff emp page.editForm)

/-! ## The request -/

/-- One request on its own: the SELECT, the body applied, the UPDATE.
mirrors backend/src/routes/employees.rs:186-237 -/
def update (selectUp updateUp : Bool) (db : Database K) (id : ℤ) (body : UpdateEmployee) :
    Except HttpError (EmployeeRow × Database K) := do
  let emp ← fetch selectUp db id
  let emp ← body.apply emp
  save updateUp db id emp

/-- The backend reads what the page sent. -/
theorem ofJson_toJson (dto : UpdateEmployeeDto) :
    UpdateEmployee.ofJson (dto.toJson : Json K) = .ok ⟨dto.name, dto.shift.map some⟩ := by
  obtain ⟨name, shift⟩ := dto
  cases name <;> cases shift <;> rfl

variable {db : Database K} {emp : EmployeeRow} {body : UpdateEmployee} {form : EditForm}

theorem apply_eq_ok (hname : ∀ n ∈ body.name, trim n ≠ "") :
    body.apply emp = .ok (body.applied emp) := by
  obtain ⟨name, shift⟩ := body
  cases name with
  | none => cases shift <;> rfl
  | some n =>
    have hn : (trim n).isEmpty = false := by
      simpa [String.isEmpty_iff] using hname n rfl
    unfold UpdateEmployee.apply UpdateEmployee.applied
    simp only [hn]
    cases shift <;> rfl

theorem name_ne_empty_of_apply {emp' : EmployeeRow} (h : body.apply emp = .ok emp') :
    ∀ n ∈ body.name, trim n ≠ "" := by
  intro n hn hempty
  have hb : body.name = some n := hn
  unfold UpdateEmployee.apply at h
  simp [hb, hempty] at h

theorem find_of_mem (h : emp ∈ db.employees.rows) : db.employees.find emp.id = some emp :=
  Table.mem_rows_iff.mp h

/-- A PATCH that succeeds leaves the row with the body applied. -/
theorem update_ok (hemp : emp ∈ db.employees.rows) {selectUp updateUp : Bool} {row : EmployeeRow}
    {db' : Database K} (h : update selectUp updateUp db emp.id body = .ok (row, db')) :
    row = body.applied emp ∧ db'.employees.find emp.id = some row ∧
      ∀ n ∈ body.name, trim n ≠ "" := by
  unfold update at h
  obtain ⟨found, hfetch, h⟩ := bind_ok.mp h
  obtain ⟨emp', happly, h⟩ := bind_ok.mp h
  have hfound := (fetch_ok hfetch).2
  rw [find_of_mem hemp] at hfound
  cases hfound
  have hname := name_ne_empty_of_apply happly
  obtain rfl := apply_ok happly
  unfold save at h
  rw [find_of_mem hemp] at h
  cases updateUp with
  | false => cases h
  | true =>
    cases h
    refine ⟨?_, ?_, hname⟩
    · simp [EmployeeRow.set, UpdateEmployee.applied]
    · rw [Database.find_updateEmployee, find_of_mem hemp]
      rfl

theorem exists_update (hemp : emp ∈ db.employees.rows) (hname : ∀ n ∈ body.name, trim n ≠ "") :
    ∃ row db', update true true db emp.id body = .ok (row, db') := by
  unfold update fetch save
  simp [find_of_mem hemp, apply_eq_ok hname, bind, Except.bind]

/-! ## Form and record -/

/-- What a save is to do: the record becomes the form, and an empty diff means that it
was the form already. -/
structure SaveMatches (db : Database K) (emp : EmployeeRow) (form : EditForm) : Prop where
  unchanged : onSaveClick ⟨some emp, form, false, false⟩ = .unchanged →
    form.name = emp.name ∧ form.shift = emp.shift
  updated : ∀ payload body selectUp updateUp row db',
    onSaveClick ⟨some emp, form, false, false⟩ = .update emp.id payload →
    UpdateEmployee.ofJson (payload.toJson : Json K) = .ok body →
    update selectUp updateUp db emp.id body = .ok (row, db') →
    db'.employees.find emp.id = some row ∧ row.name = trim form.name ∧ row.shift = form.shift

/-- A click on an enabled button. -/
theorem onSaveClick_eq (hvalid : form.valid = true) :
    onSaveClick ⟨some emp, form, false, false⟩ =
      if diff emp form = ⟨none, none⟩ then .unchanged else .update emp.id (diff emp form) := by
  simp [onSaveClick, hvalid]

theorem name_ne_empty (hvalid : form.valid = true) : form.name ≠ "" := by
  simp [EditForm.valid] at hvalid
  exact hvalid.1

/-- The name that results, whether it was sent or not. -/
theorem applied_diff_name (hvalid : form.valid = true) (htrim : Trimmed emp) :
    (UpdateEmployee.applied ⟨(diff emp form).name, (diff emp form).shift.map some⟩ emp).name =
      trim form.name := by
  by_cases hsame : form.name = emp.name
  · simp only [UpdateEmployee.applied, diff, hsame, ne_eq, not_true_eq_false, and_false, if_false]
    exact htrim.symm
  · simp [UpdateEmployee.applied, diff, hsame, name_ne_empty hvalid]

/-- The shift that results is the form's, unless it was to be cleared. -/
theorem applied_diff_shift_iff :
    (UpdateEmployee.applied ⟨(diff emp form).name, (diff emp form).shift.map some⟩ emp).shift =
      form.shift ↔ form.shift = emp.shift ∨ truthy form.shift = true := by
  by_cases hsame : form.shift = emp.shift
  · simp [UpdateEmployee.applied, diff, hsame]
  · cases ht : truthy form.shift with
    | false => simpa [UpdateEmployee.applied, diff, hsame, ht] using fun h => hsame h.symm
    | true =>
      obtain ⟨t, hshift⟩ : ∃ t, form.shift = some t := by
        cases hs : form.shift with
        | none => simp [truthy, hs] at ht
        | some t => exact ⟨t, rfl⟩
      rw [hshift] at hsame ht
      simp [UpdateEmployee.applied, diff, hshift, hsame, ht]

theorem diff_eq_empty (hvalid : form.valid = true) (h : diff emp form = ⟨none, none⟩) :
    form.name = emp.name ∧ (form.shift = emp.shift ∨ truthy form.shift = false) := by
  obtain ⟨hname, hshift⟩ := UpdateEmployeeDto.mk.inj h
  constructor
  · by_contra hne
    simp [name_ne_empty hvalid, hne] at hname
  · by_contra hne
    obtain ⟨hne, ht⟩ := not_or.mp hne
    have htruthy : truthy form.shift = true := by simpa using ht
    rw [if_pos ⟨hne, htruthy⟩] at hshift
    simp [hshift, truthy] at htruthy

/-- A name of white space is no stored name, so it is sent. -/
theorem diff_name_of_refused (hvalid : form.valid = true) (htrim : Trimmed emp)
    (h : trim form.name = "") : (diff emp form).name = some form.name := by
  refine if_pos ⟨name_ne_empty hvalid, fun hsame => name_ne_empty hvalid ?_⟩
  rw [← h, hsame]
  exact htrim.symm

/-- A form that clears a shift and has a name does not become the record: nothing is sent, or
the request leaves the old shift. -/
theorem not_saveMatches (hemp : emp ∈ db.employees.rows) (hvalid : form.valid = true)
    (hcleared : ¬ (form.shift = emp.shift ∨ truthy form.shift = true))
    (hname : trim form.name ≠ "") : ¬ SaveMatches db emp form := by
  intro h
  have hclick : onSaveClick ⟨some emp, form, false, false⟩ = _ := onSaveClick_eq hvalid
  by_cases hempty : diff emp form = ⟨none, none⟩
  · rw [if_pos hempty] at hclick
    exact hcleared (Or.inl (h.unchanged hclick).2)
  · rw [if_neg hempty] at hclick
    -- the name is sent and accepted, and the old shift stays
    have hsent : ∀ n ∈ (diff emp form).name, trim n ≠ "" := by
      intro n hn
      obtain ⟨-, heq⟩ := Option.ite_none_right_eq_some.mp hn
      cases heq
      exact hname
    let body : UpdateEmployee := ⟨(diff emp form).name, (diff emp form).shift.map some⟩
    obtain ⟨row, db', hupdate⟩ : ∃ row db', update true true db emp.id body = .ok (row, db') :=
      exists_update hemp hsent
    obtain ⟨-, -, hshift⟩ := h.updated _ _ _ _ _ _ hclick (ofJson_toJson _) hupdate
    rw [(update_ok hemp hupdate).1, applied_diff_shift_iff] at hshift
    exact hcleared hshift

theorem saveMatches (hemp : emp ∈ db.employees.rows) (htrim : Trimmed emp)
    (hvalid : form.valid = true)
    (hcond : form.shift = emp.shift ∨ truthy form.shift = true ∨ trim form.name = "") :
    SaveMatches db emp form := by
  have hclick : onSaveClick ⟨some emp, form, false, false⟩ = _ := onSaveClick_eq hvalid
  refine ⟨fun hunchanged => ?_, ?_⟩
  · by_cases hempty : diff emp form = ⟨none, none⟩
    · obtain ⟨hname, hshift⟩ := diff_eq_empty hvalid hempty
      refine ⟨hname, ?_⟩
      rcases hcond with hsame | htruthy | hrefused
      · exact hsame
      · exact hshift.resolve_right (by simp [htruthy])
      · have hsent := diff_name_of_refused hvalid htrim hrefused
        rw [hempty] at hsent
        cases hsent
    · rw [hclick, if_neg hempty] at hunchanged
      cases hunchanged
  · intro payload body selectUp updateUp row db' hsent hbody hupdate
    by_cases hempty : diff emp form = ⟨none, none⟩
    · rw [hclick, if_pos hempty] at hsent
      cases hsent
    · rw [hclick, if_neg hempty] at hsent
      cases hsent
      rw [ofJson_toJson] at hbody
      cases hbody
      obtain ⟨rfl, hfind, haccepted⟩ := update_ok hemp hupdate
      refine ⟨hfind, applied_diff_name hvalid htrim, applied_diff_shift_iff.mpr ?_⟩
      rw [← or_assoc] at hcond
      refine hcond.resolve_right fun hrefused => ?_
      exact haccepted form.name (diff_name_of_refused hvalid htrim hrefused) hrefused

/-- **Saving.** The record becomes the form exactly if the form's shift is the stored one
or not empty, or the name is refused. -/
theorem save_iff {s : State K} {ls : List Label} (hr : (system K).Run .empty ls s)
    (hemp : emp ∈ s.db.employees.rows) (hvalid : form.valid = true) :
    SaveMatches s.db emp form ↔
      form.shift = emp.shift ∨ truthy form.shift = true ∨ trim form.name = "" := by
  refine ⟨fun h => ?_, saveMatches hemp (trimmed_of_run hr emp hemp) hvalid⟩
  by_contra hno
  obtain ⟨hcleared, hname⟩ : ¬ (form.shift = emp.shift ∨ truthy form.shift = true) ∧
      trim form.name ≠ "" := by
    rwa [← or_assoc, not_or] at hno
  exact not_saveMatches hemp hvalid hcleared hname h

/-! ## One employee -/

def ana : EmployeeRow := ⟨1, "Ana", some "manhã"⟩

/-- The database after "Ana" was created. -/
theorem run_ana : ∃ s : State ℚ, (system ℚ).Run .empty [.create "Ana" (some "manhã") 0] s ∧
    s.db.employees.rows = [ana] :=
  ⟨_, .single rfl, by decide +kernel⟩

/-- A new name and another shift. -/
theorem save_iff_renamed : ∃ s : State ℚ, ana ∈ s.db.employees.rows ∧
    SaveMatches s.db ana ⟨"Ana Lima ", some "noite"⟩ := by
  obtain ⟨s, hr, hrows⟩ := run_ana
  have hana : ana ∈ s.db.employees.rows := by simp [hrows]
  exact ⟨s, hana, (save_iff hr hana (by decide)).mpr (Or.inr (Or.inl (by decide)))⟩

/-- "Sem turno" is chosen and saved: no request is made, with a new name one without the
shift, and the shift stays. -/
theorem shift_not_cleared : ∃ s : State ℚ,
    (∃ ls, (system ℚ).Run .empty ls s) ∧ ana ∈ s.db.employees.rows ∧
    EditForm.valid ⟨"Ana", none⟩ = true ∧
    onSaveClick ⟨some ana, ⟨"Ana", none⟩, false, false⟩ = .unchanged ∧
    onSaveClick ⟨some ana, ⟨"Ana Lima", none⟩, false, false⟩ =
      .update 1 ⟨some "Ana Lima", none⟩ ∧
    ¬ SaveMatches s.db ana ⟨"Ana", none⟩ := by
  obtain ⟨s, hr, hrows⟩ := run_ana
  refine ⟨s, ⟨_, hr⟩, by simp [hrows], by decide, by decide, by decide, fun h => ?_⟩
  have hsame := (h.unchanged (by decide)).2
  cases hsame

end FaceGate.L5.EmployeeEdit
