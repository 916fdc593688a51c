import Mathlib.Data.List.Basic

/-!
# CSV files

Records of fields as RFC 4180 has them, for any separator and with CR LF or LF alone at
the end of a record. A field that is quoted may hold anything, a quote written twice; one
that is not may hold neither a quote, the separator, nor CR or LF. `parse` refuses
everything else.

`escape` quotes exactly the fields that need it. `parse_encode`, `parse_encodeLines`: what
is written is read back, field by field.
-/
namespace Core.Csv

abbrev Field := List Char

structure Dialect where
  sep : Char
  /-- CR LF ends a record, or LF. -/
  crlf : Bool
  sep_ne : sep ≠ '"' ∧ sep ≠ '\r' ∧ sep ≠ '\n'

namespace Dialect

def eol (d : Dialect) : List Char := if d.crlf then ['\r', '\n'] else ['\n']

theorem comma_ne : ',' ≠ '"' ∧ ',' ≠ '\r' ∧ ',' ≠ '\n' := by decide

/-- A character that only a quoted field may hold. -/
def special (d : Dialect) (c : Char) : Bool := c = d.sep || c = '"' || c = '\r' || c = '\n'

def plain (d : Dialect) (f : Field) : Prop := ∀ c ∈ f, d.special c = false

end Dialect

/-! ## Reading -/

/-- Where the reader is: at the start of a field, within one, after a quote that ends it or
is the first of two, after a CR that ends the record. -/
inductive Mode where
  | start
  | unquoted
  | quoted
  | quote
  | cr
  deriving DecidableEq, Repr

structure Reader where
  rows : List (List Field)
  row : List Field
  field : Field
  mode : Mode
  deriving DecidableEq, Repr

namespace Reader

def begin (rows : List (List Field)) (row : List Field) : Reader := ⟨rows, row, [], .start⟩

def endField (s : Reader) : Reader := begin s.rows (s.row ++ [s.field])

def endRecord (s : Reader) : Reader := begin (s.rows ++ [s.row ++ [s.field]]) []

/-- A character that ends a field. -/
def delimiter (d : Dialect) (s : Reader) (c : Char) : Option Reader :=
  if c = d.sep then some s.endField
  else if c = '\r' ∧ d.crlf then some { s with mode := .cr }
  else if c = '\n' ∧ ¬ d.crlf then some s.endRecord
  else none

def put (s : Reader) (c : Char) (mode : Mode) : Reader :=
  { s with field := s.field ++ [c], mode := mode }

def step (d : Dialect) (s : Reader) (c : Char) : Option Reader :=
  match s.mode with
  | .start =>
    if c = '"' then some { s with mode := .quoted }
    else if d.special c then s.delimiter d c else some (s.put c .unquoted)
  | .unquoted => if d.special c then s.delimiter d c else some (s.put c .unquoted)
  | .quoted => if c = '"' then some { s with mode := .quote } else some (s.put c .quoted)
  | .quote => if c = '"' then some (s.put c .quoted) else s.delimiter d c
  | .cr => if c = '\n' then some s.endRecord else none

def run (d : Dialect) (s : Reader) (text : List Char) : Option Reader := text.foldlM (step d) s

/-- The last record need not be ended. -/
def finish (s : Reader) : Option (List (List Field)) :=
  match s.mode with
  | .start => if s.row = [] then some s.rows else some (s.rows ++ [s.row ++ [s.field]])
  | .unquoted => some (s.rows ++ [s.row ++ [s.field]])
  | .quote => some (s.rows ++ [s.row ++ [s.field]])
  | .quoted => none
  | .cr => none

end Reader

def parse (d : Dialect) (text : List Char) : Option (List (List Field)) :=
  ((Reader.begin [] []).run d text).bind Reader.finish

/-! ## Writing -/

/-- Each quote twice. -/
def double (f : Field) : List Char := f.flatMap fun c => if c = '"' then ['"', '"'] else [c]

def escape (d : Dialect) (f : Field) : List Char :=
  if f.any d.special then '"' :: double f ++ ['"'] else f

def encodeRow (d : Dialect) (row : List Field) : List Char :=
  [d.sep].intercalate (row.map (escape d))

/-- Records with a line break between them. -/
def encode (d : Dialect) (rows : List (List Field)) : List Char :=
  d.eol.intercalate (rows.map (encodeRow d))

/-- Records with a line break after each. -/
def encodeLines (d : Dialect) (rows : List (List Field)) : List Char :=
  rows.flatMap fun row => encodeRow d row ++ d.eol

variable {d : Dialect} {s : Reader} {f : Field} {row : List Field} {rows : List (List Field)}

theorem escape_of_plain (h : d.plain f) : escape d f = f := by
  refine if_neg fun hany => ?_
  obtain ⟨c, hc, hspecial⟩ := List.any_eq_true.mp hany
  rw [h c hc] at hspecial
  cases hspecial

theorem encodeLines_append (d : Dialect) (a b : List (List Field)) :
    encodeLines d (a ++ b) = encodeLines d a ++ encodeLines d b :=
  List.flatMap_append

/-! ## Reading a field -/

namespace Reader

theorem run_append (d : Dialect) (s : Reader) (a b : List Char) :
    s.run d (a ++ b) = (s.run d a).bind fun s' => s'.run d b :=
  List.foldlM_append

theorem run_cons (d : Dialect) (s : Reader) (c : Char) (text : List Char) :
    s.run d (c :: text) = (s.step d c).bind fun s' => s'.run d text :=
  List.foldlM_cons

@[simp] theorem run_nil (d : Dialect) (s : Reader) : s.run d [] = some s := rfl

/-- The reader has a whole field, and waits for what ends it. -/
def Holds (s : Reader) (f : Field) : Prop :=
  s.field = f ∧ (s.mode = .start ∧ f = [] ∨ s.mode = .unquoted ∨ s.mode = .quote)

theorem run_plain (h : d.plain f) (hs : s.mode = .unquoted) :
    s.run d f = some { s with field := s.field ++ f } := by
  induction f generalizing s with
  | nil => simp
  | cons c f ih =>
    have hc := h c List.mem_cons_self
    have hstep : s.step d c = some (s.put c .unquoted) := by simp [step, hs, hc]
    rw [run_cons, hstep, Option.bind_some, ih (fun a ha => h a (List.mem_cons_of_mem _ ha)) rfl]
    simp [put, hs]

theorem run_double (hs : s.mode = .quoted) :
    s.run d (double f) = some { s with field := s.field ++ f } := by
  induction f generalizing s with
  | nil => simp [double]
  | cons c f ih =>
    have hcons : double (c :: f) = (if c = '"' then ['"', '"'] else [c]) ++ double f := rfl
    have hstep : s.run d (if c = '"' then ['"', '"'] else [c]) = some (s.put c .quoted) := by
      by_cases hc : c = '"'
      · simp [hc, run_cons, step, hs, put]
      · simp [hc, run_cons, step, hs]
    rw [hcons, run_append, hstep, Option.bind_some, ih rfl]
    simp [put, hs]

/-- An escaped field is read as the field. -/
theorem run_escape (d : Dialect) (rows : List (List Field)) (row : List Field) (f : Field) :
    ∃ s, (begin rows row).run d (escape d f) = some s ∧ s.rows = rows ∧ s.row = row ∧
      s.Holds f := by
  by_cases hany : f.any d.special = true
  · refine ⟨⟨rows, row, f, .quote⟩, ?_, rfl, rfl, rfl, Or.inr (Or.inr rfl)⟩
    have hopen : (begin rows row).step d '"' = some ⟨rows, row, [], .quoted⟩ := by
      simp [step, begin]
    rw [escape, if_pos hany, List.cons_append, run_cons, hopen, Option.bind_some, run_append,
      run_double rfl]
    simp [run_cons, step]
  · have hplain : d.plain f := by simpa [Dialect.plain] using hany
    rw [escape_of_plain hplain]
    cases f with
    | nil => exact ⟨_, rfl, rfl, rfl, rfl, Or.inl ⟨rfl, rfl⟩⟩
    | cons c f =>
      have hc := hplain c List.mem_cons_self
      have hquote : c ≠ '"' := by
        rintro rfl
        simp [Dialect.special] at hc
      have hstep : (begin rows row).step d c = some ⟨rows, row, [c], .unquoted⟩ := by
        simp [step, begin, hquote, hc, put]
      refine ⟨⟨rows, row, c :: f, .unquoted⟩, ?_, rfl, rfl, rfl, Or.inr (Or.inl rfl)⟩
      rw [run_cons, hstep, Option.bind_some,
        run_plain (fun a ha => hplain a (List.mem_cons_of_mem _ ha)) rfl]
      rfl

theorem Holds.step_special (h : s.Holds f) {c : Char} (hc : d.special c = true) (hq : c ≠ '"') :
    s.step d c = s.delimiter d c := by
  rcases h.2 with ⟨hm, -⟩ | hm | hm
  · simp [step, hm, hc, hq]
  · simp [step, hm, hc]
  · simp [step, hm, hq]

theorem Holds.run_sep (h : s.Holds f) : s.run d [d.sep] = some (begin s.rows (s.row ++ [f])) := by
  have hspecial : d.special d.sep = true := by simp [Dialect.special]
  rw [run_cons, h.step_special hspecial d.sep_ne.1]
  simp [delimiter, endField, h.1]

theorem Holds.run_eol (h : s.Holds f) :
    s.run d d.eol = some (begin (s.rows ++ [s.row ++ [f]]) []) := by
  have hcr : '\r' ≠ d.sep := d.sep_ne.2.1.symm
  have hlf : '\n' ≠ d.sep := d.sep_ne.2.2.symm
  unfold Dialect.eol
  cases hd : d.crlf with
  | true =>
    have hstep : s.step d '\r' = some { s with mode := .cr } := by
      rw [h.step_special (by simp [Dialect.special]) (by decide)]
      simp [delimiter, hcr, hd]
    rw [if_pos rfl, run_cons, hstep, Option.bind_some, run_cons]
    simp [step, endRecord, h.1]
  | false =>
    have hstep : s.step d '\n' = some s.endRecord := by
      rw [h.step_special (by simp [Dialect.special]) (by decide)]
      simp [delimiter, hlf, hd]
    rw [if_neg Bool.false_ne_true, run_cons, hstep, Option.bind_some]
    simp [endRecord, h.1]

/-! ## Reading a record -/

/-- The reader has the fields of a whole record. -/
def HoldsRow (s : Reader) (rows : List (List Field)) (row : List Field) : Prop :=
  s.rows = rows ∧ ∃ f, s.Holds f ∧ s.row ++ [f] = row

theorem run_row (d : Dialect) (rows : List (List Field)) :
    ∀ (before row : List Field), row ≠ [] →
      ∃ s, (begin rows before).run d (encodeRow d row) = some s ∧ s.HoldsRow rows (before ++ row)
  | _, [], h => absurd rfl h
  | before, [f], _ => by
    obtain ⟨s, hrun, hrows, hrow, hf⟩ := run_escape d rows before f
    refine ⟨s, ?_, hrows, f, hf, by rw [hrow]⟩
    rwa [encodeRow, List.map_singleton, List.intercalate_singleton]
  | before, f :: g :: row, _ => by
    obtain ⟨s, hrun, hrows, hrow, hf⟩ := run_escape d rows before f
    obtain ⟨s', hrest, hheld⟩ := run_row d rows (before ++ [f]) (g :: row) (List.cons_ne_nil g row)
    refine ⟨s', ?_, by rwa [List.append_cons]⟩
    have hsplit : encodeRow d (f :: g :: row) =
        escape d f ++ ([d.sep] ++ encodeRow d (g :: row)) := by
      simp only [encodeRow, List.map_cons, List.intercalate_cons_cons, List.append_assoc]
    rw [hsplit, run_append, hrun, Option.bind_some, run_append, hf.run_sep, Option.bind_some, hrows,
      hrow, hrest]

theorem HoldsRow.run_eol (h : s.HoldsRow rows row) :
    s.run d d.eol = some (begin (rows ++ [row]) []) := by
  obtain ⟨hrows, f, hf, hrow⟩ := h
  rw [hf.run_eol, hrows, hrow]

/-- The last record counts even if no line break follows, unless nothing of it is there. -/
theorem HoldsRow.finish (h : s.HoldsRow rows row) (hrow : row ≠ [[]]) :
    s.finish = some (rows ++ [row]) := by
  obtain ⟨hrows, f, hf, rfl⟩ := h
  rcases hf.2 with ⟨hm, rfl⟩ | hm | hm
  · have hne : s.row ≠ [] := by
      intro hnil
      rw [hnil] at hrow
      exact hrow rfl
    simp [Reader.finish, hm, hne, hrows, hf.1]
  · simp [Reader.finish, hm, hrows, hf.1]
  · simp [Reader.finish, hm, hrows, hf.1]

theorem run_line (d : Dialect) (rows : List (List Field)) (hrow : row ≠ []) :
    (begin rows []).run d (encodeRow d row ++ d.eol) = some (begin (rows ++ [row]) []) := by
  obtain ⟨s, hrun, hheld⟩ := run_row d rows [] row hrow
  rw [run_append, hrun, Option.bind_some, hheld.run_eol, List.nil_append]

theorem run_lines (d : Dialect) (before : List (List Field)) (h : ∀ row ∈ rows, row ≠ []) :
    (begin before []).run d (encodeLines d rows) = some (begin (before ++ rows) []) := by
  induction rows generalizing before with
  | nil => simp [encodeLines]
  | cons row rows ih =>
    have hcons : encodeLines d (row :: rows) = (encodeRow d row ++ d.eol) ++ encodeLines d rows :=
      rfl
    rw [hcons, run_append, run_line d before (h row List.mem_cons_self), Option.bind_some,
      ih (before ++ [row]) fun r hr => h r (List.mem_cons_of_mem _ hr), ← List.append_cons]

end Reader

/-! ## Round trips -/

/-- **Records, each with its line break, are read back.** -/
theorem parse_encodeLines (d : Dialect) (h : ∀ row ∈ rows, row ≠ []) :
    parse d (encodeLines d rows) = some rows := by
  unfold parse
  rw [Reader.run_lines d [] h]
  rfl

theorem encodeRow_of_plain (h : ∀ f ∈ row, d.plain f) :
    encodeRow d row = [d.sep].intercalate row := by
  have hescape : row.map (escape d) = row.map id :=
    List.map_congr_left fun f hf => escape_of_plain (h f hf)
  rw [encodeRow, hescape, List.map_id]

/-- Records that were written without a thought of quotes, and needed none. -/
theorem parse_plainLines (h : ∀ row ∈ rows, row ≠ [] ∧ ∀ f ∈ row, d.plain f) :
    parse d (rows.flatMap fun row => [d.sep].intercalate row ++ d.eol) = some rows := by
  have hlines : rows.flatMap (fun row => [d.sep].intercalate row ++ d.eol) = encodeLines d rows :=
    List.flatMap_congr fun row hrow => by rw [encodeRow_of_plain (h row hrow).2]
  rw [hlines, parse_encodeLines d fun row hrow => (h row hrow).1]

theorem encode_concat (d : Dialect) (before : List (List Field)) (row : List Field) :
    encode d (before ++ [row]) = encodeLines d before ++ encodeRow d row := by
  induction before with
  | nil => simp [encode, encodeLines]
  | cons first before ih =>
    have hne : (before ++ [row]).map (encodeRow d) ≠ [] := by simp
    rw [List.cons_append, encode, List.map_cons, List.intercalate_cons_of_ne_nil hne]
    change encodeRow d first ++ d.eol ++ encode d (before ++ [row]) = _
    rw [ih, ← List.append_assoc]
    rfl

/-- **Records with line breaks between them are read back.** -/
theorem parse_encode (d : Dialect) (h : ∀ row ∈ rows, row ≠ [] ∧ row ≠ [[]]) :
    parse d (encode d rows) = some rows := by
  rcases List.eq_nil_or_concat rows with rfl | ⟨before, row, rfl⟩
  · rfl
  · rw [List.concat_eq_append] at h ⊢
    have hlast := h row (by simp)
    obtain ⟨s, hrun, hheld⟩ := Reader.run_row d before [] row hlast.1
    unfold parse
    rw [encode_concat, Reader.run_append,
      Reader.run_lines d [] fun r hr => (h r (List.mem_append_left _ hr)).1, Option.bind_some,
      List.nil_append, hrun]
    exact hheld.finish hlast.2

end Core.Csv
