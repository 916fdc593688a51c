import FaceGate.Core.Csv
import FaceGate.Core.Decimal
import FaceGate.Core.Except
import FaceGate.L3Edge.StageProfiler
import Mathlib.Data.List.ReduceOption

/-!
# The metrics file

Every profiler with one path appends to one file, run after run. The constructor writes the
header if the file could not be opened for reading, that is, if there was none; `record`
writes a row. Writes are not lost here.

* `readMetrics_text`: a reader has the rows back, and what each stage took.
* `wellFormed_iff`: with an absent file the header comes first and once, after any history
  of profilers; a file that is there and empty never gets one.
-/
namespace FaceGate.L3.MetricsCsv

open Core MainLoop StageProfiler

/-! ## The text -/

/-- mirrors edge/src/pipeline/stage_profiler.cpp:75-76 -/
def header : List Char :=
  "cycle,timestamp_ms,capture_us,detect_us,embed_us,match_us,publish_us,total_us\n".toList

/-- mirrors edge/src/pipeline/stage_profiler.cpp:14-20 -/
def writeUs (v : Option ℤ) : List Char := ',' :: v.elim [] intChars

/-- mirrors edge/src/pipeline/stage_profiler.cpp:138-143 -/
def appendCsvRow (cycleIndex : ℕ) (epochMs : ℤ) (sample : CycleSample) (total : ℤ) : List Char :=
  intChars cycleIndex ++ ',' :: intChars epochMs ++ ',' :: intChars sample.capture ++
    writeUs sample.detect ++ writeUs sample.embed ++ writeUs sample.match_ ++
    writeUs sample.publish ++ ',' :: intChars total ++ ['\n']

/-- The summaries go to stderr. -/
def csvText : MetricsOutput → List Char
  | .row cycleIndex epochMs sample total => appendCsvRow cycleIndex epochMs sample total
  | .summary _ _ => []

/-! ## The profilers of a file -/

/-- `file`: none, or its text; the profilers are those of the running process. -/
structure World where
  file : Option (List Char)
  profilers : List StageProfiler

inductive Action where
  | construct (summaryIntervalCycles : ℤ) (opens : Bool)
  | record (i : ℕ) (epochMs : ℤ) (sample : CycleSample)
  | exit

/-- mirrors edge/src/pipeline/stage_profiler.cpp:63-85 -/
def World.construct (csvPath : String) (w : World) (interval : ℤ) (opens : Bool) : World :=
  let p := create csvPath interval opens
  let needsHeader := w.file.isNone
  { file := if p.csvOpen then some (w.file.getD [] ++ if needsHeader then header else [])
      else w.file
    profilers := w.profilers ++ [p] }

def World.record (w : World) (i : ℕ) (epochMs : ℤ) (sample : CycleSample) : World :=
  match w.profilers[i]? with
  | none => w
  | some p =>
    let (p', outputs) := p.record epochMs sample
    { file := w.file.map (· ++ outputs.flatMap csvText), profilers := w.profilers.set i p' }

def World.step (csvPath : String) (w : World) : Action → World
  | .construct interval opens => w.construct csvPath interval opens
  | .record i epochMs sample => w.record i epochMs sample
  | .exit => { w with profilers := [] }

def World.run (csvPath : String) (w : World) (actions : List Action) : World :=
  actions.foldl (World.step csvPath) w

/-! ## What is to be in the file -/

structure LogRow where
  cycle : ℕ
  epochMs : ℤ
  sample : CycleSample
  deriving DecidableEq, Repr

/-- The stages that ran. -/
def stages (sample : CycleSample) : List ℤ :=
  sample.capture :: [sample.detect, sample.embed, sample.match_, sample.publish].reduceOption

/-- For each profiler of the process whether it logs, and its cycles so far; the rows. -/
structure Ledger where
  cycles : List (Bool × ℕ)
  rows : List LogRow

def Ledger.step (csvPath : String) (l : Ledger) : Action → Ledger
  | .construct _ opens => { l with cycles := l.cycles ++ [(csvPath ≠ "" && opens, 0)] }
  | .record i epochMs sample =>
    match l.cycles[i]? with
    | none => l
    | some (logs, n) =>
      { cycles := l.cycles.set i (logs, n + 1)
        rows := l.rows ++ if logs then [⟨n + 1, epochMs, sample⟩] else [] }
  | .exit => { l with cycles := [] }

def Ledger.run (csvPath : String) (l : Ledger) (actions : List Action) : Ledger :=
  actions.foldl (Ledger.step csvPath) l

/-- `,` between the cells and LF after a row. -/
def dialect : Csv.Dialect := ⟨',', false, Csv.Dialect.comma_ne⟩

def headerCells : List Csv.Field :=
  ["cycle", "timestamp_ms", "capture_us", "detect_us", "embed_us", "match_us", "publish_us",
    "total_us"].map String.toList

/-- An empty cell: the stage did not run. -/
def readStage (cell : Csv.Field) : Option (Option ℤ) :=
  if cell = [] then some none else (readInt cell).map some

/-- Eight cells, with what they say. -/
def readRow : List Csv.Field → Option (LogRow × ℤ)
  | [cycle, epochMs, capture, detect, embed, match_, publish, total] => do
    let sample : CycleSample := ⟨← readInt capture, ← readStage detect, ← readStage embed,
      ← readStage match_, ← readStage publish⟩
    return (⟨← readNat cycle, ← readInt epochMs, sample⟩, ← readInt total)
  | _ => none

/-- The header, and the rows after it. -/
def readMetrics (text : List Char) : Option (List (LogRow × ℤ)) :=
  match Csv.parse dialect text with
  | some (first :: rows) => if first = headerCells then rows.mapM readRow else none
  | _ => none

/-- The file has the header and the rows, each with the sum of its stages. -/
def WellFormed (file : Option (List Char)) (rows : List LogRow) : Prop :=
  ∃ text, file = some text ∧ readMetrics text = some (rows.map fun r => (r, (stages r.sample).sum))

/-! ## Reading it back -/

theorem sum_reduceOption (l : List (Option ℤ)) :
    l.reduceOption.sum = (l.map fun v => v.getD 0).sum := by
  induction l with
  | nil => rfl
  | cons v l ih =>
    cases v with
    | none => simpa using ih
    | some n => simpa using ih

/-- A stage that did not run adds nothing. -/
theorem totalUs_eq (sample : CycleSample) : totalUs sample = (stages sample).sum := by
  rw [stages, List.sum_cons, sum_reduceOption]
  simp [totalUs, add_assoc]

def stageCell (v : Option ℤ) : Csv.Field := v.elim [] intChars

def cells (r : LogRow) : List Csv.Field :=
  [intChars r.cycle, intChars r.epochMs, intChars r.sample.capture, stageCell r.sample.detect,
    stageCell r.sample.embed, stageCell r.sample.match_, stageCell r.sample.publish,
    intChars (totalUs r.sample)]

theorem plain_intChars (n : ℤ) : dialect.plain (intChars n) := by
  intro c hc
  rcases mem_intChars hc with rfl | hdigit
  · rfl
  · rw [Char.isDigit_iff_toNat] at hdigit
    have hne : ∀ a : Char, a.toNat < '0'.toNat → c ≠ a := by
      rintro a ha rfl
      omega
    simp [Csv.Dialect.special, dialect, hne ',' (by decide), hne '"' (by decide),
      hne '\r' (by decide), hne '\n' (by decide)]

theorem plain_stageCell (v : Option ℤ) : dialect.plain (stageCell v) := by
  cases v with
  | none => simp [stageCell, Csv.Dialect.plain]
  | some n => exact plain_intChars n

theorem plain_cells (r : LogRow) : ∀ f ∈ cells r, dialect.plain f := by
  simp [cells, plain_intChars, plain_stageCell]

/-- No cell needs quotes. -/
theorem appendCsvRow_eq (r : LogRow) :
    appendCsvRow r.cycle r.epochMs r.sample (totalUs r.sample) =
      Csv.encodeRow dialect (cells r) ++ dialect.eol := by
  have hescape : (cells r).map (Csv.escape dialect) = (cells r).map id :=
    List.map_congr_left fun f hf => Csv.escape_of_plain (plain_cells r f hf)
  rw [Csv.encodeRow, hescape, List.map_id]
  simp [appendCsvRow, writeUs, cells, stageCell, List.intercalate, dialect, Csv.Dialect.eol]

theorem header_eq : header = Csv.encodeRow dialect headerCells ++ dialect.eol := by decide

/-- The rows of the file. -/
def rowsText (rows : List LogRow) : List Char :=
  rows.flatMap fun r => appendCsvRow r.cycle r.epochMs r.sample (totalUs r.sample)

theorem rowsText_append (a b : List LogRow) : rowsText (a ++ b) = rowsText a ++ rowsText b :=
  List.flatMap_append

theorem rowsText_eq (rows : List LogRow) :
    rowsText rows = Csv.encodeLines dialect (rows.map cells) := by
  unfold rowsText Csv.encodeLines
  rw [List.flatMap_map]
  exact congrArg (fun f => List.flatMap f rows) (funext appendCsvRow_eq)

theorem readStage_stageCell (v : Option ℤ) : readStage (stageCell v) = some v := by
  cases v with
  | none => rfl
  | some n =>
    change readStage (intChars n) = some (some n)
    rw [readStage, if_neg (intChars_ne_nil n), readInt_intChars, Option.map_some]

theorem readRow_cells (r : LogRow) : readRow (cells r) = some (r, (stages r.sample).sum) := by
  have hcycle : readNat (intChars r.cycle) = some r.cycle := by
    rw [intChars_eq, if_pos (Int.natCast_nonneg r.cycle), Int.toNat_natCast, readNat_toDigits]
  simp [readRow, cells, hcycle, readInt_intChars, readStage_stageCell, totalUs_eq]

theorem parse_rowsText (first : List (List Csv.Field)) (hfirst : ∀ row ∈ first, row ≠ [])
    (rows : List LogRow) :
    Csv.parse dialect (Csv.encodeLines dialect first ++ rowsText rows) =
      some (first ++ rows.map cells) := by
  rw [rowsText_eq, ← Csv.encodeLines_append]
  refine Csv.parse_encodeLines dialect fun row hrow => ?_
  rcases List.mem_append.mp hrow with hrow | hrow
  · exact hfirst row hrow
  · obtain ⟨r, -, rfl⟩ := List.mem_map.mp hrow
    exact List.cons_ne_nil _ _

/-- **A file with its header is read back.** -/
theorem readMetrics_text (rows : List LogRow) :
    readMetrics (header ++ rowsText rows) =
      some (rows.map fun r => (r, (stages r.sample).sum)) := by
  have hheader : header = Csv.encodeLines dialect [headerCells] := by
    rw [header_eq, Csv.encodeLines, List.flatMap_singleton]
  have hparse := parse_rowsText [headerCells] (by decide) rows
  rw [← hheader] at hparse
  have hrows : (rows.map cells).mapM readRow =
      some (rows.map fun r => (r, (stages r.sample).sum)) := by
    rw [mapM_eq_some, List.map_map, List.map_map]
    exact List.map_congr_left fun r _ => readRow_cells r
  simp only [readMetrics, hparse, List.cons_append, List.nil_append, if_true, hrows]

/-- A row is not the header. -/
theorem cells_ne_header (r : LogRow) : cells r ≠ headerCells := by
  intro heq
  have hc : 'c' ∈ intChars r.cycle := by
    rw [(List.cons.inj heq).1]
    decide
  exact absurd (mem_intChars hc) (by decide)

theorem readMetrics_without (rows : List LogRow) : readMetrics (rowsText rows) = none := by
  have hparse : Csv.parse dialect (rowsText rows) = some (rows.map cells) :=
    parse_rowsText [] (by simp) rows
  unfold readMetrics
  rw [hparse]
  cases rows with
  | nil => rfl
  | cons r rows => exact if_neg (cells_ne_header r)

/-! ## Histories -/

/-- A profiler as the ledger has it. -/
def track (p : StageProfiler) : Bool × ℕ := (p.csvOpen, p.cycleIndex)

theorem track_record (p : StageProfiler) (epochMs : ℤ) (sample : CycleSample) :
    track (p.record epochMs sample).1 = (p.csvOpen, p.cycleIndex + 1) := by
  rw [record_fst]
  split <;> rfl

/-- A profiler that logs writes the row of its cycle. -/
theorem csvText_record (p : StageProfiler) (epochMs : ℤ) (sample : CycleSample) :
    (p.record epochMs sample).2.flatMap csvText =
      rowsText (if p.csvOpen then [⟨p.cycleIndex + 1, epochMs, sample⟩] else []) := by
  have hrows : (if p.csvOpen then
        [MetricsOutput.row (p.cycleIndex + 1) epochMs sample (totalUs sample)] else []).flatMap
          csvText = rowsText (if p.csvOpen then [⟨p.cycleIndex + 1, epochMs, sample⟩] else []) := by
    cases p.csvOpen <;> rfl
  rw [← hrows]
  unfold StageProfiler.record
  dsimp only
  split
  · rw [List.flatMap_append]
    exact List.append_nil _
  · rfl

/-- The file is what it began with and the rows, or absent until a profiler opens it. -/
structure Inv (start : List Char) (w : World) (l : Ledger) : Prop where
  cycles : w.profilers.map track = l.cycles
  file : w.file = some (start ++ rowsText l.rows) ∨
    w.file = none ∧ start = header ∧ l.rows = [] ∧ ∀ p ∈ w.profilers, p.csvOpen = false

variable {csvPath : String} {start : List Char} {w : World} {l : Ledger}

theorem inv_construct (h : Inv start w l) (interval : ℤ) (opens : Bool) :
    Inv start (w.construct csvPath interval opens)
      (l.step csvPath (.construct interval opens)) := by
  refine ⟨?_, ?_⟩
  · simp only [World.construct, List.map_append, h.cycles]
    rfl
  · simp only [World.construct]
    rcases h.file with hfile | ⟨hfile, rfl, hrows, hclosed⟩
    · left
      rw [hfile]
      simp [Ledger.step]
    · rw [hfile]
      cases hopen : (create csvPath interval opens).csvOpen with
      | true =>
        left
        simp [Ledger.step, hrows, rowsText]
      | false =>
        refine Or.inr ⟨rfl, rfl, hrows, fun p hp => ?_⟩
        rcases List.mem_append.mp hp with hp | hp
        · exact hclosed p hp
        · rw [List.mem_singleton.mp hp]
          exact hopen

theorem World.record_eq {i : ℕ} {p : StageProfiler} (hp : w.profilers[i]? = some p) (epochMs : ℤ)
    (sample : CycleSample) : w.record i epochMs sample =
      { file := w.file.map
          (· ++ rowsText (if p.csvOpen then [⟨p.cycleIndex + 1, epochMs, sample⟩] else []))
        profilers := w.profilers.set i (p.record epochMs sample).1 } := by
  simp only [World.record, hp, csvText_record]

theorem Ledger.record_eq {i n : ℕ} {logs : Bool} (hi : l.cycles[i]? = some (logs, n))
    (epochMs : ℤ) (sample : CycleSample) : l.step csvPath (.record i epochMs sample) =
      { cycles := l.cycles.set i (logs, n + 1)
        rows := l.rows ++ if logs then [⟨n + 1, epochMs, sample⟩] else [] } := by
  simp only [Ledger.step, hi]

theorem inv_record (h : Inv start w l) (i : ℕ) (epochMs : ℤ) (sample : CycleSample) :
    Inv start (w.record i epochMs sample) (l.step csvPath (.record i epochMs sample)) := by
  have hget : l.cycles[i]? = w.profilers[i]?.map track := by
    rw [← h.cycles, List.getElem?_map]
  cases hp : w.profilers[i]? with
  | none =>
    rw [hp, Option.map_none] at hget
    simpa only [World.record, Ledger.step, hp, hget] using h
  | some p =>
    rw [hp] at hget
    rw [World.record_eq hp, Ledger.record_eq hget]
    refine ⟨?_, ?_⟩
    · rw [List.map_set, track_record, h.cycles]
    · rcases h.file with hfile | ⟨hfile, hstart, hrows, hclosed⟩
      · left
        rw [hfile, Option.map_some, List.append_assoc, rowsText_append]
      · have hnot := hclosed p (List.mem_of_getElem? hp)
        refine Or.inr ⟨by rw [hfile, Option.map_none], hstart, by simp [hnot, hrows], ?_⟩
        intro q hq
        rcases List.mem_or_eq_of_mem_set hq with hq | rfl
        · exact hclosed q hq
        · exact (congrArg Prod.fst (track_record p epochMs sample)).trans hnot

theorem inv_step (h : Inv start w l) (a : Action) :
    Inv start (w.step csvPath a) (l.step csvPath a) := by
  cases a with
  | construct interval opens => exact inv_construct h interval opens
  | record i epochMs sample => exact inv_record h i epochMs sample
  | exit =>
    refine ⟨rfl, h.file.imp_right ?_⟩
    rintro ⟨hfile, hstart, hrows, -⟩
    exact ⟨hfile, hstart, hrows, fun _ hp => absurd hp List.not_mem_nil⟩

theorem inv_run (h : Inv start w l) (actions : List Action) :
    Inv start (w.run csvPath actions) (l.run csvPath actions) := by
  induction actions generalizing w l with
  | nil => exact h
  | cons a actions ih => exact ih (inv_step h a)

theorem inv_absent : Inv header ⟨none, []⟩ ⟨[], []⟩ where
  cycles := rfl
  file := Or.inr ⟨rfl, rfl, rfl, fun _ hp => absurd hp List.not_mem_nil⟩

theorem inv_empty : Inv [] ⟨some [], []⟩ ⟨[], []⟩ where
  cycles := rfl
  file := Or.inl rfl

/-- A profiler that can write to the file. -/
def Action.Opens (csvPath : String) : Action → Prop
  | .construct _ opens => csvPath ≠ "" ∧ opens = true
  | _ => False

theorem isSome_step {a : Action} (h : w.file.isSome = true ∨ a.Opens csvPath) :
    (w.step csvPath a).file.isSome = true := by
  cases a with
  | construct interval opens =>
    cases hopen : (create csvPath interval opens).csvOpen with
    | true => simp [World.step, World.construct, hopen]
    | false =>
      simp only [World.step, World.construct, hopen]
      refine h.resolve_right fun ⟨hpath, hopens⟩ => ?_
      simp [create, hpath, hopens] at hopen
  | record i epochMs sample =>
    simp only [World.step, World.record]
    split
    · exact h.resolve_right id
    · simpa using h.resolve_right id
  | exit => exact h.resolve_right id

/-- Once opened the file is there. -/
theorem isSome_run {actions : List Action}
    (h : w.file.isSome = true ∨ ∃ a ∈ actions, a.Opens csvPath) :
    (w.run csvPath actions).file.isSome = true := by
  induction actions generalizing w with
  | nil => exact h.resolve_right fun ⟨_, ha, _⟩ => absurd ha List.not_mem_nil
  | cons a actions ih =>
    refine ih ?_
    rcases h with hfile | ⟨b, hb, hopens⟩
    · exact Or.inl (isSome_step (Or.inl hfile))
    · rcases List.mem_cons.mp hb with rfl | hb
      · exact Or.inl (isSome_step (Or.inr hopens))
      · exact Or.inr ⟨b, hb, hopens⟩

theorem Inv.wellFormed (h : Inv header w l) (hfile : w.file.isSome = true) :
    WellFormed w.file l.rows := by
  rcases h.file with htext | ⟨hnone, -⟩
  · exact ⟨_, htext, readMetrics_text l.rows⟩
  · rw [hnone] at hfile
    cases hfile

theorem Inv.not_wellFormed (h : Inv [] w l) : ¬ WellFormed w.file l.rows := by
  rintro ⟨text, htext, hread⟩
  rcases h.file with hfile | ⟨hnone, -⟩
  · obtain rfl : rowsText l.rows = text := Option.some.inj (hfile.symm.trans htext)
    rw [readMetrics_without] at hread
    cases hread
  · rw [hnone] at htext
    cases htext

/-- **The header.** Over any history of profilers, of one process after the other, that begins
with an absent or an empty file, the file has its header and the rows exactly if it was absent. -/
theorem wellFormed_iff {file : Option (List Char)} {actions : List Action}
    (hfile : file = none ∨ file = some []) (hopens : ∃ a ∈ actions, a.Opens csvPath) :
    WellFormed (World.run csvPath ⟨file, []⟩ actions).file
        (Ledger.run csvPath ⟨[], []⟩ actions).rows ↔ file = none := by
  rcases hfile with rfl | rfl
  · exact iff_of_true ((inv_run inv_absent actions).wellFormed (isSome_run (Or.inr hopens))) rfl
  · exact iff_of_false (inv_run inv_empty actions).not_wellFormed (Option.some_ne_none _)

/-- Two runs of one cycle each. -/
def twoRuns : List Action :=
  [.construct 0 true, .record 0 1780000000000 emptyFrame, .exit, .construct 300 true,
    .record 0 1780000060000 emptyFrame]

theorem wellFormed_twoRuns :
    WellFormed (World.run "metrics.csv" ⟨none, []⟩ twoRuns).file
      (Ledger.run "metrics.csv" ⟨[], []⟩ twoRuns).rows :=
  (@wellFormed_iff "metrics.csv" none twoRuns (Or.inl rfl)
    ⟨_, List.mem_cons_self, by decide, rfl⟩).mpr rfl

/-- `touch metrics.csv`: the file of the two runs has no header. -/
theorem not_wellFormed_touched :
    ¬ WellFormed (World.run "metrics.csv" ⟨some [], []⟩ twoRuns).file
      (Ledger.run "metrics.csv" ⟨[], []⟩ twoRuns).rows :=
  (inv_run inv_empty twoRuns).not_wellFormed

end FaceGate.L3.MetricsCsv
