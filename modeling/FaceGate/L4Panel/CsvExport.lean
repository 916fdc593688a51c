import FaceGate.Core.Calendar
import FaceGate.Core.Csv
import FaceGate.Core.Except
import FaceGate.L4Backend.Analytics
import FaceGate.L4Backend.Events

/-!
# The CSV files of the panel

Two pages write access events to a file: the dashboard for spreadsheets set to Brazilian
Portuguese (`;`, a decimal comma, a BOM, local time), the reports page with `,` and times
in UTC. Both quote by hand what RFC 4180 wants quoted.

* `csv_round_trip`: a reader for the separator has the cells back, whatever the names.
* `export_complete_iff`: the reports page asks for 1000 events and the endpoint gives 200;
  the file is complete exactly if there are no more, all at times a `Date` can hold.
-/
namespace FaceGate.L4.CsvExport

open Core Core.Calendar Core.Keyed Core.Paging FaceGate.L4.Analytics FaceGate.L4.Events

variable {K : Type}

/-! ## Numbers and times -/

/-- How JavaScript prints a double. -/
structure JsNumber (K : Type) where
  toStr : Flt K → String
  toFixed4 : Flt K → String

def padStart (n : ℕ) (s : String) : String := .ofList (s.toList.leftpad n '0')

/-- What the getters of a `Date` give, `month` counted from 0. -/
structure DateParts where
  year : ℤ
  month : ℤ
  date : ℤ
  hours : ℤ
  minutes : ℤ
  seconds : ℤ
  milliseconds : ℤ
  deriving DecidableEq, Repr

def dateParts (localMs : ℤ) : DateParts :=
  let c := civil (localMs / dayMs)
  let t := localMs % dayMs
  ⟨c.year, c.month - 1, c.day, t / hourMs, t / 60000 % 60, t / 1000 % 60, t % 1000⟩

/-- A getter of `new Date(ms)`, printed; those of an invalid date give NaN. -/
def getter (zone : Zone) (ms : ℤ) (part : DateParts → ℤ) : String :=
  match timeClip ms with
  | some ms => toString (part (dateParts (zone ms)))
  | none => "NaN"

/-- mirrors panel/src/app/dashboard/dashboard.page.ts:604-611 -/
def fmtDate (zone : Zone) (ms : ℤ) : String :=
  let pad (part : DateParts → ℤ) := padStart 2 (getter zone ms part)
  getter zone ms DateParts.year ++ "-" ++ pad (fun d => d.month + 1) ++ "-" ++
    pad DateParts.date ++ " " ++ pad DateParts.hours ++ ":" ++ pad DateParts.minutes ++ ":" ++
    pad DateParts.seconds

/-- A year of four digits, or a sign and six. -/
def isoYear (year : ℤ) : String :=
  if 0 ≤ year ∧ year ≤ 9999 then padStart 4 (toString year)
  else (if year < 0 then "-" else "+") ++ padStart 6 (toString year.natAbs)

/-- `toISOString`, which throws a RangeError for an invalid date. -/
def toISOString (ms : ℤ) : Option String :=
  (timeClip ms).map fun ms =>
    let d := dateParts ms
    isoYear d.year ++ "-" ++ padStart 2 (toString (d.month + 1)) ++ "-" ++
      padStart 2 (toString d.date) ++ "T" ++ padStart 2 (toString d.hours) ++ ":" ++
      padStart 2 (toString d.minutes) ++ ":" ++ padStart 2 (toString d.seconds) ++ "." ++
      padStart 3 (toString d.milliseconds) ++ "Z"

/-- `replace('.', ',')`: the first one. -/
def decimalComma (s : String) : String :=
  .ofList (s.toList.takeWhile (· ≠ '.') ++
    match s.toList.dropWhile (· ≠ '.') with
    | [] => []
    | _ :: rest => ',' :: rest)

/-- mirrors panel/src/app/dashboard/dashboard.page.ts:612-613 -/
def fmtDistance (js : JsNumber K) : Option (Flt K) → String
  | none => ""
  | some v => decimalComma (js.toFixed4 v)

/-! ## The text -/

/-- The two escape functions: quotes around a value that holds a quote, the separator, CR
or LF, and its quotes doubled.
mirrors panel/src/app/dashboard/dashboard.page.ts:614-618,
panel/src/app/features/reports/reports.page.ts:235-242 -/
def escapeWith (sep : Char) (s : String) : String :=
  if s.toList.any fun c => c = '"' || c = sep || c = '\r' || c = '\n' then
    .ofList ('"' :: (s.toList.flatMap fun c => if c = '"' then ['"', '"'] else [c]) ++ ['"'])
  else s

def csvText (sep : Char) (rows : List (List String)) : String :=
  "\r\n".intercalate (rows.map fun row =>
    (String.singleton sep).intercalate (row.map (escapeWith sep)))

namespace Dashboard

/-- mirrors panel/src/app/dashboard/dashboard.page.ts:620 -/
def header : List String := ["ID", "Funcionário", "Status", "Distância", "Data/Hora"]

/-- mirrors panel/src/app/dashboard/dashboard.page.ts:624-630 -/
def cells (js : JsNumber K) (zone : Zone) (e : EventRow K) : List String :=
  [toString e.id, e.employeeName.getD "Desconhecido", e.status, fmtDistance js e.distance,
    fmtDate zone e.timestampMs]

/-- The content of the file.
mirrors panel/src/app/dashboard/dashboard.page.ts:603,620-636 -/
def downloadEventsCsv (js : JsNumber K) (zone : Zone) (events : List (EventRow K)) : String :=
  "\uFEFF" ++ csvText ';' (header :: events.map (cells js zone))

end Dashboard

namespace Reports

/-- mirrors panel/src/app/features/reports/reports.page.ts:183 -/
def header : List String := ["id", "timestamp", "status", "employee", "distance"]

/-- mirrors panel/src/app/features/reports/reports.page.ts:184-190 -/
def cells (js : JsNumber K) (e : EventRow K) : Option (List String) := do
  let timestamp ← toISOString e.timestampMs
  return [toString e.id, timestamp, e.status, e.employeeName.getD "",
    (e.distance.map js.toStr).getD ""]

/-- The content of the file; `none`: the callback throws.
mirrors panel/src/app/features/reports/reports.page.ts:182-194 -/
def exportCsv (js : JsNumber K) (events : List (EventRow K)) : Option String := do
  let rows ← events.mapM (cells js)
  return csvText ',' (header :: rows)

end Reports

/-! ## Reading it back -/

/-- An RFC 4180 reader for a separator. -/
def readCsv (d : Csv.Dialect) (text : String) : Option (List (List String)) :=
  (Csv.parse d text.toList).map fun rows => rows.map fun row => row.map String.ofList

def semicolon : Csv.Dialect := ⟨';', true, by decide⟩
def comma : Csv.Dialect := ⟨',', true, Csv.Dialect.comma_ne⟩

theorem toList_escapeWith (d : Csv.Dialect) (s : String) :
    (escapeWith d.sep s).toList = Csv.escape d s.toList := by
  have hspecial : (fun c : Char => c = '"' || c = d.sep || c = '\r' || c = '\n') = d.special := by
    funext c
    simp only [Csv.Dialect.special, Bool.or_comm (decide (c = '"'))]
  unfold escapeWith Csv.escape
  rw [hspecial]
  split
  · rw [String.toList_ofList]
    rfl
  · rfl

theorem toList_csvText (d : Csv.Dialect) (hd : d.crlf = true) (rows : List (List String)) :
    (csvText d.sep rows).toList = Csv.encode d (rows.map (List.map String.toList)) := by
  have heol : d.eol = "\r\n".toList := by simp [Csv.Dialect.eol, hd]
  unfold csvText Csv.encode
  rw [String.toList_intercalate, heol, List.map_map, List.map_map]
  congr 1
  refine List.map_congr_left fun row _ => ?_
  simp only [Function.comp_apply, String.toList_intercalate, String.toList_singleton, List.map_map,
    Csv.encodeRow]
  congr 1
  exact List.map_congr_left fun s _ => toList_escapeWith d s

/-- Rows of more than one cell are read back. -/
theorem readCsv_csvText (d : Csv.Dialect) (hd : d.crlf = true) {rows : List (List String)}
    (h : ∀ row ∈ rows, 2 ≤ row.length) : readCsv d (csvText d.sep rows) = some rows := by
  have hrows : ∀ row ∈ rows.map (List.map String.toList), row ≠ [] ∧ row ≠ [[]] := by
    intro row hrow
    obtain ⟨r, hr, rfl⟩ := List.mem_map.mp hrow
    have hlen := h r hr
    constructor
    · intro hnil
      have := congrArg List.length hnil
      simp at this
      simp [this] at hlen
    · intro hsingle
      have := congrArg List.length hsingle
      simp at this
      omega
  rw [readCsv, toList_csvText d hd, Csv.parse_encode d hrows]
  simp [Function.comp_def]

theorem length_cells {js : JsNumber K} {e : EventRow K} {row : List String}
    (h : Reports.cells js e = some row) : row.length = 5 := by
  obtain ⟨timestamp, -, h⟩ := Option.bind_eq_some_iff.mp h
  cases h
  rfl

/-- What `exportCsv` writes is read back. -/
theorem readCsv_exportCsv {js : JsNumber K} {events : List (EventRow K)} {file : String}
    (h : Reports.exportCsv js events = some file) :
    ∃ rows, events.mapM (Reports.cells js) = some rows ∧
      readCsv comma file = some (Reports.header :: rows) := by
  obtain ⟨rows, hrows, h⟩ := Option.bind_eq_some_iff.mp h
  cases h
  refine ⟨rows, hrows, readCsv_csvText comma rfl fun row hrow => ?_⟩
  rcases List.mem_cons.mp hrow with rfl | hrow
  · decide
  · have hmem : some row ∈ events.map (Reports.cells js) := by
      rw [mapM_eq_some.mp hrows]
      exact List.mem_map_of_mem hrow
    obtain ⟨e, -, he⟩ := List.mem_map.mp hmem
    rw [length_cells he]
    decide

theorem isSome_cells (js : JsNumber K) (e : EventRow K) :
    (Reports.cells js e).isSome = (timeClip e.timestampMs).isSome := by
  simp only [Reports.cells, toISOString]
  cases timeClip e.timestampMs <;> rfl

/-- It is written if a `Date` holds every timestamp. -/
theorem isSome_exportCsv (js : JsNumber K) (events : List (EventRow K)) :
    (Reports.exportCsv js events).isSome = true ↔
      ∀ e ∈ events, (timeClip e.timestampMs).isSome = true := by
  have hrows : (Reports.exportCsv js events).isSome = (events.mapM (Reports.cells js)).isSome := by
    unfold Reports.exportCsv
    cases events.mapM (Reports.cells js) <;> rfl
  rw [hrows, isSome_mapM]
  exact forall₂_congr fun e _ => by rw [isSome_cells]

/-- **Round trip.** Both files hold the header and the cells of each event, row by row. The reports
page writes one exactly if every timestamp can be printed. -/
theorem csv_round_trip (js : JsNumber K) (zone : Zone) (events : List (EventRow K)) :
    (∃ text, Dashboard.downloadEventsCsv js zone events = "\uFEFF" ++ text ∧
      readCsv semicolon text = some (Dashboard.header :: events.map (Dashboard.cells js zone))) ∧
    ((Reports.exportCsv js events).isSome = true ↔
      ∀ e ∈ events, (timeClip e.timestampMs).isSome = true) ∧
    ∀ file, Reports.exportCsv js events = some file →
      ∃ rows, events.mapM (Reports.cells js) = some rows ∧
        readCsv comma file = some (Reports.header :: rows) := by
  refine ⟨⟨_, rfl, readCsv_csvText semicolon rfl fun row hrow => ?_⟩, isSome_exportCsv js events,
    fun _ h => readCsv_exportCsv h⟩
  rcases List.mem_cons.mp hrow with rfl | hrow
  · decide
  · obtain ⟨e, -, rfl⟩ := List.mem_map.mp hrow
    simp [Dashboard.cells]

/-! ## The reports page -/

section Reports
variable [LinearOrder K] [BoundedOrder K]

/-- A row as the panel receives it: JSON has no NaN and no infinity. -/
def received (e : EventRow K) : EventRow K :=
  { e with distance := e.distance.filter Flt.isFinite }

/-- mirrors panel/src/app/features/reports/reports.page.ts:181 -/
def reportsQuery : EventsQuery := ⟨none, none, none, none, some 1000, none⟩

/-- "Pull last 1000 events and trigger a CSV download". -/
def HoldsNewest (js : JsNumber K) (db : Database K) (file : Option String) : Prop :=
  ∃ newest rows, IsPage EventRow.timestampMs (matching db reportsQuery) 1000 0 newest ∧
    (newest.map received).mapM (Reports.cells js) = some rows ∧
    file.bind (readCsv comma) = some (Reports.header :: rows)

variable {js : JsNumber K} {db : Database K} {response : List (EventRow K)}

omit [LinearOrder K] [BoundedOrder K] in
theorem length_matching_reports (db : Database K) :
    (matching db reportsQuery).length = db.accessEvents.rows.length := by
  have hall : (reportsQuery.selects : AccessEventRow K → Bool) = fun _ => true := by
    funext e
    simp [EventsQuery.selects, reportsQuery]
  rw [matching, List.length_map, hall, List.filter_true]

omit [LinearOrder K] [BoundedOrder K] in
/-- The endpoint gives 200 rows at most. -/
theorem events_reports (h : events db reportsQuery response) :
    IsPage EventRow.timestampMs (matching db reportsQuery) 200 0 response := h

omit [LinearOrder K] [BoundedOrder K] in
theorem length_isPage {L : ℕ} {page : List (EventRow K)}
    (h : IsPage EventRow.timestampMs (matching db reportsQuery) L 0 page) :
    page.length = min L db.accessEvents.rows.length := by
  obtain ⟨order, horder, rfl⟩ := h
  rw [List.drop_zero, List.length_take, horder.perm.length_eq, length_matching_reports]

omit [LinearOrder K] [BoundedOrder K] in
/-- A page that is long enough is the whole table. -/
theorem isPage_all {L : ℕ} {page : List (EventRow K)} (hL : db.accessEvents.rows.length ≤ L)
    (h : IsPage EventRow.timestampMs (matching db reportsQuery) L 0 page) :
    Answer EventRow.timestampMs (matching db reportsQuery) page := by
  obtain ⟨order, horder, rfl⟩ := h
  have hlen := horder.perm.length_eq
  rw [length_matching_reports] at hlen
  rwa [List.drop_zero, List.take_of_length_le (by omega)]

omit [LinearOrder K] [BoundedOrder K] in
theorem mem_matching_reports {r : EventRow K} :
    r ∈ matching db reportsQuery ↔ ∃ e ∈ db.accessEvents.rows, eventRow db e = r := by
  simp [matching, EventsQuery.selects, reportsQuery]

/-- A complete file has as many rows as the endpoint gives and as were asked for. -/
theorem HoldsNewest.short (h : events db reportsQuery response)
    (hfile : HoldsNewest js db (Reports.exportCsv js (response.map received))) :
    db.accessEvents.rows.length ≤ 200 ∧
      ∀ e ∈ db.accessEvents.rows, (timeClip e.timestampMs).isSome = true := by
  obtain ⟨newest, rows, hnewest, hrows, hfile⟩ := hfile
  obtain ⟨file, hexport, hread⟩ := Option.bind_eq_some_iff.mp hfile
  obtain ⟨rows', hrows', hread'⟩ := readCsv_exportCsv hexport
  obtain rfl : rows = rows' := by
    rw [hread'] at hread
    exact (List.cons.inj (Option.some.inj hread)).2.symm
  have hpage := events_reports h
  have hn : db.accessEvents.rows.length ≤ 200 := by
    have hlen := congrArg List.length (mapM_eq_some.mp hrows)
    have hlen' := congrArg List.length (mapM_eq_some.mp hrows')
    rw [List.length_map, List.length_map, length_isPage hnewest] at hlen
    rw [List.length_map, List.length_map, length_isPage hpage] at hlen'
    simp only [List.length_map] at hlen hlen'
    omega
  refine ⟨hn, fun e he => ?_⟩
  have hmem : eventRow db e ∈ response :=
    (isPage_all hn hpage).perm.mem_iff.mpr (mem_matching_reports.mpr ⟨e, he, rfl⟩)
  have hcells : Reports.cells js (received (eventRow db e)) ∈ rows.map some := by
    rw [← mapM_eq_some.mp hrows', List.map_map]
    exact List.mem_map_of_mem hmem
  obtain ⟨row, -, hrow⟩ := List.mem_map.mp hcells
  have hsome := isSome_cells js (received (eventRow db e))
  rw [← hrow] at hsome
  exact hsome.symm

/-- **Completeness.** The file holds the newest 1000 events exactly if there are no more than
200, each at a time that can be printed. -/
theorem export_complete_iff (js : JsNumber K) (h : events db reportsQuery response) :
    HoldsNewest js db (Reports.exportCsv js (response.map received)) ↔
      db.accessEvents.rows.length ≤ 200 ∧
        ∀ e ∈ db.accessEvents.rows, (timeClip e.timestampMs).isSome = true := by
  refine ⟨fun hfile => hfile.short h, ?_⟩
  rintro ⟨hn, hclip⟩
  have hpage := events_reports h
  have hall := isPage_all hn hpage
  have hvalid : ∀ r ∈ response, (timeClip r.timestampMs).isSome = true := by
    intro r hr
    obtain ⟨e, he, rfl⟩ := mem_matching_reports.mp (hall.perm.mem_iff.mp hr)
    exact hclip e he
  obtain ⟨file, hexport⟩ := Option.isSome_iff_exists.mp
    ((isSome_exportCsv js (response.map received)).mpr (List.forall_mem_map.mpr hvalid))
  obtain ⟨rows, hrows, hread⟩ := readCsv_exportCsv hexport
  have hlen : response.length ≤ 1000 := by
    rw [length_isPage hpage]
    omega
  refine ⟨response, rows, ⟨response, hall, ?_⟩, hrows, ?_⟩
  · rw [List.drop_zero, List.take_of_length_le hlen]
  · rw [hexport, Option.bind_some, hread]

end Reports

/-- Numbers printed as if they were all whole. -/
def plainNumbers : JsNumber ExtRat := ⟨fun _ => "0", fun _ => "0.0000"⟩

/-- A second apart. -/
def everySecond (i : ℕ) : ℤ := 1000 * i

/-- Both of the stranger's two events are exported. -/
theorem export_complete_two : ∃ response : List (EventRow ExtRat),
    events (strangerOnly everySecond 2) reportsQuery response ∧
      HoldsNewest plainNumbers (strangerOnly everySecond 2)
        (Reports.exportCsv plainNumbers (response.map received)) := by
  obtain ⟨response, h⟩ := exists_events (strangerOnly everySecond 2) reportsQuery
  exact ⟨response, h, (export_complete_iff plainNumbers h).mpr ⟨by decide, by decide⟩⟩

/-- Of 201 events the file lacks one. -/
theorem export_incomplete : ∃ response : List (EventRow ExtRat),
    events (strangerOnly everySecond 201) reportsQuery response ∧
      ¬ HoldsNewest plainNumbers (strangerOnly everySecond 201)
        (Reports.exportCsv plainNumbers (response.map received)) := by
  obtain ⟨response, h⟩ := exists_events (strangerOnly everySecond 201) reportsQuery
  refine ⟨response, h, fun hfile => ?_⟩
  have hlen := (hfile.short h).1
  rw [rows_strangerOnly, List.length_map, List.length_range] at hlen
  exact absurd hlen (by decide)

end FaceGate.L4.CsvExport
