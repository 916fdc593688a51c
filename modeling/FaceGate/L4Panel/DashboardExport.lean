import FaceGate.Core.Double
import FaceGate.Core.Newest
import FaceGate.L4Backend.Events

/-!
# The export tab of the dashboard

`submitExport` asks for the granted events employee by employee, each page by page until
`max` rows are there, puts the lists together, sorts them and cuts at the limit. The
pages hold 200 rows, what the endpoint gives at most, the last one fewer; 50 of them are
10000 rows, the largest limit for which the page cap never cuts a list short.

* `export_newest`: over a table that stays as it is and has no two events at one time, the
  rows are the newest of the selection. A time is here what the panel reads: two integers
  beyond 2^53 can be one number.
* `export_older`: the older of two such events is exported instead of the newer.
-/
namespace FaceGate.L4.DashboardExport

open Core Core.Keyed Core.Paging FaceGate.L1 FaceGate.L1.Domain FaceGate.L4.Events

variable {K : Type}

/-- mirrors panel/src/app/dashboard/dashboard.page.ts:60-61 -/
def EXPORT_PAGE_SIZE : ℕ := 200
def EXPORT_MAX_PAGES : ℕ := 50

/-! ## Fetching -/

/-- A request: the rows, or the status of the error. -/
abbrev Fetch (K : Type) := EventsQuery → Except ℕ (List (EventRow K))

/-- The endpoint over a table: every request is answered. -/
def Answers (db : Database K) (fetch : Fetch K) : Prop :=
  ∀ q, ∃ rows, fetch q = .ok rows ∧ events db q rows

/-- The granted events of an employee, or of everyone. -/
def grantedQuery (employeeId fromMs toMs : Option ℤ) : EventsQuery :=
  ⟨employeeId, some "granted", fromMs, toMs, none, none⟩

/-- The loop of `fetchGrantedEvents`, with the pages that are left.
mirrors panel/src/app/dashboard/dashboard.page.ts:575-593 -/
def fetchPages (fetch : Fetch K) (q : EventsQuery) (max : ℕ) :
    ℕ → List (EventRow K) → ℕ → Except ℕ (List (EventRow K))
  | 0, rows, _ => .ok rows
  | pages + 1, rows, offset =>
    if rows.length < max then do
      let pageSize := min EXPORT_PAGE_SIZE (max - rows.length)
      let batch ← fetch { q with limit := some pageSize, offset := some offset }
      if batch = [] then return rows
      else if batch.length < pageSize then return rows ++ batch
      else fetchPages fetch q max pages (rows ++ batch) (offset + batch.length)
    else .ok rows

/-- mirrors panel/src/app/dashboard/dashboard.page.ts:567-595 -/
def fetchGrantedEvents (fetch : Fetch K) (employeeId fromMs toMs : Option ℤ) (max : ℕ) :
    Except ℕ (List (EventRow K)) :=
  fetchPages fetch (grantedQuery employeeId fromMs toMs) max EXPORT_MAX_PAGES [] 0

/-! ## The export -/

/-- mirrors panel/src/app/dashboard/dashboard.page.ts:150-156 -/
structure ExportForm where
  selectedEmployees : List ℤ
  limit : ℕ
  fromMs : Option ℤ
  toMs : Option ℤ
  loading : Bool
  deriving DecidableEq, Repr

/-- Nothing selected: everyone. -/
def ExportForm.targets (form : ExportForm) : List (Option ℤ) :=
  if form.selectedEmployees = [] then [none] else form.selectedEmployees.map some

/-- mirrors panel/src/app/dashboard/dashboard.page.ts:535-544 -/
def collect (fetch : Fetch K) (form : ExportForm) :
    List (Option ℤ) → Except ℕ (List (EventRow K))
  | [] => .ok []
  | empId :: targets => do
    let batch ← fetchGrantedEvents fetch empId form.fromMs form.toMs form.limit
    let others ← collect fetch form targets
    return batch ++ others

/-- The timestamp as `JSON.parse` reads it. -/
def readTimestamp (e : EventRow K) : ℤ := Double.ofInt e.timestampMs

/-- `sort((a, b) => b.timestamp_ms - a.timestamp_ms)`, which is stable. -/
def sortNewest (collected : List (EventRow K)) : List (EventRow K) :=
  collected.mergeSort fun a b => readTimestamp b ≤ readTimestamp a

inductive ExportOutcome (K : Type) where
  | ignored
  | failed (exportError : String)
  | exported (top : List (EventRow K)) (exportSuccess : String)
  deriving DecidableEq

/-- The rows of the file. -/
def ExportOutcome.rows : ExportOutcome K → List (EventRow K)
  | .exported top _ => top
  | _ => []

def ExportForm.invalidPeriod (form : ExportForm) : Bool :=
  form.fromMs.any fun f => form.toMs.any fun t => t < f

/-- mirrors panel/src/app/dashboard/dashboard.page.ts:517-565 -/
def submitExport (fetch : Fetch K) (form : ExportForm) : ExportOutcome K :=
  if form.loading then .ignored
  else if form.invalidPeriod then .failed "O início do período deve ser anterior ao fim."
  else
    match collect fetch form form.targets with
    | .error status =>
      if status = 0 then .failed "Não foi possível conectar ao servidor."
      else .failed "Erro ao exportar eventos. Tente novamente."
    | .ok collected =>
      let top := (sortNewest collected).take form.limit
      if top = [] then .failed "Nenhum evento encontrado para os filtros selecionados."
      else .exported top s!"Exportados {top.length} evento(s)."

/-! ## What is selected -/

/-- A granted event of the period, of a selected employee if any is selected. -/
def ExportForm.selects (form : ExportForm) (e : AccessEventRow K) : Bool :=
  (form.selectedEmployees = [] || e.employeeId.any fun id => id ∈ form.selectedEmployees) &&
    (grantedQuery none form.fromMs form.toMs).selects e

def selection (db : Database K) (form : ExportForm) : List (EventRow K) :=
  (db.accessEvents.rows.filter form.selects).map (eventRow db)

/-! ## One employee -/

section Fetch
variable {db : Database K} {fetch : Fetch K} {q : EventsQuery} {order : List (EventRow K)}

theorem nodup_matching (h : (db.accessEvents.rows.map AccessEventRow.timestampMs).Nodup)
    (q : EventsQuery) : ((matching db q).map EventRow.timestampMs).Nodup := by
  unfold matching
  rw [List.map_map]
  exact h.sublist (List.filter_sublist.map _)

/-- A page within the endpoint's bounds is cut from the one order there is. -/
theorem fetch_page (hfetch : Answers db fetch)
    (hkeys : ((matching db q).map EventRow.timestampMs).Nodup)
    (horder : Answer EventRow.timestampMs (matching db q) order) (L : PageSize) (offset : ℕ) :
    fetch { q with limit := some L.size, offset := some offset } =
      .ok ((order.drop offset).take L.size) := by
  obtain ⟨rows, hok, hrows⟩ := hfetch (q.page L offset)
  obtain ⟨order', h', rfl⟩ := (events_page db q L offset rows).mp hrows
  rw [← h'.unique hkeys horder]
  exact hok

theorem fetchPages_full {rows : List (EventRow K)} {max pages offset : ℕ}
    (h : ¬ rows.length < max) : fetchPages fetch q max (pages + 1) rows offset = .ok rows := by
  rw [fetchPages, if_neg h]

/-- One round of the loop. -/
theorem fetchPages_succ {rows batch : List (EventRow K)} {max pages offset pageSize : ℕ}
    (h : rows.length < max) (hsize : pageSize = min EXPORT_PAGE_SIZE (max - rows.length))
    (hbatch : fetch { q with limit := some pageSize, offset := some offset } = .ok batch) :
    fetchPages fetch q max (pages + 1) rows offset =
      if batch = [] then .ok rows
      else if batch.length < pageSize then .ok (rows ++ batch)
      else fetchPages fetch q max pages (rows ++ batch) (offset + batch.length) := by
  subst hsize
  rw [fetchPages, if_pos h]
  change (fetch _ >>= _) = _
  rw [hbatch]
  rfl

/-- While a page short of the limit is full, the next one goes on where it ended. -/
theorem fetchPages_eq (hfetch : Answers db fetch)
    (hkeys : ((matching db q).map EventRow.timestampMs).Nodup)
    (horder : Answer EventRow.timestampMs (matching db q) order) {max : ℕ} (pages : ℕ) :
    ∀ {rows : List (EventRow K)} {offset : ℕ}, rows = order.take offset → rows.length = offset →
      offset ≤ max → max ≤ offset + EXPORT_PAGE_SIZE * pages →
      fetchPages fetch q max pages rows offset = .ok (order.take max) := by
  induction pages with
  | zero =>
    intro rows offset hrows _ hle hmax
    obtain rfl : offset = max := by omega
    rw [fetchPages, hrows]
  | succ pages ih =>
    intro rows offset hrows hlen hle hmax
    by_cases hfull : rows.length < max
    · let L : PageSize := ⟨min EXPORT_PAGE_SIZE (max - rows.length),
        by simp only [EXPORT_PAGE_SIZE]; omega, min_le_left _ _⟩
      have hroom : offset + L.size ≤ max := by
        have hsize : L.size ≤ max - rows.length := min_le_right _ _
        omega
      have hnext : rows ++ (order.drop offset).take L.size = order.take (offset + L.size) := by
        rw [hrows, List.take_add]
      have hlength : ((order.drop offset).take L.size).length =
          min L.size (order.length - offset) := by
        rw [List.length_take, List.length_drop]
      have hpageSize : L.size = min EXPORT_PAGE_SIZE (max - rows.length) := rfl
      rw [fetchPages_succ hfull hpageSize (fetch_page hfetch hkeys horder L offset)]
      split
      · rename_i hempty
        -- an empty page: the rows are all there are
        have hpos := L.pos
        rw [hempty, List.length_nil] at hlength
        rw [hrows, List.take_of_length_le (by omega), List.take_of_length_le (by omega)]
      · split
        · rename_i hshort
          rw [hnext, List.take_of_length_le (by omega), List.take_of_length_le (by omega)]
        · rename_i hfullPage
          have hsize : ((order.drop offset).take L.size).length = L.size := by omega
          rw [hsize]
          refine ih hnext ?_ hroom ?_
          · rw [List.length_append, hlen, hsize]
          · have hcases : L.size = EXPORT_PAGE_SIZE ∨ L.size = max - rows.length := min_choice _ _
            rw [Nat.mul_succ] at hmax
            omega
    · rw [fetchPages_full hfull, hrows, show offset = max by omega]

/-- Up to 10000 rows the page cap does not show. -/
theorem fetchGrantedEvents_newest (hfetch : Answers db fetch)
    (hdistinct : (db.accessEvents.rows.map AccessEventRow.timestampMs).Nodup)
    (employeeId fromMs toMs : Option ℤ) {max : ℕ} (hmax : max ≤ 10000) :
    ∃ top, fetchGrantedEvents fetch employeeId fromMs toMs max = .ok top ∧
      IsPage EventRow.timestampMs (matching db (grantedQuery employeeId fromMs toMs)) max 0
        top := by
  have hkeys := nodup_matching hdistinct (grantedQuery employeeId fromMs toMs)
  obtain ⟨order, horder⟩ :=
    exists_answer EventRow.timestampMs (matching db (grantedQuery employeeId fromMs toMs))
  refine ⟨order.take max, ?_, order, horder, by rw [List.drop_zero]⟩
  refine fetchPages_eq hfetch hkeys horder EXPORT_MAX_PAGES ?_ ?_ (Nat.zero_le max) ?_
  · rw [List.take_zero]
  · rfl
  · simpa [EXPORT_PAGE_SIZE, EXPORT_MAX_PAGES] using hmax

/-! ## All employees -/

theorem collect_newest (hfetch : Answers db fetch)
    (hdistinct : (db.accessEvents.rows.map AccessEventRow.timestampMs).Nodup) {form : ExportForm}
    (hlimit : form.limit ≤ 10000) (targets : List (Option ℤ)) :
    ∃ tops : List (List (EventRow K)), collect fetch form targets = .ok tops.flatten ∧
      List.Forall₂ (fun rows top => IsPage EventRow.timestampMs rows form.limit 0 top)
        (targets.map fun id => matching db (grantedQuery id form.fromMs form.toMs)) tops := by
  induction targets with
  | nil => exact ⟨[], rfl, .nil⟩
  | cons id targets ih =>
    obtain ⟨top, htop, hpage⟩ :=
      fetchGrantedEvents_newest hfetch hdistinct id form.fromMs form.toMs hlimit
    obtain ⟨tops, htops, hpages⟩ := ih
    refine ⟨top :: tops, ?_, .cons hpage hpages⟩
    rw [collect, htop, htops]
    rfl

theorem answer_sortNewest {collected : List (EventRow K)}
    (h : (collected.map readTimestamp).Nodup) :
    Answer EventRow.timestampMs collected (sortNewest collected) :=
  (answer_mergeSort readTimestamp collected).of_mono (fun _ _ hle => Double.ofInt_mono hle) h

/-- No two of the collected rows are read as one time. -/
theorem nodup_collected {parts tops : List (List (EventRow K))} {rows : List (EventRow K)} {n : ℕ}
    (hpages : List.Forall₂ (fun rows top => IsPage EventRow.timestampMs rows n 0 top) parts tops)
    (hparts : parts.flatten.Perm rows) (h : (rows.map readTimestamp).Nodup) :
    (tops.flatten.map readTimestamp).Nodup := by
  obtain ⟨rest, hrest, -⟩ := exists_rest hpages
  have hall := ((hrest.trans hparts).map readTimestamp).nodup_iff.mpr h
  rw [List.map_append] at hall
  exact (List.nodup_append.mp hall).1

end Fetch

/-- The rows of distinct values, one value after the other. -/
theorem perm_filter_any {R ι : Type} [DecidableEq ι] (k : R → Option ι) (P : R → Bool)
    (l : List R) {ids : List ι} (h : ids.Nodup) :
    ((ids.map fun id => l.filter fun e => decide (k e = some id) && P e).flatten).Perm
      (l.filter fun e => (k e).any (fun id => id ∈ ids) && P e) := by
  induction ids with
  | nil => simp
  | cons id ids ih =>
    obtain ⟨hnot, hrest⟩ := List.nodup_cons.mp h
    rw [List.map_cons, List.flatten_cons]
    refine ((ih hrest).append_left _).trans ?_
    let all := l.filter fun e => (k e).any (fun i => i ∈ id :: ids) && P e
    have hsplit := List.filter_append_perm (fun e => decide (k e = some id)) all
    have hfirst : all.filter (fun e => decide (k e = some id)) =
        l.filter fun e => decide (k e = some id) && P e := by
      rw [List.filter_filter]
      refine List.filter_congr fun e _ => ?_
      by_cases hk : k e = some id
      · simp [hk]
      · simp [hk]
    have hothers : all.filter (fun e => !decide (k e = some id)) =
        l.filter fun e => (k e).any (fun i => i ∈ ids) && P e := by
      rw [List.filter_filter]
      refine List.filter_congr fun e _ => ?_
      by_cases hk : k e = some id
      · simp [hk, hnot]
      · cases hke : k e with
        | none => simp
        | some i =>
          have hne : i ≠ id := fun heq => hk (by rw [hke, heq])
          simp [hne]
    rw [hfirst, hothers] at hsplit
    exact hsplit

theorem matching_employee (db : Database K) (fromMs toMs : Option ℤ) (id : ℤ) :
    matching db (grantedQuery (some id) fromMs toMs) =
      (db.accessEvents.rows.filter fun e => decide (e.employeeId = some id) &&
        (grantedQuery none fromMs toMs).selects e).map (eventRow db) := by
  unfold matching
  congr 2
  funext e
  simp [EventsQuery.selects, grantedQuery, Bool.and_assoc]

/-- The lists of the targets are the selection in parts. -/
theorem perm_selection (db : Database K) {form : ExportForm} (h : form.selectedEmployees.Nodup) :
    ((form.targets.map fun id => matching db (grantedQuery id form.fromMs form.toMs)).flatten).Perm
      (selection db form) := by
  unfold ExportForm.targets selection
  by_cases hnone : form.selectedEmployees = []
  · have hall : form.selects = (grantedQuery none form.fromMs form.toMs).selects (K := K) := by
      funext e
      simp [ExportForm.selects, hnone]
    rw [if_pos hnone, hall]
    simp [matching]
  · have hsel : form.selects = fun e : AccessEventRow K =>
        e.employeeId.any (fun id => id ∈ form.selectedEmployees) &&
          (grantedQuery none form.fromMs form.toMs).selects e := by
      funext e
      simp [ExportForm.selects, hnone]
    have hmap : (fun id => matching db (grantedQuery id form.fromMs form.toMs)) ∘ some =
        List.map (eventRow db) ∘ fun id => db.accessEvents.rows.filter fun e =>
          decide (e.employeeId = some id) && (grantedQuery none form.fromMs form.toMs).selects e :=
      funext fun id => matching_employee db form.fromMs form.toMs id
    have hparts := (perm_filter_any AccessEventRow.employeeId
      (grantedQuery none form.fromMs form.toMs).selects db.accessEvents.rows h).map (eventRow db)
    rw [List.map_flatten, List.map_map] at hparts
    rw [if_neg hnone, List.map_map, hmap, hsel]
    exact hparts

/-- Nothing lies in a period that ends before it begins. -/
theorem selection_of_invalid (db : Database K) {form : ExportForm}
    (h : form.invalidPeriod = true) : selection db form = [] := by
  have hnone : db.accessEvents.rows.filter form.selects = [] := by
    refine List.filter_eq_nil_iff.mpr fun e _ hsel => ?_
    simp only [ExportForm.selects, EventsQuery.selects, grantedQuery, Bool.and_eq_true] at hsel
    obtain ⟨-, ⟨-, hfrom⟩, hto⟩ := hsel
    obtain ⟨f, hf, hany⟩ := (Option.any_eq_true _ _).mp h
    obtain ⟨t, ht, hlt⟩ := (Option.any_eq_true _ _).mp hany
    simp only [hf, ht, Option.all_some, decide_eq_true_eq] at hfrom hto hlt
    omega
  rw [selection, hnone]
  rfl

/-- No two events are read as one time. -/
def DistinctTimes (db : Database K) : Prop :=
  (db.accessEvents.rows.map fun e => Double.ofInt e.timestampMs).Nodup

/-- Different times of 53 bits are read as different ones. -/
theorem distinctTimes_of_le {db : Database K}
    (h : (db.accessEvents.rows.map AccessEventRow.timestampMs).Nodup)
    (hle : ∀ e ∈ db.accessEvents.rows, |e.timestampMs| ≤ 2 ^ 53) : DistinctTimes db := by
  have hread : (db.accessEvents.rows.map fun e => Double.ofInt e.timestampMs) =
      db.accessEvents.rows.map AccessEventRow.timestampMs :=
    List.map_congr_left fun e he => Double.ofInt_eq_self (hle e he)
  rw [DistinctTimes, hread]
  exact h

theorem DistinctTimes.timestamps {db : Database K} (h : DistinctTimes db) :
    (db.accessEvents.rows.map AccessEventRow.timestampMs).Nodup := by
  refine List.Nodup.of_map Double.ofInt ?_
  rw [List.map_map]
  exact h

theorem DistinctTimes.selection {db : Database K} (h : DistinctTimes db) (form : ExportForm) :
    ((selection db form).map readTimestamp).Nodup := by
  rw [DashboardExport.selection, List.map_map]
  exact h.sublist (List.filter_sublist.map _)

/-- **Export.** The rows are the newest `limit` of the selection, newest first, or all, if no two
events are read as one time. -/
theorem export_newest {db : Database K} {fetch : Fetch K} (hfetch : Answers db fetch)
    (hdistinct : DistinctTimes db) {form : ExportForm}
    (hloading : form.loading = false) (hids : form.selectedEmployees.Nodup)
    (hlimit : 1 ≤ form.limit ∧ form.limit ≤ 10000) :
    IsPage EventRow.timestampMs (selection db form) form.limit 0
      (submitExport fetch form).rows := by
  unfold submitExport
  rw [hloading, if_neg Bool.false_ne_true]
  split
  · rename_i hinvalid
    rw [selection_of_invalid db hinvalid]
    exact ⟨[], ⟨List.Perm.refl _, List.Pairwise.nil⟩, by simp [ExportOutcome.rows]⟩
  · obtain ⟨tops, hcollect, hpages⟩ :=
      collect_newest hfetch hdistinct.timestamps hlimit.2 form.targets
    have hnodup := nodup_collected hpages (perm_selection db hids) (hdistinct.selection form)
    have hmerged := isPage_merge hpages (answer_sortNewest hnodup)
    obtain ⟨order, horder, hpage⟩ := hmerged
    have hselection : IsPage EventRow.timestampMs (selection db form) form.limit 0
        ((sortNewest tops.flatten).take form.limit) :=
      ⟨order, (answer_congr (perm_selection db hids)).mp horder, hpage⟩
    rw [hcollect]
    dsimp only
    split
    · rename_i hempty
      rw [hempty] at hselection
      exact hselection
    · exact hselection

/-! ## Two employees -/

/-- A backend that sorts by inserting. -/
def fetchSorted (db : Database K) : Fetch K := fun q =>
  .ok ((((matching db q).insertionSort fun a b => b.timestampMs ≤ a.timestampMs).drop
    (max (q.offset.getD 0) 0).toNat).take (max 1 (min (q.limit.getD 50) 200)).toNat)

theorem answers_fetchSorted (db : Database K) : Answers db (fetchSorted db) := by
  intro q
  have htotal : Std.Total fun a b : EventRow K => b.timestampMs ≤ a.timestampMs :=
    ⟨fun a b => le_total b.timestampMs a.timestampMs⟩
  have htrans : IsTrans (EventRow K) fun a b => b.timestampMs ≤ a.timestampMs :=
    ⟨fun _ _ _ hab hbc => hbc.trans hab⟩
  exact ⟨_, rfl, _, ⟨List.perm_insertionSort _ _, List.pairwise_insertionSort _ _⟩, rfl⟩

def grantedAt (id employee ts : ℤ) : AccessEventRow ExtRat :=
  ⟨id, some employee, "granted", none, ts, none, "in"⟩

def twoEmployees : Database ExtRat :=
  (Database.empty.insertEmployee ⟨1, "Ana", none⟩ Int.one_pos).insertEmployee ⟨2, "Bia", none⟩
    (by decide)

def threeGrants : Database ExtRat :=
  { twoEmployees with
    accessEvents := ((Serial.empty.insert (grantedAt 1 1 1000) (by decide)).insert
      (grantedAt 2 2 3000) (by decide)).insert (grantedAt 3 1 2000) (by decide)
    event_fk := by decide +kernel
    event_check := by decide +kernel }

/-- Two rows of two employees, page by page and put together. -/
theorem export_newest_two :
    IsPage EventRow.timestampMs (selection threeGrants ⟨[1, 2], 2, some 500, none, false⟩) 2 0
      (submitExport (fetchSorted threeGrants) ⟨[1, 2], 2, some 500, none, false⟩).rows :=
  @export_newest _ threeGrants _ (answers_fetchSorted threeGrants)
    (distinctTimes_of_le (by decide) (by decide))
    ⟨[1, 2], 2, some 500, none, false⟩ rfl (by decide) (by decide)

/-- Two events at times that are one double. -/
def farGrants : Database ExtRat :=
  { twoEmployees with
    accessEvents := (Serial.empty.insert (grantedAt 1 1 (2 ^ 53)) (by decide)).insert
      (grantedAt 2 2 (2 ^ 53 + 1)) (by decide)
    event_fk := by decide +kernel
    event_check := by decide +kernel }

def older : EventRow ExtRat := eventRow farGrants (grantedAt 1 1 (2 ^ 53))

def newer : EventRow ExtRat := eventRow farGrants (grantedAt 2 2 (2 ^ 53 + 1))

def oneRow : ExportForm := ⟨[1, 2], 1, none, none, false⟩

theorem rows_farGrants : (submitExport (fetchSorted farGrants) oneRow).rows = [older] := by
  have hcollect : collect (fetchSorted farGrants) oneRow oneRow.targets =
      .ok [older, newer] := by
    decide +kernel
  have hsort : sortNewest [older, newer] = [older, newer] :=
    List.mergeSort_of_pairwise (by decide +kernel)
  unfold submitExport
  rw [if_neg (by decide), if_neg (by decide), hcollect]
  dsimp only
  rw [hsort]
  rfl

/-- The older one is exported: the employee it belongs to was selected first. -/
theorem export_older :
    ∃ (db : Database ExtRat) (fetch : Fetch ExtRat) (form : ExportForm), Answers db fetch ∧
      (db.accessEvents.rows.map AccessEventRow.timestampMs).Nodup ∧ form.loading = false ∧
      form.selectedEmployees.Nodup ∧ (1 ≤ form.limit ∧ form.limit ≤ 10000) ∧
      ¬ IsPage EventRow.timestampMs (selection db form) form.limit 0
        (submitExport fetch form).rows := by
  refine ⟨farGrants, fetchSorted farGrants, oneRow, answers_fetchSorted farGrants, by decide, rfl,
    by decide, by decide, fun hpage => ?_⟩
  rw [rows_farGrants] at hpage
  obtain ⟨rest, hperm, -, hcross, -⟩ := isPage_zero_iff.mp hpage
  have hnewer : newer ∈ [older] ++ rest := hperm.mem_iff.mpr (by decide +kernel)
  rcases List.mem_append.mp hnewer with hmem | hmem
  · exact absurd hmem (by decide +kernel)
  · exact absurd (hcross older List.mem_cons_self newer hmem) (by decide +kernel)

end FaceGate.L4.DashboardExport
