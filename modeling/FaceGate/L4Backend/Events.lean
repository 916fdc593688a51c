import FaceGate.Core.Paging
import FaceGate.L4Backend.Database

/-!
# `GET /analytics/events`

The events that pass the filters, newest first, a page of them. The sort key is
`timestamp_ms` alone: rows with one timestamp come in any order, and in another
one with the next request. The table does not change between requests here.

`events_partition_iff`: pages of one size, up to the first short one, hold every
matching row once and newest first, exactly if no page ends between two matching
rows with one timestamp.
-/
namespace FaceGate.L4.Events

open Core Core.Keyed Core.Paging FaceGate.L1 FaceGate.L1.Domain

variable {K : Type}

/-- mirrors backend/src/routes/analytics.rs:89-102 -/
structure EventsQuery where
  employeeId : Option ℤ
  status : Option String
  fromMs : Option ℤ
  toMs : Option ℤ
  limit : Option ℤ
  offset : Option ℤ

/-- mirrors backend/src/routes/analytics.rs:104-111 -/
structure EventRow (K : Type) where
  id : ℤ
  employeeName : Option String
  status : String
  distance : Option (Flt K)
  timestampMs : ℤ
  deriving DecidableEq

/-- The `WHERE` clause: a filter that is absent selects every row, one that is
given no row where the column is NULL. -/
def EventsQuery.selects (q : EventsQuery) (e : AccessEventRow K) : Bool :=
  q.employeeId.all (fun id => e.employeeId = some id) &&
    q.status.all (fun status => e.status = status) &&
    q.fromMs.all (fun ms => ms ≤ e.timestampMs) && q.toMs.all (fun ms => e.timestampMs ≤ ms)

/-- `LEFT JOIN employees`: at most one, `id` being its key. -/
def eventRow (db : Database K) (e : AccessEventRow K) : EventRow K :=
  ⟨e.id, (e.employeeId.bind db.employees.find).map EmployeeRow.name, e.status, e.distance,
    e.timestampMs⟩

def matching (db : Database K) (q : EventsQuery) : List (EventRow K) :=
  (db.accessEvents.rows.filter q.selects).map (eventRow db)

/-- What a response of the endpoint may be.
mirrors backend/src/routes/analytics.rs:127-165 -/
def events (db : Database K) (q : EventsQuery) (response : List (EventRow K)) : Prop :=
  let limit := max 1 (min (q.limit.getD 50) 200)
  let offset := max (q.offset.getD 0) 0
  IsPage EventRow.timestampMs (matching db q) limit.toNat offset.toNat response

theorem exists_events (db : Database K) (q : EventsQuery) :
    ∃ response, events db q response := by
  obtain ⟨order, horder⟩ := exists_answer EventRow.timestampMs (matching db q)
  exact ⟨_, order, horder, rfl⟩

/-- A page size the endpoint does not clamp. -/
structure PageSize where
  size : ℕ
  pos : 1 ≤ size
  le : size ≤ 200

def EventsQuery.page (q : EventsQuery) (L : PageSize) (offset : ℕ) : EventsQuery :=
  { q with limit := some L.size, offset := some offset }

theorem events_page (db : Database K) (q : EventsQuery) (L : PageSize) (o : ℕ)
    (response : List (EventRow K)) : events db (q.page L o) response ↔
      IsPage EventRow.timestampMs (matching db q) L.size o response := by
  have hlimit : (max 1 (min (L.size : ℤ) 200)).toNat = L.size := by
    have hpos := L.pos
    have hle := L.le
    omega
  have hoffset : (max (o : ℤ) 0).toNat = o := by omega
  simp only [events, EventsQuery.page, Option.getD_some, hlimit, hoffset]
  rfl

/-- Each row has its id. -/
theorem matching_nodup (db : Database K) (q : EventsQuery) : (matching db q).Nodup := by
  have hids : ((matching db q).map EventRow.id).Nodup := by
    have hkeys := distinctKeys_filter q.selects db.accessEvents.distinctKeys
    rw [matching, List.map_map]
    exact hkeys
  exact hids.of_map

/-- **Partition.** The pages of size `L` hold every matching row once, newest first,
exactly if no page boundary lies between two matching rows with one timestamp. -/
theorem events_partition_iff (db : Database K) (q : EventsQuery) (L : PageSize) :
    (∀ pages, Paged (fun o p => events db (q.page L o) p) L.size 0 pages →
      pages.flatten.Perm (matching db q) ∧ NewestFirst EventRow.timestampMs pages.flatten) ↔
      ∀ k, ¬ Cuts EventRow.timestampMs (matching db q) (k * L.size) := by
  have hpage : (fun o p => events db (q.page L o) p) =
      IsPage EventRow.timestampMs (matching db q) L.size := by
    funext o p
    exact propext (events_page db q L o p)
  rw [hpage]
  exact paged_iff (matching_nodup db q) L.pos

/-! ## Two gates, one millisecond -/

def unknownAt (id ts : ℤ) : AccessEventRow ExtRat :=
  ⟨id, none, "unknown", none, ts, none, "in"⟩

/-- Events alone, of nobody. -/
def eventsOnly (events : Serial (AccessEventRow ExtRat) AccessEventRow.id)
    (h : ∀ r ∈ events.rows, r.employeeId = none ∧ r.Checked) : Database ExtRat where
  employees := .empty
  embeddings := .empty
  accessEvents := events
  embedding_fk _ h := absurd h List.not_mem_nil
  event_fk r hr e he := by
    rw [(h r hr).1] at he
    cases he
  event_check r hr := (h r hr).2

/-- Two unknown faces at the same time, at two gates. -/
def twoGates : Database ExtRat :=
  eventsOnly ((Serial.empty.insert (unknownAt 1 1000) (by decide)).insert (unknownAt 2 1000)
    (by decide)) (by decide)

def noFilter : EventsQuery := ⟨none, none, none, none, none, none⟩

def rowAt (id ts : ℤ) : EventRow ExtRat := ⟨id, none, "unknown", none, ts⟩

theorem matching_twoGates : matching twoGates noFilter = [rowAt 1 1000, rowAt 2 1000] := by
  decide +kernel

theorem answer_twoGates {order : List (EventRow ExtRat)}
    (h : order.Perm [rowAt 1 1000, rowAt 2 1000]) :
    Answer EventRow.timestampMs (matching twoGates noFilter) order := by
  rw [matching_twoGates]
  refine ⟨h, ?_⟩
  have hts : ∀ r ∈ order, r.timestampMs = 1000 := by
    intro r hr
    rcases List.mem_pair.mp (h.mem_iff.mp hr) with rfl | rfl
    · rfl
    · rfl
  exact List.pairwise_of_forall_mem_list fun a ha b hb => by rw [hts a ha, hts b hb]

/-- With pages of one row the first event comes twice and the second never. -/
theorem events_repeated :
    ∃ pages, Paged (fun o p => events twoGates (noFilter.page ⟨1, by decide, by decide⟩ o) p)
      1 0 pages ∧ pages.flatten = [rowAt 1 1000, rowAt 1 1000] ∧
      ¬ pages.flatten.Perm (matching twoGates noFilter) := by
  have hfirst := answer_twoGates (List.Perm.refl _)
  have hsecond := answer_twoGates (List.Perm.swap (rowAt 1 1000) (rowAt 2 1000) [])
  have hdup : ¬ [rowAt 1 1000, rowAt 1 1000].Perm (matching twoGates noFilter) := by
    rw [matching_twoGates]
    decide +kernel
  refine ⟨[[rowAt 1 1000], [rowAt 1 1000], []], ?_, rfl, hdup⟩
  refine .more ((events_page _ _ _ _ _).mpr ⟨_, hfirst, rfl⟩) rfl ?_
  refine .more ((events_page _ _ _ _ _).mpr ⟨_, hsecond, rfl⟩) rfl ?_
  exact .last ((events_page _ _ _ _ _).mpr ⟨_, hfirst, rfl⟩) (by decide)

/-! ## One stranger -/

theorem ascending_unknownAt (times : ℕ → ℤ) (n : ℕ) : Ascending AccessEventRow.id
    ((List.range n).map fun i : ℕ => unknownAt (i + 1) (times i)) :=
  List.pairwise_map.mpr (List.pairwise_lt_range.imp fun h => by
    simp only [unknownAt]
    omega)

theorem id_unknownAt_le (times : ℕ → ℤ) (n : ℕ) :
    ∀ r ∈ (List.range n).map fun i : ℕ => unknownAt (i + 1) (times i), r.id ≤ n := by
  intro r hr
  obtain ⟨i, hi, rfl⟩ := List.mem_map.mp hr
  rw [List.mem_range] at hi
  simp only [unknownAt]
  omega

/-- The same unknown face, `n` times. -/
def stranger (times : ℕ → ℤ) (n : ℕ) : Serial (AccessEventRow ExtRat) AccessEventRow.id where
  rows := (List.range n).map fun i : ℕ => unknownAt (i + 1) (times i)
  sorted := ascending_unknownAt times n
  last := n
  le_last := id_unknownAt_le times n

def strangerOnly (times : ℕ → ℤ) (n : ℕ) : Database ExtRat :=
  eventsOnly (stranger times n) fun r hr => by
    obtain ⟨i, -, rfl⟩ := List.mem_map.mp hr
    exact ⟨rfl, by simp [AccessEventRow.Checked, unknownAt]⟩

theorem rows_strangerOnly (times : ℕ → ℤ) (n : ℕ) :
    (strangerOnly times n).accessEvents.rows =
      (List.range n).map fun i : ℕ => unknownAt (i + 1) (times i) := rfl

end FaceGate.L4.Events
