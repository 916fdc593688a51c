import FaceGate.Core.LTS
import FaceGate.L4Backend.Events

/-!
# The events page of the panel

The list is filled page by page from `GET /analytics/events`. A change of filter
or a pull-to-refresh empties it and asks for the first page; scrolling to the
bottom asks for the next one. No request is cancelled and no response is tagged:
whatever arrives is appended. Responses and errors arrive in any order.

The table does not change here, and the endpoint answers one query with one
order (`Server`). Ionic fires `ionInfinite` whenever the element is not disabled.

* `matches_iff`: the list is a duplicate-free prefix of the rows of the selected
  filter all along a run exactly if each response that arrives continues it.
* `continues_of_current`: one does that was asked for with the filter and the offset
  that are current when it arrives.
-/
namespace FaceGate.L4.EventsPage

open Core Core.Keyed Core.Paging FaceGate.L1 FaceGate.L1.Domain FaceGate.L4.Events

variable {K : Type}

/-! ## Filters and queries -/

/-- mirrors panel/src/app/features/events/events.page.ts:36-37 -/
inductive StatusFilter where
  | all
  | granted
  | unknown
  deriving DecidableEq, Repr

structure Filter where
  status : StatusFilter
  employeeId : Option ℤ
  deriving DecidableEq, Repr

/-- mirrors panel/src/app/features/events/events.page.ts:39 -/
def PAGE_SIZE : ℕ := 20

/-- 'all' is not sent. -/
def StatusFilter.param : StatusFilter → Option String
  | .all => none
  | .granted => some "granted"
  | .unknown => some "unknown"

/-- The query `fetchPage` builds.
mirrors panel/src/app/features/events/events.page.ts:150-159 -/
def Filter.query (f : Filter) (offset : ℕ) : EventsQuery where
  employeeId := f.employeeId
  status := f.status.param
  fromMs := none
  toMs := none
  limit := some PAGE_SIZE
  offset := some offset

/-- A backend that answers each query with one order of its rows. -/
structure Server (K : Type) where
  db : Database K
  rows : Filter → List (EventRow K)
  answer : ∀ f, Answer EventRow.timestampMs (matching db (f.query 0)) (rows f)

def Server.page (server : Server K) (f : Filter) (offset : ℕ) : List (EventRow K) :=
  ((server.rows f).drop offset).take PAGE_SIZE

/-- The pages are responses of the endpoint. -/
theorem events_page (server : Server K) (f : Filter) (offset : ℕ) :
    events server.db (f.query offset) (server.page f offset) := by
  have hlimit : (max 1 (min (PAGE_SIZE : ℤ) 200)).toNat = PAGE_SIZE := by decide
  have hoffset : (max (offset : ℤ) 0).toNat = offset := by omega
  refine ⟨server.rows f, server.answer f, ?_⟩
  simp only [Filter.query, Option.getD_some, hlimit, hoffset]
  rfl

theorem nodup_rows (server : Server K) (f : Filter) : (server.rows f).Nodup :=
  (server.answer f).perm.nodup_iff.mpr (matching_nodup _ _)

/-! ## The page -/

/-- Whose spinner is dismissed when the request is over. -/
inductive Done where
  | loading
  | refresher
  | infiniteScroll
  deriving DecidableEq, Repr

structure Request where
  filter : Filter
  offset : ℕ
  done : Done
  deriving DecidableEq, Repr

/-- mirrors panel/src/app/features/events/events.page.ts:84-94 -/
structure PageState (K : Type) where
  events : List (EventRow K)
  loading : Bool
  hasMore : Bool
  filter : Filter
  offset : ℕ
  inFlight : List Request
  deriving DecidableEq

/-- mirrors panel/src/app/features/events/events.page.ts:150-162 -/
def fetchPage (done : Done) (s : PageState K) : PageState K :=
  { s with inFlight := s.inFlight ++ [⟨s.filter, s.offset, done⟩] }

/-- mirrors panel/src/app/features/events/events.page.ts:128-134 -/
def resetAndLoad (s : PageState K) : PageState K :=
  fetchPage .loading { s with offset := 0, events := [], hasMore := true, loading := true }

/-- mirrors panel/src/app/features/events/events.page.ts:137-144 -/
def onRefresh (s : PageState K) : PageState K :=
  fetchPage .refresher { s with offset := 0, events := [], hasMore := true }

/-- The callback of a request. -/
def PageState.finish (done : Done) (s : PageState K) : PageState K :=
  match done with
  | .loading => { s with loading := false }
  | .refresher => s
  | .infiniteScroll => s

/-- mirrors panel/src/app/features/events/events.page.ts:163-171 -/
def onNext (page : List (EventRow K)) (done : Done) (s : PageState K) : PageState K :=
  PageState.finish done { s with
    events := s.events ++ page
    offset := s.offset + page.length
    hasMore := if page.length < PAGE_SIZE then false else s.hasMore }

inductive Label where
  | statusChange (status : StatusFilter)
  | employeeFilterChange (employeeId : Option ℤ)
  | refresh
  | loadMore
  /-- The response, or the error, of the `i`-th request in flight. -/
  | next (i : ℕ)
  | error (i : ℕ)
  deriving DecidableEq, Repr

/-- mirrors panel/src/app/features/events/events.page.ts:115-177 and
panel/src/app/features/events/events.page.html:74-77 -/
def step (server : Server K) (s : PageState K) : Label → Option (PageState K)
  | .statusChange status =>
    some (resetAndLoad { s with filter := { s.filter with status := status } })
  | .employeeFilterChange employeeId =>
    some (resetAndLoad { s with filter := { s.filter with employeeId := employeeId } })
  | .refresh => some (onRefresh s)
  | .loadMore =>
    -- `[disabled]="!hasMore() || loading()"`
    if s.hasMore ∧ ¬ s.loading then some (fetchPage .infiniteScroll s) else none
  | .next i =>
    s.inFlight[i]?.map fun r =>
      onNext (server.page r.filter r.offset) r.done { s with inFlight := s.inFlight.eraseIdx i }
  | .error i =>
    s.inFlight[i]?.map fun r =>
      PageState.finish r.done { s with inFlight := s.inFlight.eraseIdx i }

/-- After `ngOnInit`. -/
def start (K : Type) : PageState K := resetAndLoad ⟨[], true, true, ⟨.all, none⟩, 0, []⟩

def system (server : Server K) : LTS (PageState K) Label :=
  .ofStep (fun s => s = start K) (step server)

/-- The list shows the first rows of the selected filter, and the offset counts them. -/
structure Matches (server : Server K) (s : PageState K) : Prop where
  isPrefix : s.events <+: server.rows s.filter
  nodup : s.events.Nodup
  offset_eq : s.offset = s.events.length

/-- A response continues the list: it holds what the server has for the selected filter
from the current offset on. -/
def Continues (server : Server K) (s : PageState K) : Label → Prop
  | .next i => ∀ r ∈ s.inFlight[i]?,
      server.page r.filter r.offset <+: (server.rows s.filter).drop s.offset
  | _ => True

variable {server : Server K} {s s' : PageState K}

/-! ## One step -/

@[simp] theorem events_finish (done : Done) (s : PageState K) :
    (s.finish done).events = s.events := by
  cases done <;> rfl

@[simp] theorem filter_finish (done : Done) (s : PageState K) :
    (s.finish done).filter = s.filter := by
  cases done <;> rfl

@[simp] theorem offset_finish (done : Done) (s : PageState K) :
    (s.finish done).offset = s.offset := by
  cases done <;> rfl

/-- What a step does to the list: it empties it, leaves it, or appends a response. -/
inductive Step (server : Server K) (s : PageState K) : Label → PageState K → Prop where
  | reset {l : Label} {s' : PageState K} (hcont : Continues server s l) (hevents : s'.events = [])
      (hoffset : s'.offset = 0) : Step server s l s'
  | keep {l : Label} {s' : PageState K} (hcont : Continues server s l)
      (hevents : s'.events = s.events) (hfilter : s'.filter = s.filter)
      (hoffset : s'.offset = s.offset) : Step server s l s'
  | append {i : ℕ} {r : Request} {s' : PageState K} (hr : s.inFlight[i]? = some r)
      (hevents : s'.events = s.events ++ server.page r.filter r.offset)
      (hfilter : s'.filter = s.filter)
      (hoffset : s'.offset = s.offset + (server.page r.filter r.offset).length) :
      Step server s (.next i) s'

theorem step_cases {l : Label} (h : step server s l = some s') : Step server s l s' := by
  cases l with
  | statusChange status =>
    cases h
    exact .reset trivial rfl rfl
  | employeeFilterChange employeeId =>
    cases h
    exact .reset trivial rfl rfl
  | refresh =>
    cases h
    exact .reset trivial rfl rfl
  | loadMore =>
    simp only [step] at h
    split at h
    · cases h
      exact .keep trivial rfl rfl rfl
    · cases h
  | next i =>
    obtain ⟨r, hr, rfl⟩ := Option.map_eq_some_iff.mp h
    exact .append hr (by simp [onNext]) (by simp [onNext]) (by simp [onNext])
  | error i =>
    obtain ⟨r, hr, rfl⟩ := Option.map_eq_some_iff.mp h
    exact .keep trivial (by simp) (by simp) (by simp)

theorem isPrefix_append_iff {α : Type} {l m rows : List α} (h : l <+: rows) :
    l ++ m <+: rows ↔ m <+: rows.drop l.length := by
  obtain ⟨t, rfl⟩ := h
  rw [List.drop_left, List.prefix_append_right_inj]

theorem matches_of_initial (h : s.events <+: server.rows s.filter)
    (ho : s.offset = s.events.length) : Matches server s :=
  ⟨h, (nodup_rows server s.filter).sublist h.sublist, ho⟩

theorem matches_step {l : Label} (hp : Matches server s) (h : Step server s l s') :
    Matches server s' ↔ Continues server s l := by
  cases h with
  | reset hcont hevents hoffset =>
    refine iff_of_true (matches_of_initial ?_ ?_) hcont
    · rw [hevents]
      exact List.nil_prefix
    · rw [hevents, hoffset]
      rfl
  | keep hcont hevents hfilter hoffset =>
    refine iff_of_true (matches_of_initial ?_ ?_) hcont
    · rw [hevents, hfilter]
      exact hp.isPrefix
    · rw [hevents, hoffset]
      exact hp.offset_eq
  | @append i r _ hr hevents hfilter hoffset =>
    have hiff := isPrefix_append_iff (m := server.page r.filter r.offset) hp.isPrefix
    rw [← hp.offset_eq] at hiff
    constructor
    · intro hp' a ha
      rw [hr] at ha
      cases ha
      have hprefix := hp'.isPrefix
      rw [hevents, hfilter] at hprefix
      exact hiff.mp hprefix
    · intro hcont
      refine matches_of_initial ?_ ?_
      · rw [hevents, hfilter]
        exact hiff.mpr (hcont r hr)
      · rw [hevents, hoffset, List.length_append, hp.offset_eq]

theorem continues_of_current {i : ℕ} {r : Request} (hr : s.inFlight[i]? = some r)
    (hfilter : r.filter = s.filter) (hoffset : r.offset = s.offset) :
    Continues server s (.next i) := by
  intro a ha
  rw [hr] at ha
  cases ha
  rw [hfilter, hoffset]
  exact List.take_prefix _ _

/-! ## Runs -/

theorem matches_start (server : Server K) : Matches server (start K) :=
  matches_of_initial List.nil_prefix rfl

/-- **The list matches the filter** all along a run exactly if each response of the run
continues it. -/
theorem matches_iff (server : Server K) (ls : List Label) (s : PageState K) :
    ((system server).within (Matches server)).Run (start K) ls s ↔
      ((system server).guard (Continues server)).Run (start K) ls s := by
  refine LTS.Run.within_iff_guard (I := fun _ => True) ?_ trivial (matches_start server)
  intro s l s' _ hp hs
  exact ⟨trivial, matches_step hp (step_cases hs)⟩

/-! ## A response to the previous filter -/

/-- Rows inserted newest first come in the order of their ids. -/
def Server.ofTable (db : Database K)
    (h : db.accessEvents.rows.Pairwise fun a b => b.timestampMs ≤ a.timestampMs) : Server K where
  db := db
  rows f := matching db (f.query 0)
  answer _ := ⟨List.Perm.refl _, List.pairwise_map.mpr (h.filter _)⟩

def eventAt (id ts : ℤ) (status : String) : AccessEventRow ExtRat :=
  ⟨id, none, status, none, ts, none, "in"⟩

/-- A granted event (its employee is deleted), and an unknown face before it. -/
def twoEvents : Database ExtRat :=
  eventsOnly ((Serial.empty.insert (eventAt 1 2000 "granted") (by decide)).insert
    (eventAt 2 1000 "unknown") (by decide)) (by decide)

def twoEventsServer : Server ExtRat := .ofTable twoEvents (by decide)

/-- The filter is changed before the first response is there: both responses are
appended, and the granted event is listed twice, with an unknown one between. -/
theorem events_of_two_filters : ∃ s : PageState ExtRat,
    (system twoEventsServer).Reachable s ∧
      (s.inFlight = [] ∧ s.filter = ⟨.granted, none⟩ ∧
        s.events.map EventRow.status = ["granted", "unknown", "granted"] ∧
        ¬ s.events.Nodup ∧ ¬ s.events <+: twoEventsServer.rows s.filter) :=
  LTS.exists_reachable (fun s => s = start ExtRat) (step twoEventsServer)
    [.statusChange .granted, .next 0, .next 0] rfl
    (fun s => s.inFlight = [] ∧ s.filter = ⟨.granted, none⟩ ∧
      s.events.map EventRow.status = ["granted", "unknown", "granted"] ∧
      ¬ s.events.Nodup ∧ ¬ s.events <+: twoEventsServer.rows s.filter) (by decide +kernel)

end FaceGate.L4.EventsPage
