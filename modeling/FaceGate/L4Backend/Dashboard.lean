import FaceGate.L4Backend.Analytics

/-!
# What the dashboard's answers say of the tables

The aggregate queries of `L4Backend.Analytics`, read back in terms of the rows of
`access_events`. Each count is the number of rows of a kind: `accessByHour` of the
rows of each hour (`accessByHour_eq`), `presenceHeatmap` of the granted rows of each
cell. Since the hour of a row is always one of the 24 (`hour_lt`), zero-filling
loses no row.

`presentToday` is stated through `entries`, the entries of an employee with no exit
after them.
-/
namespace FaceGate.L4.Dashboard

open Core Core.Keyed Core.Grouping Core.Paging Analytics

variable {K : Type}

/-! ## Hours -/

theorem hour_nonneg (zone : Zone) (ms : ℤ) : 0 ≤ hour zone ms :=
  Int.ediv_nonneg (Int.emod_nonneg _ (by decide)) (by decide)

theorem hour_lt (zone : Zone) (ms : ℤ) : hour zone ms < 24 := by
  have hday : zone ms % dayMs < 24 * hourMs := Int.emod_lt_of_pos _ (by decide)
  exact Int.ediv_lt_of_lt_mul (by decide) hday

/-- The rows of one hour. -/
def atHour (zone : Zone) (h : ℤ) (events : List (AccessEventRow K)) : ℕ :=
  events.countP fun e => hour zone e.timestampMs = h

theorem sum_atHour (zone : Zone) (events : List (AccessEventRow K)) :
    ((List.range 24).map fun h : ℕ => atHour zone h events).sum = events.length := by
  have hmap : (List.range 24).map (fun h : ℕ => atHour zone h events) =
      ((List.range 24).map Int.ofNat).map fun h => atHour zone h events := by
    rw [List.map_map]
    rfl
  rw [hmap]
  refine sum_countP_keys (fun e : AccessEventRow K => hour zone e.timestampMs) ?_ ?_
  · exact List.nodup_range.map Int.ofNat_injective
  · intro e _
    obtain ⟨n, hn⟩ := Int.eq_ofNat_of_zero_le (hour_nonneg zone e.timestampMs)
    have hlt := hour_lt zone e.timestampMs
    refine List.mem_map.mpr ⟨n, List.mem_range.mpr (by omega), hn.symm⟩

/-! ## access-by-hour -/

/-- A bucket holds the count of its hour's row, and what it held before if there is none. -/
theorem getD_fill {rows : List (ℤ × ℕ)} (hrows : DistinctKeys Prod.fst rows) {h : ℕ}
    (hh : h < 24) {counts : List ℕ} (hlen : counts.length = 24) :
    (rows.foldl
      (fun counts r => if 0 ≤ r.1 ∧ r.1 < 24 then counts.set r.1.toNat r.2 else counts)
      counts).getD h 0 =
    ((lookup Prod.fst (h : ℤ) rows).map Prod.snd).getD (counts.getD h 0) := by
  induction rows generalizing counts with
  | nil => rfl
  | cons r rows ih =>
    obtain ⟨hne, hrest⟩ := distinctKeys_cons.mp hrows
    rw [List.foldl_cons, ih hrest (by split <;> simp [hlen]), lookup_cons]
    by_cases hr : r.1 = h
    · have hnone : lookup Prod.fst (h : ℤ) rows = none :=
        lookup_eq_none.mpr fun a ha => by rw [← hr]; exact hne a ha
      have hrange : 0 ≤ r.1 ∧ r.1 < 24 := by omega
      have hget : (counts.set r.1.toNat r.2).getD h 0 = r.2 := by
        rw [hr, Int.toNat_natCast, List.getD_eq_getElem?_getD,
          List.getElem?_set_self (by omega), Option.getD_some]
      rw [if_pos hr, hnone, if_pos hrange, hget]
      rfl
    · rw [if_neg hr]
      -- the row of another hour leaves the bucket alone
      have hkeep : (if 0 ≤ r.1 ∧ r.1 < 24 then counts.set r.1.toNat r.2 else counts).getD h 0 =
          counts.getD h 0 := by
        split
        · rw [List.getD_eq_getElem?_getD, List.getElem?_set_ne (by omega),
            ← List.getD_eq_getElem?_getD]
        · rfl
      rw [hkeep]

theorem distinct_hourRows (zone : Zone) (events : List (AccessEventRow K)) :
    DistinctKeys Prod.fst (hourRows zone events) := by
  unfold DistinctKeys hourRows
  rw [((List.mergeSort_perm _ _).map Prod.fst).nodup_iff]
  refine nodup_map_groupBy ?_ events
  exact fun _ => rfl

theorem mem_hourRows {zone : Zone} {events : List (AccessEventRow K)} {r : ℤ × ℕ} :
    r ∈ hourRows zone events ↔ 0 < r.2 ∧ r.2 = atHour zone r.1 events := by
  unfold hourRows
  rw [List.mem_mergeSort, List.mem_map]
  constructor
  · rintro ⟨p, hp, rfl⟩
    refine ⟨List.length_pos_iff.mpr (ne_nil_of_mem_groupBy hp), ?_⟩
    rw [(mem_groupBy.mp hp).2, atHour, List.countP_eq_length_filter]
  · rintro ⟨hpos, hr⟩
    rw [hr, atHour, List.countP_pos_iff] at hpos
    obtain ⟨e, he, hhour⟩ := hpos
    refine ⟨(r.1, events.filter fun e => hour zone e.timestampMs = r.1),
      mem_groupBy.mpr ⟨⟨e, he, of_decide_eq_true hhour⟩, rfl⟩, ?_⟩
    rw [← List.countP_eq_length_filter, ← atHour, ← hr]

/-- The count of an hour is the number of its rows. -/
theorem accessByHour_eq (zone : Zone) (events : List (AccessEventRow K)) :
    accessByHour zone events =
      (List.range 24).map fun h : ℕ => ⟨h, atHour zone h events⟩ := by
  unfold accessByHour
  refine List.map_congr_left fun h hh => ?_
  have hcount : (zeroFill (hourRows zone events)).getD h 0 = atHour zone h events := by
    have hzero : (List.replicate 24 0).getD h 0 = 0 := by
      rw [List.getD_eq_getElem?_getD, List.getElem?_replicate_of_lt (List.mem_range.mp hh),
        Option.getD_some]
    unfold zeroFill
    rw [getD_fill (distinct_hourRows zone events) (List.mem_range.mp hh) List.length_replicate,
      hzero]
    cases hl : lookup Prod.fst (h : ℤ) (hourRows zone events) with
    | none =>
      -- an hour without a row has no events
      by_contra hne
      have hpos : 0 < atHour zone h events := Nat.pos_of_ne_zero (Ne.symm hne)
      exact lookup_eq_none.mp hl (h, _) (mem_hourRows.mpr ⟨hpos, rfl⟩) rfl
    | some r =>
      have hr := (mem_hourRows.mp (mem_of_lookup hl)).2
      rw [key_of_lookup hl] at hr
      exact hr
  rw [hcount]

/-! ## presence-heatmap -/

/-- The cells of an hour have together the granted rows of the hour. -/
theorem sum_presenceHeatmap (zone : Zone) (P : ℤ → Bool) (events : List (AccessEventRow K)) :
    (((presenceHeatmap zone events).filter fun c => P c.hour).map HeatmapCell.count).sum =
      (events.filter fun e => e.status = "granted").countP
        fun e => P (hour zone e.timestampMs) := by
  unfold presenceHeatmap
  dsimp only
  rw [(((List.mergeSort_perm _ _).filter _).map _).sum_eq, List.filter_map, List.map_map]
  exact sum_length_groupBy (fun e : AccessEventRow K =>
    (dow zone e.timestampMs, hour zone e.timestampMs)) (fun k => P k.2) _

/-! ## summary-today -/

theorem summaryToday_total (zone : Zone) (today : ℤ) {events : List (AccessEventRow K)}
    (h : ∀ e ∈ events, e.Checked) : (summaryToday zone today events).total =
      (summaryToday zone today events).granted + (summaryToday zone today events).unknown := by
  unfold summaryToday
  dsimp only
  have hrest : ∀ e ∈ events.filter (fun e => date zone e.timestampMs = today),
      decide (e.status = "unknown") = !decide (e.status = "granted") := by
    intro e he
    rcases (h e (List.mem_of_mem_filter he)).1 with hs | hs
    · rw [hs]
      decide
    · rw [hs]
      decide
  rw [List.filter_congr hrest]
  exact List.length_eq_length_filter_add _

/-- No row is lost and none is counted twice, whatever the zone. -/
theorem counts_conserved (zone : Zone) (today : ℤ) (events : List (AccessEventRow K))
    (h : ∀ e ∈ events, e.Checked) :
    (accessByHour zone events).map HourCount.hour = List.range 24 ∧
    ((accessByHour zone events).map HourCount.count).sum = events.length ∧
    ((presenceHeatmap zone events).map HeatmapCell.count).sum =
      (events.filter fun e => e.status = "granted").length ∧
    (∀ c ∈ accessByHour zone events,
      (((presenceHeatmap zone events).filter fun cell => cell.hour = (c.hour : ℤ)).map
        HeatmapCell.count).sum ≤ c.count) ∧
    (summaryToday zone today events).total =
      (summaryToday zone today events).granted + (summaryToday zone today events).unknown := by
  refine ⟨?_, ?_, ?_, ?_, summaryToday_total zone today h⟩
  · rw [accessByHour_eq, List.map_map]
    exact List.map_id _
  · rw [accessByHour_eq, List.map_map]
    exact sum_atHour zone events
  · have hall := sum_presenceHeatmap zone (fun _ => true) events
    simpa using hall
  · intro c hc
    rw [accessByHour_eq, List.mem_map] at hc
    obtain ⟨n, -, rfl⟩ := hc
    rw [sum_presenceHeatmap zone (fun k => k = (n : ℤ))]
    exact List.filter_sublist.countP_le

/-- Two rows around 1970-01-01 00:00 UTC, the evening before in local time. -/
def epochRows : List (AccessEventRow ℤ) :=
  [⟨1, none, "unknown", none, -1, none, "in"⟩, ⟨2, some 7, "granted", none, 0, none, "in"⟩]

theorem counts_conserved_epoch :
    let zone : Zone := fun ms => ms - 3 * hourMs
    (∀ e ∈ epochRows, e.Checked) ∧
    (accessByHour zone epochRows).map HourCount.hour = List.range 24 ∧
    ((accessByHour zone epochRows).map HourCount.count).sum = 2 ∧
    ((presenceHeatmap zone epochRows).map HeatmapCell.count).sum = 1 ∧
    (∀ c ∈ accessByHour zone epochRows,
      (((presenceHeatmap zone epochRows).filter fun cell => cell.hour = (c.hour : ℤ)).map
        HeatmapCell.count).sum ≤ c.count) ∧
    (summaryToday zone (-1) epochRows).total =
      (summaryToday zone (-1) epochRows).granted + (summaryToday zone (-1) epochRows).unknown :=
  ⟨by decide, counts_conserved _ (-1) epochRows (by decide)⟩

/-! ## present-today -/

variable {zone : Zone} {today : ℤ} {db : Database K}

/-- The times of an employee's granted events of the day, in one direction. -/
def grantedTimes (zone : Zone) (today : ℤ) (direction : String) (db : Database K) (id : ℤ) :
    Set ℤ :=
  {t | ∃ e ∈ db.accessEvents.rows, e.status = "granted" ∧ e.direction = direction ∧
    e.employeeId = some id ∧ date zone e.timestampMs = today ∧ e.timestampMs = t}

/-- The entries of the day that are later than every exit of the day. -/
def entries (zone : Zone) (today : ℤ) (db : Database K) (id : ℤ) : Set ℤ :=
  {t | t ∈ grantedTimes zone today "in" db id ∧
    ∀ o ∈ grantedTimes zone today "out" db id, o < t}

theorem mem_grantedTimes {direction : String} {id t : ℤ} :
    t ∈ grantedTimes zone today direction db id ↔
      (id, t) ∈ onDay zone today (grantedEvents direction db) := by
  unfold grantedTimes onDay grantedEvents
  simp only [Set.mem_ofPred_eq, List.mem_filter, List.mem_filterMap, decide_eq_true_eq]
  constructor
  · rintro ⟨e, he, hstatus, hdir, hid, hday, rfl⟩
    refine ⟨⟨e, he, ?_⟩, hday⟩
    rw [if_pos ⟨hstatus, hdir⟩, hid]
    rfl
  · rintro ⟨⟨e, he, hrow⟩, hday⟩
    split at hrow
    · rename_i hkind
      obtain ⟨id', hid, hpair⟩ := Option.map_eq_some_iff.mp hrow
      cases hpair
      exact ⟨e, he, hkind.1, hkind.2, hid, hday, rfl⟩
    · cases hrow

theorem lastOf_eq_some {events : List (ℤ × ℤ)} {id m : ℤ} :
    lastOf events id = some m ↔ IsGreatest {t | (id, t) ∈ events} m := by
  have hmem : ∀ t, t ∈ (events.filter fun p => p.1 = id).map Prod.snd ↔ (id, t) ∈ events := by
    intro t
    rw [List.mem_map]
    constructor
    · rintro ⟨p, hp, rfl⟩
      obtain ⟨hp, hid⟩ := List.mem_filter.mp hp
      rw [← of_decide_eq_true hid]
      exact hp
    · intro ht
      exact ⟨(id, t), List.mem_filter.mpr ⟨ht, decide_eq_true rfl⟩, rfl⟩
  unfold lastOf
  rw [List.max?_eq_some_iff, hmem]
  refine and_congr_right fun _ => ?_
  exact forall_congr' fun t => by rw [hmem]; rfl

theorem lastOf_eq_none {events : List (ℤ × ℤ)} {id : ℤ} (h : lastOf events id = none) (t : ℤ) :
    (id, t) ∉ events := by
  intro ht
  have hnil := List.map_eq_nil_iff.mp (List.max?_eq_none_iff.mp h)
  have hmem : (id, t) ∈ events.filter fun p => p.1 = id :=
    List.mem_filter.mpr ⟨ht, decide_eq_true rfl⟩
  rw [hnil] at hmem
  cases hmem

theorem lastOf_granted {direction : String} {id m : ℤ} :
    lastOf (onDay zone today (grantedEvents direction db)) id = some m ↔
      IsGreatest (grantedTimes zone today direction db id) m := by
  have hset : grantedTimes zone today direction db id =
      {t | (id, t) ∈ onDay zone today (grantedEvents direction db)} :=
    Set.ext fun _ => mem_grantedTimes
  rw [lastOf_eq_some, hset]

/-- Before a time lies every exit, when the last one does. -/
theorem exits_lt {id m : ℤ} :
    (∀ o ∈ lastOf (onDay zone today (grantedEvents "out" db)) id, o < m) ↔
      ∀ o ∈ grantedTimes zone today "out" db id, o < m := by
  cases h : lastOf (onDay zone today (grantedEvents "out" db)) id with
  | none =>
    constructor
    · intro _ o ho
      exact absurd (mem_grantedTimes.mp ho) (lastOf_eq_none h o)
    · intro _ o ho
      cases ho
  | some last =>
    obtain ⟨hlast, hle⟩ := lastOf_granted.mp h
    constructor
    · intro hlt o ho
      exact (hle ho).trans_lt (hlt last rfl)
    · intro hlt o ho
      cases ho
      exact hlt last hlast

/-- The last entry counts if any does. -/
theorem isGreatest_entries {id m : ℤ} : IsGreatest (entries zone today db id) m ↔
    IsGreatest (grantedTimes zone today "in" db id) m ∧
      ∀ o ∈ grantedTimes zone today "out" db id, o < m := by
  constructor
  · rintro ⟨⟨hin, hout⟩, hle⟩
    refine ⟨⟨hin, fun t ht => ?_⟩, hout⟩
    by_contra hlt
    exact hlt (hle ⟨ht, fun o ho => (hout o ho).trans (not_le.mp hlt)⟩)
  · rintro ⟨⟨hin, hle⟩, hout⟩
    exact ⟨⟨hin, hout⟩, fun t ht => hle ht.1⟩

theorem exists_isGreatest_entries {id : ℤ} (h : (entries zone today db id).Nonempty) :
    ∃ m, IsGreatest (entries zone today db id) m := by
  obtain ⟨t, hin, hout⟩ := h
  cases hl : lastOf (onDay zone today (grantedEvents "in" db)) id with
  | none => exact absurd (mem_grantedTimes.mp hin) (lastOf_eq_none hl t)
  | some m =>
    have hm := lastOf_granted.mp hl
    exact ⟨m, isGreatest_entries.mpr ⟨hm, fun o ho => (hout o ho).trans_le (hm.2 hin)⟩⟩

theorem mem_presentTodayRows_iff {r : PresentEmployee} : r ∈ presentTodayRows zone today db ↔
    (db.employees.find r.employeeId).map EmployeeRow.name = some r.name ∧
      IsGreatest (entries zone today db r.employeeId) r.lastEntryMs := by
  rw [mem_presentTodayRows, isGreatest_entries]
  simp only [lastOf_granted, exits_lt, Option.map_eq_some_iff]
  constructor
  · rintro ⟨emp, hemp, hname, hin, hout⟩
    exact ⟨⟨emp, hemp, hname.symm⟩, hin, hout⟩
  · rintro ⟨⟨emp, hemp, hname⟩, hin, hout⟩
    exact ⟨emp, hemp, hname.symm, hin, hout⟩

/-- The employees present are those with an entry after every exit. -/
theorem mem_present_ids {id : ℤ} :
    id ∈ (presentTodayRows zone today db).map PresentEmployee.employeeId ↔
      (db.employees.find id).isSome ∧ (entries zone today db id).Nonempty := by
  rw [List.mem_map]
  constructor
  · rintro ⟨r, hr, rfl⟩
    obtain ⟨hname, hlast⟩ := mem_presentTodayRows_iff.mp hr
    obtain ⟨emp, hemp, -⟩ := Option.map_eq_some_iff.mp hname
    exact ⟨Option.isSome_of_mem hemp, r.lastEntryMs, hlast.1⟩
  · rintro ⟨hemp, hne⟩
    obtain ⟨emp, hemp⟩ := Option.isSome_iff_exists.mp hemp
    obtain ⟨m, hm⟩ := exists_isGreatest_entries hne
    exact ⟨⟨id, emp.name, m⟩, mem_presentTodayRows_iff.mpr ⟨by rw [hemp]; rfl, hm⟩, rfl⟩

/-- The lists the query may return. -/
theorem presentToday_iff (zone : Zone) (today : ℤ) (db : Database K)
    (answer : List PresentEmployee) :
    presentToday zone today db answer ↔
      (answer.map PresentEmployee.employeeId).Nodup ∧
      (∀ id, id ∈ answer.map PresentEmployee.employeeId ↔
        (db.employees.find id).isSome ∧ (entries zone today db id).Nonempty) ∧
      (∀ r ∈ answer, (db.employees.find r.employeeId).map EmployeeRow.name = some r.name ∧
        IsGreatest (entries zone today db r.employeeId) r.lastEntryMs) ∧
      NewestFirst PresentEmployee.lastEntryMs answer := by
  have hnodup := nodup_presentTodayRows zone today db
  constructor
  · rintro ⟨hperm, hsorted⟩
    have hids := hperm.map PresentEmployee.employeeId
    refine ⟨hids.nodup_iff.mpr hnodup, fun id => hids.mem_iff.trans mem_present_ids, ?_, hsorted⟩
    exact fun r hr => mem_presentTodayRows_iff.mp (hperm.mem_iff.mp hr)
  · rintro ⟨hdistinct, hids, hrows, hsorted⟩
    refine ⟨?_, hsorted⟩
    have hsub : ∀ r ∈ answer, r ∈ presentTodayRows zone today db := fun r hr =>
      mem_presentTodayRows_iff.mpr (hrows r hr)
    refine (List.perm_ext_iff_of_nodup hdistinct.of_map hnodup.of_map).mpr fun r => ⟨hsub r, ?_⟩
    intro hr
    -- the employee is in the answer, and has one row in the tables
    have hid := (hids r.employeeId).mpr (mem_present_ids.mp (List.mem_map_of_mem hr))
    obtain ⟨r', hr', hid'⟩ := List.mem_map.mp hid
    rw [← List.inj_on_of_nodup_map hnodup (hsub r' hr') hr hid']
    exact hr'

end FaceGate.L4.Dashboard
