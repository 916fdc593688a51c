import FaceGate.Core.Calendar
import FaceGate.L4Backend.Analytics
import FaceGate.L4Backend.Events

/-!
# The unrecognised faces of the last seven days

`loadUnknowns` asks for the 200 newest unknown events and counts them by date. An event
older than 7 x 24 hours is skipped, the others go to the bucket whose label, a day and a
month, is theirs. The browser is in Sao Paulo: its dates are those of `zone`.

* `loadUnknowns_eq_some`: what is counted, for any response.
* `exact_iff`: the counts are exact if for each day as many of its events are missed as
  events of other days are counted for it; in Sao Paulo's offset, and with no event in the
  future, exactly if no more than 200 events lie in the seven days.
-/
namespace FaceGate.L4.Unknowns

open Core Core.Calendar Core.Grouping Core.Keyed Core.Paging FaceGate.L4.Analytics
  FaceGate.L4.Events

variable {K : Type}

/-! ## The page -/

/-- `format` throws a RangeError for an invalid date.
mirrors panel/src/app/dashboard/dashboard.page.ts:247-254 -/
def spDayKey (zone : Zone) (ms : ℤ) : Option String :=
  (timeClip ms).map fun ms => dayMonth (date zone ms)

/-- The dates of `setDate(getDate() - i)`, for `i` from 6 to 0. -/
def lastSeven (zone : Zone) (now : ℤ) : List ℤ :=
  [6, 5, 4, 3, 2, 1, 0].map fun i => date zone now - i

/-- mirrors panel/src/app/dashboard/dashboard.page.ts:122-126 -/
structure UnknownStats (K : Type) where
  naoRecCount : ℕ
  naoRecPorDia : List (String × ℕ)
  maxNaoRecPorDia : ℕ
  ultimosNaoRec : List (EventRow K)
  deriving DecidableEq

/-- `Map<string, number>` -/
abbrev Buckets := String → Option ℕ

/-- mirrors panel/src/app/dashboard/dashboard.page.ts:208-216 -/
def emptyBuckets (labels : List String) : Buckets := fun key =>
  if key ∈ labels then some 0 else none

/-- One round of the loop; `none`: it throws.
mirrors panel/src/app/dashboard/dashboard.page.ts:221-228 -/
def countRow (zone : Zone) (cutoff : ℤ) (s : Buckets × ℕ) (r : EventRow K) :
    Option (Buckets × ℕ) :=
  if r.timestampMs < cutoff then some s
  else (spDayKey zone r.timestampMs).map fun key =>
    match s.1 key with
    | some n => (Function.update s.1 key (some (n + 1)), s.2 + 1)
    | none => s

def unknownsQuery : EventsQuery := ⟨none, some "unknown", none, none, some 200, none⟩

def cutoff (now : ℤ) : ℤ := now - 7 * dayMs

/-- What the page shows once the response is there; `none`: what it showed before.
mirrors panel/src/app/dashboard/dashboard.page.ts:205-240 -/
def loadUnknowns (zone : Zone) (now : ℤ) (rows : List (EventRow K)) : Option (UnknownStats K) := do
  let dayLabels := (lastSeven zone now).map dayMonth
  let (byDay, count) ← rows.foldlM (countRow zone (cutoff now)) (emptyBuckets dayLabels, 0)
  let naoRecPorDia := dayLabels.map fun dia => (dia, (byDay dia).getD 0)
  return {
    naoRecCount := count
    naoRecPorDia := naoRecPorDia
    maxNaoRecPorDia := (naoRecPorDia.map Prod.snd).foldl max 1
    ultimosNaoRec := rows.take 6 }

/-! ## What it is to show -/

/-- The times of the unknown events, newest first. -/
def unknownTimes (db : Database K) : List ℤ :=
  ((db.accessEvents.rows.filter fun e => e.status = "unknown").map
    AccessEventRow.timestampMs).mergeSort fun a b => b ≤ a

def onDate (zone : Zone) (db : Database K) (d : ℤ) : ℕ :=
  (unknownTimes db).countP fun t => date zone t = d

/-- The times that are fetched. -/
def fetched (db : Database K) : List ℤ := (unknownTimes db).take 200

/-- Events of a date that are not counted: behind the 200 newest, or before the cutoff. -/
def missed (zone : Zone) (now : ℤ) (db : Database K) (d : ℤ) : ℕ :=
  ((unknownTimes db).drop 200).countP (fun t => date zone t = d) +
    (fetched db).countP fun t => t < cutoff now && decide (date zone t = d)

/-- Events of another date that are counted for it, having its day and month. -/
def foreign (zone : Zone) (now : ℤ) (db : Database K) (d : ℤ) : ℕ :=
  (fetched db).countP fun t =>
    cutoff now ≤ t && (decide (date zone t ≠ d) && decide (dayMonth (date zone t) = dayMonth d))

/-- The counter and the buckets are the numbers of unknown events of the last seven dates. -/
structure Exact (zone : Zone) (now : ℤ) (db : Database K) (stats : UnknownStats K) : Prop where
  perDay : stats.naoRecPorDia = (lastSeven zone now).map fun d => (dayMonth d, onDate zone db d)
  count : stats.naoRecCount =
    (unknownTimes db).countP fun t => date zone t ∈ lastSeven zone now
  sum : stats.naoRecCount = (stats.naoRecPorDia.map Prod.snd).sum

/-! ## The loop -/

/-- Counted for a label. -/
def counted (zone : Zone) (cutoff : ℤ) (key : String) (t : ℤ) : Bool :=
  cutoff ≤ t && dayMonth (date zone t) = key

/-- Counted for any of the labels. -/
def countedAny (zone : Zone) (cutoff : ℤ) (labels : List String) (t : ℤ) : Bool :=
  cutoff ≤ t && dayMonth (date zone t) ∈ labels

variable {zone : Zone} {c now : ℤ} {labels : List String} {s : Buckets × ℕ}

/-- The labels are the keys of the map. -/
def Labelled (labels : List String) (byDay : Buckets) : Prop :=
  ∀ key, (byDay key).isSome = true ↔ key ∈ labels

theorem labelled_empty (labels : List String) : Labelled labels (emptyBuckets labels) := by
  intro key
  unfold emptyBuckets
  split <;> simp_all

/-- What a row of a valid time does to the counts. -/
theorem countRow_spec (hs : Labelled labels s.1) {r : EventRow K}
    (hr : c ≤ r.timestampMs → (timeClip r.timestampMs).isSome = true) :
    ∃ s', countRow zone c s r = some s' ∧ Labelled labels s'.1 ∧
      (∀ key, s'.1 key =
        (s.1 key).map (· + if counted zone c key r.timestampMs = true then 1 else 0)) ∧
      s'.2 = s.2 + if countedAny zone c labels r.timestampMs = true then 1 else 0 := by
  by_cases hold : r.timestampMs < c
  · have hnot : ¬ c ≤ r.timestampMs := not_le.mpr hold
    exact ⟨s, if_pos hold, hs, by simp [counted, hnot], by simp [countedAny, hnot]⟩
  · have hge : c ≤ r.timestampMs := not_lt.mp hold
    obtain ⟨t, ht⟩ := Option.isSome_iff_exists.mp (hr hge)
    obtain rfl : r.timestampMs = t := by
      unfold timeClip at ht
      split at ht
      · exact Option.some.inj ht
      · cases ht
    let key := dayMonth (date zone r.timestampMs)
    have hrow : countRow zone c s r = some (match s.1 key with
        | some n => (Function.update s.1 key (some (n + 1)), s.2 + 1)
        | none => s) := by
      rw [countRow, if_neg hold, spDayKey, ht]
      rfl
    rw [hrow]
    cases hkey : s.1 key with
    | none =>
      have hnot : key ∉ labels := fun hmem => by simpa [hkey] using (hs key).mpr hmem
      refine ⟨s, rfl, hs, fun k => ?_, by simp [countedAny, hge, key, hnot]⟩
      by_cases hk : key = k
      · rw [← hk, hkey]
        rfl
      · simp [counted, hge, key, hk]
    | some n =>
      have hmem : key ∈ labels := (hs key).mp (by simp [hkey])
      refine ⟨(Function.update s.1 key (some (n + 1)), s.2 + 1), rfl, fun k => ?_, fun k => ?_,
        by simp [countedAny, hge, key, hmem]⟩
      · by_cases hk : k = key
        · simp [hk, hmem]
        · simpa [Function.update_of_ne hk] using hs k
      · by_cases hk : k = key
        · simp [hk, hkey, counted, hge, key]
        · have hk' : key ≠ k := Ne.symm hk
          simp [Function.update_of_ne hk, counted, hge, key, hk']

/-- The loop counts the rows of each label. -/
theorem foldlM_countRow {rows : List (EventRow K)} (hs : Labelled labels s.1)
    (hrows : ∀ r ∈ rows, c ≤ r.timestampMs → (timeClip r.timestampMs).isSome = true) :
    ∃ s', rows.foldlM (countRow zone c) s = some s' ∧
      (∀ key, s'.1 key =
        (s.1 key).map (· + (rows.map EventRow.timestampMs).countP (counted zone c key))) ∧
      s'.2 = s.2 + (rows.map EventRow.timestampMs).countP (countedAny zone c labels) := by
  induction rows generalizing s with
  | nil => exact ⟨s, rfl, by simp, by simp⟩
  | cons r rows ih =>
    obtain ⟨s₁, hstep, hs₁, hkeys, hcount⟩ :=
      @countRow_spec _ zone _ _ _ hs r (hrows r List.mem_cons_self)
    obtain ⟨s', hrest, hkeys', hcount'⟩ := ih hs₁ fun a ha => hrows a (List.mem_cons_of_mem _ ha)
    refine ⟨s', ?_, fun key => ?_, ?_⟩
    · rw [List.foldlM_cons, hstep]
      exact hrest
    · rw [hkeys', hkeys, Option.map_map, List.map_cons, List.countP_cons]
      congr 1
      funext n
      simp only [Function.comp_apply]
      omega
    · rw [hcount', hcount, List.map_cons, List.countP_cons]
      omega

/-- A time that is none ends the loop. -/
theorem foldlM_countRow_throws {rows : List (EventRow K)} {r : EventRow K} (hr : r ∈ rows)
    (hc : c ≤ r.timestampMs) (hclip : timeClip r.timestampMs = none) :
    rows.foldlM (countRow zone c) s = none := by
  induction rows generalizing s with
  | nil => cases hr
  | cons a rows ih =>
    rw [List.foldlM_cons]
    rcases List.mem_cons.mp hr with rfl | hr
    · have hnone : countRow zone c s r = none := by
        rw [countRow, if_neg (not_lt.mpr hc), spDayKey, hclip]
        rfl
      rw [hnone]
      rfl
    · cases countRow zone c s a with
      | none => rfl
      | some s' => exact ih hr

/-! ## The seven days -/

theorem mem_lastSeven {d : ℤ} :
    d ∈ lastSeven zone now ↔ date zone now - 6 ≤ d ∧ d ≤ date zone now := by
  simp only [lastSeven, List.map_cons, List.map_nil, List.mem_cons, List.not_mem_nil, or_false]
  omega

theorem nodup_lastSeven (zone : Zone) (now : ℤ) : (lastSeven zone now).Nodup := by
  unfold lastSeven
  refine List.Nodup.map_on ?_ (by decide)
  intro i _ j _ hij
  omega

theorem dayMonth_inj {d e : ℤ} (hd : d ∈ lastSeven zone now) (he : e ∈ lastSeven zone now)
    (h : dayMonth d = dayMonth e) : d = e := by
  rw [mem_lastSeven] at hd he
  exact dayMonth_near (by omega) (by omega) h

theorem nodup_labels (zone : Zone) (now : ℤ) : ((lastSeven zone now).map dayMonth).Nodup :=
  List.Nodup.map_on (fun _ hd _ he h => dayMonth_inj hd he h) (nodup_lastSeven zone now)

/-! ## The counts -/

/-- What `loadUnknowns` shows: the counts of the times that it got. -/
theorem loadUnknowns_eq_some (zone : Zone) (now : ℤ) {rows : List (EventRow K)}
    (hrows : ∀ r ∈ rows, cutoff now ≤ r.timestampMs → (timeClip r.timestampMs).isSome = true) :
    ∃ stats, loadUnknowns zone now rows = some stats ∧
      stats.naoRecPorDia = (lastSeven zone now).map (fun d => (dayMonth d,
        (rows.map EventRow.timestampMs).countP (counted zone (cutoff now) (dayMonth d)))) ∧
      stats.naoRecCount = (rows.map EventRow.timestampMs).countP
        (countedAny zone (cutoff now) ((lastSeven zone now).map dayMonth)) := by
  let labels := (lastSeven zone now).map dayMonth
  obtain ⟨s', hfold, hkeys, hcount⟩ := @foldlM_countRow _ zone _ _ (emptyBuckets labels, 0) _
    (labelled_empty labels) hrows
  refine ⟨_, by rw [loadUnknowns, hfold]; rfl, ?_, ?_⟩
  · rw [List.map_map]
    refine List.map_congr_left fun d hd => ?_
    have hmem : dayMonth d ∈ labels := List.mem_map_of_mem hd
    simp only [Function.comp_apply, hkeys, emptyBuckets, if_pos hmem, Option.map_some,
      Option.getD_some, Nat.zero_add]
  · simp only [hcount, Nat.zero_add]
    rfl

section Response
variable {db : Database K} {response : List (EventRow K)}

theorem newestFirst_unknownTimes (db : Database K) : NewestFirst id (unknownTimes db) :=
  (answer_mergeSort id _).sorted

/-- Whatever the order of events at one time, the times are these. -/
theorem times_eq_fetched (h : events db unknownsQuery response) :
    response.map EventRow.timestampMs = fetched db := by
  obtain ⟨order, horder, rfl⟩ := h
  have hselects : (unknownsQuery.selects : AccessEventRow K → Bool) =
      fun e => decide (e.status = "unknown") := by
    funext e
    simp [EventsQuery.selects, unknownsQuery]
  have hperm : (order.map EventRow.timestampMs).Perm (unknownTimes db) := by
    refine (horder.perm.map _).trans ?_
    rw [matching, List.map_map, hselects]
    exact (List.mergeSort_perm _ _).symm
  have htimes : order.map EventRow.timestampMs = unknownTimes db :=
    hperm.eq_of_pairwise' (newestFirst_iff.mp horder.sorted)
      (by simpa using newestFirst_iff.mp (newestFirst_unknownTimes db))
  rw [fetched, ← htimes, ← List.map_take]
  rfl

/-- A bucket is the day's events, less what is missed, and what is foreign. -/
theorem countP_counted (zone : Zone) (now : ℤ) (db : Database K) (d : ℤ) :
    (fetched db).countP (counted zone (cutoff now) (dayMonth d)) + missed zone now db d =
      onDate zone db d + foreign zone now db d := by
  have hall : onDate zone db d = (fetched db).countP (fun t => date zone t = d) +
      ((unknownTimes db).drop 200).countP fun t => date zone t = d := by
    rw [fetched, ← List.countP_append, List.take_append_drop]
    rfl
  have hone : ∀ l : List ℤ, l.countP (counted zone (cutoff now) (dayMonth d)) +
      l.countP (fun t => t < cutoff now && decide (date zone t = d)) =
      l.countP (fun t => date zone t = d) + l.countP fun t => cutoff now ≤ t &&
        (decide (date zone t ≠ d) && decide (dayMonth (date zone t) = dayMonth d)) := by
    intro l
    induction l with
    | nil => rfl
    | cons t l ih =>
      have hstep : ∀ b : Bool, (if b = true then 1 else 0) = b.toNat := by decide
      simp only [List.countP_cons, hstep] at ih ⊢
      have ht : (counted zone (cutoff now) (dayMonth d) t).toNat +
          (t < cutoff now && decide (date zone t = d)).toNat =
          (decide (date zone t = d)).toNat + (cutoff now ≤ t &&
            (decide (date zone t ≠ d) && decide (dayMonth (date zone t) = dayMonth d))).toNat := by
        by_cases hd : date zone t = d
        · rcases lt_or_ge t (cutoff now) with hlt | hge
          · simp [counted, hd, hlt, not_le.mpr hlt]
          · simp [counted, hd, hge, not_lt.mpr hge]
        · simp [counted, hd]
      omega
  have hfetched := hone (fetched db)
  rw [hall, missed, foreign]
  omega

theorem sum_onDate (zone : Zone) (now : ℤ) (db : Database K) :
    ((lastSeven zone now).map (onDate zone db)).sum =
      (unknownTimes db).countP fun t => date zone t ∈ lastSeven zone now := by
  have h := sum_countP_mem (date zone) (nodup_lastSeven zone now) (fun _ => true) (unknownTimes db)
  simp only [Bool.true_and] at h
  exact h

/-- The counter is the sum of the buckets, whatever they hold. -/
theorem sum_counted (zone : Zone) (now : ℤ) (l : List ℤ) :
    ((lastSeven zone now).map fun d => l.countP (counted zone (cutoff now) (dayMonth d))).sum =
      l.countP (countedAny zone (cutoff now) ((lastSeven zone now).map dayMonth)) := by
  have h := sum_countP_mem (fun t => dayMonth (date zone t)) (nodup_labels zone now)
    (fun t => decide (cutoff now ≤ t)) l
  rwa [List.map_map] at h

/-- What is to be balanced, day by day, and that the loop goes through. -/
structure Balanced (zone : Zone) (now : ℤ) (db : Database K) : Prop where
  valid : ∀ t ∈ fetched db, cutoff now ≤ t → (timeClip t).isSome = true
  days : ∀ d ∈ lastSeven zone now, missed zone now db d = foreign zone now db d

/-- The page shows the numbers of the last seven dates. -/
def ShowsExact (zone : Zone) (now : ℤ) (db : Database K) (response : List (EventRow K)) : Prop :=
  ∃ stats, loadUnknowns zone now response = some stats ∧ Exact zone now db stats

/-- Counts that are those of the dates, one by one. -/
theorem exact_of_days {stats : UnknownStats K}
    (hperDay : stats.naoRecPorDia = (lastSeven zone now).map fun d => (dayMonth d,
      (fetched db).countP (counted zone (cutoff now) (dayMonth d))))
    (hcount : stats.naoRecCount =
      (fetched db).countP (countedAny zone (cutoff now) ((lastSeven zone now).map dayMonth)))
    (hdays : ∀ d ∈ lastSeven zone now,
      (fetched db).countP (counted zone (cutoff now) (dayMonth d)) = onDate zone db d) :
    Exact zone now db stats := by
  have hall : stats.naoRecCount = ((lastSeven zone now).map (onDate zone db)).sum := by
    rw [hcount, ← sum_counted, List.map_congr_left hdays]
  have hbuckets : stats.naoRecPorDia =
      (lastSeven zone now).map fun d => (dayMonth d, onDate zone db d) := by
    rw [hperDay]
    exact List.map_congr_left fun d hd => by rw [hdays d hd]
  refine ⟨hbuckets, by rw [hall, sum_onDate], ?_⟩
  rw [hall, hbuckets, List.map_map]
  rfl

theorem showsExact_iff (zone : Zone) (now : ℤ) (h : events db unknownsQuery response) :
    ShowsExact zone now db response ↔ Balanced zone now db := by
  have htimes := times_eq_fetched h
  have hmem : ∀ t, t ∈ fetched db ↔ ∃ r ∈ response, r.timestampMs = t := by
    intro t
    rw [← htimes, List.mem_map]
  by_cases hvalid : ∀ t ∈ fetched db, cutoff now ≤ t → (timeClip t).isSome = true
  · obtain ⟨stats, hstats, hperDay, hcount⟩ := loadUnknowns_eq_some zone now
      fun r hr => hvalid _ ((hmem _).mpr ⟨r, hr, rfl⟩)
    rw [htimes] at hperDay hcount
    constructor
    · rintro ⟨_, hsome, hexact⟩
      cases hstats.symm.trans hsome
      refine ⟨hvalid, fun d hd => ?_⟩
      have hday := List.map_inj_left.mp (hperDay.symm.trans hexact.perDay) d hd
      have hbalance := countP_counted zone now db d
      have hsnd := (Prod.mk.inj hday).2
      omega
    · rintro ⟨-, hdays⟩
      refine ⟨stats, hstats, exact_of_days hperDay hcount fun d hd => ?_⟩
      have hbalance := countP_counted zone now db d
      have hday := hdays d hd
      omega
  · refine iff_of_false ?_ fun hbalanced => hvalid hbalanced.valid
    push Not at hvalid
    obtain ⟨t, ht, hc, hclip⟩ := hvalid
    obtain ⟨r, hr, rfl⟩ := (hmem t).mp ht
    rintro ⟨_, hsome, -⟩
    have hnone := Option.not_isSome_iff_eq_none.mp hclip
    rw [loadUnknowns, foldlM_countRow_throws hr hc hnone] at hsome
    cases hsome

/-! ## Sao Paulo -/

/-- Three hours behind UTC, all the year. -/
def saoPaulo : Zone := fun ms => ms - 3 * hourMs

/-- Its dates go with the times. -/
theorem date_saoPaulo_mono {t t' : ℤ} (h : t ≤ t') : date saoPaulo t ≤ date saoPaulo t' := by
  simp only [date, saoPaulo, hourMs, dayMs]
  omega

theorem date_before_cutoff {t : ℤ} (h : t < cutoff now) :
    date saoPaulo t ≤ date saoPaulo now - 7 := by
  simp only [cutoff, date, saoPaulo, hourMs, dayMs] at h ⊢
  omega

theorem date_after_cutoff {t : ℤ} (h : cutoff now ≤ t) :
    date saoPaulo now - 7 ≤ date saoPaulo t := by
  simp only [cutoff, date, saoPaulo, hourMs, dayMs] at h ⊢
  omega

/-- Nothing of another year is counted. -/
theorem foreign_saoPaulo (hpast : ∀ t ∈ unknownTimes db, t ≤ now) {d : ℤ}
    (hd : d ∈ lastSeven saoPaulo now) : foreign saoPaulo now db d = 0 := by
  rw [foreign, List.countP_eq_zero]
  intro t ht hcounted
  simp only [Bool.and_eq_true, decide_eq_true_eq] at hcounted
  obtain ⟨hc, hne, heq⟩ := hcounted
  have hle := date_saoPaulo_mono (hpast t (List.take_subset _ _ ht))
  have hge := date_after_cutoff hc
  rw [mem_lastSeven] at hd
  exact hne (dayMonth_near (by omega) (by omega) heq)

/-- Nothing of the seven days is skipped. -/
theorem missed_saoPaulo {d : ℤ} (hd : d ∈ lastSeven saoPaulo now) :
    missed saoPaulo now db d =
      ((unknownTimes db).drop 200).countP fun t => date saoPaulo t = d := by
  rw [missed, Nat.add_eq_left, List.countP_eq_zero]
  intro t _ hskipped
  simp only [Bool.and_eq_true, decide_eq_true_eq] at hskipped
  have hle := date_before_cutoff hskipped.1
  rw [mem_lastSeven] at hd
  omega

/-- The times of the seven days are the newest, since none is in the future. -/
theorem lastSeven_newest (hpast : ∀ t ∈ unknownTimes db, t ≤ now) :
    (unknownTimes db).Pairwise fun a b =>
      decide (date saoPaulo b ∈ lastSeven saoPaulo now) = true →
        decide (date saoPaulo a ∈ lastSeven saoPaulo now) = true := by
  refine List.Pairwise.imp_of_mem ?_ (newestFirst_unknownTimes db)
  intro a b ha _ hab hb
  rw [decide_eq_true_eq, mem_lastSeven] at hb ⊢
  have hle := date_saoPaulo_mono hab
  have hnow := date_saoPaulo_mono (hpast a ha)
  simp only [id_eq] at hle
  omega

theorem balanced_saoPaulo_iff (hfirst : (timeClip (cutoff now)).isSome = true)
    (hlast : (timeClip now).isSome = true) (hpast : ∀ t ∈ unknownTimes db, t ≤ now) :
    Balanced saoPaulo now db ↔
      (unknownTimes db).countP (fun t => date saoPaulo t ∈ lastSeven saoPaulo now) ≤ 200 := by
  have hvalid : ∀ t ∈ fetched db, cutoff now ≤ t → (timeClip t).isSome = true := by
    intro t ht hc
    have hle := hpast t (List.take_subset _ _ ht)
    simp only [timeClip, Option.isSome_ite] at hfirst hlast ⊢
    omega
  rw [← countP_drop_eq_zero (lastSeven_newest hpast)]
  constructor
  · rintro ⟨-, hdays⟩
    rw [List.countP_eq_zero]
    intro t ht hday
    have hd := of_decide_eq_true hday
    have hnone := hdays _ hd
    rw [missed_saoPaulo hd, foreign_saoPaulo hpast hd, List.countP_eq_zero] at hnone
    exact hnone t ht (decide_eq_true rfl)
  · intro hnone
    refine ⟨hvalid, fun d hd => ?_⟩
    rw [missed_saoPaulo hd, foreign_saoPaulo hpast hd, List.countP_eq_zero]
    intro t ht hday
    obtain rfl := of_decide_eq_true hday
    exact List.countP_eq_zero.mp hnone t ht (decide_eq_true hd)

/-- **Exactness.** For any zone, exactly if what is missed and what is foreign balance; in Sao
Paulo's offset and with no event in the future, exactly if 200 rows are enough. -/
theorem exact_iff (now : ℤ) (h : events db unknownsQuery response) :
    (∀ zone, ShowsExact zone now db response ↔ Balanced zone now db) ∧
    ((timeClip (cutoff now)).isSome = true → (timeClip now).isSome = true →
      (∀ t ∈ unknownTimes db, t ≤ now) →
      (ShowsExact saoPaulo now db response ↔
        (unknownTimes db).countP (fun t => date saoPaulo t ∈ lastSeven saoPaulo now) ≤ 200)) := by
  refine ⟨fun zone => showsExact_iff zone now h, fun hfirst hlast hpast => ?_⟩
  rw [showsExact_iff saoPaulo now h, balanced_saoPaulo_iff hfirst hlast hpast]

end Response

/-! ## A stranger before the door -/

/-- A second apart, on the evening of 28 May 2026. -/
def evening (i : ℕ) : ℤ := 1780000000000 + 1000 * i

theorem unknownTimes_strangerOnly (times : ℕ → ℤ) (n : ℕ) :
    (unknownTimes (strangerOnly times n)).Perm ((List.range n).map times) := by
  refine (List.mergeSort_perm _ _).trans ?_
  have hall : (strangerOnly times n).accessEvents.rows.filter (fun e => e.status = "unknown") =
      (strangerOnly times n).accessEvents.rows :=
    List.filter_eq_self.mpr fun e he => by
      obtain ⟨i, -, rfl⟩ := List.mem_map.mp he
      rfl
  rw [hall, rows_strangerOnly, List.map_map]
  exact List.Perm.refl _

theorem mem_evening {n : ℕ} {t : ℤ} (h : t ∈ unknownTimes (strangerOnly evening n)) :
    ∃ i < n, t = 1780000000000 + 1000 * i := by
  obtain ⟨i, hi, rfl⟩ := List.mem_map.mp ((unknownTimes_strangerOnly evening n).mem_iff.mp h)
  exact ⟨i, List.mem_range.mp hi, rfl⟩

/-- Two sightings are counted, five minutes later. -/
theorem exact_two : ∃ response : List (EventRow ExtRat),
    events (strangerOnly evening 2) unknownsQuery response ∧
      ShowsExact saoPaulo 1780000300000 (strangerOnly evening 2) response := by
  obtain ⟨response, h⟩ := exists_events (strangerOnly evening 2) unknownsQuery
  refine ⟨response, h, ((exact_iff 1780000300000 h).2 (by decide) (by decide) ?_).mpr ?_⟩
  · intro t ht
    obtain ⟨i, hi, rfl⟩ := mem_evening ht
    omega
  · refine List.countP_le_length.trans ?_
    rw [(unknownTimes_strangerOnly evening 2).length_eq]
    decide

/-- Of 201 sightings of one evening 200 are counted. -/
theorem exact_fails : ∃ response : List (EventRow ExtRat),
    events (strangerOnly evening 201) unknownsQuery response ∧
      ¬ ShowsExact saoPaulo 1780000300000 (strangerOnly evening 201) response := by
  obtain ⟨response, h⟩ := exists_events (strangerOnly evening 201) unknownsQuery
  have hpast : ∀ t ∈ unknownTimes (strangerOnly evening 201), t ≤ 1780000300000 := by
    intro t ht
    obtain ⟨i, hi, rfl⟩ := mem_evening ht
    omega
  refine ⟨response, h, fun hshows => ?_⟩
  rw [showsExact_iff saoPaulo _ h,
    balanced_saoPaulo_iff (by decide) (by decide) hpast] at hshows
  have hall : (unknownTimes (strangerOnly evening 201)).countP
      (fun t => date saoPaulo t ∈ lastSeven saoPaulo 1780000300000) = 201 := by
    rw [(unknownTimes_strangerOnly evening 201).countP_eq]
    refine (List.countP_eq_length.mpr ?_).trans (by rw [List.length_map, List.length_range])
    intro t ht
    obtain ⟨i, hi, rfl⟩ := List.mem_map.mp ht
    rw [List.mem_range] at hi
    rw [decide_eq_true_eq, mem_lastSeven]
    simp only [evening, date, saoPaulo, hourMs, dayMs]
    omega
  omega

end FaceGate.L4.Unknowns
