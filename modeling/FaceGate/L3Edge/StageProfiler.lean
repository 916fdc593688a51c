import FaceGate.Core.Quantile
import FaceGate.L3Edge.MainLoop
import Mathlib.Algebra.Order.Group.Nat
import Mathlib.Data.List.GetD
import Mathlib.Data.List.Sort

/-!
# The stage profiler

`record` pushes the timings of a cycle, one window a stage, and writes a row of the CSV
file; with a summary interval of `N > 0` it prints a summary of the windows every `N`
cycles and clears them. The summary's mean is exact here.

* `summarize_quantiles`: the percentiles of a summary are percentiles of its window.
* `windows_bounded_iff`: the windows stay within the interval exactly if it is positive.
* Nothing else clears them: without summaries, and the CSV file on, every sample is kept
  (`run_disabled`), and none is read.
-/
namespace FaceGate.L3

open Core FaceGate.L1 MainLoop

/-! ## Summaries -/

/-- mirrors edge/src/pipeline/stage_profiler.cpp:22-28 -/
structure StageStats where
  n : ℕ
  meanUs : ℚ
  p50Us : ℤ
  p95Us : ℤ
  maxUs : ℤ
  deriving DecidableEq, Repr

/-- The sample below which lie `percent` of the sorted ones.
mirrors edge/src/pipeline/stage_profiler.cpp:39-45 -/
def pick (sorted : List ℤ) (percent : ℕ) : ℤ :=
  sorted.getD (min (sorted.length - 1) (percent * sorted.length / 100)) 0

/-- mirrors edge/src/pipeline/stage_profiler.cpp:30-50 -/
def summarize (samples : List ℤ) : StageStats :=
  if samples = [] then ⟨0, 0, 0, 0, 0⟩
  else
    let sorted := samples.mergeSort
    { n := samples.length
      meanUs := samples.sum / samples.length
      p50Us := pick sorted 50
      p95Us := pick sorted 95
      maxUs := sorted.getLastD 0 }

theorem getD_mono {l : List ℤ} (hl : l.Pairwise (· ≤ ·)) {i j : ℕ} (hij : i ≤ j)
    (hj : j < l.length) : l.getD i 0 ≤ l.getD j 0 := by
  rcases hij.eq_or_lt with rfl | hlt
  · exact le_refl _
  · rw [List.getD_eq_getElem l 0 (hlt.trans hj), List.getD_eq_getElem l 0 hj]
    exact List.pairwise_iff_getElem.mp hl i j (hlt.trans hj) hj hlt

/-- The median, the 95th percentile and the maximum of the samples are in order. -/
theorem summarize_ordered {samples : List ℤ} (h : samples ≠ []) :
    (summarize samples).p50Us ≤ (summarize samples).p95Us ∧
      (summarize samples).p95Us ≤ (summarize samples).maxUs ∧
      ∀ x ∈ samples, x ≤ (summarize samples).maxUs := by
  have hsorted : samples.mergeSort.Pairwise (· ≤ ·) := List.pairwise_mergeSort' (· ≤ ·) samples
  have hlen : 0 < samples.mergeSort.length := by
    simpa [List.length_mergeSort] using List.length_pos_iff.mpr h
  have hlast : samples.mergeSort.getLastD 0 =
      samples.mergeSort.getD (samples.mergeSort.length - 1) 0 := by
    rw [List.getLastD_eq_getLast?, List.getLast?_eq_getElem?, List.getD_eq_getElem?_getD]
  simp only [summarize, h, if_false, pick, hlast]
  refine ⟨getD_mono hsorted ?_ (by omega), getD_mono hsorted (by omega) (by omega), ?_⟩
  · exact min_le_min_left _ (Nat.div_le_div_right (Nat.mul_le_mul_right _ (by decide)))
  · intro x hx
    have hmem : x ∈ samples.mergeSort := List.mem_mergeSort.mpr hx
    obtain ⟨i, hi, hget⟩ := List.mem_iff_getElem.mp hmem
    rw [← hget, ← List.getD_eq_getElem _ 0 hi]
    exact getD_mono hsorted (by omega) (by omega)

theorem mergeSort_ne_nil {samples : List ℤ} (h : samples ≠ []) : samples.mergeSort ≠ [] := by
  rw [← List.length_pos_iff] at h ⊢
  rwa [List.length_mergeSort]

/-- `pick` reads within the list. -/
theorem getElem?_quantileIndex {sorted : List ℤ} (h : sorted ≠ []) (percent : ℕ) :
    sorted[quantileIndex percent sorted.length]? = some (pick sorted percent) := by
  have hi := quantileIndex_lt percent (List.length_pos_iff.mpr h)
  have hpick : pick sorted percent = sorted[quantileIndex percent sorted.length] :=
    List.getD_eq_getElem _ _ hi
  rw [hpick, List.getElem?_eq_getElem hi]

theorem isQuantile_pick {samples : List ℤ} (h : samples ≠ []) {percent : ℕ}
    (hp : percent ≤ 100) : IsQuantile percent samples (pick samples.mergeSort percent) := by
  have hperm := List.mergeSort_perm samples (fun a b => decide (a ≤ b))
  have hsorted : samples.mergeSort.Pairwise (· ≤ ·) := List.pairwise_mergeSort' (· ≤ ·) samples
  have hne := mergeSort_ne_nil h
  have hi := quantileIndex_lt percent (List.length_pos_iff.mpr hne)
  have hpick : pick samples.mergeSort percent =
      samples.mergeSort[quantileIndex percent samples.mergeSort.length] :=
    List.getD_eq_getElem _ _ hi
  rw [hpick]
  exact (isQuantile_of_sorted hsorted hp hi).perm hperm

/-- **The percentiles of a summary**, its maximum and its mean. -/
theorem summarize_quantiles {samples : List ℤ} (h : samples ≠ []) :
    IsQuantile 50 samples (summarize samples).p50Us ∧
      IsQuantile 95 samples (summarize samples).p95Us ∧
      (summarize samples).p50Us ≤ (summarize samples).p95Us ∧
      (summarize samples).p95Us ≤ (summarize samples).maxUs ∧
      ((summarize samples).maxUs ∈ samples ∧ ∀ x ∈ samples, x ≤ (summarize samples).maxUs) ∧
      (∃ least ∈ samples, (∀ x ∈ samples, least ≤ x) ∧ (least : ℚ) ≤ (summarize samples).meanUs ∧
        (summarize samples).meanUs ≤ (summarize samples).maxUs) ∧
      samples.mergeSort[quantileIndex 50 samples.length]? = some (summarize samples).p50Us ∧
      samples.mergeSort[quantileIndex 95 samples.length]? = some (summarize samples).p95Us := by
  obtain ⟨h50, h95, hmax⟩ := summarize_ordered h
  have hlen : samples.mergeSort.length = samples.length := List.length_mergeSort _
  have hne := mergeSort_ne_nil h
  have hs : summarize samples = ⟨samples.length, samples.sum / samples.length,
      pick samples.mergeSort 50, pick samples.mergeSort 95, samples.mergeSort.getLastD 0⟩ := by
    simp only [summarize, h, if_false]
  rw [hs] at h50 h95 hmax ⊢
  have hmem : samples.mergeSort.getLastD 0 ∈ samples := by
    rw [List.getLastD_eq_getLast?, List.getLast?_eq_some_getLast hne, Option.getD_some]
    exact List.mem_mergeSort.mp (List.getLast_mem hne)
  refine ⟨isQuantile_pick h (by decide), isQuantile_pick h (by decide), h50, h95, ⟨hmem, hmax⟩,
    ?_, ?_, ?_⟩
  · obtain ⟨least, hmin⟩ := Option.isSome_iff_exists.mp (List.isSome_min?_of_ne_nil h)
    obtain ⟨hleast, hle⟩ := List.min?_eq_some_iff.mp hmin
    exact ⟨least, hleast, hle, mean_bounds h hle hmax⟩
  · rw [← hlen]
    exact getElem?_quantileIndex hne 50
  · rw [← hlen]
    exact getElem?_quantileIndex hne 95

/-- Two ties and an outlier. -/
theorem summarize_quantiles_ties :
    IsQuantile 50 [7, 3, 90, 3] (summarize [7, 3, 90, 3]).p50Us ∧
      IsQuantile 95 [7, 3, 90, 3] (summarize [7, 3, 90, 3]).p95Us :=
  have hall := @summarize_quantiles [7, 3, 90, 3] (by decide)
  ⟨hall.1, hall.2.1⟩

/-! ## The profiler -/

/-- mirrors edge/src/pipeline/stage_profiler.hpp:39-42 -/
structure StageWindow where
  name : String
  samplesUs : List ℤ
  deriving DecidableEq, Repr

/-- mirrors edge/src/pipeline/stage_profiler.cpp:120-125 -/
def StageWindow.push (w : StageWindow) (v : Option ℤ) : StageWindow :=
  { w with samplesUs := w.samplesUs ++ v.toList }

def StageWindow.clear (w : StageWindow) : StageWindow := { w with samplesUs := [] }

/-- `csvOpen`: `csv_.is_open()`.
mirrors edge/src/pipeline/stage_profiler.hpp:48-60 -/
structure StageProfiler where
  csvOpen : Bool
  summaryIntervalCycles : ℤ
  cycleIndex : ℕ
  cyclesSinceSummary : ℕ
  capture : StageWindow
  detect : StageWindow
  embed : StageWindow
  match_ : StageWindow
  publish : StageWindow
  total : StageWindow
  deriving DecidableEq, Repr

/-- A row of the CSV file, or a line on stderr. -/
inductive MetricsOutput where
  | row (cycleIndex : ℕ) (epochMs : ℤ) (sample : CycleSample) (totalUs : ℤ)
  | summary (cycleIndex : ℕ) (stages : List (String × StageStats))
  deriving DecidableEq, Repr

/-- mirrors edge/src/pipeline/stage_profiler.cpp:103-107 -/
def totalUs (sample : CycleSample) : ℤ :=
  sample.capture + sample.detect.getD 0 + sample.embed.getD 0 + sample.match_.getD 0 +
    sample.publish.getD 0

namespace StageProfiler

/-- `opens`: the file can be opened for append.
mirrors edge/src/pipeline/stage_profiler.cpp:63-85 -/
def create (csvPath : String) (summaryIntervalCycles : ℤ) (opens : Bool) : StageProfiler where
  csvOpen := csvPath ≠ "" && opens
  summaryIntervalCycles := summaryIntervalCycles
  cycleIndex := 0
  cyclesSinceSummary := 0
  capture := ⟨"capture", []⟩
  detect := ⟨"detect", []⟩
  embed := ⟨"embed", []⟩
  match_ := ⟨"match", []⟩
  publish := ⟨"publish", []⟩
  total := ⟨"total", []⟩

/-- mirrors edge/src/pipeline/pipeline.cpp:63-67 -/
def ofConfig (cfg : MetricsConfig) (opens : Bool) : Option StageProfiler :=
  if cfg.csvPath ≠ "" ∨ 0 < cfg.summaryIntervalCycles then
    some (create cfg.csvPath cfg.summaryIntervalCycles opens)
  else none

def windows (p : StageProfiler) : List StageWindow :=
  [p.capture, p.detect, p.embed, p.match_, p.publish, p.total]

/-- mirrors edge/src/pipeline/stage_profiler.cpp:147-165 -/
def emitSummary (p : StageProfiler) : StageProfiler × MetricsOutput :=
  ({ p with
      capture := p.capture.clear
      detect := p.detect.clear
      embed := p.embed.clear
      match_ := p.match_.clear
      publish := p.publish.clear
      total := p.total.clear
      cyclesSinceSummary := 0 },
    .summary p.cycleIndex (p.windows.map fun w => (w.name, summarize w.samplesUs)))

/-- mirrors edge/src/pipeline/stage_profiler.cpp:94-108 -/
def pushSample (p : StageProfiler) (sample : CycleSample) : StageProfiler :=
  { p with
    cycleIndex := p.cycleIndex + 1
    cyclesSinceSummary := p.cyclesSinceSummary + 1
    capture := p.capture.push (some sample.capture)
    detect := p.detect.push sample.detect
    embed := p.embed.push sample.embed
    match_ := p.match_.push sample.match_
    publish := p.publish.push sample.publish
    total := p.total.push (some (totalUs sample)) }

/-- mirrors edge/src/pipeline/stage_profiler.cpp:93-118,127-145 -/
def record (p : StageProfiler) (epochMs : ℤ) (sample : CycleSample) :
    StageProfiler × List MetricsOutput :=
  let p := p.pushSample sample
  let rows := if p.csvOpen then [.row p.cycleIndex epochMs sample (totalUs sample)] else []
  if 0 < p.summaryIntervalCycles ∧ p.summaryIntervalCycles ≤ p.cyclesSinceSummary then
    (p.emitSummary.1, rows ++ [p.emitSummary.2])
  else (p, rows)

/-- mirrors edge/src/pipeline/stage_profiler.cpp:87-91 -/
def destroy (p : StageProfiler) : List MetricsOutput :=
  if 0 < p.cyclesSinceSummary ∧ 0 < p.summaryIntervalCycles then [p.emitSummary.2] else []

/-- The calls of `record`, with the wall clock at each. -/
def run (p : StageProfiler) (calls : List (ℤ × CycleSample)) : StageProfiler :=
  calls.foldl (fun p call => (p.record call.1 call.2).1) p

/-- The loop calls `record` exactly if there is a profiler. -/
theorem isSome_ofConfig {K : Type} (cfg : Config K) (opens : Bool) :
    (ofConfig cfg.metrics opens).isSome = (Pipeline.ofConfig cfg).profiler := by
  unfold ofConfig Pipeline.ofConfig
  split <;> simp_all

/-! ## The windows -/

/-- What a call leaves: the windows of a full interval are cleared. -/
theorem record_fst (p : StageProfiler) (epochMs : ℤ) (sample : CycleSample) :
    (p.record epochMs sample).1 =
      if 0 < p.summaryIntervalCycles ∧ p.summaryIntervalCycles ≤ p.cyclesSinceSummary + 1 then
        (p.pushSample sample).emitSummary.1
      else p.pushSample sample :=
  apply_ite Prod.fst _ _ _

/-- The windows hold no more than the cycles since the last summary, fewer than the
interval if there is one. -/
structure Inv (p : StageProfiler) : Prop where
  windows : ∀ w ∈ p.windows, w.samplesUs.length ≤ p.cyclesSinceSummary
  interval : 0 < p.summaryIntervalCycles → p.cyclesSinceSummary < p.summaryIntervalCycles

theorem inv_create (csvPath : String) (interval : ℤ) (opens : Bool) :
    Inv (create csvPath interval opens) where
  windows := by simp [create, windows]
  interval h := h

theorem length_push_le (w : StageWindow) (v : Option ℤ) :
    (w.push v).samplesUs.length ≤ w.samplesUs.length + 1 := by
  cases v <;> simp [StageWindow.push]

theorem windows_pushSample {p : StageProfiler} {sample : CycleSample} {w : StageWindow}
    (h : w ∈ (p.pushSample sample).windows) : ∃ v, ∃ w₀ ∈ p.windows, w = w₀.push v := by
  simp only [windows, pushSample, List.mem_cons, List.not_mem_nil, or_false] at h
  rcases h with rfl | rfl | rfl | rfl | rfl | rfl <;> exact ⟨_, _, by simp [windows], rfl⟩

theorem inv_record {p : StageProfiler} (h : Inv p) (epochMs : ℤ) (sample : CycleSample) :
    Inv (p.record epochMs sample).1 := by
  rw [record_fst]
  split
  · rename_i hfull
    exact ⟨by simp [emitSummary, windows, StageWindow.clear], fun _ => hfull.1⟩
  · rename_i hroom
    refine ⟨fun w hw => ?_, fun hpos => ?_⟩
    · obtain ⟨v, w₀, hw₀, rfl⟩ := windows_pushSample hw
      exact (length_push_le w₀ v).trans (Nat.succ_le_succ (h.windows w₀ hw₀))
    · exact not_le.mp fun hle => hroom ⟨hpos, hle⟩

theorem run_cons (p : StageProfiler) (call : ℤ × CycleSample) (calls : List (ℤ × CycleSample)) :
    p.run (call :: calls) = (p.record call.1 call.2).1.run calls := rfl

theorem inv_run {p : StageProfiler} (h : Inv p) (calls : List (ℤ × CycleSample)) :
    Inv (p.run calls) := by
  induction calls generalizing p with
  | nil => exact h
  | cons call calls ih => exact ih (inv_record h call.1 call.2)

theorem interval_run (p : StageProfiler) (calls : List (ℤ × CycleSample)) :
    (p.run calls).summaryIntervalCycles = p.summaryIntervalCycles := by
  induction calls generalizing p with
  | nil => rfl
  | cons call calls ih =>
    rw [run_cons, ih, record_fst]
    split <;> rfl

/-- Without summaries the samples of every cycle are kept. -/
theorem run_disabled {p : StageProfiler} (h : p.summaryIntervalCycles ≤ 0)
    (calls : List (ℤ × CycleSample)) :
    (p.run calls).capture.samplesUs =
      p.capture.samplesUs ++ calls.map fun call => call.2.capture := by
  induction calls generalizing p with
  | nil => simp [run]
  | cons call calls ih =>
    have hrecord : (p.record call.1 call.2).1 = p.pushSample call.2 := by
      rw [record_fst, if_neg fun hfull => not_lt.mpr h hfull.1]
    rw [run_cons, hrecord, ih (p := p.pushSample call.2) h]
    simp [pushSample, StageWindow.push]

/-- **The windows stay within the summary interval exactly if there is one.** -/
theorem windows_bounded_iff {cfg : MetricsConfig} {opens : Bool} {p : StageProfiler}
    (hp : ofConfig cfg opens = some p) (calls : List (ℤ × CycleSample)) :
    (∀ w ∈ (p.run calls).windows, (w.samplesUs.length : ℤ) ≤ max cfg.summaryIntervalCycles 0) ↔
      calls = [] ∨ 0 < cfg.summaryIntervalCycles := by
  obtain rfl : create cfg.csvPath cfg.summaryIntervalCycles opens = p := by
    unfold ofConfig at hp
    split at hp
    · exact Option.some.inj hp
    · cases hp
  constructor
  · intro h
    refine or_iff_not_imp_right.mpr fun hnone => ?_
    have hcapture := h _ (List.mem_cons_self)
    rw [run_disabled (not_lt.mp hnone), max_eq_right (not_lt.mp hnone)] at hcapture
    exact List.eq_nil_of_length_eq_zero (by simpa [create] using hcapture)
  · rintro (rfl | hpos) w hw
    · have hlen := (inv_create cfg.csvPath cfg.summaryIntervalCycles opens).windows w hw
      simp only [create] at hlen
      omega
    · have hinv := inv_run (inv_create cfg.csvPath cfg.summaryIntervalCycles opens) calls
      have hlen := hinv.windows w hw
      have hlt := hinv.interval (by rw [interval_run]; exact hpos)
      rw [interval_run] at hlt
      refine le_max_of_le_left ?_
      exact (Int.ofNat_le.mpr hlen).trans hlt.le

/-- A frame without a face. -/
def emptyFrame : CycleSample := ⟨5000, some 12000, none, none, none⟩

theorem windows_bounded_every_two :
    ∃ p, ofConfig ⟨"", 2⟩ true = some p ∧
      ∀ w ∈ (p.run [(0, emptyFrame), (33, emptyFrame), (66, emptyFrame)]).windows,
        (w.samplesUs.length : ℤ) ≤ max 2 0 :=
  ⟨_, rfl, (@windows_bounded_iff ⟨"", 2⟩ true _ rfl _).mpr (Or.inr (by decide))⟩

/-- The CSV file alone: a window that grows with every cycle. -/
theorem window_unbounded :
    ∃ p, ofConfig ⟨"metrics.csv", 0⟩ true = some p ∧
      ∀ n, (p.run (List.replicate n (0, emptyFrame))).capture.samplesUs.length = n := by
  refine ⟨create "metrics.csv" 0 true, rfl, fun n => ?_⟩
  rw [run_disabled (by decide)]
  simp [create]

end StageProfiler
end FaceGate.L3
