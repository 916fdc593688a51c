import FaceGate.Core.Keyed
import FaceGate.Core.Scan
import FaceGate.L1Domain.Types

/-!
# The in-memory matcher

`Matcher` holds the enrolled embeddings in a vector (arrival order, overwritten
in place) and answers a query by a linear scan for the smallest cosine distance.

`findMatch_eq` reads the scan as `Core.Scan.scan`; from it `findMatch_perm` says
what the answer on two orders of the same cache has in common, and `findMatch_nan`
what a NaN threshold lets through.
-/
namespace FaceGate.L2.Matcher

open Core Core.Keyed Core.Scan FaceGate.L1.Domain

variable {K : Type}

/-! ## Cache updates -/

/-- mirrors edge/src/vision/matcher.cpp:89-104 -/
def upsert (embedding : Embedding K) (cache : List (Embedding K)) : List (Embedding K) :=
  replaceOrPush Embedding.id embedding cache

/-- mirrors edge/src/vision/matcher.cpp:106-118 -/
def remove (embeddingId : ℤ) (cache : List (Embedding K)) : List (Embedding K) :=
  eraseKey Embedding.id embeddingId cache

/-! ## Distance and search -/

variable [LinearOrder K] [BoundedOrder K] [FloatArith K]

open FloatArith

/-- The accumulators of the loop. -/
structure CosineSums (K : Type) where
  dot : Flt K
  normA : Flt K
  normB : Flt K

def cosineStep (s : CosineSums K) (ab : Flt K × Flt K) : CosineSums K where
  dot := add s.dot (mul ab.1 ab.2)
  normA := add s.normA (mul ab.1 ab.1)
  normB := add s.normB (mul ab.2 ab.2)

/-- mirrors edge/src/vision/matcher.cpp:12-33 -/
def cosineDistance (a b : EmbeddingVector K) : Flt K :=
  let s := (a.toList.zip b.toList).foldl cosineStep ⟨lit 0, lit 0, lit 0⟩
  let denom := mul (sqrt s.normA) (sqrt s.normB)
  if denom < lit (1 / 10 ^ 9) then Flt.inf
  else
    let cosineSimilarity := div s.dot denom
    sub (lit 1) cosineSimilarity

/-- The locals of the search loop. -/
structure Best (K : Type) where
  distance : Flt K
  owner : EmployeeId
  foundAny : Bool

def searchStep (query : EmbeddingVector K) (best : Best K) (entry : Embedding K) : Best K :=
  let dist := cosineDistance query entry.vector
  if dist < best.distance then ⟨dist, entry.owner, true⟩ else best

/-- mirrors edge/src/vision/matcher.cpp:40-63 -/
def findMatch (threshold : Flt K) (cache : List (Embedding K)) (query : EmbeddingVector K) :
    MatchResult K :=
  let best := cache.foldl (searchStep query) ⟨Flt.inf, 0, false⟩
  if !best.foundAny || decide (threshold ≤ best.distance) then none
  else some ⟨best.owner, best.distance⟩

/-- mirrors edge/src/vision/matcher.cpp:70-87 -/
def bestDistance (cache : List (Embedding K)) (query : EmbeddingVector K) : Option (Flt K) :=
  if cache.isEmpty then none
  else
    let best := cache.foldl
      (fun best entry =>
        let dist := cosineDistance query entry.vector
        if dist < best then dist else best)
      Flt.inf
    some best

/-! ## The search as a scan -/

def score (query : EmbeddingVector K) (e : Embedding K) : Flt K := cosineDistance query e.vector

/-- The locals that stand for a state of the scan. -/
def bestOf (s : Flt K × Option (Embedding K)) : Best K :=
  ⟨s.1, (s.2.map Embedding.owner).getD 0, s.2.isSome⟩

theorem searchStep_bestOf (query : EmbeddingVector K) (s : Flt K × Option (Embedding K))
    (e : Embedding K) :
    searchStep query (bestOf s) e = bestOf (scanStep (score query) s e) := by
  unfold searchStep scanStep score
  by_cases h : cosineDistance query e.vector < s.1
  · simp [bestOf, h]
  · simp [bestOf, h]

theorem search_bestOf (query : EmbeddingVector K) (cache : List (Embedding K)) :
    ∀ s, cache.foldl (searchStep query) (bestOf s) =
      bestOf (cache.foldl (scanStep (score query)) s) := by
  induction cache with
  | nil => intro s; rfl
  | cons e cache ih =>
    intro s
    rw [List.foldl_cons, List.foldl_cons, searchStep_bestOf, ih]

theorem findMatch_eq (threshold : Flt K) (cache : List (Embedding K)) (query : EmbeddingVector K) :
    findMatch threshold cache query =
      match scan (score query) cache with
      | (_, none) => none
      | (dist, some e) => if threshold ≤ dist then none else some ⟨e.owner, dist⟩ := by
  have h := search_bestOf query cache (Flt.inf, none)
  change cache.foldl (searchStep query) ⟨Flt.inf, 0, false⟩ = bestOf (scan (score query) cache) at h
  unfold findMatch
  rw [h]
  rcases scan (score query) cache with ⟨dist, _ | e⟩
  · rfl
  · by_cases ht : threshold ≤ dist <;> simp [bestOf, ht]

theorem findMatch_of_scan_none {threshold : Flt K} {cache : List (Embedding K)}
    {query : EmbeddingVector K} {d : Flt K} (h : scan (score query) cache = (d, none)) :
    findMatch threshold cache query = none := by
  rw [findMatch_eq, h]

theorem findMatch_of_scan_some {threshold d : Flt K} {cache : List (Embedding K)}
    {query : EmbeddingVector K} {e : Embedding K} (h : scan (score query) cache = (d, some e)) :
    findMatch threshold cache query = if threshold ≤ d then none else some ⟨e.owner, d⟩ := by
  rw [findMatch_eq, h]

/-- Against a NaN threshold the search misses only if no distance is a number
below infinity: whoever is nearest is let in. -/
theorem findMatch_nan (cache : List (Embedding K)) (query : EmbeddingVector K) :
    findMatch .nan cache query = none ↔ NoneBelow (score query) cache := by
  rcases scan_spec (score query) cache with ⟨hs, hn⟩ | ⟨e, x, hs, hf⟩
  · rw [findMatch_of_scan_none hs]
    exact iff_of_true rfl hn
  · rw [findMatch_of_scan_some hs, if_neg (Flt.not_nan_le _)]
    refine iff_of_false (fun h => nomatch h) ?_
    intro hn
    exact hf.1.ne (hn.score_eq_top hf.mem hf.score_eq)

/-- On two orders of one cache the search misses on both, or hits on both with
the same distance; the owners are those of entries at that distance. -/
theorem findMatch_perm (threshold : Flt K) {l m : List (Embedding K)} (hp : l.Perm m)
    (query : EmbeddingVector K) :
    (findMatch threshold l query = none ∧ findMatch threshold m query = none) ∨
      ∃ a b x, findMatch threshold l query = some ⟨a.owner, .num x⟩ ∧
        findMatch threshold m query = some ⟨b.owner, .num x⟩ ∧
        FirstMin (score query) l a x ∧ FirstMin (score query) m b x := by
  rcases scan_perm hp (score query) with ⟨hl, hm⟩ | ⟨a, b, x, hl, hm, ha, hb⟩
  · exact Or.inl ⟨findMatch_of_scan_none hl, findMatch_of_scan_none hm⟩
  · rw [findMatch_of_scan_some hl, findMatch_of_scan_some hm]
    split
    · exact Or.inl ⟨rfl, rfl⟩
    · exact Or.inr ⟨a, b, x, rfl, rfl, ha, hb⟩

/-! ## The nearest entry -/

theorem bestDistance_eq {cache : List (Embedding K)} {query : EmbeddingVector K}
    (h : cache ≠ []) : bestDistance cache query = some (scan (score query) cache).1 := by
  rw [← least_eq_scan]
  unfold bestDistance
  rw [if_neg (by rw [List.isEmpty_iff]; exact h)]
  rfl

/-- A match reports the owner and the distance of the first nearest entry, if that is
below the threshold. -/
theorem findMatch_eq_some {t : K} {cache : List (Embedding K)} {query : EmbeddingVector K}
    {m : Match K} : findMatch (.num t) cache query = some m ↔
      ∃ e x, FirstMin (score query) cache e x ∧ x < t ∧ m = ⟨e.owner, .num x⟩ := by
  rcases scan_spec (score query) cache with ⟨hs, hn⟩ | ⟨e, x, hs, hf⟩
  · rw [findMatch_of_scan_none hs]
    refine iff_of_false (fun h => nomatch h) ?_
    rintro ⟨e, x, hf, -⟩
    exact hf.isMin.not_noneBelow hn
  · rw [findMatch_of_scan_some hs]
    split
    · rename_i hle
      refine iff_of_false (fun h => nomatch h) ?_
      rintro ⟨e', x', hf', hlt, -⟩
      rw [hf'.isMin.unique hf.isMin] at hlt
      exact absurd hlt (not_lt.mpr hle)
    · rename_i hlt
      constructor
      · intro h
        exact ⟨e, x, hf, not_le.mp hlt, (Option.some.inj h).symm⟩
      · rintro ⟨e', x', hf', -, rfl⟩
        rw [hf'.unique hf, hf'.isMin.unique hf.isMin]

/-- Where the search finds nobody, the diagnostic distance is not below the threshold. -/
theorem bestDistance_of_no_match {t : K} {cache : List (Embedding K)} {query : EmbeddingVector K}
    (h : findMatch (.num t) cache query = none) :
    ∀ best ∈ bestDistance cache query, ¬ best < .num t := by
  intro best hbest hlt
  have hne : cache ≠ [] := by
    rintro rfl
    cases hbest
  rw [bestDistance_eq hne] at hbest
  cases hbest
  rcases scan_spec (score query) cache with ⟨hs, -⟩ | ⟨e, x, hs, hf⟩
  · rw [hs] at hlt
    exact absurd hlt (not_lt.mpr le_top)
  · rw [hs] at hlt
    rw [findMatch_eq_some.mpr ⟨e, x, hf, hlt, rfl⟩] at h
    cases h

/-- The search finds nobody exactly if nobody is below the threshold. -/
theorem findMatch_eq_none {t : K} {cache : List (Embedding K)} {query : EmbeddingVector K} :
    findMatch (.num t) cache query = none ↔ ∀ e ∈ cache, ¬ score query e < .num t := by
  constructor
  · intro h e he hlt
    obtain ⟨y, t', hy, ht', hyt⟩ := Flt.exists_num_of_lt hlt
    cases ht'
    rcases scan_spec (score query) cache with ⟨-, hn⟩ | ⟨e', x, -, hf⟩
    · rw [hn.score_eq_top he hy] at hyt
      exact not_top_lt hyt
    · rw [findMatch_eq_some.mpr ⟨e', x, hf, (hf.isMin.2.2 e he y hy).trans_lt hyt, rfl⟩] at h
      cases h
  · intro h
    cases hm : findMatch (.num t) cache query with
    | none => rfl
    | some m =>
      obtain ⟨e, x, hf, hlt, -⟩ := findMatch_eq_some.mp hm
      refine absurd ?_ (h e hf.mem)
      rw [hf.score_eq]
      exact hlt

/-- The search finds an employee exactly if the least distance is below the threshold, and
agrees with `bestDistance`. -/
theorem findMatch_nearest (t : K) (cache : List (Embedding K)) (query : EmbeddingVector K) :
    ((findMatch (.num t) cache query).isSome ↔ ∃ x, IsMin (score query) cache x ∧ x < t) ∧
    (∀ m, findMatch (.num t) cache query = some m ↔
      ∃ e x, FirstMin (score query) cache e x ∧ x < t ∧ m = ⟨e.owner, .num x⟩) ∧
    match findMatch (.num t) cache query with
    | some m => bestDistance cache query = some m.distance
    | none => ∀ best ∈ bestDistance cache query, ¬ best < .num t := by
  refine ⟨?_, fun m => findMatch_eq_some, ?_⟩
  · rw [Option.isSome_iff_exists]
    simp only [findMatch_eq_some]
    constructor
    · rintro ⟨m, e, x, hf, hlt, -⟩
      exact ⟨x, hf.isMin, hlt⟩
    · rintro ⟨x, hmin, hlt⟩
      obtain ⟨e, hf⟩ := hmin.exists_first
      exact ⟨_, e, x, hf, hlt, rfl⟩
  · cases hm : findMatch (.num t) cache query with
    | some m =>
      obtain ⟨e, x, hf, -, rfl⟩ := findMatch_eq_some.mp hm
      dsimp only
      rw [bestDistance_eq (List.ne_nil_of_mem hf.mem), hf.scan_eq]
    | none => exact bestDistance_of_no_match hm

end FaceGate.L2.Matcher
