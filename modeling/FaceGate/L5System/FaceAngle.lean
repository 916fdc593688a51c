import FaceGate.Core.ExactReal
import FaceGate.L2Device.Matcher

/-!
# From the network's output to the match

The gate and the panel scale the network's output to length 1, both in the same way but for
the panel's `Float32Array`, and the matcher compares cosine distances. In exact arithmetic
(`Core.ExactReal`) the lengths cancel: what counts is the angle between the outputs.

* `embeddings_agree`: from one output both sides make the same embedding, of length 1 and in
  the output's direction, or both none.
* `match_smallest_angle`: the search names the first face whose output has the smallest angle
  to that of the query, if one minus its cosine is below the threshold.
-/
namespace FaceGate.L5.FaceAngle

open Core Core.Scan Core.ExactReal FaceGate.L1.Domain FaceGate.L2 InnerProductGeometry

/-! ## The embedding of an output -/

section Embedding
variable {K : Type} [LinearOrder K] [FloatArith K]

open FloatArith

/-- The loop over the squares, and its root. -/
def norm (output : List (Flt K)) : Flt K :=
  sqrt (output.foldl (fun normSq v => add normSq (mul v v)) (lit 0))

/-- The output scaled to length 1; `store` is what keeping a number in the embedding does
to it. -/
def normalised (store : Flt K → Flt K) (output : List (Flt K)) : Option (EmbeddingVector K) :=
  if h : output.length = EMBEDDING_DIM then
    if norm output < lit (1 / 10 ^ 9) then none
    else
      let invNorm := div (lit 1) (norm output)
      some ⟨output.map fun v => store (mul v invNorm), (List.length_map _).trans h⟩
  else none

theorem normalised_eq (store : Flt K → Flt K) {output : List (Flt K)} {r : Flt K}
    (h : output.length = EMBEDDING_DIM) (hr : norm output = r) :
    normalised store output = if r < lit (1 / 10 ^ 9) then none else
      some ⟨output.map fun v => store (mul v (div (lit 1) r)), (List.length_map _).trans h⟩ := by
  subst hr
  exact dif_pos h

/-- The end of `FaceEmbedder::extract`.
mirrors edge/src/vision/face_embedder.cpp:140-169 -/
def Edge.embeddingOf (output : List (Flt K)) : Option (EmbeddingVector K) := normalised id output

/-- The end of `embed`, which keeps the numbers in a `Float32Array`.
mirrors panel/src/app/core/vision/face-embedding.service.ts:234-244 -/
def Panel.embeddingOf (output : List (Flt K)) : Option (EmbeddingVector K) :=
  normalised narrow output

end Embedding

/-! ## Vectors of numbers -/

abbrev E : Type := EuclideanSpace ℝ (Fin EMBEDDING_DIM)

/-- What the network puts out. -/
def output (x : E) : List (Flt EReal) := List.ofFn fun i => ofReal (x i)

def vector (x : E) : EmbeddingVector EReal := List.Vector.ofFn fun i => ofReal (x i)

theorem toList_vector (x : E) : (vector x).toList = output x := List.Vector.toList_ofFn _

theorem foldl_normSq {n : ℕ} (f : Fin n → ℝ) (s : ℝ) :
    (List.ofFn fun i => ofReal (f i)).foldl
      (fun s v => FloatArith.add s (FloatArith.mul v v)) (ofReal s) =
      ofReal (s + ∑ i, f i * f i) := by
  induction n generalizing s with
  | zero => simp
  | succ n ih =>
    rw [List.ofFn_succ, List.foldl_cons, mul_ofReal, add_ofReal, ih fun i => f i.succ,
      Fin.sum_univ_succ, add_assoc]

/-- The three sums of the matcher's loop. -/
theorem foldl_cosineStep {n : ℕ} (f g : Fin n → ℝ) (d a b : ℝ) :
    ((List.ofFn fun i => ofReal (f i)).zip (List.ofFn fun i => ofReal (g i))).foldl
      Matcher.cosineStep ⟨ofReal d, ofReal a, ofReal b⟩ =
      ⟨ofReal (d + ∑ i, f i * g i), ofReal (a + ∑ i, f i * f i),
        ofReal (b + ∑ i, g i * g i)⟩ := by
  induction n generalizing d a b with
  | zero => simp
  | succ n ih =>
    rw [List.ofFn_succ, List.ofFn_succ, List.zip_cons_cons, List.foldl_cons, Matcher.cosineStep]
    simp only [mul_ofReal, add_ofReal]
    rw [ih (fun i => f i.succ) fun i => g i.succ]
    simp only [Fin.sum_univ_succ, add_assoc]

/-! ## Both sides scale to length 1 -/

theorem norm_output (x : E) : norm (output x) = ofReal ‖x‖ := by
  rw [norm, lit_eq, output, Rat.cast_zero, foldl_normSq, zero_add, sqrt_ofReal, sqrt_sum_mul_self]
  exact Finset.sum_nonneg fun i _ => mul_self_nonneg _

theorem small_iff (r : ℝ) : ofReal r < FloatArith.lit (1 / 10 ^ 9) ↔ r < 1 / 10 ^ 9 := by
  rw [lit_eq, ofReal_lt_ofReal]
  norm_num

theorem map_output {store : Flt EReal → Flt EReal} (hstore : ∀ x, store x = x) (x : E)
    {factor : Flt EReal} {r : ℝ} (h : factor = ofReal r) :
    (output x).map (fun v => store (FloatArith.mul v factor)) = output (r • x) := by
  subst h
  rw [output, output, List.map_ofFn]
  refine congrArg List.ofFn (funext fun i => ?_)
  rw [Function.comp_apply, hstore, mul_ofReal, mul_comm]
  rfl

theorem normalised_output {store : Flt EReal → Flt EReal} (hstore : ∀ x, store x = x) (x : E) :
    normalised store (output x) =
      if ‖x‖ < 1 / 10 ^ 9 then none else some (vector (‖x‖⁻¹ • x)) := by
  have hlength : (output x).length = EMBEDDING_DIM := List.length_ofFn
  have hinv : FloatArith.div (FloatArith.lit 1) (ofReal ‖x‖) = ofReal ‖x‖⁻¹ := by
    rw [lit_eq, div_ofReal, Rat.cast_one, one_div]
  refine (normalised_eq store hlength (norm_output x)).trans ?_
  refine if_congr (small_iff ‖x‖) rfl (congrArg some (List.Vector.eq _ _ ?_))
  rw [toList_vector, List.Vector.toList_mk, map_output hstore x hinv]

theorem norm_smul_inv {x : E} (h : 1 / 10 ^ 9 ≤ ‖x‖) : 0 < ‖x‖ ∧ ‖‖x‖⁻¹ • x‖ = 1 := by
  have hpos : 0 < ‖x‖ := lt_of_lt_of_le (by norm_num) h
  refine ⟨hpos, ?_⟩
  rw [norm_smul, norm_inv, norm_norm, inv_mul_cancel₀ hpos.ne']

theorem edge_embeddingOf (x : E) : Edge.embeddingOf (output x) =
    if ‖x‖ < 1 / 10 ^ 9 then none else some (vector (‖x‖⁻¹ • x)) :=
  normalised_output id_eq x

theorem panel_embeddingOf (x : E) : Panel.embeddingOf (output x) = Edge.embeddingOf (output x) :=
  (normalised_output narrow_eq x).trans (edge_embeddingOf x).symm

/-- **One output, one embedding**, or none on both sides if it is too short. -/
theorem embeddings_agree (x : E) :
    Panel.embeddingOf (output x) = Edge.embeddingOf (output x) ∧
    (‖x‖ < 1 / 10 ^ 9 → Edge.embeddingOf (output x) = none) ∧
    (1 / 10 ^ 9 ≤ ‖x‖ →
      ∃ u : E, Edge.embeddingOf (output x) = some (vector u) ∧ ‖u‖ = 1 ∧ ‖x‖ • u = x) := by
  refine ⟨panel_embeddingOf x, fun h => ?_, fun h => ?_⟩
  · rw [edge_embeddingOf, if_pos h]
  · obtain ⟨hpos, hunit⟩ := norm_smul_inv h
    refine ⟨‖x‖⁻¹ • x, ?_, hunit, smul_inv_smul₀ hpos.ne' x⟩
    rw [edge_embeddingOf, if_neg (not_lt.mpr h)]

/-! ## The matcher measures the angle -/

theorem cosineDistance_eq {K : Type} [LinearOrder K] [BoundedOrder K] [FloatArith K]
    {a b : EmbeddingVector K} {s : Matcher.CosineSums K} {normA normB : Flt K}
    (hs : (a.toList.zip b.toList).foldl Matcher.cosineStep
      ⟨FloatArith.lit 0, FloatArith.lit 0, FloatArith.lit 0⟩ = s)
    (hA : FloatArith.sqrt s.normA = normA) (hB : FloatArith.sqrt s.normB = normB) :
    Matcher.cosineDistance a b =
      if FloatArith.mul normA normB < FloatArith.lit (1 / 10 ^ 9) then Flt.inf
      else FloatArith.sub (FloatArith.lit 1)
        (FloatArith.div s.dot (FloatArith.mul normA normB)) := by
  subst hs hA hB
  rfl

theorem sqrt_normSq (x : E) :
    FloatArith.sqrt (ofReal (0 + ∑ i, x i * x i)) = ofReal ‖x‖ := by
  rw [zero_add, sqrt_ofReal, sqrt_sum_mul_self]
  exact Finset.sum_nonneg fun i _ => mul_self_nonneg _

/-- The cosine distance of two vectors that are not too short. -/
theorem cosineDistance_vector {x y : E} (h : 1 / 10 ^ 9 ≤ ‖x‖ * ‖y‖) :
    Matcher.cosineDistance (vector x) (vector y) = ofReal (cosDist x y) := by
  have hs : ((vector x).toList.zip (vector y).toList).foldl Matcher.cosineStep
      ⟨FloatArith.lit 0, FloatArith.lit 0, FloatArith.lit 0⟩ =
      ⟨ofReal (0 + ∑ i, x i * y i), ofReal (0 + ∑ i, x i * x i),
        ofReal (0 + ∑ i, y i * y i)⟩ := by
    rw [toList_vector, toList_vector, lit_eq, Rat.cast_zero]
    exact foldl_cosineStep x y 0 0 0
  refine (cosineDistance_eq hs (sqrt_normSq x) (sqrt_normSq y)).trans ?_
  rw [mul_ofReal, if_neg fun hlt => not_lt.mpr h ((small_iff _).mp hlt), div_ofReal, lit_eq,
    sub_ofReal, Rat.cast_one, zero_add, sum_mul_eq_inner, cosDist, cos_angle]

/-! ## The search -/

/-- An embedding that the gate or the panel made of an output. -/
def Enrolled (x : E) (v : EmbeddingVector EReal) : Prop :=
  Edge.embeddingOf (output x) = some v ∨ Panel.embeddingOf (output x) = some v

theorem Enrolled.edge {x : E} {v : EmbeddingVector EReal} (h : Enrolled x v) :
    Edge.embeddingOf (output x) = some v :=
  h.elim id fun hpanel => panel_embeddingOf x ▸ hpanel

theorem vector_of_embedding {x : E} {v : EmbeddingVector EReal}
    (h : Edge.embeddingOf (output x) = some v) :
    0 < ‖x‖ ∧ ‖‖x‖⁻¹ • x‖ = 1 ∧ v = vector (‖x‖⁻¹ • x) := by
  rw [edge_embeddingOf] at h
  split at h
  · cases h
  · rename_i hnorm
    obtain ⟨hpos, hunit⟩ := norm_smul_inv (not_lt.mp hnorm)
    exact ⟨hpos, hunit, (Option.some.inj h).symm⟩

/-- The lengths of the outputs do not count. -/
theorem cosineDistance_embeddings {x y : E} {v w : EmbeddingVector EReal}
    (hx : Edge.embeddingOf (output x) = some v) (hy : Edge.embeddingOf (output y) = some w) :
    Matcher.cosineDistance v w = ofReal (cosDist x y) := by
  obtain ⟨hxpos, hxunit, hv⟩ := vector_of_embedding hx
  obtain ⟨hypos, hyunit, hw⟩ := vector_of_embedding hy
  have hlength : 1 / 10 ^ 9 ≤ ‖‖x‖⁻¹ • x‖ * ‖‖y‖⁻¹ • y‖ := by
    rw [hxunit, hyunit]
    norm_num
  have hsmul := cosDist_smul (inv_pos.mpr hxpos) (inv_pos.mpr hypos) (x := x) (y := y)
  rw [hv, hw]
  exact (cosineDistance_vector hlength).trans (congrArg ofReal hsmul)

section Search
variable {cache : List (Embedding EReal)} {face : Embedding EReal → E} {q : E}
  {query : EmbeddingVector EReal}

/-- `e` is the first of the faces whose output is at the smallest angle to `q`. -/
def SmallestAngle (face : Embedding EReal → E) (q : E) (cache : List (Embedding EReal))
    (e : Embedding EReal) : Prop :=
  ∃ before after, cache = before ++ e :: after ∧
    (∀ b ∈ before, angle q (face e) < angle q (face b)) ∧
    ∀ b ∈ after, angle q (face e) ≤ angle q (face b)

theorem firstMin_iff (hcache : ∀ e ∈ cache, Enrolled (face e) e.vector)
    (hq : Edge.embeddingOf (output q) = some query) {e : Embedding EReal} {x : EReal} :
    FirstMin (Matcher.score query) cache e x ↔
      SmallestAngle face q cache e ∧ x = (cosDist q (face e) : ℝ) := by
  have hscore : ∀ b ∈ cache, Matcher.score query b = ofReal (cosDist q (face b)) :=
    fun b hb => cosineDistance_embeddings hq (hcache b hb).edge
  constructor
  · rintro ⟨-, before, after, rfl, hx, hbefore, hafter⟩
    have he := hscore e (by simp)
    rw [he] at hx
    cases hx
    refine ⟨⟨before, after, rfl, fun b hb => ?_, fun b hb => ?_⟩, rfl⟩
    · have hlt := hbefore b hb _ (hscore b (List.mem_append_left _ hb))
      exact cosDist_lt_iff.mp (EReal.coe_lt_coe_iff.mp hlt)
    · have hle := hafter b hb _ (hscore b (List.mem_append_right _ (List.mem_cons_of_mem e hb)))
      exact cosDist_le_iff.mp (EReal.coe_le_coe_iff.mp hle)
  · rintro ⟨⟨before, after, rfl, hbefore, hafter⟩, rfl⟩
    refine ⟨EReal.coe_lt_top _, before, after, rfl, hscore e (by simp), fun b hb y hy => ?_,
      fun b hb y hy => ?_⟩
    · rw [hscore b (List.mem_append_left _ hb)] at hy
      cases hy
      exact EReal.coe_lt_coe_iff.mpr (cosDist_lt_iff.mpr (hbefore b hb))
    · rw [hscore b (List.mem_append_right _ (List.mem_cons_of_mem e hb))] at hy
      cases hy
      exact EReal.coe_le_coe_iff.mpr (cosDist_le_iff.mpr (hafter b hb))

/-- **The match is the face at the smallest angle**, however long the outputs are and whichever
side enrolled it, and there is none exactly if every face is at the threshold or beyond. -/
theorem match_smallest_angle (hcache : ∀ e ∈ cache, Enrolled (face e) e.vector)
    (hq : Edge.embeddingOf (output q) = some query) (t : ℝ) :
    (∀ m, Matcher.findMatch (ofReal t) cache query = some m ↔
      ∃ e, SmallestAngle face q cache e ∧ 1 - Real.cos (angle q (face e)) < t ∧
        m = ⟨e.owner, ofReal (1 - Real.cos (angle q (face e)))⟩) ∧
    (Matcher.findMatch (ofReal t) cache query = none ↔
      ∀ e ∈ cache, t ≤ 1 - Real.cos (angle q (face e))) := by
  refine ⟨fun m => ?_, ?_⟩
  · rw [ofReal, Matcher.findMatch_eq_some]
    constructor
    · rintro ⟨e, x, hmin, hlt, rfl⟩
      obtain ⟨hsmallest, rfl⟩ := (firstMin_iff hcache hq).mp hmin
      exact ⟨e, hsmallest, EReal.coe_lt_coe_iff.mp hlt, rfl⟩
    · rintro ⟨e, hsmallest, hlt, rfl⟩
      exact ⟨e, _, (firstMin_iff hcache hq).mpr ⟨hsmallest, rfl⟩, EReal.coe_lt_coe_iff.mpr hlt, rfl⟩
  · rw [ofReal, Matcher.findMatch_eq_none]
    refine forall₂_congr fun e he => ?_
    rw [Matcher.score, cosineDistance_embeddings hq (hcache e he).edge]
    exact ofReal_lt_ofReal.not.trans not_lt

end Search

/-! ## Two faces -/

def first : Fin EMBEDDING_DIM := ⟨0, by decide⟩
def second : Fin EMBEDDING_DIM := ⟨1, by decide⟩

noncomputable def axis (i : Fin EMBEDDING_DIM) : E := EuclideanSpace.single i 1

theorem norm_smul_axis {r : ℝ} (hr : 0 < r) (i : Fin EMBEDDING_DIM) : ‖r • axis i‖ = r := by
  rw [norm_smul, axis, PiLp.norm_single, norm_one, mul_one, Real.norm_of_nonneg hr.le]

theorem exists_embedding {r : ℝ} (hr : 1 ≤ r) (i : Fin EMBEDDING_DIM) :
    ∃ v, Edge.embeddingOf (output (r • axis i)) = some v := by
  refine ⟨_, (edge_embeddingOf _).trans (if_neg (not_lt.mpr ?_))⟩
  rw [norm_smul_axis (by linarith)]
  exact le_trans (by norm_num) hr

theorem cosDist_axis_self (i : Fin EMBEDDING_DIM) : cosDist (axis i) (axis i) = 0 := by
  refine cosDist_self (norm_ne_zero_iff.mp ?_)
  rw [axis, PiLp.norm_single, norm_one]
  exact one_ne_zero

theorem cosDist_axis {i j : Fin EMBEDDING_DIM} (h : i ≠ j) : cosDist (axis i) (axis j) = 1 := by
  have hinner : inner ℝ (axis i) (axis j) = 0 := by
    rw [axis, axis, EuclideanSpace.inner_single_left, PiLp.single_apply, if_neg h, mul_zero]
  rw [cosDist, inner_eq_zero_iff_angle_eq_pi_div_two _ _ |>.mp hinner, Real.cos_pi_div_two,
    sub_zero]

/-- The outputs of two faces at a right angle, one of length 2, the other of length 3. -/
noncomputable def twoFaces (e : Embedding EReal) : E :=
  if e.owner = 7 then (2 : ℝ) • axis second else (3 : ℝ) • axis first

/-- The gate enrolled the one, the panel the other; who shows that one is found, at distance 0. -/
theorem match_smallest_angle_axis : ∃ v w query,
    Edge.embeddingOf (output ((2 : ℝ) • axis second)) = some v ∧
    Panel.embeddingOf (output ((3 : ℝ) • axis first)) = some w ∧
    Edge.embeddingOf (output ((5 : ℝ) • axis first)) = some query ∧
    Matcher.findMatch (ofReal (1 / 2)) [⟨1, 7, v⟩, ⟨2, 8, w⟩] query = some ⟨8, ofReal 0⟩ := by
  obtain ⟨v, hv⟩ := exists_embedding (r := 2) (by norm_num) second
  obtain ⟨w, hw⟩ := exists_embedding (r := 3) (by norm_num) first
  obtain ⟨query, hquery⟩ := exists_embedding (r := 5) (by norm_num) first
  rw [← panel_embeddingOf] at hw
  have hother : cosDist ((5 : ℝ) • axis first) ((2 : ℝ) • axis second) = 1 := by
    rw [cosDist_smul (by norm_num) (by norm_num), cosDist_axis (by decide)]
  have hzero : cosDist ((5 : ℝ) • axis first) ((3 : ℝ) • axis first) = 0 := by
    rw [cosDist_smul (by norm_num) (by norm_num), cosDist_axis_self]
  have hcache : ∀ e ∈ [(⟨1, 7, v⟩ : Embedding EReal), ⟨2, 8, w⟩],
      Enrolled (twoFaces e) e.vector := by
    simp only [List.forall_mem_cons]
    exact ⟨Or.inl hv, Or.inr hw, by simp⟩
  have hmatch := (@match_smallest_angle _ twoFaces _ query hcache hquery (1 / 2)).1
  refine ⟨v, w, query, hv, hw, hquery, (hmatch _).mpr ⟨⟨2, 8, w⟩, ⟨[⟨1, 7, v⟩], [], rfl, ?_, ?_⟩,
    ?_, ?_⟩⟩
  · intro b hb
    rw [List.mem_singleton.mp hb]
    refine cosDist_lt_iff.mp ?_
    change cosDist _ ((3 : ℝ) • axis first) < cosDist _ ((2 : ℝ) • axis second)
    rw [hother, hzero]
    exact one_pos
  · simp
  · change cosDist _ ((3 : ℝ) • axis first) < 1 / 2
    rw [hzero]
    norm_num
  · change _ = Match.mk 8 (ofReal (cosDist _ ((3 : ℝ) • axis first)))
    rw [hzero]

end FaceGate.L5.FaceAngle
