import FaceGate.Core.Rotation
import Mathlib.Algebra.Order.Ring.Defs
import Mathlib.Data.Rat.Cast.OfScientific
import Mathlib.LinearAlgebra.Matrix.Notation
import Mathlib.Tactic.NormNum.OfScientific

/-!
# Face alignment at the gate and in the browser

The gate embeds the face it sees, the panel the face it enrols: the two
vectors are comparable only if both align the face in the same way. Both take
the first detection of the detector's output, reject small boxes and
degenerate eyes, and solve for the similarity that puts the eyes on their
canonical positions.

`K` is an ordered field: exact arithmetic. The data of a tensor is what lies
from `boxes.data` on, a total function. Only for the shape `[0, n, 16]` does either side
read past the elements, and what it finds there is left open.

* `edge_panel_align`: the same tensors are rejected, the others give the same
  matrix and the same map from the frame to the crop.
* `align_congr`: for any other shape only the elements count.
* `eyes_aligned`: that map takes the detected eyes to the canonical ones.
* `transform_exact`: over the reals the matrix is the only orientation-preserving
  similarity that does.
-/
namespace FaceGate.L5.Alignment

open Core

/-- mirrors edge/src/vision/onnx_session.hpp:37-41 -/
structure Tensor (K : Type*) where
  shape : List ℕ
  data : ℕ → K

/-- mirrors edge/src/vision/onnx_session.cpp:147-158 -/
def Tensor.elementCount {K : Type*} (t : Tensor K) : ℕ := t.shape.prod

variable {K : Type*} [Field K] [LinearOrder K]

/-! ## Edge side -/

namespace Edge

/-- mirrors edge/src/vision/face_detector.cpp:18 -/
def kFloatsPerDetection : ℕ := 16

/-- mirrors edge/src/vision/types.hpp:20-22 -/
abbrev NUM_KEYPOINTS : ℕ := 6
abbrev Keypoints (K : Type*) := Fin NUM_KEYPOINTS → Point K

/-- mirrors edge/src/vision/types.hpp:8-13 -/
structure BBox (K : Type*) where
  x : K
  y : K
  width : K
  height : K

/-- mirrors edge/src/vision/types.hpp:24-28 -/
structure Detection (K : Type*) where
  bbox : BBox K
  keypoints : Keypoints K
  score : K

/-- The number of detections, if the tensor has one of the two shapes. -/
def numDetections : List ℕ → Option ℕ
  | [_, n, f] => if f = kFloatsPerDetection then some n else none
  | [n, f] => if f = kFloatsPerDetection then some n else none
  | _ => none

/-- What `detect_best` makes of the output of the model.
mirrors edge/src/vision/face_detector.cpp:76-162 -/
def detectBest (confThreshold : K) (boxes : Tensor K) (frameW frameH : ℕ) :
    Option (Detection K) :=
  if frameW = 0 ∨ frameH = 0 then none
  else
    match numDetections boxes.shape with
    | none => none
    | some 0 => none
    | some (_ + 1) =>
      let det := boxes.data
      let x1 := det 0 * frameW
      let y1 := det 1 * frameH
      let x2 := det 2 * frameW
      let y2 := det 3 * frameH
      some {
        bbox := ⟨x1, y1, x2 - x1, y2 - y1⟩
        keypoints := fun k => ⟨det (4 + k * 2 + 0) * frameW, det (4 + k * 2 + 1) * frameH⟩
        score := confThreshold }

/-- mirrors edge/src/vision/face_embedder.cpp:24-27 -/
def kCanonicalRightEye : Point K := ⟨38.2946, 51.6963⟩
def kCanonicalLeftEye : Point K := ⟨73.5318, 51.5014⟩

/-- mirrors edge/src/vision/face_embedder.cpp:32-33 -/
def kRightEyeIdx : Fin NUM_KEYPOINTS := 0
def kLeftEyeIdx : Fin NUM_KEYPOINTS := 1

/-- mirrors edge/src/vision/face_embedder.cpp:35-58 -/
def similarityTransformFromEyes (kps : Keypoints K) : Option (Matrix (Fin 2) (Fin 3) K) :=
  let sx0 := (kps kRightEyeIdx).x
  let sy0 := (kps kRightEyeIdx).y
  let sx1 := (kps kLeftEyeIdx).x
  let sy1 := (kps kLeftEyeIdx).y
  let dx := sx1 - sx0
  let dy := sy1 - sy0
  let normSq := dx * dx + dy * dy
  if normSq < 1e-6 then none
  else
    let Dx := (kCanonicalLeftEye : Point K).x - (kCanonicalRightEye : Point K).x
    let Dy := (kCanonicalLeftEye : Point K).y - (kCanonicalRightEye : Point K).y
    let a := (dx * Dx + dy * Dy) / normSq
    let b := (dx * Dy - dy * Dx) / normSq
    let tx := (kCanonicalRightEye : Point K).x - (a * sx0 - b * sy0)
    let ty := (kCanonicalRightEye : Point K).y - (b * sx0 + a * sy0)
    some !![a, -b, tx; b, a, ty]

/-- The gates of `extract`, up to the warp.
mirrors edge/src/vision/face_embedder.cpp:82-100 -/
def extractMatrix (d : Detection K) : Option (Matrix (Fin 2) (Fin 3) K) :=
  if d.bbox.width < 10 ∨ d.bbox.height < 10 then none
  else similarityTransformFromEyes d.keypoints

def align (confThreshold : K) (boxes : Tensor K) (frameW frameH : ℕ) :
    Option (Matrix (Fin 2) (Fin 3) K) :=
  (detectBest confThreshold boxes frameW frameH).bind extractMatrix

/-- The forward map of the matrix given to `cv::warpAffine`. -/
def warpAffine (M : Matrix (Fin 2) (Fin 3) K) (p : Point K) : Point K :=
  ⟨M 0 0 * p.x + M 0 1 * p.y + M 0 2, M 1 0 * p.x + M 1 1 * p.y + M 1 2⟩

end Edge

/-! ## Panel side -/

namespace Panel

/-- mirrors panel/src/app/core/vision/face-embedding.service.ts:12 -/
def FLOATS_PER_DETECTION : ℕ := 16

/-- mirrors panel/src/app/core/vision/face-embedding.service.ts:19-20 -/
def CANONICAL_RIGHT_EYE : Point K := ⟨38.2946, 51.6963⟩
def CANONICAL_LEFT_EYE : Point K := ⟨73.5318, 51.5014⟩

/-- mirrors panel/src/app/core/vision/face-embedding.service.ts:27-32 -/
structure Detection (K : Type*) where
  width : K
  height : K
  rightEye : Point K
  leftEye : Point K

/-- mirrors panel/src/app/core/vision/face-embedding.service.ts:34-39 -/
abbrev Similarity2D (K : Type*) := Similarity K

/-- "The full 2x3 matrix". -/
def matrix (T : Similarity2D K) : Matrix (Fin 2) (Fin 3) K :=
  !![T.a, -T.b, T.tx; T.b, T.a, T.ty]

/-- mirrors panel/src/app/core/vision/face-embedding.service.ts:46-61 -/
def similarityFromEyes (srcRight srcLeft : Point K) : Option (Similarity2D K) :=
  let dx := srcLeft.x - srcRight.x
  let dy := srcLeft.y - srcRight.y
  let normSq := dx * dx + dy * dy
  if normSq < 1e-6 then none
  else
    let Dx := (CANONICAL_LEFT_EYE : Point K).x - (CANONICAL_RIGHT_EYE : Point K).x
    let Dy := (CANONICAL_LEFT_EYE : Point K).y - (CANONICAL_RIGHT_EYE : Point K).y
    let a := (dx * Dx + dy * Dy) / normSq
    let b := (dx * Dy - dy * Dx) / normSq
    let tx := (CANONICAL_RIGHT_EYE : Point K).x - (a * srcRight.x - b * srcRight.y)
    let ty := (CANONICAL_RIGHT_EYE : Point K).y - (b * srcRight.x + a * srcRight.y)
    some ⟨a, b, tx, ty⟩

/-- Thrown by `drawImage`. -/
inductive DOMException where
  | invalidState

/-- 0 unless the tensor has one of the two shapes. -/
def numDetections (dims : List ℕ) : ℕ :=
  if dims.length = 3 ∧ dims[2]? = some FLOATS_PER_DETECTION then dims.getD 1 0
  else if dims.length = 2 ∧ dims[1]? = some FLOATS_PER_DETECTION then dims.getD 0 0
  else 0

/-- What `detect` makes of the output of the model. An empty canvas cannot be drawn.
mirrors panel/src/app/core/vision/face-embedding.service.ts:123-193 -/
def detect (boxes : Tensor K) (sourceWidth sourceHeight : ℕ) :
    Except DOMException (Option (Detection K)) :=
  if sourceWidth = 0 ∨ sourceHeight = 0 then .error .invalidState
  else if numDetections boxes.shape = 0 then .ok none
  else
    let flat := boxes.data
    let x1 := flat 0 * sourceWidth
    let y1 := flat 1 * sourceHeight
    let x2 := flat 2 * sourceWidth
    let y2 := flat 3 * sourceHeight
    .ok (some {
      width := x2 - x1
      height := y2 - y1
      rightEye := ⟨flat 4 * sourceWidth, flat 5 * sourceHeight⟩
      leftEye := ⟨flat 6 * sourceWidth, flat 7 * sourceHeight⟩ })

/-- The gates of `embed`, up to the drawing.
mirrors panel/src/app/core/vision/face-embedding.service.ts:195-203 -/
def embedTransform (d : Detection K) : Option (Similarity2D K) :=
  if d.width < 10 ∨ d.height < 10 then none else similarityFromEyes d.rightEye d.leftEye

/-- `none`: rejected, with null or with an exception. -/
def align (boxes : Tensor K) (sourceWidth sourceHeight : ℕ) : Option (Similarity2D K) :=
  (detect boxes sourceWidth sourceHeight).toOption.join.bind embedTransform

/-- The current transformation of a canvas: matrix `[a c e; b d f]`. -/
structure CanvasTransform (K : Type*) where
  a : K
  b : K
  c : K
  d : K
  e : K
  f : K

def CanvasTransform.map (m : CanvasTransform K) (p : Point K) : Point K :=
  ⟨m.a * p.x + m.c * p.y + m.e, m.b * p.x + m.d * p.y + m.f⟩

/-- The call before the source is drawn.
mirrors panel/src/app/core/vision/face-embedding.service.ts:213-216 -/
def setTransform (T : Similarity2D K) : CanvasTransform K := ⟨T.a, T.b, -T.b, T.a, T.tx, T.ty⟩

end Panel

/-! ## The two agree -/

section Agree
variable {t : Tensor K} {w h : ℕ}

/-- What the panel keeps of a detection. -/
def toPanel (d : Edge.Detection K) : Panel.Detection K where
  width := d.bbox.width
  height := d.bbox.height
  rightEye := d.keypoints Edge.kRightEyeIdx
  leftEye := d.keypoints Edge.kLeftEyeIdx

theorem numDetections_agree (shape : List ℕ) :
    Panel.numDetections shape = (Edge.numDetections shape).getD 0 := by
  match shape with
  | [] => rfl
  | [_] => rfl
  | [n, f] =>
    simp only [Panel.numDetections, Edge.numDetections, Edge.kFloatsPerDetection,
      Panel.FLOATS_PER_DETECTION]
    by_cases hf : f = 16
    · simp [hf]
    · simp [hf]
  | [_, n, f] =>
    simp only [Panel.numDetections, Edge.numDetections, Edge.kFloatsPerDetection,
      Panel.FLOATS_PER_DETECTION]
    by_cases hf : f = 16
    · simp [hf]
    · simp [hf]
  | _ :: _ :: _ :: _ :: _ => simp [Panel.numDetections, Edge.numDetections]

omit [LinearOrder K] in
theorem detect_agree (conf : K) (t : Tensor K) (w h : ℕ) :
    (Panel.detect t w h).toOption.join = (Edge.detectBest conf t w h).map toPanel := by
  unfold Panel.detect Edge.detectBest
  rw [numDetections_agree]
  split
  · rfl
  · match hn : Edge.numDetections t.shape with
    | none => rfl
    | some 0 => rfl
    | some (n + 1) =>
      rw [if_neg (by simp)]
      rfl

theorem similarity_agree (kps : Edge.Keypoints K) :
    Edge.similarityTransformFromEyes kps =
      (Panel.similarityFromEyes (kps Edge.kRightEyeIdx) (kps Edge.kLeftEyeIdx)).map
        Panel.matrix := by
  simp only [Edge.similarityTransformFromEyes, Panel.similarityFromEyes]
  split
  · rfl
  · rfl

theorem extract_agree (d : Edge.Detection K) :
    Edge.extractMatrix d = (Panel.embedTransform (toPanel d)).map Panel.matrix := by
  unfold Edge.extractMatrix Panel.embedTransform
  by_cases hsmall : d.bbox.width < 10 ∨ d.bbox.height < 10
  · have hsmall' : (toPanel d).width < 10 ∨ (toPanel d).height < 10 := hsmall
    rw [if_pos hsmall, if_pos hsmall']
    rfl
  · have hsmall' : ¬ ((toPanel d).width < 10 ∨ (toPanel d).height < 10) := hsmall
    rw [if_neg hsmall, if_neg hsmall']
    exact similarity_agree d.keypoints

omit [LinearOrder K] in
/-- The arguments of `setTransform` are in the right places. -/
theorem map_setTransform (T : Panel.Similarity2D K) :
    (Panel.setTransform T).map = Edge.warpAffine (Panel.matrix T) := by
  funext p
  simp [Panel.setTransform, Panel.CanvasTransform.map, Edge.warpAffine, Panel.matrix]

/-- **Alignment.** Edge and panel reject the same frames; the others they align with one
matrix, and the canvas maps the frame to the crop as the matrix does. -/
theorem edge_panel_align (conf : K) (t : Tensor K) (w h : ℕ) :
    Edge.align conf t w h = (Panel.align t w h).map Panel.matrix ∧
      (Edge.align conf t w h).map Edge.warpAffine =
        (Panel.align t w h).map fun T => (Panel.setTransform T).map := by
  have hmatrix : Edge.align conf t w h = (Panel.align t w h).map Panel.matrix := by
    unfold Edge.align Panel.align
    rw [detect_agree conf, Option.bind_map, Option.map_bind]
    congr 1
    funext d
    exact extract_agree d
  refine ⟨hmatrix, ?_⟩
  rw [hmatrix, Option.map_map]
  exact congrArg (Option.map · _) (funext fun T => (map_setTransform T).symm)

/-! ## What is read -/

/-- `t'` has the shape and the elements of `t`. -/
structure SameElements (t t' : Tensor K) : Prop where
  shape : t.shape = t'.shape
  data : ∀ i < t.elementCount, t.data i = t'.data i

omit [Field K] [LinearOrder K] in
/-- A detection lies within the tensor, unless the batch is empty. -/
theorem le_elementCount {n : ℕ} (hn : Edge.numDetections t.shape = some (n + 1))
    (hbatch : ∀ m, t.shape ≠ [0, m, Edge.kFloatsPerDetection]) :
    Edge.kFloatsPerDetection ≤ t.elementCount := by
  unfold Tensor.elementCount
  match hs : t.shape with
  | [] | [_] | _ :: _ :: _ :: _ :: _ =>
    rw [hs] at hn
    cases hn
  | [m, f] =>
    rw [hs, Edge.numDetections] at hn
    split at hn
    · rename_i hf
      cases hn
      rw [hf, List.prod_cons, List.prod_singleton]
      exact Nat.le_mul_of_pos_left _ n.succ_pos
    · cases hn
  | [b, m, f] =>
    rw [hs, Edge.numDetections] at hn
    split at hn
    · rename_i hf
      cases hn
      have hb : 0 < b := Nat.pos_of_ne_zero fun hzero => hbatch _ (by rw [hs, hf, hzero])
      rw [hf, List.prod_cons, List.prod_cons, List.prod_singleton, ← mul_assoc]
      exact Nat.le_mul_of_pos_left _ (Nat.mul_pos hb n.succ_pos)
    · cases hn

omit [LinearOrder K] in
theorem detectBest_congr {t' : Tensor K} (helements : SameElements t t')
    (hbatch : ∀ m, t.shape ≠ [0, m, Edge.kFloatsPerDetection]) (conf : K) :
    Edge.detectBest conf t w h = Edge.detectBest conf t' w h := by
  unfold Edge.detectBest
  rw [← helements.shape]
  split
  · rfl
  · match hn : Edge.numDetections t.shape with
    | none | some 0 => rfl
    | some (n + 1) =>
      have hcount := le_elementCount hn hbatch
      have hread : ∀ i < 16, t.data i = t'.data i := fun i hi =>
        helements.data i (lt_of_lt_of_le hi hcount)
      have hk (k : Fin Edge.NUM_KEYPOINTS) : (k : ℕ) < 6 := k.isLt
      have hx (k : Fin Edge.NUM_KEYPOINTS) : t.data (4 + k * 2 + 0) = t'.data (4 + k * 2 + 0) :=
        hread _ (by have := hk k; omega)
      have hy (k : Fin Edge.NUM_KEYPOINTS) : t.data (4 + k * 2 + 1) = t'.data (4 + k * 2 + 1) :=
        hread _ (by have := hk k; omega)
      simp only [hx, hy, hread 0 (by decide), hread 1 (by decide), hread 2 (by decide),
        hread 3 (by decide)]

/-- **Reads.** Of a batch that is not empty neither side looks at anything but the elements. -/
theorem align_congr {t' : Tensor K} (helements : SameElements t t')
    (hbatch : ∀ m, t.shape ≠ [0, m, Edge.kFloatsPerDetection]) (conf : K) :
    Edge.align conf t w h = Edge.align conf t' w h ∧ Panel.align t w h = Panel.align t' w h := by
  have hdetect := detectBest_congr helements hbatch conf (w := w) (h := h)
  constructor
  · rw [Edge.align, Edge.align, hdetect]
  · rw [Panel.align, Panel.align, detect_agree conf, detect_agree conf, hdetect]

/-! ## What the transform does -/

omit [LinearOrder K] in
theorem map_eq_apply (T : Panel.Similarity2D K) (p : Point K) :
    (Panel.setTransform T).map p = T.apply p := by
  simp [Panel.setTransform, Panel.CanvasTransform.map, Similarity.apply, sub_eq_add_neg]

theorem similarityFromEyes_eq {r l : Point K} {T : Panel.Similarity2D K}
    (hT : Panel.similarityFromEyes r l = some T) :
    ¬ Similarity.distSq r l < 1e-6 ∧
      T = Similarity.ofPoints r l Panel.CANONICAL_RIGHT_EYE Panel.CANONICAL_LEFT_EYE := by
  simp only [Panel.similarityFromEyes] at hT
  split at hT
  · cases hT
  · rename_i hge
    cases hT
    exact ⟨hge, rfl⟩

/-- The eyes of an aligned face lie on the canonical eyes. -/
theorem eyes_aligned [IsStrictOrderedRing K] {T : Panel.Similarity2D K} {d : Panel.Detection K}
    (hT : Panel.embedTransform d = some T) :
    (Panel.setTransform T).map d.rightEye = Panel.CANONICAL_RIGHT_EYE ∧
      (Panel.setTransform T).map d.leftEye = Panel.CANONICAL_LEFT_EYE := by
  unfold Panel.embedTransform at hT
  split at hT
  · cases hT
  · obtain ⟨hge, rfl⟩ := similarityFromEyes_eq hT
    have hne : Similarity.distSq d.rightEye d.leftEye ≠ 0 := by
      intro hzero
      rw [hzero] at hge
      exact hge (by norm_num)
    rw [map_eq_apply, map_eq_apply]
    exact ⟨Similarity.apply_ofPoints_fst _ _ _ _, Similarity.apply_ofPoints_snd hne⟩

end Agree

/-! ## Over the reals -/

section Exact
open Edge

theorem map_matrix (T : Panel.Similarity2D ℝ) (p : Point ℝ) :
    warpAffine (Panel.matrix T) p = T.apply p := by
  rw [← map_setTransform, map_eq_apply]

theorem isSimilarity_matrix_iff (T : Panel.Similarity2D ℝ) :
    IsSimilarity (Panel.matrix T) ↔ 0 < T.a ^ 2 + T.b ^ 2 := by
  rw [isSimilarity_iff]
  simp [Panel.matrix]

/-- The matrices of this form are those of `Similarity2D`. -/
theorem exists_matrix_eq {M : Matrix (Fin 2) (Fin 3) ℝ} (h : IsSimilarity M) :
    ∃ T : Panel.Similarity2D ℝ, M = Panel.matrix T := by
  obtain ⟨-, h11, h01⟩ := isSimilarity_iff.mp h
  refine ⟨⟨M 0 0, M 1 0, M 0 2, M 1 2⟩, Matrix.ext fun i j => ?_⟩
  fin_cases i <;> fin_cases j <;> simp [Panel.matrix, h11, h01]

/-- Eyes apart cannot be scaled to nothing: the canonical ones are apart. -/
theorem scale_pos {r l : Point ℝ} (h : Similarity.distSq r l ≠ 0) :
    let T := Similarity.ofPoints r l Panel.CANONICAL_RIGHT_EYE Panel.CANONICAL_LEFT_EYE
    0 < T.a ^ 2 + T.b ^ 2 := by
  intro T
  obtain ⟨hx, -⟩ := Similarity.ofPoints_diff (Panel.CANONICAL_RIGHT_EYE : Point ℝ)
    Panel.CANONICAL_LEFT_EYE h
  have ha := sq_nonneg T.a
  have hb := sq_nonneg T.b
  rcases (add_nonneg ha hb).lt_or_eq with hpos | hzero
  · exact hpos
  · have ha0 : T.a = 0 := pow_eq_zero_iff two_ne_zero |>.mp (by linarith)
    have hb0 : T.b = 0 := pow_eq_zero_iff two_ne_zero |>.mp (by linarith)
    change T.a * (l.x - r.x) - T.b * (l.y - r.y) = _ at hx
    rw [ha0, hb0] at hx
    norm_num [Panel.CANONICAL_RIGHT_EYE, Panel.CANONICAL_LEFT_EYE] at hx

/-- **Exact alignment.** From the guard on, the matrix is the only similarity that takes the
eyes to the canonical ones, and its divisor is not zero; below it there is none. -/
theorem transform_exact (kps : Keypoints ℝ) :
    let r := kps kRightEyeIdx
    let l := kps kLeftEyeIdx
    (Similarity.distSq r l < 1e-6 →
      similarityTransformFromEyes kps = none ∧ Panel.similarityFromEyes r l = none) ∧
    (1e-6 ≤ Similarity.distSq r l → Similarity.distSq r l ≠ 0 ∧
      ∃ M, similarityTransformFromEyes kps = some M ∧
        (Panel.similarityFromEyes r l).map Panel.matrix = some M ∧ IsSimilarity M ∧
        warpAffine M r = kCanonicalRightEye ∧ warpAffine M l = kCanonicalLeftEye ∧
        ∀ M', IsSimilarity M' → warpAffine M' r = kCanonicalRightEye →
          warpAffine M' l = kCanonicalLeftEye → M' = M) := by
  intro r l
  have hagree : similarityTransformFromEyes kps =
      (Panel.similarityFromEyes r l).map Panel.matrix := similarity_agree kps
  constructor
  · intro hlt
    have hnone : Panel.similarityFromEyes r l = none := if_pos hlt
    rw [hagree, hnone]
    exact ⟨rfl, rfl⟩
  · intro hge
    have hne : Similarity.distSq r l ≠ 0 := by
      intro hzero
      rw [hzero] at hge
      norm_num at hge
    let T := Similarity.ofPoints r l Panel.CANONICAL_RIGHT_EYE Panel.CANONICAL_LEFT_EYE
    have hsome : Panel.similarityFromEyes r l = some T := if_neg (not_lt.mpr hge)
    rw [hagree, hsome]
    refine ⟨hne, Panel.matrix T, rfl, rfl, (isSimilarity_matrix_iff T).mpr (scale_pos hne), ?_, ?_,
      ?_⟩
    · exact (map_matrix T r).trans (Similarity.apply_ofPoints_fst _ _ _ _)
    · exact (map_matrix T l).trans (Similarity.apply_ofPoints_snd hne)
    · intro M' hM' hr hl
      obtain ⟨T', rfl⟩ := exists_matrix_eq hM'
      rw [map_matrix] at hr hl
      exact congrArg Panel.matrix (Similarity.eq_ofPoints hne hr hl)

end Exact
end FaceGate.L5.Alignment
