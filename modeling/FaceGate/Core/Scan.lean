import FaceGate.Core.Flt
import Mathlib.Data.List.Induction

/-!
# Linear search for the smallest score

A loop over a list keeps the best score so far, starting at `+∞` with no
element, and replaces it only by a strictly smaller score. `scan_spec`: it ends
with the first element of least score, or with none when no score is below `+∞`
(a NaN score never is).

The least score does not depend on the order of the list
(`IsMin.perm`, `IsMin.unique`); the element does, but only among those that
attain it.
-/
namespace Core.Scan

open Flt

variable {α K : Type*} [LinearOrder K] [OrderTop K] (score : α → Flt K)

def scanStep (best : Flt K × Option α) (a : α) : Flt K × Option α :=
  if score a < best.1 then (score a, some a) else best

def scan (l : List α) : Flt K × Option α := l.foldl (scanStep score) (inf, none)

/-- The loop that keeps the score alone. -/
def least (l : List α) : Flt K :=
  l.foldl (fun best a => if score a < best then score a else best) inf

/-- `x` is the least score of `l`, and it is finite. -/
def IsMin (l : List α) (x : K) : Prop :=
  x < ⊤ ∧ (∃ a ∈ l, score a = num x) ∧ ∀ a ∈ l, ∀ y, score a = num y → x ≤ y

/-- `a` is the first element of `l` that attains the least score `x`. -/
def FirstMin (l : List α) (a : α) (x : K) : Prop :=
  x < ⊤ ∧ ∃ pre post, l = pre ++ a :: post ∧ score a = num x ∧
    (∀ b ∈ pre, ∀ y, score b = num y → x < y) ∧ (∀ b ∈ post, ∀ y, score b = num y → x ≤ y)

/-- No score of `l` is below `+∞`. -/
def NoneBelow (l : List α) : Prop := ∀ a ∈ l, ¬ score a < inf

variable {score}

theorem FirstMin.mem {l : List α} {a : α} {x : K} (h : FirstMin score l a x) : a ∈ l := by
  obtain ⟨-, pre, post, rfl, -⟩ := h
  simp

theorem FirstMin.score_eq {l : List α} {a : α} {x : K} (h : FirstMin score l a x) :
    score a = num x := by
  obtain ⟨-, pre, post, -, ha, -⟩ := h
  exact ha

theorem FirstMin.isMin {l : List α} {a : α} {x : K} (h : FirstMin score l a x) :
    IsMin score l x := by
  refine ⟨h.1, ⟨a, h.mem, h.score_eq⟩, fun b hb y hy => ?_⟩
  obtain ⟨-, pre, post, rfl, ha, hpre, hpost⟩ := h
  rcases List.mem_append.mp hb with hb | hb
  · exact (hpre b hb y hy).le
  · rcases List.mem_cons.mp hb with rfl | hb
    · rw [ha] at hy; cases hy; exact le_rfl
    · exact hpost b hb y hy

omit [OrderTop K] in
/-- An element whose score is not below `num x` has no number below `x` as score. -/
theorem le_of_not_lt {a : α} {x : K} (h : ¬ score a < num x) : ∀ y, score a = num y → x ≤ y := by
  intro y hy
  rw [hy] at h
  exact not_lt.mp h

theorem NoneBelow.score_eq_top {l : List α} (h : NoneBelow score l) {a : α} (ha : a ∈ l) {y : K}
    (hy : score a = num y) : y = ⊤ := by
  have := h a ha
  rw [hy] at this
  exact top_le_iff.mp (not_lt.mp this)

theorem scan_append (l : List α) (a : α) :
    scan score (l ++ [a]) = scanStep score (scan score l) a := by
  simp [scan, List.foldl_append]

variable (score) in
/-- **The loop.** It finds the first element of least score, or none. -/
theorem scan_spec (l : List α) :
    (scan score l = (inf, none) ∧ NoneBelow score l) ∨
      ∃ a x, scan score l = (num x, some a) ∧ FirstMin score l a x := by
  induction l using List.reverseRecOn with
  | nil => exact Or.inl ⟨rfl, fun a ha => absurd ha List.not_mem_nil⟩
  | append_singleton l b ih =>
    rw [scan_append]
    rcases ih with ⟨he, hn⟩ | ⟨a, x, he, hf⟩
    · rw [he]
      unfold scanStep
      split
      · rename_i hlt
        obtain ⟨y, t, hy, ht, hyt⟩ := exists_num_of_lt hlt
        cases ht
        refine Or.inr ⟨b, y, by rw [hy], hyt, l, [], rfl, hy, fun c hc z hz => ?_, by simp⟩
        rw [hn.score_eq_top hc hz]
        exact hyt
      · rename_i hge
        refine Or.inl ⟨rfl, fun c hc => ?_⟩
        rcases List.mem_append.mp hc with hc | hc
        · exact hn c hc
        · rw [List.mem_singleton.mp hc]; exact hge
    · rw [he]
      unfold scanStep
      split
      · rename_i hlt
        obtain ⟨y, t, hy, ht, hyt⟩ := exists_num_of_lt hlt
        cases ht
        refine Or.inr ⟨b, y, by rw [hy], hyt.trans hf.1, l, [], rfl, hy, fun c hc z hz => ?_,
          by simp⟩
        exact hyt.trans_le (hf.isMin.2.2 c hc z hz)
      · rename_i hge
        obtain ⟨hx, pre, post, rfl, ha, hpre, hpost⟩ := hf
        refine Or.inr ⟨a, x, rfl, hx, pre, post ++ [b], by simp, ha, hpre, fun c hc => ?_⟩
        rcases List.mem_append.mp hc with hc | hc
        · exact hpost c hc
        · rw [List.mem_singleton.mp hc]; exact le_of_not_lt hge

/-- The loop that keeps the score alone keeps the same score. -/
theorem least_eq_scan (l : List α) : least score l = (scan score l).1 := by
  have hstep : ∀ best a, (if score a < best.1 then score a else best.1) =
      (scanStep score best a).1 := by
    intro best a
    unfold scanStep
    split <;> rfl
  change l.foldl _ (Prod.fst ((inf : Flt K), (none : Option α))) = _
  exact List.foldl_hom Prod.fst hstep

theorem IsMin.not_noneBelow {l : List α} {x : K} (h : IsMin score l x) : ¬ NoneBelow score l := by
  obtain ⟨hx, ⟨a, ha, hax⟩, -⟩ := h
  intro hn
  exact hx.ne (hn.score_eq_top ha hax)

/-- The loop over elements read off others. -/
theorem firstMin_map {β : Type*} {f : β → α} {l : List β} {a : α} {x : K} :
    FirstMin score (l.map f) a x ↔ ∃ b, f b = a ∧ FirstMin (fun b => score (f b)) l b x := by
  constructor
  · rintro ⟨hx, pre, post, hl, ha, hpre, hpost⟩
    obtain ⟨pre', rest, rfl, rfl, hrest⟩ := List.map_eq_append_iff.mp hl
    obtain ⟨b, post', rfl, hb, rfl⟩ := List.map_eq_cons_iff.mp hrest
    refine ⟨b, hb, hx, pre', post', rfl, (congrArg score hb).trans ha, fun c hc => ?_,
      fun c hc => ?_⟩
    · exact hpre (f c) (List.mem_map_of_mem hc)
    · exact hpost (f c) (List.mem_map_of_mem hc)
  · rintro ⟨b, rfl, hx, pre, post, rfl, ha, hpre, hpost⟩
    refine ⟨hx, pre.map f, post.map f, by simp, ha, fun c hc => ?_, fun c hc => ?_⟩
    · obtain ⟨d, hd, rfl⟩ := List.mem_map.mp hc
      exact hpre d hd
    · obtain ⟨d, hd, rfl⟩ := List.mem_map.mp hc
      exact hpost d hd

/-! ## The least score does not depend on the order -/

theorem IsMin.unique {l : List α} {x y : K} (hx : IsMin score l x) (hy : IsMin score l y) :
    x = y := by
  obtain ⟨-, ⟨a, ha, hax⟩, hmx⟩ := hx
  obtain ⟨-, ⟨b, hb, hby⟩, hmy⟩ := hy
  exact le_antisymm (hmx b hb y hby) (hmy a ha x hax)

theorem FirstMin.unique {l : List α} {a b : α} {x y : K} (ha : FirstMin score l a x)
    (hb : FirstMin score l b y) : a = b := by
  have hxy : x = y := ha.isMin.unique hb.isMin
  obtain ⟨-, pre, post, hl, hsa, hpre, -⟩ := ha
  obtain ⟨-, pre', post', hl', hsb, hpre', -⟩ := hb
  rw [hl] at hl'
  rcases List.append_eq_append_iff.mp hl' with ⟨c, rfl, hc⟩ | ⟨c, rfl, hc⟩
  · cases c with
    | nil => exact (List.cons.inj hc).1
    | cons d c =>
      obtain ⟨rfl, -⟩ := List.cons.inj hc
      exact absurd (hpre' a (by simp) x hsa) (by rw [hxy]; exact lt_irrefl y)
  · cases c with
    | nil => exact (List.cons.inj hc).1.symm
    | cons d c =>
      obtain ⟨rfl, -⟩ := List.cons.inj hc
      exact absurd (hpre b (by simp) y hsb) (by rw [hxy]; exact lt_irrefl y)

theorem FirstMin.scan_eq {l : List α} {a : α} {x : K} (h : FirstMin score l a x) :
    scan score l = (num x, some a) := by
  rcases scan_spec score l with ⟨-, hn⟩ | ⟨b, y, hs, hf⟩
  · exact absurd hn h.isMin.not_noneBelow
  · rw [hs, hf.unique h, hf.isMin.unique h.isMin]

theorem IsMin.exists_first {l : List α} {x : K} (h : IsMin score l x) :
    ∃ a, FirstMin score l a x := by
  rcases scan_spec score l with ⟨-, hn⟩ | ⟨a, y, -, hf⟩
  · exact absurd hn h.not_noneBelow
  · rw [h.unique hf.isMin]
    exact ⟨a, hf⟩

theorem IsMin.perm {l m : List α} (hp : l.Perm m) {x : K} (h : IsMin score l x) :
    IsMin score m x :=
  ⟨h.1, h.2.1.imp fun _ ha => ⟨hp.subset ha.1, ha.2⟩, fun a ha => h.2.2 a (hp.symm.subset ha)⟩

theorem NoneBelow.perm {l m : List α} (hp : l.Perm m) (h : NoneBelow score l) :
    NoneBelow score m := fun a ha => h a (hp.symm.subset ha)

/-- On two orders of the same elements the loop ends with the same score, and
finds an element on both or on neither. -/
theorem scan_perm {l m : List α} (hp : l.Perm m) (score : α → Flt K) :
    (scan score l = (inf, none) ∧ scan score m = (inf, none)) ∨
      ∃ a b x, scan score l = (num x, some a) ∧ scan score m = (num x, some b) ∧
        FirstMin score l a x ∧ FirstMin score m b x := by
  rcases scan_spec score l with ⟨hl, hnl⟩ | ⟨a, x, hl, hfl⟩ <;>
    rcases scan_spec score m with ⟨hm, hnm⟩ | ⟨b, y, hm, hfm⟩
  · exact Or.inl ⟨hl, hm⟩
  · exact absurd (hnl.perm hp) hfm.isMin.not_noneBelow
  · exact absurd (hnm.perm hp.symm) hfl.isMin.not_noneBelow
  · have hxy := (hfl.isMin.perm hp).unique hfm.isMin
    subst hxy
    exact Or.inr ⟨a, b, x, hl, hm, hfl, hfm⟩

end Core.Scan
