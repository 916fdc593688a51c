import Mathlib.Algebra.BigOperators.Group.Finset.Piecewise
import Mathlib.Algebra.BigOperators.Group.List.Lemmas
import Mathlib.Algebra.GroupWithZero.Nat
import Mathlib.Algebra.Order.BigOperators.Group.Finset
import Mathlib.Data.Finset.Card
import Mathlib.Data.Finset.Max
import Mathlib.Data.List.Dedup
import Mathlib.Order.Monotone.Defs

/-!
# Grouping

`groupBy key l` are the rows of `l` by key, one group for each key that occurs. The
groups whose key satisfies `P` hold together the rows whose key does
(`sum_length_groupBy`); counted under a list of keys without repetition that has the
key of every row, each row counts once (`sum_countP_keys`).

`firsts f S` are the first elements of the classes of `f`, in a linear order.
If `f` and `g` do not go back along the order, their first elements are the same
exactly if their classes are (`firsts_eq_iff`).

`eq_of_card_eq_of_sum_eq` tells two sets from their sizes and sums, when one side
of the difference lies above a bound and the other below.
-/
namespace Core.Grouping

variable {R K : Type*}

/-! ## GROUP BY -/

section GroupBy
variable [DecidableEq K]

def groupBy (key : R → K) (l : List R) : List (K × List R) :=
  (l.map key).dedup.map fun k => (k, l.filter fun r => key r = k)

variable {key : R → K}

theorem mem_groupBy {l : List R} {p : K × List R} :
    p ∈ groupBy key l ↔ (∃ r ∈ l, key r = p.1) ∧ p.2 = l.filter fun r => key r = p.1 := by
  unfold groupBy
  rw [List.mem_map]
  constructor
  · rintro ⟨k, hk, rfl⟩
    exact ⟨List.mem_map.mp (List.mem_dedup.mp hk), rfl⟩
  · rintro ⟨hk, hrows⟩
    exact ⟨p.1, List.mem_dedup.mpr (List.mem_map.mpr hk), Prod.ext rfl hrows.symm⟩

theorem keys_groupBy (key : R → K) (l : List R) :
    (groupBy key l).map Prod.fst = (l.map key).dedup := by
  rw [groupBy, List.map_map]
  exact List.map_id _

theorem nodup_groupBy (key : R → K) (l : List R) : ((groupBy key l).map Prod.fst).Nodup := by
  rw [keys_groupBy]
  exact List.nodup_dedup _

/-- What is made of the groups has the groups' keys. -/
theorem nodup_map_groupBy {A : Type*} {g : K × List R → A} {key' : A → K}
    (hg : ∀ p, key' (g p) = p.1) (l : List R) : (((groupBy key l).map g).map key').Nodup := by
  have hcomp : key' ∘ g = Prod.fst := funext hg
  rw [List.map_map, hcomp]
  exact nodup_groupBy key l

/-- The rows of a group are not none. -/
theorem ne_nil_of_mem_groupBy {l : List R} {p : K × List R} (h : p ∈ groupBy key l) :
    p.2 ≠ [] := by
  obtain ⟨⟨r, hr, hk⟩, hrows⟩ := mem_groupBy.mp h
  rw [hrows]
  exact List.ne_nil_of_mem (List.mem_filter.mpr ⟨hr, decide_eq_true hk⟩)

variable (key) in
/-- Grouping by a key that a change of the rows keeps. -/
theorem groupBy_map {R' : Type*} {key' : R' → K} {f : R → R'} (hf : ∀ r, key' (f r) = key r)
    (l : List R) : groupBy key' (l.map f) = (groupBy key l).map fun p => (p.1, p.2.map f) := by
  have hcomp : key' ∘ f = key := funext hf
  unfold groupBy
  rw [List.map_map, List.map_map, hcomp]
  refine List.map_congr_left fun k _ => ?_
  simp only [Function.comp_apply, List.filter_map]
  refine congrArg (fun l => (k, List.map f l)) (List.filter_congr fun r _ => ?_)
  simp [hf]

omit [DecidableEq K] in
variable (key) in
/-- Rows that keep the keys of the rows they come from have distinct keys. -/
theorem nodup_filterMap {R' : Type*} {key' : R' → K} {f : R → Option R'} {l : List R}
    (hl : (l.map key).Nodup) (hf : ∀ r b, f r = some b → key' b = key r) :
    ((l.filterMap f).map key').Nodup := by
  have hpair : l.Pairwise fun a b => key a ≠ key b := List.pairwise_map.mp hl
  refine List.pairwise_map.mpr (List.pairwise_filterMap.mpr (hpair.imp ?_))
  intro a b hab a' ha' b' hb'
  rw [hf a a' ha', hf b b' hb']
  exact hab

/-! ## Counts -/

theorem length_group (key : R → K) (l : List R) (k : K) :
    (l.filter fun r => key r = k).length = (l.map key).count k := by
  rw [← List.countP_eq_length_filter, List.count, List.countP_map]
  refine List.countP_congr fun r _ => ?_
  simp

variable (key) in
/-- The groups of the keys with `P` have the rows with such a key, each once. -/
theorem sum_length_groupBy (P : K → Bool) (l : List R) :
    (((groupBy key l).filter fun p => P p.1).map fun p => p.2.length).sum =
      l.countP fun r => P (key r) := by
  unfold groupBy
  rw [List.filter_map, List.map_map]
  simp only [Function.comp_def, length_group]
  rw [List.sum_map_count_dedup_filter_eq_countP, List.countP_map]
  rfl

variable (key) in
/-- Counted key by key, each row counts once. -/
theorem sum_countP_keys {ks : List K} (hks : ks.Nodup) {l : List R} (hl : ∀ r ∈ l, key r ∈ ks) :
    (ks.map fun k => l.countP fun r => key r = k).sum = l.length := by
  induction l with
  | nil => simp
  | cons r l ih =>
    have hrest : ∀ r ∈ l, key r ∈ ks := fun r hr => hl r (List.mem_cons_of_mem _ hr)
    have hself : (ks.map fun k => if key r = k then 1 else 0).sum = 1 := by
      rw [List.sum_map_eq_nsmul_single (key r) _ fun k hk _ => if_neg (Ne.symm hk),
        List.count_eq_one_of_mem hks (hl r List.mem_cons_self), one_nsmul, if_pos rfl]
    simp only [List.countP_cons, decide_eq_true_eq, List.sum_map_add, List.length_cons]
    rw [ih hrest, hself]

variable (key) in
/-- The same of the rows that count. -/
theorem sum_countP_mem {ks : List K} (hks : ks.Nodup) (q : R → Bool) (l : List R) :
    (ks.map fun k => l.countP fun r => q r && decide (key r = k)).sum =
      l.countP fun r => q r && decide (key r ∈ ks) := by
  have hsum := sum_countP_keys key hks (l := l.filter fun r => q r && decide (key r ∈ ks))
    fun r hr => of_decide_eq_true (Bool.and_eq_true_iff.mp (List.mem_filter.mp hr).2).2
  rw [← List.countP_eq_length_filter] at hsum
  rw [← hsum]
  congr 1
  refine List.map_congr_left fun k hk => ?_
  rw [List.countP_filter]
  refine List.countP_congr fun r _ => ?_
  by_cases hr : key r = k
  · simp [hr, hk]
  · simp [hr]

end GroupBy

/-! ## First elements -/

section Firsts
variable {A B C : Type*} [LinearOrder A] [DecidableEq B] [DecidableEq C]

def firsts (f : A → B) (S : Finset A) : Finset A := S.filter fun x => ∀ y ∈ S, f y = f x → x ≤ y

variable {f : A → B} {g : A → C} {S : Finset A}

theorem mem_firsts {x : A} : x ∈ firsts f S ↔ x ∈ S ∧ ∀ y ∈ S, f y = f x → x ≤ y :=
  Finset.mem_filter

/-- Each class has its first element. -/
theorem exists_first {x : A} (hx : x ∈ S) : ∃ m ∈ firsts f S, f m = f x ∧ m ≤ x := by
  have hself : x ∈ S.filter fun y => f y = f x := Finset.mem_filter.mpr ⟨hx, rfl⟩
  have hne : (S.filter fun y => f y = f x).Nonempty := ⟨x, hself⟩
  have hmem := Finset.mem_filter.mp (Finset.min'_mem _ hne)
  refine ⟨_, mem_firsts.mpr ⟨hmem.1, ?_⟩, hmem.2, ?_⟩
  · intro y hy hfy
    exact Finset.min'_le _ y (Finset.mem_filter.mpr ⟨hy, hfy.trans hmem.2⟩)
  · exact Finset.min'_le _ x hself

theorem injOn_firsts : Set.InjOn f (firsts f S) := by
  intro x hx y hy hxy
  obtain ⟨hxS, hxle⟩ := mem_firsts.mp hx
  obtain ⟨hyS, hyle⟩ := mem_firsts.mp hy
  exact le_antisymm (hxle y hyS hxy.symm) (hyle x hxS hxy)

/-- As many first elements as classes. -/
theorem card_firsts : (firsts f S).card = (S.image f).card := by
  have himage : (firsts f S).image f = S.image f := by
    ext b
    simp only [Finset.mem_image]
    constructor
    · rintro ⟨x, hx, rfl⟩
      exact ⟨x, (mem_firsts.mp hx).1, rfl⟩
    · rintro ⟨x, hx, rfl⟩
      obtain ⟨m, hm, hfm, -⟩ := exists_first (f := f) hx
      exact ⟨m, hm, hfm⟩
  rw [← himage, Finset.card_image_of_injOn injOn_firsts]

variable [PartialOrder B] [PartialOrder C]

omit [PartialOrder C] in
/-- The first of a class of `f` that is not the first of its class of `g`: that one is of
an earlier class of `f`. -/
theorem exists_earlier (hf : Monotone f) {x : A} (hx : x ∈ firsts f S \ firsts g S) :
    ∃ y ∈ S, g y = g x ∧ f y < f x := by
  obtain ⟨hxf, hxg⟩ := Finset.mem_sdiff.mp hx
  obtain ⟨hxS, hle⟩ := mem_firsts.mp hxf
  obtain ⟨y, hy, hgy, hyx⟩ := exists_first (f := g) hxS
  have hyS := (mem_firsts.mp hy).1
  refine ⟨y, hyS, hgy, lt_of_le_of_ne (hf hyx) ?_⟩
  intro hfy
  rw [le_antisymm hyx (hle y hyS hfy)] at hy
  exact hxg hy

/-- Elements of one class of `f` are of one class of `g`, if the first elements agree. -/
theorem class_of_firsts_eq (hf : Monotone f) (hg : Monotone g) (h : firsts f S = firsts g S)
    {x y : A} (hx : x ∈ S) (hy : y ∈ S) (hxy : x ≤ y) (hfxy : f x = f y) : g x = g y := by
  obtain ⟨m, hm, hfm, hmx⟩ := exists_first (f := f) hx
  obtain ⟨n, hn, hgn, hny⟩ := exists_first (f := g) hy
  by_cases hnx : n ≤ x
  · -- `x` lies between the first element of the class of `y` and `y`
    refine le_antisymm (hg hxy) ?_
    rw [← hgn]
    exact hg hnx
  · -- the first element of the class of `y` lies in the class of `x`, after its first
    have hxn : x ≤ n := (not_le.mp hnx).le
    have hfn : f n = f x := le_antisymm (by rw [hfxy]; exact hf hny) (hf hxn)
    rw [← h] at hn
    have hnm : n ≤ m := (mem_firsts.mp hn).2 m (mem_firsts.mp hm).1 (hfm.trans hfn.symm)
    exact absurd (hnm.trans hmx) hnx

theorem firsts_eq_iff (hf : Monotone f) (hg : Monotone g) :
    firsts f S = firsts g S ↔ ∀ x ∈ S, ∀ y ∈ S, f x = f y ↔ g x = g y := by
  constructor
  · intro h x hx y hy
    rcases le_total x y with hxy | hxy
    · exact ⟨class_of_firsts_eq hf hg h hx hy hxy, class_of_firsts_eq hg hf h.symm hx hy hxy⟩
    · constructor
      · intro hfxy
        exact (class_of_firsts_eq hf hg h hy hx hxy hfxy.symm).symm
      · intro hgxy
        exact (class_of_firsts_eq hg hf h.symm hy hx hxy hgxy.symm).symm
  · intro h
    ext x
    rw [mem_firsts, mem_firsts]
    refine and_congr_right fun hx => forall₂_congr fun y hy => ?_
    rw [h y hy x hx]

end Firsts

/-! ## Size and sum -/

section Sums
variable {A M : Type*} [DecidableEq A] [AddCommMonoid M] [LinearOrder M]
  [IsOrderedCancelAddMonoid M]

/-- Two sets of one size and one sum, that differ only by elements with at least `c` on
one side and less on the other, do not differ. -/
theorem eq_of_card_eq_of_sum_eq {S T : Finset A} {v : A → M} {c : M}
    (hS : ∀ x ∈ S \ T, c ≤ v x) (hT : ∀ x ∈ T \ S, v x < c) (hcard : S.card = T.card)
    (hsum : ∑ x ∈ S, v x = ∑ x ∈ T, v x) : S = T := by
  have hrest : ∑ x ∈ S \ T, v x = ∑ x ∈ T \ S, v x := by
    have h₁ := Finset.sum_inter_add_sum_sdiff S T v
    have h₂ := Finset.sum_inter_add_sum_sdiff T S v
    rw [Finset.inter_comm] at h₂
    rw [← h₁, ← h₂] at hsum
    exact add_left_cancel hsum
  have hcards : (S \ T).card = (T \ S).card := by
    have h₁ := Finset.card_inter_add_card_sdiff S T
    have h₂ := Finset.card_inter_add_card_sdiff T S
    rw [Finset.inter_comm] at h₂
    omega
  by_contra hne
  have hnonempty : (T \ S).Nonempty := by
    rw [Finset.sdiff_nonempty]
    intro hTS
    exact hne (Finset.eq_of_subset_of_card_le hTS hcard.le).symm
  have hlower : (S \ T).card • c ≤ ∑ x ∈ S \ T, v x := Finset.card_nsmul_le_sum _ _ _ hS
  have hupper : ∑ x ∈ T \ S, v x < (T \ S).card • c := by
    rw [← Finset.sum_const]
    exact Finset.sum_lt_sum_of_nonempty hnonempty hT
  rw [hcards, hrest] at hlower
  exact absurd hupper (not_lt.mpr hlower)

end Sums
end Core.Grouping
