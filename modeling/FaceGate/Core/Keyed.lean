import Mathlib.Order.Lattice
import Mathlib.Data.Int.Order.Basic
import Mathlib.Data.List.Nodup
import Mathlib.Data.List.Perm.Basic
import Mathlib.Data.List.Pairwise
import Mathlib.Data.List.Sort

/-!
# Rows addressed by a key

Two containers of rows that carry their own key:

* a vector in arrival order (`replaceOrPush`, `eraseKey`), whose keys stay
  pairwise distinct (`DistinctKeys`);
* `Table`: rows kept in ascending key order, the shape of a B-tree on an integer
  primary key. The order is a field of the structure. `Serial` adds the counter
  that fresh keys come from.

Both are compared through `lookup`: two containers with distinct keys and equal
lookups hold the same rows, in possibly different orders (`perm_of_lookup_eq`).
-/
namespace Core.Keyed

variable {R K : Type*}

/-! ## Lookup -/

section Lookup
variable [DecidableEq K] (key : R → K)

/-- The first row with key `k`. -/
def lookup (k : K) : List R → Option R
  | [] => none
  | r :: l => if key r = k then some r else lookup k l

def DistinctKeys (l : List R) : Prop := (l.map key).Nodup

variable {key}

@[simp] theorem lookup_nil (k : K) : lookup key k [] = none := rfl

theorem lookup_cons (k : K) (r : R) (l : List R) :
    lookup key k (r :: l) = if key r = k then some r else lookup key k l := rfl

theorem key_of_lookup {k : K} {r : R} : ∀ {l : List R}, lookup key k l = some r → key r = k
  | a :: l, h => by
    rw [lookup_cons] at h
    split at h
    · cases h; assumption
    · exact key_of_lookup h

theorem mem_of_lookup {k : K} {r : R} : ∀ {l : List R}, lookup key k l = some r → r ∈ l
  | a :: l, h => by
    rw [lookup_cons] at h
    split at h
    · cases h; exact List.mem_cons_self
    · exact List.mem_cons_of_mem _ (mem_of_lookup h)

theorem lookup_eq_none {k : K} : ∀ {l : List R}, lookup key k l = none ↔ ∀ r ∈ l, key r ≠ k
  | [] => by simp
  | a :: l => by
    rw [lookup_cons]
    by_cases h : key a = k
    · simp [h]
    · simp [h, lookup_eq_none (l := l)]

omit [DecidableEq K] in
theorem distinctKeys_cons {r : R} {l : List R} :
    DistinctKeys key (r :: l) ↔ (∀ a ∈ l, key a ≠ key r) ∧ DistinctKeys key l := by
  simp only [DistinctKeys, List.map_cons, List.nodup_cons, List.mem_map, not_exists, not_and]

theorem lookup_of_mem {r : R} : ∀ {l : List R}, DistinctKeys key l → r ∈ l →
    lookup key (key r) l = some r
  | a :: l, hd, hr => by
    obtain ⟨hne, hd⟩ := distinctKeys_cons.mp hd
    rcases List.mem_cons.mp hr with rfl | hr
    · simp [lookup_cons]
    · rw [lookup_cons, if_neg (fun e => hne r hr e.symm)]
      exact lookup_of_mem hd hr

theorem mem_iff_lookup {r : R} {l : List R} (hd : DistinctKeys key l) :
    r ∈ l ↔ lookup key (key r) l = some r :=
  ⟨lookup_of_mem hd, mem_of_lookup⟩

theorem distinctKeys_append {l : List R} {r : R} (hd : DistinctKeys key l)
    (h : lookup key (key r) l = none) : DistinctKeys key (l ++ [r]) := by
  have hne := lookup_eq_none.mp h
  rw [DistinctKeys, List.map_append, List.nodup_append]
  refine ⟨hd, List.nodup_singleton _, fun k hk k' hk' => ?_⟩
  obtain ⟨a, ha, rfl⟩ := List.mem_map.mp hk
  rw [List.mem_singleton.mp hk']
  exact hne a ha

/-- A key is that of one row. -/
theorem eq_of_key {l : List R} (hd : DistinctKeys key l) {a b : R} (ha : a ∈ l) (hb : b ∈ l)
    (h : key a = key b) : a = b := by
  have ha' := lookup_of_mem hd ha
  have hb' := lookup_of_mem hd hb
  rw [h, hb'] at ha'
  exact (Option.some.inj ha').symm

/-- One row is left out of a count. -/
theorem countP_of_lookup {k : K} {r : R} (p : R → Bool) : ∀ {l : List R}, DistinctKeys key l →
    lookup key k l = some r →
    l.countP p = l.countP (fun a => p a && decide (key a ≠ k)) + if p r then 1 else 0
  | a :: l, hd, h => by
    obtain ⟨hne, hd⟩ := distinctKeys_cons.mp hd
    rw [lookup_cons] at h
    split at h
    · rename_i hk
      cases h
      have hrest : l.countP p = l.countP fun a => p a && decide (key a ≠ k) := by
        refine List.countP_congr fun b hb => ?_
        simp [show key b ≠ k from hk ▸ hne b hb]
      rw [List.countP_cons, List.countP_cons, hrest]
      simp [hk]
    · rename_i hk
      have ih := countP_of_lookup p hd h
      rw [List.countP_cons, List.countP_cons, ih]
      simp only [ne_eq, hk, not_false_eq_true, decide_true, Bool.and_true]
      omega

/-- Equal lookups and distinct keys: the same rows, up to order. -/
theorem perm_of_lookup_eq {l m : List R} (hl : DistinctKeys key l) (hm : DistinctKeys key m)
    (h : ∀ k, lookup key k l = lookup key k m) : l.Perm m := by
  refine (List.perm_ext_iff_of_nodup hl.of_map hm.of_map).mpr fun r => ?_
  rw [mem_iff_lookup hl, mem_iff_lookup hm, h]

/-- Lookup through a change of row type that keeps the key. -/
theorem lookup_map {R' : Type*} {key' : R' → K} {f : R → R'} (hf : ∀ r, key' (f r) = key r)
    (k : K) : ∀ l : List R, lookup key' k (l.map f) = (lookup key k l).map f
  | [] => rfl
  | r :: l => by
    rw [List.map_cons, lookup_cons, lookup_cons, hf, lookup_map hf k l]
    split <;> rfl

end Lookup

/-! ## A vector in arrival order -/

section Vector
variable [DecidableEq K] (key : R → K)

/-- Overwrite the first row with the same key, or push at the back. -/
def replaceOrPush (r : R) (l : List R) : List R :=
  match l.findIdx? (fun a => key a = key r) with
  | none => l ++ [r]
  | some i => l.set i r

/-- Drop every row with key `k`. -/
def eraseKey (k : K) (l : List R) : List R := l.filter fun r => key r ≠ k

variable {key}

theorem replaceOrPush_cons (r a : R) (l : List R) :
    replaceOrPush key r (a :: l) =
      if key a = key r then r :: l else a :: replaceOrPush key r l := by
  unfold replaceOrPush
  rw [List.findIdx?_cons]
  by_cases h : key a = key r
  · simp [h]
  · simp only [h, decide_false, Bool.false_eq_true, if_false]
    cases l.findIdx? (fun a => key a = key r) <;> rfl

theorem lookup_replaceOrPush (r : R) (k : K) : ∀ l : List R,
    lookup key k (replaceOrPush key r l) = if key r = k then some r else lookup key k l
  | [] => rfl
  | a :: l => by
    rw [replaceOrPush_cons]
    split
    · rename_i h
      simp only [lookup_cons, h]
      split <;> rfl
    · rename_i h
      rw [lookup_cons, lookup_cons, lookup_replaceOrPush r k l]
      split
      · rename_i hk
        rw [if_neg (fun e => h (hk.trans e.symm))]
      · rfl

theorem mem_replaceOrPush {r b : R} : ∀ {l : List R}, b ∈ replaceOrPush key r l → b = r ∨ b ∈ l
  | [], h => Or.inl (List.mem_singleton.mp h)
  | a :: l, h => by
    rw [replaceOrPush_cons] at h
    split at h
    · exact (List.mem_cons.mp h).imp_right (List.mem_cons_of_mem _)
    · rcases List.mem_cons.mp h with rfl | h
      · exact Or.inr List.mem_cons_self
      · exact (mem_replaceOrPush h).imp_right (List.mem_cons_of_mem _)

theorem distinctKeys_replaceOrPush (r : R) : ∀ {l : List R}, DistinctKeys key l →
    DistinctKeys key (replaceOrPush key r l)
  | [], _ => by simp [replaceOrPush, DistinctKeys]
  | a :: l, hd => by
    obtain ⟨hne, hd'⟩ := distinctKeys_cons.mp hd
    rw [replaceOrPush_cons]
    split
    · rename_i h
      exact distinctKeys_cons.mpr ⟨fun b hb => h ▸ hne b hb, hd'⟩
    · rename_i h
      refine distinctKeys_cons.mpr ⟨fun b hb => ?_, distinctKeys_replaceOrPush r hd'⟩
      rcases mem_replaceOrPush hb with rfl | hb
      · exact fun e => h e.symm
      · exact hne b hb

/-- Under a fresh key a row goes to the back. -/
theorem replaceOrPush_of_fresh {r : R} : ∀ {l : List R}, (∀ a ∈ l, key a ≠ key r) →
    replaceOrPush key r l = l ++ [r]
  | [], _ => rfl
  | a :: l, h => by
    rw [replaceOrPush_cons, if_neg (h a List.mem_cons_self),
      replaceOrPush_of_fresh fun b hb => h b (List.mem_cons_of_mem a hb), List.cons_append]

theorem lookup_eraseKey (j k : K) : ∀ l : List R,
    lookup key k (eraseKey key j l) = if k = j then none else lookup key k l
  | [] => by simp [eraseKey]
  | a :: l => by
    have ih := lookup_eraseKey j k l
    unfold eraseKey at ih ⊢
    by_cases h : key a = j
    · rw [List.filter_cons_of_neg (by simpa using h), ih, lookup_cons]
      split
      · rfl
      · rename_i hk
        rw [if_neg (fun e => hk (e.symm.trans h))]
    · rw [List.filter_cons_of_pos (by simpa using h), lookup_cons, lookup_cons, ih]
      by_cases hk : key a = k
      · rw [if_pos hk, if_pos hk, if_neg (fun e => h (hk.trans e))]
      · rw [if_neg hk, if_neg hk]

omit [DecidableEq K] in
theorem distinctKeys_filter {l : List R} (p : R → Bool) (hd : DistinctKeys key l) :
    DistinctKeys key (l.filter p) :=
  hd.sublist (List.filter_sublist.map _)

theorem distinctKeys_eraseKey {l : List R} (j : K) (hd : DistinctKeys key l) :
    DistinctKeys key (eraseKey key j l) :=
  distinctKeys_filter _ hd

end Vector

/-! ## A table in key order -/

section Sorted
variable [LinearOrder K] (key : R → K)

def Ascending (l : List R) : Prop := l.Pairwise fun a b => key a < key b

/-- Put `r` at its place, over a row with the same key. -/
def insertAsc (r : R) : List R → List R
  | [] => [r]
  | a :: l =>
    if key r < key a then r :: a :: l
    else if key r = key a then r :: l
    else a :: insertAsc r l

variable {key}

theorem Ascending.distinctKeys {l : List R} (h : Ascending key l) : DistinctKeys key l :=
  List.pairwise_map.mpr (h.imp ne_of_lt)

theorem mem_insertAsc {r b : R} : ∀ {l : List R}, b ∈ insertAsc key r l → b = r ∨ b ∈ l
  | [], h => Or.inl (List.mem_singleton.mp h)
  | a :: l, h => by
    simp only [insertAsc] at h
    split at h
    · exact List.mem_cons.mp h
    · split at h
      · exact (List.mem_cons.mp h).imp_right (List.mem_cons_of_mem _)
      · rcases List.mem_cons.mp h with rfl | h
        · exact Or.inr List.mem_cons_self
        · exact (mem_insertAsc h).imp_right (List.mem_cons_of_mem _)

theorem ascending_insertAsc (r : R) : ∀ {l : List R}, Ascending key l →
    Ascending key (insertAsc key r l)
  | [], _ => List.pairwise_singleton _ _
  | a :: l, h => by
    obtain ⟨ha, hl⟩ := List.pairwise_cons.mp h
    simp only [insertAsc]
    split
    · rename_i hlt
      refine List.pairwise_cons.mpr ⟨fun b hb => ?_, h⟩
      rcases List.mem_cons.mp hb with rfl | hb
      · exact hlt
      · exact hlt.trans (ha b hb)
    · rename_i hnlt
      split
      · rename_i heq
        exact List.pairwise_cons.mpr ⟨fun b hb => heq ▸ ha b hb, hl⟩
      · rename_i hne
        refine List.pairwise_cons.mpr ⟨fun b hb => ?_, ascending_insertAsc r hl⟩
        rcases mem_insertAsc hb with rfl | hb
        · exact lt_of_le_of_ne (not_lt.mp hnlt) (Ne.symm hne)
        · exact ha b hb

theorem lookup_insertAsc (r : R) (k : K) : ∀ {l : List R}, Ascending key l →
    lookup key k (insertAsc key r l) = if key r = k then some r else lookup key k l
  | [], _ => rfl
  | a :: l, h => by
    obtain ⟨ha, hl⟩ := List.pairwise_cons.mp h
    simp only [insertAsc]
    split
    · rw [lookup_cons]
    · split
      · rename_i heq
        simp only [lookup_cons, heq]
        split <;> rfl
      · rename_i hne
        rw [lookup_cons, lookup_cons, lookup_insertAsc r k hl]
        split
        · rename_i hk
          rw [if_neg (fun e => hne (e.trans hk.symm))]
        · rfl

/-- Under a fresh key, insertion adds the row and keeps the others. -/
theorem perm_insertAsc {r : R} : ∀ {l : List R}, lookup key (key r) l = none →
    (insertAsc key r l).Perm (r :: l)
  | [], _ => List.Perm.refl _
  | a :: l, h => by
    rw [lookup_cons] at h
    split at h
    · cases h
    · rename_i hne
      simp only [insertAsc]
      split
      · exact List.Perm.refl _
      · rw [if_neg fun e => hne e.symm]
        exact ((perm_insertAsc h).cons a).trans (List.Perm.swap r a l)

/-- Sorted by a key that is that of one row only, rows come out the same whatever order they
had. -/
theorem mergeSort_eq_of_perm {l m : List R} (hd : DistinctKeys key l) (hp : l.Perm m) :
    l.mergeSort (fun a b => key a ≤ key b) = m.mergeSort (fun a b => key a ≤ key b) := by
  have hsorted : ∀ l : List R,
      (l.mergeSort fun a b => key a ≤ key b).Pairwise fun a b => key a ≤ key b := by
    intro l
    have htrans : ∀ a b c : R, decide (key a ≤ key b) = true → decide (key b ≤ key c) = true →
        decide (key a ≤ key c) = true := fun a b c hab hbc =>
      decide_eq_true ((of_decide_eq_true hab).trans (of_decide_eq_true hbc))
    have htotal : ∀ a b : R, (decide (key a ≤ key b) || decide (key b ≤ key a)) = true :=
      fun a b => by simpa using le_total (key a) (key b)
    exact (List.pairwise_mergeSort htrans htotal l).imp of_decide_eq_true
  have hperm := (List.mergeSort_perm l fun a b => key a ≤ key b).trans
    (hp.trans (List.mergeSort_perm m fun a b => key a ≤ key b).symm)
  refine hperm.eq_of_pairwise (fun a b ha hb hab hba => ?_) (hsorted l) (hsorted m)
  exact eq_of_key hd (List.mem_mergeSort.mp ha) (hp.mem_iff.mpr (List.mem_mergeSort.mp hb))
    (le_antisymm hab hba)

end Sorted

/-- Rows in ascending order of a primary key. -/
structure Table (R : Type*) {K : Type*} [LinearOrder K] (key : R → K) where
  rows : List R
  sorted : Ascending key rows

namespace Table
variable [LinearOrder K] {key : R → K}

def empty : Table R key := ⟨[], List.Pairwise.nil⟩

def find (t : Table R key) (k : K) : Option R := lookup key k t.rows

/-- `INSERT OR REPLACE`. -/
def upsert (t : Table R key) (r : R) : Table R key :=
  ⟨insertAsc key r t.rows, ascending_insertAsc r t.sorted⟩

/-- `DELETE ... WHERE` the rows that do not satisfy `keep`. -/
def deleteWhere (t : Table R key) (keep : R → Bool) : Table R key :=
  ⟨t.rows.filter keep, t.sorted.filter keep⟩

def erase (t : Table R key) (k : K) : Table R key := t.deleteWhere fun r => key r ≠ k

theorem distinctKeys (t : Table R key) : DistinctKeys key t.rows := t.sorted.distinctKeys

theorem key_of_find {t : Table R key} {k : K} {r : R} (h : t.find k = some r) : key r = k :=
  key_of_lookup h

theorem mem_rows_iff {t : Table R key} {r : R} : r ∈ t.rows ↔ t.find (key r) = some r :=
  mem_iff_lookup t.distinctKeys

/-- The last row has the largest key. -/
theorem key_le_getLast {t : Table R key} {r : R} (h : t.rows.getLast? = some r) :
    ∀ a ∈ t.rows, key a ≤ key r := by
  intro a ha
  obtain ⟨l, hl⟩ := List.getLast?_eq_some_iff.mp h
  have hs := t.sorted
  unfold Ascending at hs
  rw [hl, List.pairwise_append] at hs
  rw [hl] at ha
  rcases List.mem_append.mp ha with ha | ha
  · exact (hs.2.2 a ha r (List.mem_singleton_self r)).le
  · rw [List.mem_singleton.mp ha]

@[simp] theorem find_upsert (t : Table R key) (r : R) (k : K) :
    (t.upsert r).find k = if key r = k then some r else t.find k :=
  lookup_insertAsc r k t.sorted

@[simp] theorem find_erase (t : Table R key) (j k : K) :
    (t.erase j).find k = if k = j then none else t.find k :=
  lookup_eraseKey j k t.rows

theorem perm_upsert {t : Table R key} {r : R} (h : t.find (key r) = none) :
    (t.upsert r).rows.Perm (r :: t.rows) :=
  perm_insertAsc h

/-- `UPDATE` every row in place. -/
def update (t : Table R key) (f : R → R) (hf : ∀ r, key (f r) = key r) : Table R key :=
  ⟨t.rows.map f, List.pairwise_map.mpr (t.sorted.imp fun h => by rwa [hf, hf])⟩

theorem find_update (t : Table R key) (f : R → R) (hf : ∀ r, key (f r) = key r) (k : K) :
    (t.update f hf).find k = (t.find k).map f :=
  lookup_map hf k t.rows

theorem find_deleteWhere (t : Table R key) (keep : R → Bool) (k : K) :
    (t.deleteWhere keep).find k = (t.find k).filter keep := by
  cases h : t.find k with
  | none =>
    refine lookup_eq_none.mpr fun r hr => ?_
    exact lookup_eq_none.mp h r (List.mem_of_mem_filter hr)
  | some r =>
    obtain rfl := key_of_find h
    have hr : r ∈ t.rows := mem_of_lookup h
    by_cases hk : keep r = true
    · rw [Option.filter_some_pos hk]
      exact mem_rows_iff.mp (List.mem_filter.mpr ⟨hr, hk⟩)
    · rw [Option.filter_some_neg (Bool.eq_false_iff.mpr hk)]
      refine lookup_eq_none.mpr fun b hb e => hk ?_
      obtain ⟨hb, hkb⟩ := List.mem_filter.mp hb
      have hbr : t.find (key b) = some b := mem_rows_iff.mp hb
      rw [e, h] at hbr
      cases hbr
      exact hkb

@[ext] theorem ext {t u : Table R key} (h : t.rows = u.rows) : t = u := by
  cases t; cases u; cases h; rfl

end Table

/-- A table whose keys come from a counter: `last` is the last one taken, by a row
that is there or not. -/
structure Serial (R : Type*) (key : R → ℤ) extends Table R key where
  last : ℤ
  le_last : ∀ r ∈ rows, key r ≤ last

namespace Serial
variable {key : R → ℤ}

def empty : Serial R key := ⟨Table.empty, 0, fun _ h => absurd h List.not_mem_nil⟩

/-- Insert under a fresh key. -/
def insert (t : Serial R key) (r : R) (h : t.last < key r) : Serial R key where
  rows := t.rows ++ [r]
  sorted := List.pairwise_append.mpr ⟨t.sorted, List.pairwise_singleton _ _, fun a ha b hb => by
    rw [List.mem_singleton.mp hb]
    exact (t.le_last a ha).trans_lt h⟩
  last := key r
  le_last a ha := by
    rcases List.mem_append.mp ha with ha | ha
    · exact (t.le_last a ha).trans h.le
    · rw [List.mem_singleton.mp ha]

def deleteWhere (t : Serial R key) (keep : R → Bool) : Serial R key where
  toTable := t.toTable.deleteWhere keep
  last := t.last
  le_last a ha := t.le_last a (List.mem_of_mem_filter ha)

def erase (t : Serial R key) (k : ℤ) : Serial R key := t.deleteWhere fun r => key r ≠ k

def update (t : Serial R key) (f : R → R) (hf : ∀ r, key (f r) = key r) : Serial R key where
  toTable := t.toTable.update f hf
  last := t.last
  le_last a ha := by
    obtain ⟨r, hr, rfl⟩ := List.mem_map.mp ha
    rw [hf]
    exact t.le_last r hr

@[simp] theorem find_update (t : Serial R key) (f : R → R) (hf : ∀ r, key (f r) = key r) (k : ℤ) :
    (t.update f hf).find k = (t.find k).map f :=
  Table.find_update t.toTable f hf k

theorem mem_insert {t : Serial R key} {r a : R} {h : t.last < key r} :
    a ∈ (t.insert r h).rows ↔ a ∈ t.rows ∨ a = r := by
  simp [insert]

theorem mem_deleteWhere {t : Serial R key} {keep : R → Bool} {a : R} :
    a ∈ (t.deleteWhere keep).rows ↔ a ∈ t.rows ∧ keep a = true :=
  List.mem_filter

/-- Deleting the oldest row. -/
theorem rows_erase_head {t : Serial R key} {r : R} {l : List R} (h : t.rows = r :: l) :
    (t.erase (key r)).rows = l := by
  have hs := t.distinctKeys
  unfold DistinctKeys at hs
  rw [h, List.map_cons, List.nodup_cons] at hs
  show t.rows.filter _ = l
  rw [h, List.filter_cons_of_neg (by simp), List.filter_eq_self]
  intro a ha
  have hne : key a ≠ key r := fun he => hs.1 (he ▸ List.mem_map_of_mem ha)
  exact decide_eq_true hne

theorem find_insert (t : Serial R key) (r : R) (h : t.last < key r) (k : ℤ) :
    (t.insert r h).find k = if key r = k then some r else t.find k := by
  split
  · rename_i hk
    subst hk
    exact Table.mem_rows_iff.mp (mem_insert.mpr (Or.inr rfl))
  · rename_i hk
    cases hf : t.find k with
    | none =>
      refine lookup_eq_none.mpr fun a ha => ?_
      rcases mem_insert.mp ha with ha | rfl
      · exact lookup_eq_none.mp hf a ha
      · exact hk
    | some a =>
      obtain rfl := Table.key_of_find hf
      exact Table.mem_rows_iff.mp (mem_insert.mpr (Or.inl (Table.mem_rows_iff.mpr hf)))

end Serial
end Core.Keyed
