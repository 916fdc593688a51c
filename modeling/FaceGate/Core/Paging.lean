import Mathlib.Data.List.Sort

/-!
# Paging over a sorted query

A query with a sort key, asked page by page: each page is its own execution, and
leaves the order of rows with equal keys open, so each may be cut from another
sorted order of the same rows (`IsPage`). `Paged` is what a client collects that
advances its offset by the page size until a page is short.

`paged_iff`: the pages put together are the rows, each once, in sorted order,
whatever orders were used, exactly if no page boundary lies between two rows
with one key (`Cuts`).
-/
namespace Core.Paging

variable {R T : Type*}

/-! ## Predicates that hold of a prefix -/

section Prefix
variable {P : R → Bool}

/-- Where `P` ends, it ends for good. -/
theorem countP_of_head_false {a : R} {l : List R}
    (hl : (a :: l).Pairwise fun x y => P y = true → P x = true) (ha : ¬ P a = true) :
    (a :: l).countP P = 0 := by
  rw [List.countP_eq_zero]
  intro b hb hP
  rcases List.mem_cons.mp hb with rfl | hb
  · exact ha hP
  · exact ha ((List.pairwise_cons.mp hl).1 b hb hP)

theorem filter_eq_take {l : List R} (hl : l.Pairwise fun x y => P y = true → P x = true) :
    l.filter P = l.take (l.countP P) := by
  induction l with
  | nil => rfl
  | cons a l ih =>
    by_cases ha : P a = true
    · rw [List.filter_cons_of_pos ha, List.countP_cons_of_pos ha, List.take_succ_cons,
        ih (List.pairwise_cons.mp hl).2]
    · have hzero := countP_of_head_false hl ha
      rw [hzero, List.take_zero]
      rw [List.countP_eq_length_filter] at hzero
      exact List.length_eq_zero_iff.mp hzero

theorem getElem_iff {l : List R} (hl : l.Pairwise fun x y => P y = true → P x = true) {i : ℕ}
    (hi : i < l.length) : P l[i] = true ↔ i < l.countP P := by
  induction l generalizing i with
  | nil => simp at hi
  | cons a l ih =>
    have hrest := (List.pairwise_cons.mp hl).2
    by_cases ha : P a = true
    · rw [List.countP_cons_of_pos ha]
      cases i with
      | zero => simp [ha]
      | succ j =>
        have hj : j < l.length := by simpa using hi
        rw [List.getElem_cons_succ, ih hrest hj]
        omega
    · have hzero := countP_of_head_false hl ha
      rw [hzero]
      have hall := List.countP_eq_zero.mp hzero (a :: l)[i] (List.getElem_mem hi)
      simp [hall]

theorem countP_drop_eq_zero {l : List R} (hl : l.Pairwise fun x y => P y = true → P x = true)
    (n : ℕ) : (l.drop n).countP P = 0 ↔ l.countP P ≤ n := by
  induction l generalizing n with
  | nil => simp
  | cons a l ih =>
    by_cases ha : P a = true
    · cases n with
      | zero => simp [ha]
      | succ n =>
        rw [List.drop_succ_cons, ih (List.pairwise_cons.mp hl).2, List.countP_cons_of_pos ha]
        omega
    · have hzero := countP_of_head_false hl ha
      have hdrop := (List.drop_sublist n (a :: l)).countP_le (p := P)
      omega

end Prefix

/-! ## Answers and pages -/

variable [LinearOrder T] (key : R → T)

/-- `ORDER BY key DESC` -/
def NewestFirst (l : List R) : Prop := l.Pairwise fun a b => key b ≤ key a

/-- An order in which the rows may be returned. -/
structure Answer (rows order : List R) : Prop where
  perm : order.Perm rows
  sorted : NewestFirst key order

/-- `LIMIT limit OFFSET offset` -/
def IsPage (rows : List R) (limit offset : ℕ) (page : List R) : Prop :=
  ∃ order, Answer key rows order ∧ page = (order.drop offset).take limit

/-- The pages from an offset on, up to the first one shorter than `L`. -/
inductive Paged (page : ℕ → List R → Prop) (L : ℕ) : ℕ → List (List R) → Prop where
  | last {o : ℕ} {p : List R} (hp : page o p) (hlt : p.length < L) : Paged page L o [p]
  | more {o : ℕ} {p : List R} {ps : List (List R)} (hp : page o p) (hlen : p.length = L)
      (hrest : Paged page L (o + L) ps) : Paged page L o (p :: ps)

/-- Position `m` of the sorted rows lies between two rows with one key. -/
def Cuts (rows : List R) (m : ℕ) : Prop :=
  ∃ t, rows.countP (fun r => t < key r) < m ∧ m < rows.countP (fun r => t ≤ key r)

variable {key} {rows order order' : List R} {m L : ℕ}

theorem newestFirst_iff {l : List R} :
    NewestFirst key l ↔ (l.map key).Pairwise (· ≥ ·) := by
  rw [List.pairwise_map]
  rfl

theorem NewestFirst.atLeast {l : List R} (h : NewestFirst key l) (t : T) :
    l.Pairwise fun x y => decide (t ≤ key y) = true → decide (t ≤ key x) = true :=
  h.imp fun hxy hy => decide_eq_true ((of_decide_eq_true hy).trans hxy)

theorem NewestFirst.above {l : List R} (h : NewestFirst key l) (t : T) :
    l.Pairwise fun x y => decide (t < key y) = true → decide (t < key x) = true :=
  h.imp fun hxy hy => decide_eq_true ((of_decide_eq_true hy).trans_le hxy)

theorem answer_mergeSort (key : R → T) (rows : List R) :
    Answer key rows (rows.mergeSort fun a b => decide (key b ≤ key a)) := by
  refine ⟨List.mergeSort_perm _ _, ?_⟩
  have htrans : ∀ a b c : R, decide (key b ≤ key a) → decide (key c ≤ key b) →
      decide (key c ≤ key a) := fun a b c hab hbc =>
    decide_eq_true ((of_decide_eq_true hbc).trans (of_decide_eq_true hab))
  have htotal : ∀ a b : R, decide (key b ≤ key a) || decide (key a ≤ key b) := fun a b => by
    simpa using le_total (key b) (key a)
  exact (List.pairwise_mergeSort htrans htotal rows).imp of_decide_eq_true

theorem exists_answer (key : R → T) (rows : List R) : ∃ order, Answer key rows order :=
  ⟨_, answer_mergeSort key rows⟩

theorem answer_congr {rows rows' order : List R} (h : rows.Perm rows') :
    Answer key rows order ↔ Answer key rows' order :=
  ⟨fun ha => ⟨ha.perm.trans h, ha.sorted⟩, fun ha => ⟨ha.perm.trans h.symm, ha.sorted⟩⟩

/-- Two orders show the same keys. -/
theorem map_key_eq {l l' : List R} (hp : l.Perm l') (h : NewestFirst key l)
    (h' : NewestFirst key l') : l.map key = l'.map key :=
  (hp.map key).eq_of_pairwise' (newestFirst_iff.mp h) (newestFirst_iff.mp h')

/-! ## Uncut boundaries -/

/-- Before a position that cuts nothing, every order has the same rows. -/
theorem Answer.take_perm (h : Answer key rows order) (h' : Answer key rows order')
    (hm : ¬ Cuts key rows m) : (order.take m).Perm (order'.take m) := by
  have hperm : order.Perm order' := h.perm.trans h'.perm.symm
  by_cases hlen : order'.length ≤ m
  · rw [List.take_of_length_le hlen, List.take_of_length_le (hperm.length_eq ▸ hlen)]
    exact hperm
  · cases m with
    | zero => simp
    | succ j =>
      have hj : j < order'.length := by omega
      -- the rows before the position are those with at least the last one's key
      let t := key order'[j]
      have hge : j < order'.countP fun r => t ≤ key r :=
        (getElem_iff (h'.sorted.atLeast t) hj).mp (decide_eq_true le_rfl)
      have hgt : ¬ j < order'.countP fun r => t < key r := by
        intro hlt
        have hself := (getElem_iff (h'.sorted.above t) hj).mpr hlt
        exact lt_irrefl t (of_decide_eq_true hself)
      rw [h'.perm.countP_eq] at hge hgt
      have hcount : rows.countP (fun r => t ≤ key r) = j + 1 := by
        by_contra hne
        exact hm ⟨t, by omega, by omega⟩
      have ht := filter_eq_take (h.sorted.atLeast t)
      have ht' := filter_eq_take (h'.sorted.atLeast t)
      rw [h.perm.countP_eq, hcount] at ht
      rw [h'.perm.countP_eq, hcount] at ht'
      rw [← ht, ← ht']
      exact hperm.filter _

/-- Between two such positions too. -/
theorem Answer.segment_perm (h : Answer key rows order) (h' : Answer key rows order')
    (hm : ¬ Cuts key rows m) (hmL : ¬ Cuts key rows (m + L)) :
    ((order.drop m).take L).Perm ((order'.drop m).take L) := by
  have hhead := h.take_perm h' hm
  have hall := h.take_perm h' hmL
  rw [List.take_add, List.take_add] at hall
  have hsame : (order'.take m ++ (order.drop m).take L).Perm
      (order'.take m ++ (order'.drop m).take L) :=
    (hhead.append_right _).symm.trans hall
  exact (List.perm_append_left_iff _).mp hsame

theorem NewestFirst.drop {l : List R} (h : NewestFirst key l) (n : ℕ) :
    NewestFirst key (l.drop n) :=
  List.Pairwise.sublist (List.drop_sublist n l) h

theorem NewestFirst.take {l : List R} (h : NewestFirst key l) (n : ℕ) :
    NewestFirst key (l.take n) :=
  List.Pairwise.sublist (List.take_sublist n l) h

/-- Without cuts the pages are the rest of any one order, up to the order of rows with
equal keys. -/
theorem flatten_paged (h : Answer key rows order) (hcut : ∀ k, ¬ Cuts key rows (k * L))
    {o : ℕ} {ps : List (List R)} (hps : Paged (IsPage key rows L) L o ps) :
    ∀ {k : ℕ}, o = k * L →
      ps.flatten.Perm (order.drop o) ∧ ps.flatten.map key = (order.drop o).map key := by
  induction hps with
  | @last o p hp hlt =>
    intro k hk
    obtain ⟨order', h', rfl⟩ := hp
    have hlen : order'.length = order.length := (h'.perm.trans h.perm.symm).length_eq
    rw [List.length_take, List.length_drop] at hlt
    have hseg := h'.segment_perm h (hk ▸ hcut k)
      (show ¬ Cuts key rows (o + L) by rw [hk, ← Nat.succ_mul]; exact hcut (k + 1))
    rw [List.flatten_cons, List.flatten_nil, List.append_nil]
    rw [List.take_of_length_le (l := order.drop o) (by rw [List.length_drop]; omega)] at hseg
    exact ⟨hseg, map_key_eq hseg ((h'.sorted.drop o).take L) (h.sorted.drop o)⟩
  | @more o p ps hp hlen _ ih =>
    intro k hk
    obtain ⟨order', h', rfl⟩ := hp
    have hnext : o + L = (k + 1) * L := by rw [hk, Nat.succ_mul]
    obtain ⟨hperm, hkeys⟩ := ih hnext
    have hseg := h'.segment_perm h (hk ▸ hcut k) (hnext ▸ hcut (k + 1))
    have hsegKeys := map_key_eq hseg ((h'.sorted.drop o).take L) ((h.sorted.drop o).take L)
    have hsplit : order.drop o = (order.drop o).take L ++ order.drop (o + L) := by
      rw [← List.drop_drop, List.take_append_drop]
    rw [List.flatten_cons, hsplit, List.map_append, List.map_append, hsegKeys, hkeys]
    exact ⟨hseg.append hperm, rfl⟩

/-! ## Cut boundaries -/

/-- The client may be answered in one order from an offset on. -/
theorem exists_paged (h : Answer key rows order) (hL : 0 < L) (o : ℕ) :
    ∃ ps, Paged (IsPage key rows L) L o ps ∧ ps.flatten = order.drop o := by
  by_cases hlt : ((order.drop o).take L).length < L
  · refine ⟨[(order.drop o).take L], .last ⟨order, h, rfl⟩ hlt, ?_⟩
    rw [List.length_take] at hlt
    rw [List.flatten_cons, List.flatten_nil, List.append_nil, List.take_of_length_le (by omega)]
  · have hfull : ((order.drop o).take L).length = L := by
      rw [List.length_take] at hlt ⊢
      omega
    have hlen : o < order.length := by
      rw [List.length_take, List.length_drop] at hfull
      omega
    obtain ⟨ps, hps, hflat⟩ := exists_paged h hL (o + L)
    refine ⟨(order.drop o).take L :: ps, .more ⟨order, h, rfl⟩ hfull hps, ?_⟩
    rw [List.flatten_cons, hflat, ← List.drop_drop, List.take_append_drop]
termination_by order.length - o

/-- And in another one before it. -/
theorem exists_paged_before (h : Answer key rows order) {k : ℕ} (hk : k * L ≤ order.length)
    {ps : List (List R)} (hps : Paged (IsPage key rows L) L (k * L) ps) :
    ∃ qs, Paged (IsPage key rows L) L 0 qs ∧ qs.flatten = order.take (k * L) ++ ps.flatten := by
  induction k generalizing ps with
  | zero =>
    rw [Nat.zero_mul] at hps
    exact ⟨ps, hps, by simp⟩
  | succ k ih =>
    rw [Nat.succ_mul] at hk hps
    have hfull : ((order.drop (k * L)).take L).length = L := by
      rw [List.length_take, List.length_drop]
      omega
    obtain ⟨qs, hqs, hflat⟩ := ih (by omega) (.more ⟨order, h, rfl⟩ hfull hps)
    refine ⟨qs, hqs, ?_⟩
    rw [hflat, List.flatten_cons, ← List.append_assoc, ← List.take_add, Nat.succ_mul]

/-- Two neighbours with one key may be returned the other way round. -/
theorem Answer.swap {A C : List R} {a b : R} (h : Answer key rows (A ++ a :: b :: C))
    (hab : key a = key b) : Answer key rows (A ++ b :: a :: C) := by
  refine ⟨((List.Perm.swap a b C).append_left A).trans h.perm, ?_⟩
  have hs := newestFirst_iff.mp h.sorted
  rw [newestFirst_iff]
  simpa [hab] using hs

/-- Around a position that cuts a group there are two rows with one key. -/
theorem Answer.exists_of_cuts (h : Answer key rows order) (hm : Cuts key rows m) :
    ∃ A a b C, order = A ++ a :: b :: C ∧ A.length + 1 = m ∧ key a = key b := by
  obtain ⟨t, hlt, hgt⟩ := hm
  rw [← h.perm.countP_eq] at hlt hgt
  have hlen : m < order.length := hgt.trans_le List.countP_le_length
  -- from the first row after those above `t` to the last one with `t`, all keys are `t`
  have hkey : ∀ i (hi : i < order.length), m - 1 ≤ i → i ≤ m → key order[i] = t := by
    intro i hi hlo hhi
    have hge := (getElem_iff (h.sorted.atLeast t) hi).mpr (by omega)
    have hnot : ¬ t < key order[i] := by
      intro hgt'
      have hpos := (getElem_iff (h.sorted.above t) hi).mp (decide_eq_true hgt')
      omega
    exact le_antisymm (not_lt.mp hnot) (of_decide_eq_true hge)
  have hm1 : m - 1 < order.length := by omega
  refine ⟨order.take (m - 1), order[m - 1], order[m], order.drop (m + 1), ?_, ?_, ?_⟩
  · have hnext : m - 1 + 1 = m := by omega
    calc order = order.take (m - 1) ++ order.drop (m - 1) := (List.take_append_drop _ _).symm
      _ = order.take (m - 1) ++ order[m - 1] :: order.drop m := by
        rw [List.drop_eq_getElem_cons hm1, hnext]
      _ = order.take (m - 1) ++ order[m - 1] :: order[m] :: order.drop (m + 1) := by
        rw [List.drop_eq_getElem_cons hlen]
  · rw [List.length_take]
    omega
  · rw [hkey (m - 1) hm1 le_rfl (by omega), hkey m hlen (by omega) le_rfl]

/-- A cut boundary lets the row before it come back after it. -/
theorem exists_duplicate (hL : 0 < L) {k : ℕ} (hk : Cuts key rows (k * L)) :
    ∃ ps, Paged (IsPage key rows L) L 0 ps ∧ ¬ ps.flatten.Nodup := by
  obtain ⟨order, h⟩ := exists_answer key rows
  obtain ⟨A, a, b, C, rfl, hlen, hab⟩ := h.exists_of_cuts hk
  obtain ⟨ps, hps, hflat⟩ := exists_paged (h.swap hab) hL (k * L)
  obtain ⟨qs, hqs, hflat'⟩ := exists_paged_before h (by simp; omega) hps
  refine ⟨qs, hqs, fun hnodup => ?_⟩
  rw [hflat', hflat, ← hlen] at hnodup
  have htwice : (A ++ [a] ++ a :: C).Nodup := by
    have htake : A.take (A.length + 1) = A := List.take_of_length_le (Nat.le_succ _)
    have hdrop : A.drop (A.length + 1) = [] := List.drop_of_length_le (Nat.le_succ _)
    simpa [List.take_append, List.drop_append, htake, hdrop] using hnodup
  have hdisj := (List.nodup_append.mp htwice).2.2
  exact hdisj a (by simp) a (by simp) rfl

/-- **Paging.** Whatever orders the pages are cut from, together they are the rows, each
once, in sorted order, exactly if no boundary cuts a group of rows with one key. -/
theorem paged_iff (hrows : rows.Nodup) (hL : 0 < L) :
    (∀ ps, Paged (IsPage key rows L) L 0 ps →
      ps.flatten.Perm rows ∧ NewestFirst key ps.flatten) ↔ ∀ k, ¬ Cuts key rows (k * L) := by
  constructor
  · intro hall k hk
    obtain ⟨ps, hps, hdup⟩ := exists_duplicate hL hk
    exact hdup ((hall ps hps).1.nodup_iff.mpr hrows)
  · intro hcut ps hps
    obtain ⟨order, h⟩ := exists_answer key rows
    obtain ⟨hperm, hkeys⟩ := flatten_paged h hcut hps (k := 0) (Nat.zero_mul L).symm
    rw [List.drop_zero] at hperm hkeys
    refine ⟨hperm.trans h.perm, ?_⟩
    rw [newestFirst_iff, hkeys]
    exact newestFirst_iff.mp h.sorted

end Core.Paging
