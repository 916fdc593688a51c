import FaceGate.Core.Paging

/-!
# The newest rows of several lists

The first page of a query: its `n` newest rows (`isPage_zero_iff`). A client that asks
for the `n` newest rows part by part, sorts what it got and cuts at `n` has the `n`
newest rows of all parts together (`isPage_merge`). It may sort by a coarser key, if that
tells the rows apart (`Answer.of_mono`).
-/
namespace Core.Paging

variable {R T : Type*} [LinearOrder T] {key : R → T} {rows order order' page merged : List R}
  {n : ℕ}

/-- With distinct keys there is one order. -/
theorem Answer.unique (hkeys : (rows.map key).Nodup) (h : Answer key rows order)
    (h' : Answer key rows order') : order = order' := by
  refine (h.perm.trans h'.perm.symm).eq_of_pairwise ?_ h.sorted h'.sorted
  intro a b ha hb hba hab
  exact List.inj_on_of_nodup_map hkeys (h.perm.mem_iff.mp ha) (h'.perm.mem_iff.mp hb)
    (le_antisymm hab hba)

/-- An order by what a monotone function makes of the keys is the order by the keys, if it does
not make two of them equal. -/
theorem Answer.of_mono {S : Type*} [LinearOrder S] {f : T → S} (hf : Monotone f)
    (h : Answer (fun a => f (key a)) rows order) (hkeys : (rows.map fun a => f (key a)).Nodup) :
    Answer key rows order := by
  have hnodup : (order.map fun a => f (key a)).Nodup := (h.perm.map _).nodup_iff.mpr hkeys
  have hdistinct : order.Pairwise fun a b => f (key a) ≠ f (key b) := List.pairwise_map.mp hnodup
  refine ⟨h.perm, (h.sorted.and hdistinct).imp fun hab => ?_⟩
  by_contra hlt
  exact hab.2 (le_antisymm (hf (le_of_lt (not_le.mp hlt))) hab.1)

/-- The first page: sorted, as long as can be, and no row left out is newer. -/
theorem isPage_zero_iff : IsPage key rows n 0 page ↔ ∃ rest, (page ++ rest).Perm rows ∧
    NewestFirst key page ∧ (∀ a ∈ page, ∀ b ∈ rest, key b ≤ key a) ∧
    page.length = min n rows.length := by
  constructor
  · rintro ⟨order, h, rfl⟩
    have hsplit : order.take n ++ order.drop n = order := List.take_append_drop n order
    have hsorted := h.sorted
    rw [← hsplit] at hsorted
    obtain ⟨htake, -, hcross⟩ := List.pairwise_append.mp hsorted
    refine ⟨order.drop n, ?_, htake, hcross, ?_⟩
    · rw [List.drop_zero, hsplit]
      exact h.perm
    · rw [List.drop_zero, List.length_take, h.perm.length_eq]
  · rintro ⟨rest, hperm, hsorted, hcross, hlen⟩
    obtain ⟨tail, htail⟩ := exists_answer key rest
    refine ⟨page ++ tail, ⟨(htail.perm.append_left page).trans hperm, ?_⟩, ?_⟩
    · refine List.pairwise_append.mpr ⟨hsorted, htail.sorted, fun a ha b hb => ?_⟩
      exact hcross a ha b (htail.perm.mem_iff.mp hb)
    · rw [List.drop_zero]
      have htotal := hperm.length_eq
      have htailLen := htail.perm.length_eq
      rw [List.length_append] at htotal
      -- a page that is not full leaves nothing behind
      rcases Nat.lt_or_ge page.length n with hlt | hge
      · obtain rfl : tail = [] := List.length_eq_zero_iff.mp (by omega)
        rw [List.append_nil, List.take_of_length_le (by omega)]
      · rw [List.take_append_of_le_length (by omega), List.take_of_length_le (by omega)]

/-- What the parts keep back has `n` newer rows before it. -/
theorem exists_rest {parts tops : List (List R)}
    (h : List.Forall₂ (fun rows top => IsPage key rows n 0 top) parts tops) :
    ∃ rest, (tops.flatten ++ rest).Perm parts.flatten ∧
      ∀ b ∈ rest, n ≤ tops.flatten.countP fun a => key b ≤ key a := by
  induction h with
  | nil => exact ⟨[], by simp⟩
  | @cons rows top parts tops hpage _ ih =>
    obtain ⟨back, hback, -, hcross, hlen⟩ := isPage_zero_iff.mp hpage
    obtain ⟨rest, hrest, hnewer⟩ := ih
    refine ⟨back ++ rest, ?_, ?_⟩
    · have hswap : (top ++ tops.flatten ++ (back ++ rest)).Perm
          (top ++ back ++ (tops.flatten ++ rest)) := by
        rw [List.append_assoc, List.append_assoc, ← List.append_assoc tops.flatten,
          ← List.append_assoc back]
        exact (List.perm_append_comm.append_right rest).append_left top
      exact hswap.trans (hback.append hrest)
    · intro b hb
      rw [List.flatten_cons, List.countP_append]
      rcases List.mem_append.mp hb with hb | hb
      · -- a part that keeps a row back has given `n` that are not older
        have hall : top.countP (fun a => key b ≤ key a) = top.length :=
          List.countP_eq_length.mpr fun a ha => decide_eq_true (hcross a ha b hb)
        have htotal := hback.length_eq
        have hpos := List.length_pos_of_mem hb
        rw [List.length_append] at htotal
        omega
      · exact (hnewer b hb).trans (Nat.le_add_left _ _)

/-- **Merging.** The newest of the newest of each part are the newest of all. -/
theorem isPage_merge {parts tops : List (List R)}
    (h : List.Forall₂ (fun rows top => IsPage key rows n 0 top) parts tops)
    (hm : Answer key tops.flatten merged) :
    IsPage key parts.flatten n 0 (merged.take n) := by
  obtain ⟨rest, hrest, hnewer⟩ := exists_rest h
  have hsplit := hm.sorted
  rw [← List.take_append_drop n merged] at hsplit
  obtain ⟨htake, -, hcross⟩ := List.pairwise_append.mp hsplit
  refine isPage_zero_iff.mpr ⟨merged.drop n ++ rest, ?_, htake, ?_, ?_⟩
  · rw [← List.append_assoc, List.take_append_drop]
    exact (hm.perm.append_right rest).trans hrest
  · intro a ha b hb
    rcases List.mem_append.mp hb with hb | hb
    · exact hcross a ha b hb
    · obtain ⟨i, hi, rfl⟩ := List.mem_iff_getElem.mp ha
      have hcount := hnewer b hb
      rw [← hm.perm.countP_eq] at hcount
      rw [List.length_take] at hi
      rw [List.getElem_take]
      exact of_decide_eq_true
        ((getElem_iff (hm.sorted.atLeast (key b)) (by omega)).mpr (by omega))
  · have htotal := hrest.length_eq
    have hmerged := hm.perm.length_eq
    rw [List.length_append] at htotal
    rw [List.length_take]
    cases rest with
    | nil =>
      simp only [List.length_nil, Nat.add_zero] at htotal
      omega
    | cons b rest =>
      have hcount := (hnewer b List.mem_cons_self).trans List.countP_le_length
      omega

end Core.Paging
