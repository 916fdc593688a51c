import Mathlib.Data.List.Basic

/-!
# Lines and words

A text read line by line, as `std::getline` does until the stream is at its end, and a line
read word by word, as `operator>>` does. What was written as lines of words is read back
(`lines_unlines`, `words_unwords`).
-/
namespace Core.Lines

/-! ## Lines -/

/-- What follows the last LF is a line if there is anything. -/
def lines : List Char → List (List Char)
  | [] => []
  | c :: t =>
    if c = '\n' then [] :: lines t
    else
      match lines t with
      | [] => [[c]]
      | l :: ls => (c :: l) :: ls

def unlines (ls : List (List Char)) : List Char := ls.flatMap fun l => l ++ ['\n']

theorem lines_line {l : List Char} (t : List Char) (h : ∀ c ∈ l, c ≠ '\n') :
    lines (l ++ '\n' :: t) = l :: lines t := by
  induction l with
  | nil => rw [List.nil_append, lines, if_pos rfl]
  | cons c l ih =>
    have hl := ih fun d hd => h d (List.mem_cons_of_mem c hd)
    rw [List.cons_append, lines, if_neg (h c List.mem_cons_self), hl]

theorem lines_unlines {ls : List (List Char)} (h : ∀ l ∈ ls, ∀ c ∈ l, c ≠ '\n') :
    lines (unlines ls) = ls := by
  induction ls with
  | nil => rfl
  | cons l ls ih =>
    have hls := ih fun m hm => h m (List.mem_cons_of_mem l hm)
    rw [unlines, List.flatMap_cons, List.append_assoc, List.singleton_append,
      lines_line _ (h l List.mem_cons_self)]
    exact congrArg (l :: ·) hls

/-! ## Words -/

/-- `w` is what has been read of the word. -/
def wordsFrom (space : Char → Bool) : List Char → List Char → List (List Char)
  | w, [] => if w = [] then [] else [w]
  | w, c :: t =>
    if space c then
      if w = [] then wordsFrom space [] t else w :: wordsFrom space [] t
    else wordsFrom space (w ++ [c]) t

def words (space : Char → Bool) (s : List Char) : List (List Char) := wordsFrom space [] s

variable {space : Char → Bool}

/-- Characters of which a word may consist. -/
def Word (space : Char → Bool) (w : List Char) : Prop := w ≠ [] ∧ ∀ c ∈ w, space c = false

theorem wordsFrom_append {v : List Char} (hv : ∀ c ∈ v, space c = false) (w t : List Char) :
    wordsFrom space w (v ++ t) = wordsFrom space (w ++ v) t := by
  induction v generalizing w with
  | nil => rw [List.nil_append, List.append_nil]
  | cons c v ih =>
    have hc : ¬ space c = true := Bool.eq_false_iff.mp (hv c List.mem_cons_self)
    rw [List.cons_append, wordsFrom, if_neg hc,
      ih (fun d hd => hv d (List.mem_cons_of_mem c hd)), List.append_assoc, List.singleton_append]

theorem words_word {w : List Char} (hw : Word space w) : words space w = [w] := by
  have h := wordsFrom_append hw.2 [] []
  rw [List.append_nil, List.nil_append] at h
  rw [words, h, wordsFrom, if_neg hw.1]

theorem words_append {w : List Char} (hw : Word space w) {c : Char} (hc : space c = true)
    (t : List Char) : words space (w ++ c :: t) = w :: words space t := by
  rw [words, wordsFrom_append hw.2, List.nil_append, wordsFrom, if_pos hc, if_neg hw.1, words]

/-- The words with `c` between them. -/
def unwords (c : Char) (ws : List (List Char)) : List Char := List.intercalate [c] ws

theorem mem_unwords {c x : Char} {ws : List (List Char)} (h : x ∈ unwords c ws) :
    x = c ∨ ∃ w ∈ ws, x ∈ w := by
  induction ws with
  | nil => cases h
  | cons w ws ih =>
    cases ws with
    | nil =>
      rw [unwords, List.intercalate_singleton] at h
      exact Or.inr ⟨w, List.mem_cons_self, h⟩
    | cons v ws =>
      rw [unwords, List.intercalate_cons_cons, List.append_assoc, List.singleton_append] at h
      rcases List.mem_append.mp h with h | h
      · exact Or.inr ⟨w, List.mem_cons_self, h⟩
      · rcases List.mem_cons.mp h with rfl | h
        · exact Or.inl rfl
        · exact (ih h).imp_right fun ⟨u, hu, hx⟩ => ⟨u, List.mem_cons_of_mem w hu, hx⟩

theorem words_unwords {c : Char} (hc : space c = true) {ws : List (List Char)}
    (h : ∀ w ∈ ws, Word space w) : words space (unwords c ws) = ws := by
  induction ws with
  | nil => rfl
  | cons w ws ih =>
    have hw := h w List.mem_cons_self
    have hws := ih fun v hv => h v (List.mem_cons_of_mem w hv)
    cases ws with
    | nil =>
      rw [unwords, List.intercalate_singleton]
      exact words_word hw
    | cons v ws =>
      rw [unwords, List.intercalate_cons_cons, List.append_assoc, List.singleton_append,
        words_append hw hc]
      exact congrArg (w :: ·) hws

end Core.Lines
