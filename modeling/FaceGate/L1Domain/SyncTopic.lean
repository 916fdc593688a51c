import FaceGate.Core.Decimal
import Mathlib.Data.List.TakeWhile
import Mathlib.Algebra.Group.Int.Defs
import Mathlib.Algebra.Group.Nat.Defs

/-!
# The sync topic

The backend publishes each embedding on `facegate/sync/embeddings/upsert/{id}`
(an upsert, or an empty tombstone) and the edge reads the id back from the
topic: the prefix, then `std::stoll` on what is left.

* `parse_syncTopic`: a topic the backend formats parses to its id.
* `accepts_formatted_iff`: a topic is accepted only if the backend formats it, exactly when
  its suffix is a plain numeral or has no number at its head that `stoll` takes. `stoll`
  skips white space and leading zeros, takes a sign and drops what follows the digits, and
  nothing else looks at the suffix (`trailing_accepted`).
-/
namespace FaceGate.L1.SyncTopic

open Core

/-! ## Backend side -/

/-- mirrors backend/src/routes/employees.rs:22 and
backend/src/routes/embeddings.rs:20 -/
def SYNC_UPSERT_PREFIX : String := "facegate/sync/embeddings/upsert"

/-- `format!("{}/{}", SYNC_UPSERT_PREFIX, embedding_id)`.
mirrors backend/src/routes/employees.rs:28 and
backend/src/routes/embeddings.rs:73 -/
def syncTopic (embeddingId : ℤ) : String := SYNC_UPSERT_PREFIX ++ "/" ++ toString embeddingId

/-! ## Edge side -/

/-- mirrors edge/src/mqtt/mqtt_subscriber.cpp:29 -/
def kTopicPrefix : String := "facegate/sync/embeddings/upsert/"

/-- `isspace` in the C locale. -/
def isSpace (c : Char) : Bool :=
  c = ' ' || c = '\t' || c = '\n' || c = '\x0b' || c = '\x0c' || c = '\r'

/-- The optional sign of `strtoll`. -/
def sign : List Char → Bool × List Char
  | '-' :: t => (true, t)
  | '+' :: t => (false, t)
  | t => (false, t)

/-- `std::stoll`, base 10: leading white space, a sign, the longest run of
digits; what follows is ignored. `none`: it throws (`invalid_argument` without a
digit, `out_of_range` beyond 64 bits). -/
def stoll (s : List Char) : Option ℤ :=
  let (negative, t) := sign (s.dropWhile isSpace)
  let digits := t.takeWhile Char.isDigit
  if digits = [] then none
  else
    let n : ℤ := Nat.ofDigitChars 10 digits 0
    let v := if negative then -n else n
    if -2 ^ 63 ≤ v ∧ v < 2 ^ 63 then some v else none

/-- 0 on failure.
mirrors edge/src/mqtt/mqtt_subscriber.cpp:42-55 -/
def parseEmbeddingIdFromTopic (topic : String) : ℤ :=
  if topic.toList.length ≤ kTopicPrefix.toList.length then 0
  else if topic.toList.take kTopicPrefix.toList.length ≠ kTopicPrefix.toList then 0
  else (stoll (topic.toList.drop kTopicPrefix.toList.length)).getD 0

/-! ## Reading the suffix -/

theorem digit_not_space {c : Char} (h : c.isDigit = true) : isSpace c = false := by
  have hne : ∀ d : Char, d.isDigit = false → c ≠ d := by
    intro d hd e
    rw [e, hd] at h
    cases h
  simp [isSpace, hne ' ' (by decide), hne '\t' (by decide), hne '\n' (by decide),
    hne '\x0b' (by decide), hne '\x0c' (by decide), hne '\r' (by decide)]

theorem sign_digits {l : List Char} (h : ∀ c ∈ l, c.isDigit = true) : sign l = (false, l) := by
  unfold sign
  split
  · exact absurd (h '-' List.mem_cons_self) (by decide)
  · exact absurd (h '+' List.mem_cons_self) (by decide)
  · rfl

/-- The digits after the white space and the sign. -/
def digits (s : List Char) : List Char :=
  (sign (s.dropWhile isSpace)).2.takeWhile Char.isDigit

/-- The number at the head of the suffix, 0 if there is none. -/
def value (s : List Char) : ℤ :=
  let (negative, t) := sign (s.dropWhile isSpace)
  let n : ℤ := Nat.ofDigitChars 10 (t.takeWhile Char.isDigit) 0
  if negative then -n else n

def InRange (v : ℤ) : Prop := -2 ^ 63 ≤ v ∧ v < 2 ^ 63

instance (v : ℤ) : Decidable (InRange v) := inferInstanceAs (Decidable (_ ∧ _))

theorem stoll_getD (s : List Char) :
    (stoll s).getD 0 = if InRange (value s) then value s else 0 := by
  by_cases hd : (sign (s.dropWhile isSpace)).2.takeWhile Char.isDigit = []
  · simp [stoll, value, hd]
  · have hs : stoll s = if InRange (value s) then some (value s) else none := by
      simp only [stoll, hd, if_false]
      rfl
    rw [hs]
    split <;> rfl

theorem value_eq_zero {s : List Char} : value s = 0 ↔ ∀ c ∈ digits s, c = '0' := by
  have hdigits : ∀ c ∈ digits s, c.isDigit = true := fun c hc => List.mem_takeWhile_imp hc
  rw [← ofDigitChars_eq_zero hdigits]
  simp only [value]
  split <;> simp [digits]

theorem value_digits {s : List Char} (h : ∀ c ∈ s, c.isDigit = true) :
    value s = Nat.ofDigitChars 10 s 0 := by
  have hs : s.dropWhile isSpace = s := by
    cases s with
    | nil => rfl
    | cons c t =>
      rw [List.dropWhile_cons_of_neg]
      rw [digit_not_space (h c List.mem_cons_self)]
      decide
  simp only [value, hs, sign_digits h, List.takeWhile_eq_self_iff.mpr h, Bool.false_eq_true,
    if_false]

theorem parse_prefixed {topic : String} {s : List Char}
    (h : topic.toList = kTopicPrefix.toList ++ s) :
    parseEmbeddingIdFromTopic topic = if InRange (value s) then value s else 0 := by
  rw [← stoll_getD]
  unfold parseEmbeddingIdFromTopic
  rw [h, List.take_left' rfl, List.drop_left' rfl, List.length_append]
  cases s with
  | nil =>
    rw [if_pos (by simp)]
    rfl
  | cons c t =>
    rw [if_neg (by simp), if_neg (fun h => h rfl)]

/-! ## Round trip -/

theorem syncTopic_toList (n : ℕ) :
    (syncTopic n).toList = kTopicPrefix.toList ++ Nat.toDigits 10 n := by
  have hp : kTopicPrefix = SYNC_UPSERT_PREFIX ++ "/" := by decide
  have hn : (toString (n : ℤ)).toList = Nat.toDigits 10 n := Nat.toList_repr
  rw [syncTopic, String.toList_append, hn, hp]

/-- **Round trip.** The edge reads the id the backend wrote. -/
theorem parse_syncTopic (n : ℕ) (h : n < 2 ^ 63) :
    parseEmbeddingIdFromTopic (syncTopic n) = n := by
  have hdigits : ∀ c ∈ Nat.toDigits 10 n, c.isDigit = true := fun c hc =>
    Nat.isDigit_of_mem_toDigits (by decide) (by decide) hc
  have hvalue : value (Nat.toDigits 10 n) = n := by
    rw [value_digits hdigits, Nat.ofDigitChars_ten_toDigits]
  rw [parse_prefixed (syncTopic_toList n), hvalue, if_pos]
  exact ⟨by omega, by omega⟩

example : parseEmbeddingIdFromTopic "facegate/sync/embeddings/upsert/42" = 42 := by decide

/-! ## What else is accepted -/

/-- The suffix is a numeral, or has no digit but zeros after the white space and the sign,
or a number beyond 64 bits. -/
def Plain (topic : String) : Prop :=
  ∀ s, topic.toList = kTopicPrefix.toList ++ s →
    Numeral s ∨ (∀ c ∈ digits s, c = '0') ∨ ¬ InRange (value s)

theorem parse_cases (topic : String) : parseEmbeddingIdFromTopic topic = 0 ∨
    ∃ s, topic.toList = kTopicPrefix.toList ++ s ∧ InRange (value s) ∧ value s ≠ 0 ∧
      parseEmbeddingIdFromTopic topic = value s := by
  by_cases hp : topic.toList.take kTopicPrefix.toList.length = kTopicPrefix.toList
  · have hs : topic.toList =
        kTopicPrefix.toList ++ topic.toList.drop kTopicPrefix.toList.length := by
      calc topic.toList
        _ = topic.toList.take kTopicPrefix.toList.length ++
              topic.toList.drop kTopicPrefix.toList.length := (List.take_append_drop _ _).symm
        _ = _ := by rw [hp]
    have hparse := parse_prefixed hs
    split at hparse
    · rename_i hrange
      by_cases hzero : value (topic.toList.drop kTopicPrefix.toList.length) = 0
      · exact Or.inl (hparse.trans hzero)
      · exact Or.inr ⟨_, hs, hrange, hzero, hparse⟩
    · exact Or.inl hparse
  · left
    unfold parseEmbeddingIdFromTopic
    simp [hp]

theorem topic_eq_syncTopic {topic : String} {n : ℕ} :
    topic = syncTopic n ↔ topic.toList = kTopicPrefix.toList ++ Nat.toDigits 10 n := by
  rw [← syncTopic_toList, String.toList_inj]

/-- A plain numeral that is accepted is a topic of the backend. -/
theorem syncTopic_of_plain {topic : String} (h : Plain topic)
    (hne : parseEmbeddingIdFromTopic topic ≠ 0) :
    ∃ n : ℕ, 0 < n ∧ topic = syncTopic n ∧ parseEmbeddingIdFromTopic topic = n := by
  obtain ⟨s, hs, hrange, hzero, hparse⟩ := (parse_cases topic).resolve_left hne
  have hnum : Numeral s := by
    refine (h s hs).resolve_right fun h => h.elim (fun h => hzero ?_) fun h => h hrange
    exact value_eq_zero.mpr h
  have hnil : s ≠ [] := by
    rintro rfl
    exact hzero rfl
  obtain ⟨hpos, hdigits⟩ := hnum.toDigits_value hnil
  refine ⟨_, hpos, topic_eq_syncTopic.mpr (hs.trans (by rw [hdigits])), ?_⟩
  rw [hparse, value_digits hnum.1]

theorem plain_of_syncTopic {topic : String}
    (h : parseEmbeddingIdFromTopic topic ≠ 0 → ∃ n : ℕ, 0 < n ∧ topic = syncTopic n) :
    Plain topic := by
  intro s hs
  by_cases hzero : value s = 0
  · exact Or.inr (Or.inl (value_eq_zero.mp hzero))
  by_cases hrange : InRange (value s)
  · left
    have hne : parseEmbeddingIdFromTopic topic ≠ 0 := by
      rw [parse_prefixed hs, if_pos hrange]
      exact hzero
    obtain ⟨n, hpos, htopic⟩ := h hne
    have hdigits := List.append_cancel_left (hs.symm.trans (topic_eq_syncTopic.mp htopic))
    rw [hdigits]
    exact numeral_toDigits hpos
  · exact Or.inr (Or.inr hrange)

/-- **The edge accepts the topics of the backend, and of the others those that are not
plain**: no two plain topics have the same id. -/
theorem accepts_formatted_iff (topic : String) :
    (∀ n : ℕ, 0 < n → n < 2 ^ 63 → parseEmbeddingIdFromTopic (syncTopic n) = n) ∧
      ((parseEmbeddingIdFromTopic topic ≠ 0 → ∃ n : ℕ, 0 < n ∧ topic = syncTopic n) ↔
        Plain topic) ∧
      (Plain topic → parseEmbeddingIdFromTopic topic ≠ 0 → ∀ other, Plain other →
        parseEmbeddingIdFromTopic other = parseEmbeddingIdFromTopic topic → other = topic) := by
  refine ⟨fun n _ h => parse_syncTopic n h, ⟨plain_of_syncTopic, fun h hne => ?_⟩, ?_⟩
  · obtain ⟨n, hpos, htopic, -⟩ := syncTopic_of_plain h hne
    exact ⟨n, hpos, htopic⟩
  · intro h hne other hother heq
    obtain ⟨n, -, htopic, hn⟩ := syncTopic_of_plain h hne
    obtain ⟨m, -, hother, hm⟩ := syncTopic_of_plain hother (heq ▸ hne)
    have hmn : (m : ℤ) = n := hm.symm.trans (heq.trans hn)
    rw [htopic, hother, hmn]

/-- Two topics of one embedding, the second never formatted. -/
theorem trailing_accepted :
    parseEmbeddingIdFromTopic "facegate/sync/embeddings/upsert/42" = 42 ∧
      parseEmbeddingIdFromTopic "facegate/sync/embeddings/upsert/42x" = 42 ∧
      ∀ n : ℕ, syncTopic n ≠ "facegate/sync/embeddings/upsert/42x" := by
  refine ⟨by decide, by decide, fun n h => ?_⟩
  have hs := topic_eq_syncTopic.mp h.symm
  have hx : 'x' ∈ Nat.toDigits 10 n := by
    have hlist : "facegate/sync/embeddings/upsert/42x".toList =
        kTopicPrefix.toList ++ ['4', '2', 'x'] := by decide
    rw [List.append_cancel_left (hs.symm.trans hlist)]
    decide
  exact absurd (Nat.isDigit_of_mem_toDigits (by decide) (by decide) hx) (by decide)

end FaceGate.L1.SyncTopic
