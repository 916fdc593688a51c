import FaceGate.Core.Decimal
import Mathlib.Data.List.TakeWhile

/-!
# JSON strings as text

`escape` writes a character inside a JSON string and `readString` reads up to the
closing quote; `utf8` and `latin1` are two readings of bytes.

* `readString_escape`: an escaped string is read back, whatever follows it.
* `latin1_escape`: the UTF-8 bytes of an escaped string, read as Latin-1, are the
  escaped form of the string's own bytes. The quotes and backslashes stay where they
  were: only characters outside ASCII are changed.
-/
namespace Core.JsonText

/-! ## Prefixes -/

/-- The text after a prefix. -/
def stripPrefix : List Char → List Char → Option (List Char)
  | [], l => some l
  | p :: ps, c :: l => if p = c then stripPrefix ps l else none
  | _ :: _, [] => none

@[simp] theorem stripPrefix_append (p l : List Char) : stripPrefix p (p ++ l) = some l := by
  induction p with
  | nil => rfl
  | cons c p ih => rw [List.cons_append, stripPrefix, if_pos rfl, ih]

/-! ## Strings -/

def hexDigit (n : ℕ) : Char := if n < 10 then Char.ofNat (48 + n) else Char.ofNat (87 + n)

/-- Quotes, backslashes and control characters are escaped. -/
def escape (c : Char) : List Char :=
  if c = '"' then ['\\', '"']
  else if c = '\\' then ['\\', '\\']
  else if c.toNat = 8 then ['\\', 'b']
  else if c.toNat = 9 then ['\\', 't']
  else if c.toNat = 10 then ['\\', 'n']
  else if c.toNat = 12 then ['\\', 'f']
  else if c.toNat = 13 then ['\\', 'r']
  else if c.toNat < 32 then ['\\', 'u', '0', '0', hexDigit (c.toNat / 16), hexDigit (c.toNat % 16)]
  else [c]

def hexValue (c : Char) : Option ℕ :=
  if 48 ≤ c.toNat ∧ c.toNat ≤ 57 then some (c.toNat - 48)
  else if 97 ≤ c.toNat ∧ c.toNat ≤ 102 then some (c.toNat - 87)
  else if 65 ≤ c.toNat ∧ c.toNat ≤ 70 then some (c.toNat - 55)
  else none

/-- What stands for one character after a backslash. -/
def unescape (c : Char) : Option Char :=
  if c = '"' ∨ c = '\\' ∨ c = '/' then some c
  else if c = 'b' then some (Char.ofNat 8)
  else if c = 't' then some (Char.ofNat 9)
  else if c = 'n' then some (Char.ofNat 10)
  else if c = 'f' then some (Char.ofNat 12)
  else if c = 'r' then some (Char.ofNat 13)
  else none

/-- Up to the closing quote: the string and the text after it. -/
def readString : List Char → Option (List Char × List Char)
  | [] => none
  | '"' :: rest => some ([], rest)
  | '\\' :: 'u' :: a :: b :: c :: d :: rest => do
    let n := (← hexValue a) * 4096 + (← hexValue b) * 256 + (← hexValue c) * 16 + (← hexValue d)
    if n.isValidChar then
      let (s, rest) ← readString rest
      return (Char.ofNat n :: s, rest)
    else none
  | '\\' :: e :: rest => do
    let c ← unescape e
    let (s, rest) ← readString rest
    return (c :: s, rest)
  | c :: rest =>
    if c.toNat < 32 then none
    else (readString rest).map fun (s, rest) => (c :: s, rest)

theorem hexValue_hexDigit {n : ℕ} (h : n < 16) : hexValue (hexDigit n) = some n := by
  have hall : ∀ i : Fin 16, hexValue (hexDigit i) = some (i : ℕ) := by decide
  exact hall ⟨n, h⟩

/-- A character that is written as it is. -/
theorem readString_plain {c : Char} (hq : c ≠ '"') (hb : c ≠ '\\') (hc : ¬ c.toNat < 32)
    (rest : List Char) :
    readString (c :: rest) = (readString rest).map fun (s, rest) => (c :: s, rest) := by
  rw [readString.eq_def]
  split
  · rename_i h
    cases h
  · rename_i h
    exact absurd (List.cons.inj h).1 hq
  · rename_i h
    exact absurd (List.cons.inj h).1 hb
  · rename_i h
    exact absurd (List.cons.inj h).1 hb
  · rename_i h
    obtain ⟨rfl, rfl⟩ := List.cons.inj h
    rw [if_neg hc]

/-- A backslash and the letter that stands for `c`. -/
theorem readString_backslash {e c : Char} (he : e ≠ 'u') (hu : unescape e = some c)
    (rest : List Char) :
    readString ('\\' :: e :: rest) = (readString rest).map fun (s, rest) => (c :: s, rest) := by
  rw [readString.eq_def]
  split
  · rename_i h
    cases h
  · rename_i h
    exact absurd (List.cons.inj h).1 (by decide)
  · rename_i h
    exact absurd (List.cons.inj (List.cons.inj h).2).1 he
  · rename_i h
    obtain ⟨rfl, rfl⟩ := List.cons.inj (List.cons.inj h).2
    rw [hu, Option.bind_eq_bind, Option.bind_some]
    cases readString rest <;> rfl
  · rename_i hne h
    obtain ⟨rfl, rfl⟩ := List.cons.inj h
    exact absurd rfl (hne e rest rfl)

theorem readString_letter {e c d : Char} (he : e ≠ 'u') (hu : unescape e = some d)
    (hc : c.toNat = d.toNat) (rest : List Char) :
    readString ('\\' :: e :: rest) = (readString rest).map fun (s, rest) => (c :: s, rest) := by
  rw [Char.toNat_inj.mp hc]
  exact readString_backslash he hu rest

theorem readString_control {c : Char} (hc : c.toNat < 32) (rest : List Char) :
    readString (['\\', 'u', '0', '0', hexDigit (c.toNat / 16), hexDigit (c.toNat % 16)] ++ rest) =
      (readString rest).map fun (s, rest) => (c :: s, rest) := by
  have hn : 0 * 4096 + 0 * 256 + c.toNat / 16 * 16 + c.toNat % 16 = c.toNat := by omega
  have hvalid : c.toNat.isValidChar := Or.inl (by omega)
  have h0 : hexValue '0' = some 0 := rfl
  simp only [List.cons_append, List.nil_append, readString]
  rw [h0, hexValue_hexDigit (by omega), hexValue_hexDigit (by omega)]
  simp only [Option.bind_eq_bind, Option.bind_some, hn, hvalid, if_true, Char.ofNat_toNat]
  cases readString rest <;> rfl

theorem readString_escape_cons (c : Char) (rest : List Char) :
    readString (escape c ++ rest) = (readString rest).map fun (s, rest) => (c :: s, rest) := by
  unfold escape
  split
  · rename_i h
    exact readString_backslash (by decide) (by rw [h]; rfl) rest
  split
  · rename_i h
    exact readString_backslash (by decide) (by rw [h]; rfl) rest
  split
  · rename_i h
    exact readString_letter (d := Char.ofNat 8) (by decide) rfl h rest
  split
  · rename_i h
    exact readString_letter (d := Char.ofNat 9) (by decide) rfl h rest
  split
  · rename_i h
    exact readString_letter (d := Char.ofNat 10) (by decide) rfl h rest
  split
  · rename_i h
    exact readString_letter (d := Char.ofNat 12) (by decide) rfl h rest
  split
  · rename_i h
    exact readString_letter (d := Char.ofNat 13) (by decide) rfl h rest
  split
  · rename_i h
    exact readString_control h rest
  · rename_i hq hb _ _ _ _ _ hc
    exact readString_plain hq hb hc rest

/-- **An escaped string is read back.** -/
theorem readString_escape (s rest : List Char) :
    readString (s.flatMap escape ++ '"' :: rest) = some (s, rest) := by
  induction s with
  | nil => rfl
  | cons c s ih =>
    rw [List.flatMap_cons, List.append_assoc, readString_escape_cons, ih]
    rfl

/-! ## Bytes -/

def utf8 (s : List Char) : List UInt8 := s.flatMap String.utf8EncodeChar

/-- Every byte is a character. -/
def latin1 (bs : List UInt8) : List Char := bs.map fun b => Char.ofNat b.toNat

def decodeUtf8 (bs : List UInt8) : Option (List Char) := bs.toByteArray.utf8Decode?.map (·.toList)

theorem decodeUtf8_utf8 (s : List Char) : decodeUtf8 (utf8 s) = some s := by
  have h : (utf8 s).toByteArray = s.utf8Encode := rfl
  rw [decodeUtf8, h, List.utf8Decode?_utf8Encode]
  simp

theorem utf8_append (s t : List Char) : utf8 (s ++ t) = utf8 s ++ utf8 t := List.flatMap_append

theorem latin1_append (a b : List UInt8) : latin1 (a ++ b) = latin1 a ++ latin1 b :=
  List.map_append

/-- The bytes of a string, each read as a character. -/
def garbled (s : List Char) : List Char := latin1 (utf8 s)

theorem garbled_append (s t : List Char) : garbled (s ++ t) = garbled s ++ garbled t := by
  rw [garbled, utf8_append, latin1_append]
  rfl

theorem utf8EncodeChar_ascii {c : Char} (h : c.toNat < 128) :
    String.utf8EncodeChar c = [UInt8.ofNat c.toNat] := by
  have hv : c.val.toNat ≤ 0x7f := by
    have : c.toNat = c.val.toNat := rfl
    omega
  simp only [String.utf8EncodeChar, if_pos hv]
  rfl

theorem garbled_of_ascii {s : List Char} (h : ∀ c ∈ s, c.toNat < 128) : garbled s = s := by
  induction s with
  | nil => rfl
  | cons c s ih =>
    have hc := h c List.mem_cons_self
    have hs := ih fun d hd => h d (List.mem_cons_of_mem _ hd)
    have hone : garbled [c] = [c] := by
      have hbyte : (UInt8.ofNat c.toNat).toNat = c.toNat := by
        rw [UInt8.toNat_ofNat']
        omega
      simp only [garbled, utf8, latin1, List.flatMap_cons, List.flatMap_nil, List.append_nil,
        utf8EncodeChar_ascii hc, List.map_cons, List.map_nil, hbyte, Char.ofNat_toNat]
    rw [← List.singleton_append, garbled_append, hone, hs]

theorem toNat_ofNat_of_lt {n : ℕ} (h : n < 0xd800) : (Char.ofNat n).toNat = n := by
  have hvalid : n.isValidChar := Or.inl h
  rw [Char.ofNat, dif_pos hvalid]
  rfl

theorem garbled_of_all {s : List Char} (h : s.all (fun c => c.toNat < 128) = true) :
    garbled s = s :=
  garbled_of_ascii fun c hc => of_decide_eq_true (List.all_eq_true.mp h c hc)

/-- Outside ASCII no byte is an ASCII character. -/
theorem le_of_mem_garbled {c d : Char} (hc : ¬ c.toNat < 128) (hd : d ∈ garbled [c]) :
    128 ≤ d.toNat := by
  have hv : ¬ c.val.toNat ≤ 0x7f := by
    have : c.toNat = c.val.toNat := rfl
    omega
  simp only [garbled, utf8, latin1, List.flatMap_cons, List.flatMap_nil, List.append_nil,
    List.mem_map] at hd
  obtain ⟨b, hb, rfl⟩ := hd
  have hlarge : 128 ≤ b.toNat := by
    simp only [String.utf8EncodeChar, if_neg hv] at hb
    split at hb
    · simp only [List.mem_cons, List.not_mem_nil, or_false] at hb
      rcases hb with rfl | rfl <;> rw [UInt8.toNat_ofNat'] <;> omega
    · split at hb
      · simp only [List.mem_cons, List.not_mem_nil, or_false] at hb
        rcases hb with rfl | rfl | rfl <;> rw [UInt8.toNat_ofNat'] <;> omega
      · simp only [List.mem_cons, List.not_mem_nil, or_false] at hb
        rcases hb with rfl | rfl | rfl | rfl <;> rw [UInt8.toNat_ofNat'] <;> omega
  have hb256 := b.toNat_lt
  rwa [toNat_ofNat_of_lt (by omega)]

theorem escape_eq_self {c : Char} (h : 128 ≤ c.toNat) : escape c = [c] := by
  have hq : c ≠ '"' := by
    rintro rfl
    exact absurd h (by decide)
  have hb : c ≠ '\\' := by
    rintro rfl
    exact absurd h (by decide)
  unfold escape
  rw [if_neg hq, if_neg hb, if_neg (by omega), if_neg (by omega), if_neg (by omega),
    if_neg (by omega), if_neg (by omega), if_neg (by omega)]

theorem ascii_of_mem_escape {c d : Char} (hc : c.toNat < 128) (hd : d ∈ escape c) :
    d.toNat < 128 := by
  have hall : ∀ i : Fin 128, (escape (Char.ofNat i)).all (fun d => d.toNat < 128) = true := by
    decide +kernel
  have h := hall ⟨c.toNat, hc⟩
  rw [Char.ofNat_toNat] at h
  exact of_decide_eq_true (List.all_eq_true.mp h d hd)

theorem flatMap_escape_eq_self {s : List Char} (h : ∀ c ∈ s, 128 ≤ c.toNat) :
    s.flatMap escape = s := by
  induction s with
  | nil => rfl
  | cons c s ih =>
    rw [List.flatMap_cons, escape_eq_self (h c List.mem_cons_self),
      ih fun d hd => h d (List.mem_cons_of_mem _ hd), List.singleton_append]

/-- **Bytes and escapes commute.** -/
theorem latin1_escape (s : List Char) :
    garbled (s.flatMap escape) = (garbled s).flatMap escape := by
  induction s with
  | nil => rfl
  | cons c s ih =>
    have hone : garbled (escape c) = (garbled [c]).flatMap escape := by
      by_cases hc : c.toNat < 128
      · rw [garbled_of_ascii fun d => ascii_of_mem_escape hc,
          garbled_of_ascii (s := [c]) fun d hd => by rwa [List.mem_singleton.mp hd],
          List.flatMap_cons, List.flatMap_nil, List.append_nil]
      · rw [escape_eq_self (by omega), flatMap_escape_eq_self fun d => le_of_mem_garbled hc]
    rw [List.flatMap_cons, garbled_append, hone, ih, ← List.flatMap_append, ← garbled_append,
      List.singleton_append]

end Core.JsonText
