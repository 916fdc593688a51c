import Mathlib.Data.List.Basic
import Mathlib.Data.Nat.Init

/-!
# Base64

`encode` writes bytes six bits a character, without padding; the alphabet is a
parameter, so that it covers the URL-safe one. `atob` is the decoder of browsers: it
drops white space and padding and refuses what is outside the standard alphabet.

* `atob_encode`, `atob_toStandard`: what was written is read back.
* `not_mem_encode`: a text in an alphabet holds none of the other characters.
-/
namespace Core.Base64

/-! ## Alphabets -/

/-- The character of a sextet; alphabets differ in the last two. -/
def char (c62 c63 : Char) (v : ℕ) : Char :=
  if v < 26 then Char.ofNat (65 + v)
  else if v < 52 then Char.ofNat (71 + v)
  else if v < 62 then Char.ofNat (v - 4)
  else if v = 62 then c62
  else c63

abbrev stdChar : ℕ → Char := char '+' '/'

abbrev urlChar : ℕ → Char := char '-' '_'

/-- The sextet of a character of the standard alphabet. -/
def sextet (c : Char) : Option ℕ :=
  if 65 ≤ c.toNat ∧ c.toNat ≤ 90 then some (c.toNat - 65)
  else if 97 ≤ c.toNat ∧ c.toNat ≤ 122 then some (c.toNat - 71)
  else if 48 ≤ c.toNat ∧ c.toNat ≤ 57 then some (c.toNat + 4)
  else if c = '+' then some 62
  else if c = '/' then some 63
  else none

theorem sextet_stdChar {v : ℕ} (h : v < 64) : sextet (stdChar v) = some v := by
  have hall : ∀ i : Fin 64, sextet (stdChar i) = some (i : ℕ) := by decide
  exact hall ⟨v, h⟩

/-! ## Encoding -/

/-- Three bytes are four characters; what is left over is two or three. -/
def encode (char : ℕ → Char) : List UInt8 → List Char
  | a :: b :: c :: rest =>
    char (a.toNat / 4) :: char (a.toNat % 4 * 16 + b.toNat / 16) ::
      char (b.toNat % 16 * 4 + c.toNat / 64) :: char (c.toNat % 64) :: encode char rest
  | [a, b] =>
    [char (a.toNat / 4), char (a.toNat % 4 * 16 + b.toNat / 16), char (b.toNat % 16 * 4)]
  | [a] => [char (a.toNat / 4), char (a.toNat % 4 * 16)]
  | [] => []

abbrev encodeStd (bs : List UInt8) : List Char := encode stdChar bs

theorem map_encode (char : ℕ → Char) (f : Char → Char) (bs : List UInt8) :
    (encode char bs).map f = encode (fun v => f (char v)) bs := by
  induction bs using encode.induct with
  | case1 a b c rest ih => simp only [encode, List.map_cons, ih]
  | case2 a b => rfl
  | case3 a => rfl
  | case4 => rfl

/-- Every character is that of a sextet. -/
theorem exists_of_mem_encode {char : ℕ → Char} {c : Char} {bs : List UInt8}
    (h : c ∈ encode char bs) : ∃ v < 64, c = char v := by
  induction bs using encode.induct with
  | case1 x y z rest ih =>
    have hx := x.toNat_lt
    have hy := y.toNat_lt
    have hz := z.toNat_lt
    simp only [encode, List.mem_cons] at h
    rcases h with rfl | rfl | rfl | rfl | h
    · exact ⟨_, by omega, rfl⟩
    · exact ⟨_, by omega, rfl⟩
    · exact ⟨_, by omega, rfl⟩
    · exact ⟨_, by omega, rfl⟩
    · exact ih h
  | case2 x y =>
    have hx := x.toNat_lt
    have hy := y.toNat_lt
    simp only [encode, List.mem_cons, List.not_mem_nil, or_false] at h
    rcases h with rfl | rfl | rfl
    · exact ⟨_, by omega, rfl⟩
    · exact ⟨_, by omega, rfl⟩
    · exact ⟨_, by omega, rfl⟩
  | case3 x =>
    have hx := x.toNat_lt
    simp only [encode, List.mem_cons, List.not_mem_nil, or_false] at h
    rcases h with rfl | rfl
    · exact ⟨_, by omega, rfl⟩
    · exact ⟨_, by omega, rfl⟩
  | case4 => exact absurd h List.not_mem_nil

theorem not_mem_encode {char : ℕ → Char} {c : Char} (h : ∀ v < 64, char v ≠ c) (bs : List UInt8) :
    c ∉ encode char bs := by
  intro hc
  obtain ⟨v, hv, he⟩ := exists_of_mem_encode hc
  exact h v hv he.symm

/-- Two alphabets that agree on the sextets write the same text. -/
theorem encode_congr {f g : ℕ → Char} (h : ∀ v < 64, f v = g v) (bs : List UInt8) :
    encode f bs = encode g bs := by
  induction bs using encode.induct with
  | case1 x y z rest ih =>
    have hx := x.toNat_lt
    have hy := y.toNat_lt
    have hz := z.toNat_lt
    simp only [encode, ih]
    rw [h _ (by omega), h _ (by omega), h _ (by omega), h _ (by omega)]
  | case2 x y =>
    have hx := x.toNat_lt
    have hy := y.toNat_lt
    simp only [encode]
    rw [h _ (by omega), h _ (by omega), h _ (by omega)]
  | case3 x =>
    have hx := x.toNat_lt
    simp only [encode]
    rw [h _ (by omega), h _ (by omega)]
  | case4 => rfl

/-! ## Decoding -/

/-- Four sextets are three bytes; the spare bits of an incomplete group are dropped. -/
def assemble : List ℕ → Option (List UInt8)
  | w :: x :: y :: z :: rest =>
    (assemble rest).map fun bs =>
      .ofNat (w * 4 + x / 16) :: .ofNat (x % 16 * 16 + y / 4) :: .ofNat (y % 4 * 64 + z) :: bs
  | [w, x, y] => some [.ofNat (w * 4 + x / 16), .ofNat (x % 16 * 16 + y / 4)]
  | [w, x] => some [.ofNat (w * 4 + x / 16)]
  | [_] => none
  | [] => some []

/-- Tab, line feed, form feed, carriage return and space. -/
def isAsciiWhitespace (c : Char) : Bool :=
  c = '\t' || c = '\n' || c = '\x0c' || c = '\r' || c = ' '

/-- One or two trailing `=` of a text in whole groups. -/
def dropPadding (l : List Char) : List Char :=
  if l.length % 4 = 0 then
    match l.reverse with
    | '=' :: '=' :: r => r.reverse
    | '=' :: r => r.reverse
    | _ => l
  else l

def atob (l : List Char) : Option (List UInt8) :=
  ((dropPadding (l.filter fun c => !isAsciiWhitespace c)).mapM sextet).bind assemble

theorem dropPadding_of_not_mem {l : List Char} (h : '=' ∉ l) : dropPadding l = l := by
  have hr : '=' ∉ l.reverse := fun hm => h (List.mem_reverse.mp hm)
  unfold dropPadding
  split
  · split
    · rename_i heq
      exact absurd (heq ▸ List.mem_cons_self) hr
    · rename_i heq
      exact absurd (heq ▸ List.mem_cons_self) hr
    · rfl
  · rfl

theorem ofNat_of_eq {n : ℕ} {b : UInt8} (h : n = b.toNat) : UInt8.ofNat n = b := by
  rw [h, UInt8.ofNat_toNat]

theorem assemble_encode (bs : List UInt8) :
    ((encodeStd bs).mapM sextet).bind assemble = some bs := by
  induction bs using encode.induct with
  | case1 a b c rest ih =>
    have ha := a.toNat_lt
    have hb := b.toNat_lt
    have hc := c.toNat_lt
    obtain ⟨vs, hvs, hrest⟩ := Option.bind_eq_some_iff.mp ih
    simp only [encodeStd, encode, List.mapM_cons]
    rw [sextet_stdChar (by omega), sextet_stdChar (by omega), sextet_stdChar (by omega),
      sextet_stdChar (by omega), hvs]
    simp only [Option.pure_def, Option.bind_eq_bind, Option.bind_some, assemble, hrest,
      Option.map_some]
    rw [ofNat_of_eq (b := a) (by omega), ofNat_of_eq (b := b) (by omega),
      ofNat_of_eq (b := c) (by omega)]
  | case2 a b =>
    have ha := a.toNat_lt
    have hb := b.toNat_lt
    simp only [encodeStd, encode, List.mapM_cons, List.mapM_nil]
    rw [sextet_stdChar (by omega), sextet_stdChar (by omega), sextet_stdChar (by omega)]
    simp only [Option.pure_def, Option.bind_eq_bind, Option.bind_some, assemble]
    rw [ofNat_of_eq (b := a) (by omega), ofNat_of_eq (b := b) (by omega)]
  | case3 a =>
    have ha := a.toNat_lt
    simp only [encodeStd, encode, List.mapM_cons, List.mapM_nil]
    rw [sextet_stdChar (by omega), sextet_stdChar (by omega)]
    simp only [Option.pure_def, Option.bind_eq_bind, Option.bind_some, assemble]
    rw [ofNat_of_eq (b := a) (by omega)]
  | case4 => rfl

theorem stdChar_ne {c : Char} (h : sextet c = none) : ∀ v < 64, stdChar v ≠ c := by
  intro v hv he
  rw [← he, sextet_stdChar hv] at h
  cases h

theorem atob_encode (bs : List UInt8) : atob (encodeStd bs) = some bs := by
  have hspace : (encodeStd bs).filter (fun c => !isAsciiWhitespace c) = encodeStd bs := by
    refine List.filter_eq_self.mpr fun c hc => ?_
    obtain ⟨v, hv, rfl⟩ := exists_of_mem_encode hc
    have hall : ∀ i : Fin 64, (!isAsciiWhitespace (stdChar i)) = true := by decide
    exact hall ⟨v, hv⟩
  have hpad : '=' ∉ encodeStd bs := not_mem_encode (stdChar_ne (by decide)) bs
  rw [atob, hspace, dropPadding_of_not_mem hpad, assemble_encode]

/-- The URL-safe alphabet turned into the standard one. -/
def toStandard (l : List Char) : List Char :=
  (l.map fun c => if c = '-' then '+' else c).map fun c => if c = '_' then '/' else c

theorem toStandard_encode (bs : List UInt8) : toStandard (encode urlChar bs) = encodeStd bs := by
  rw [toStandard, map_encode, map_encode]
  refine encode_congr (fun v hv => ?_) bs
  have hall : ∀ i : Fin 64, (fun c => if c = '_' then '/' else c)
      ((fun c => if c = '-' then '+' else c) (urlChar i)) = stdChar i := by decide
  exact hall ⟨v, hv⟩

/-- **A URL-safe text is read back through the standard alphabet.** -/
theorem atob_toStandard (bs : List UInt8) : atob (toStandard (encode urlChar bs)) = some bs := by
  rw [toStandard_encode, atob_encode]

end Core.Base64
