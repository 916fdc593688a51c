import FaceGate.Core.Csv
import FaceGate.Core.Lines
import FaceGate.L2Device.Matcher
import FaceGate.L3Edge.EnrollRun
import FaceGate.L3Edge.MetricsCsv

/-!
# The evaluation harness: pairs mode

`eval --pairs` reads LFW's list of image pairs and writes a row with the cosine distance
of each. It embeds each image once, in the order in which an `unordered_map` iterates, and
looks both images of a pair up; `cv::imread`, the detector and the embedder are functions of
their input here.

`pairs_evaluated`: from a list as LFW writes it, whatever the map's order, comes the row for
each pair, in order, that embedding its two images by themselves gives; no image is embedded
twice.
-/
namespace FaceGate.L3.Eval

open Core Core.Keyed FaceGate.L1.Domain FaceGate.L1.SyncTopic FaceGate.L2 FaceGate.L3.EnrollRun

/-! ## Images -/

abbrev Path := List Char

/-- `fs::path::operator/` on POSIX. -/
def join (p q : Path) : Path :=
  if q.head? = some '/' then q
  else if p = [] ∨ p.getLast? = some '/' then p ++ q
  else p ++ '/' :: q

/-- `std::setw(n) << std::setfill(fill)`. -/
def setw (n : ℕ) (fill : Char) (s : List Char) : List Char :=
  List.replicate (n - s.length) fill ++ s

/-- mirrors edge/apps/eval/main.cpp:145-151 -/
def lfwImagePath (dataset : Path) (name : List Char) (idx : ℤ) : Path :=
  join (join dataset name) (name ++ '_' :: setw 4 '0' (intChars idx) ++ ".jpg".toList)

/-- mirrors edge/apps/eval/main.cpp:156 -/
inductive ExtractStatus where
  | ok | imreadFailed | noFace | embedFailed
  deriving DecidableEq, Repr

/-- mirrors edge/apps/eval/main.cpp:158-161 -/
structure EmbedResult (K : Type) where
  status : ExtractStatus
  vector : EmbeddingVector K

/-- `cv::imread` (nothing: the frame is empty), `FaceDetector::detect_best` and
`FaceEmbedder::extract`. -/
structure Vision (K : Type) where
  Frame : Type
  Detection : Type
  imread : Path → Option Frame
  detectBest : Frame → Option Detection
  extract : Frame → Detection → Option (EmbeddingVector K)

variable {K : Type} [LinearOrder K] [BoundedOrder K] [FloatArith K]

/-- `EmbedResult{}`. -/
def EmbedResult.zero : EmbedResult K := ⟨.ok, List.Vector.replicate _ (FloatArith.lit 0)⟩

/-- mirrors edge/apps/eval/main.cpp:163-185 -/
def embedImage (v : Vision K) (path : Path) : EmbedResult K :=
  match v.imread path with
  | none => { EmbedResult.zero with status := .imreadFailed }
  | some frame =>
    match v.detectBest frame with
    | none => { EmbedResult.zero with status := .noFace }
    | some det =>
      match v.extract frame det with
      | none => { EmbedResult.zero with status := .embedFailed }
      | some emb => ⟨.ok, emb⟩

/-- mirrors edge/apps/eval/main.cpp:187-195 -/
def statusStr : ExtractStatus → List Char
  | .ok => "ok".toList
  | .imreadFailed => "imread_failed".toList
  | .noFace => "no_face".toList
  | .embedFailed => "embed_failed".toList

/-- The distance of the matcher, once more.
mirrors edge/apps/eval/main.cpp:197-208 -/
def cosineDistance (a b : EmbeddingVector K) : Flt K := Matcher.cosineDistance a b

/-! ## The list of pairs -/

/-- mirrors edge/apps/eval/main.cpp:212-216 -/
structure LfwPair where
  a : Path
  b : Path
  same : Bool
  deriving DecidableEq, Repr

/-- The body of the loop; `none`: `std::stoi` throws.
mirrors edge/apps/eval/main.cpp:229-252 -/
def parseLine (dataset : Path) (out : List LfwPair) (line : List Char) : Option (List LfwPair) :=
  if line = [] then some out
  else
    match Lines.words isSpace line with
    | [n, a, b] => do
      let ia ← stoi a
      let ib ← stoi b
      return out ++ [⟨lfwImagePath dataset n ia, lfwImagePath dataset n ib, true⟩]
    | [m, a, n, b] => do
      let ia ← stoi a
      let ib ← stoi b
      return out ++ [⟨lfwImagePath dataset m ia, lfwImagePath dataset n ib, false⟩]
    | _ => some out

/-- The first line is the header.
mirrors edge/apps/eval/main.cpp:218-254 -/
def parseLfwPairs (text : List Char) (dataset : Path) : Option (List LfwPair) :=
  (Lines.lines text).tail.foldlM (parseLine dataset) []

/-! ## The run -/

structure CacheEntry (K : Type) where
  path : Path
  result : EmbedResult K

/-- `if (cache.find(path) == cache.end()) cache[path] = {}`. -/
def touch (cache : List (CacheEntry K)) (path : Path) : List (CacheEntry K) :=
  match lookup CacheEntry.path path cache with
  | some _ => cache
  | none => cache ++ [⟨path, .zero⟩]

/-- mirrors edge/apps/eval/main.cpp:269-275 -/
def uniqueImages (pairs : List LfwPair) : List (CacheEntry K) :=
  pairs.foldl (fun cache p => touch (touch cache p.a) p.b) []

/-- One turn of the loop over the cache.
mirrors edge/apps/eval/main.cpp:280-281 -/
def embedInto (v : Vision K) (cache : List (CacheEntry K)) (path : Path) : List (CacheEntry K) :=
  replaceOrPush CacheEntry.path ⟨path, embedImage v path⟩ cache

/-- `cache[path]`. -/
def cached (cache : List (CacheEntry K)) (path : Path) : EmbedResult K :=
  ((lookup CacheEntry.path path cache).map CacheEntry.result).getD .zero

/-- mirrors edge/apps/eval/main.cpp:298-308 -/
def pairStatus (ra rb : ExtractStatus) : List Char :=
  if ra ≠ .ok ∧ rb ≠ .ok then "a:".toList ++ statusStr ra ++ "|b:".toList ++ statusStr rb
  else if ra ≠ .ok then "a:".toList ++ statusStr ra
  else if rb ≠ .ok then "b:".toList ++ statusStr rb
  else "ok".toList

/-- How a `float` is streamed is a parameter.
mirrors edge/apps/eval/main.cpp:295-314 -/
def pairRow (float : Flt K → List Char) (p : LfwPair) (ra rb : EmbedResult K) : List Char :=
  p.a ++ ',' :: p.b ++ ',' :: (if p.same then ['1'] else ['0']) ++ ',' ::
    (if ra.status = .ok ∧ rb.status = .ok then
      float (cosineDistance ra.vector rb.vector) else []) ++
    ',' :: pairStatus ra.status rb.status ++ ['\n']

/-- mirrors edge/apps/eval/main.cpp:294 -/
def pairsHeader : List Char := "image_a,image_b,same,distance,status\n".toList

/-- The exit code, the images embedded, and the file written. -/
structure Run where
  code : ℕ
  embedded : List Path
  file : Option (List Char)

/-- `order` is that in which the map iterates over its keys, `opens` whether the output file
can be opened; `none` is a list that cannot.
mirrors edge/apps/eval/main.cpp:256-317,507-511 -/
def runPairsMode (v : Vision K) (float : Flt K → List Char) (order : List Path → List Path)
    (opens : Bool) (pairsFile : Option (List Char)) (dataset : Path) : Run :=
  match pairsFile.bind fun text => parseLfwPairs text dataset with
  | none => ⟨1, [], none⟩  -- caught in `main`
  | some pairs =>
    let start : List (CacheEntry K) := uniqueImages pairs
    let visited := order (start.map CacheEntry.path)
    let cache := visited.foldl (embedInto v) start
    if opens then
      ⟨0, visited, some (pairsHeader ++
        pairs.flatMap fun p => pairRow float p (cached cache p.a) (cached cache p.b))⟩
    else ⟨1, visited, none⟩

/-! ## The cache -/

/-- The keys of the cache as it is filled. -/
def Filled (cache : List (CacheEntry K)) (paths : List Path) : Prop :=
  DistinctKeys CacheEntry.path cache ∧ ∀ path, path ∈ cache.map CacheEntry.path ↔ path ∈ paths

variable {v : Vision K} {cache : List (CacheEntry K)} {paths : List Path}

omit [LinearOrder K] [BoundedOrder K] in
theorem filled_touch (h : Filled cache paths) (path : Path) :
    Filled (touch cache path) (paths ++ [path]) := by
  unfold touch
  split
  · rename_i e he
    refine ⟨h.1, fun q => ?_⟩
    have hmem : path ∈ paths := (h.2 path).mp <|
      List.mem_map.mpr ⟨e, mem_of_lookup he, key_of_lookup he⟩
    rw [h.2, List.mem_append, List.mem_singleton]
    exact ⟨Or.inl, fun hq => hq.elim id fun he => he ▸ hmem⟩
  · rename_i hnone
    refine ⟨distinctKeys_append h.1 hnone, fun q => ?_⟩
    rw [List.map_append, List.mem_append, h.2, List.mem_append]
    rfl

/-- Every image of a pair, as often as it occurs. -/
def images (pairs : List LfwPair) : List Path := pairs.flatMap fun p => [p.a, p.b]

omit [LinearOrder K] [BoundedOrder K] in
theorem filled_uniqueImages (pairs : List LfwPair) :
    Filled (uniqueImages pairs : List (CacheEntry K)) (images pairs) := by
  have hfold : ∀ (cache : List (CacheEntry K)) paths, Filled cache paths →
      Filled (pairs.foldl (fun cache p => touch (touch cache p.a) p.b) cache)
        (paths ++ images pairs) := by
    induction pairs with
    | nil =>
      intro cache paths h
      rwa [images, List.flatMap_nil, List.append_nil]
    | cons p pairs ih =>
      intro cache paths h
      have hp := ih _ _ (filled_touch (filled_touch h p.a) p.b)
      rwa [List.append_assoc, List.append_assoc] at hp
  exact hfold [] [] ⟨List.nodup_nil, fun _ => Iff.rfl⟩

omit [LinearOrder K] [BoundedOrder K] in
/-- After its turn, an image has its own result. -/
theorem lookup_embedInto (visited : List Path) : ∀ (cache : List (CacheEntry K)) (path : Path),
    lookup CacheEntry.path path (visited.foldl (embedInto v) cache) =
      if path ∈ visited then some ⟨path, embedImage v path⟩
      else lookup CacheEntry.path path cache := by
  induction visited with
  | nil => exact fun cache path => (if_neg List.not_mem_nil).symm
  | cons q visited ih =>
    intro cache path
    rw [List.foldl_cons, ih, embedInto, lookup_replaceOrPush]
    by_cases hmem : path ∈ visited
    · rw [if_pos hmem, if_pos (List.mem_cons_of_mem q hmem)]
    · rw [if_neg hmem]
      by_cases hq : q = path
      · rw [if_pos hq, hq, if_pos List.mem_cons_self]
      · rw [if_neg hq, if_neg fun h => (List.mem_cons.mp h).elim (fun e => hq e.symm) hmem]

omit [LinearOrder K] [BoundedOrder K] in
theorem cached_embedInto {visited : List Path} {path : Path} (h : path ∈ visited) :
    cached (visited.foldl (embedInto v) cache) path = embedImage v path := by
  rw [cached, lookup_embedInto, if_pos h]
  rfl

/-- The rows, with each image embedded where it is needed. -/
def pairRows (v : Vision K) (float : Flt K → List Char) (pairs : List LfwPair) : List Char :=
  pairs.flatMap fun p => pairRow float p (embedImage v p.a) (embedImage v p.b)

/-- The run does not depend on the map's order. -/
theorem runPairsMode_eq (v : Vision K) (float : Flt K → List Char)
    {order : List Path → List Path} (horder : ∀ l, (order l).Perm l) {text : List Char}
    {dataset : Path} {pairs : List LfwPair} (h : parseLfwPairs text dataset = some pairs) :
    ∃ embedded : List Path, embedded.Nodup ∧ (∀ path, path ∈ embedded ↔ path ∈ images pairs) ∧
      runPairsMode v float order true (some text) dataset =
        ⟨0, embedded, some (pairsHeader ++ pairRows v float pairs)⟩ := by
  have hfilled := filled_uniqueImages (K := K) pairs
  have hperm := horder ((uniqueImages pairs : List (CacheEntry K)).map CacheEntry.path)
  have hmem : ∀ path, path ∈ order ((uniqueImages pairs : List (CacheEntry K)).map
      CacheEntry.path) ↔ path ∈ images pairs := fun path => hperm.mem_iff.trans (hfilled.2 path)
  refine ⟨_, hperm.nodup_iff.mpr hfilled.1, hmem, ?_⟩
  have hrows : pairs.flatMap (fun p => pairRow float p
      (cached ((order ((uniqueImages pairs : List (CacheEntry K)).map CacheEntry.path)).foldl
        (embedInto v) (uniqueImages pairs)) p.a)
      (cached ((order ((uniqueImages pairs : List (CacheEntry K)).map CacheEntry.path)).foldl
        (embedInto v) (uniqueImages pairs)) p.b)) = pairRows v float pairs := by
    refine List.flatMap_congr fun p hp => ?_
    have hin : ∀ path ∈ [p.a, p.b], path ∈ images pairs := fun path hpath =>
      List.mem_flatMap.mpr ⟨p, hp, hpath⟩
    rw [cached_embedInto ((hmem _).mpr (hin p.a (by simp))),
      cached_embedInto ((hmem _).mpr (hin p.b (by simp)))]
  rw [runPairsMode, Option.bind_some, h]
  simp only [if_true, hrows]

/-! ## The list as LFW writes it -/

/-- One person and two of the images, two persons and an image of each, or anything else: the
header of a fold, a blank line. -/
inductive Line where
  | same (n : List Char) (a b : ℕ)
  | different (m : List Char) (a : ℕ) (n : List Char) (b : ℕ)
  | other (ws : List (List Char))

def Line.words : Line → List (List Char)
  | same n a b => [n, Nat.toDigits 10 a, Nat.toDigits 10 b]
  | different m a n b => [m, Nat.toDigits 10 a, n, Nat.toDigits 10 b]
  | other ws => ws

def Line.pair (dataset : Path) : Line → Option LfwPair
  | same n a b => some ⟨lfwImagePath dataset n a, lfwImagePath dataset n b, true⟩
  | different m a n b => some ⟨lfwImagePath dataset m a, lfwImagePath dataset n b, false⟩
  | other _ => none

theorem none_of_all {p : Char → Bool} {s : List Char} (h : (s.all fun c => !p c) = true) :
    ∀ c ∈ s, p c = false :=
  fun c hc => by simpa using List.all_eq_true.mp h c hc

/-- A name has no white space and needs no quotes, a number fits an `int`. -/
def IsName (n : List Char) : Prop := Lines.Word isSpace n ∧ MetricsCsv.dialect.plain n

def Line.Listed : Line → Prop
  | same n a b => IsName n ∧ a < 2 ^ 31 ∧ b < 2 ^ 31
  | different m a n b => IsName m ∧ a < 2 ^ 31 ∧ IsName n ∧ b < 2 ^ 31
  | other ws => (∀ w ∈ ws, Lines.Word isSpace w) ∧ ws.length ≠ 3 ∧ ws.length ≠ 4

/-- The header, and words with a tab between them. -/
def listText (header : List Char) (ls : List Line) : List Char :=
  Lines.unlines (header :: ls.map fun l => Lines.unwords '\t' l.words)

def pairsOf (dataset : Path) (ls : List Line) : List LfwPair := ls.filterMap (Line.pair dataset)

theorem stoi_toDigits {n : ℕ} (h : n < 2 ^ 31) : stoi (Nat.toDigits 10 n) = some (n : ℤ) := by
  have hdigits : ∀ c ∈ Nat.toDigits 10 n, c.isDigit = true := fun _ => isDigit_of_mem_toDigits
  have hspace : (Nat.toDigits 10 n).dropWhile isSpace = Nat.toDigits 10 n := by
    obtain ⟨c, t, ht⟩ := List.exists_cons_of_ne_nil
      (List.length_pos_iff.mp (Nat.length_toDigits_pos (b := 10) (n := n)))
    rw [ht] at hdigits ⊢
    rw [List.dropWhile_cons_of_neg]
    rw [digit_not_space (hdigits c List.mem_cons_self)]
    decide
  have hne : Nat.toDigits 10 n ≠ [] := List.length_pos_iff.mp Nat.length_toDigits_pos
  have hstoll : stoll (Nat.toDigits 10 n) = some (n : ℤ) := by
    simp only [stoll, hspace, sign_digits hdigits, List.takeWhile_eq_self_iff.mpr hdigits,
      if_neg hne, Nat.ofDigitChars_ten_toDigits, Bool.false_eq_true, if_false]
    rw [if_pos (by omega)]
  rw [stoi, hstoll, Option.filter_some_pos]
  exact decide_eq_true (by omega)

theorem word_toDigits (n : ℕ) : Lines.Word isSpace (Nat.toDigits 10 n) :=
  ⟨List.length_pos_iff.mp Nat.length_toDigits_pos,
    fun _ hc => digit_not_space (isDigit_of_mem_toDigits hc)⟩

theorem Line.Listed.words {l : Line} (h : l.Listed) : ∀ w ∈ l.words, Lines.Word isSpace w := by
  cases l with
  | same n a b =>
    simp only [Line.words, List.forall_mem_cons]
    exact ⟨h.1.1, word_toDigits a, word_toDigits b, by simp⟩
  | different m a n b =>
    simp only [Line.words, List.forall_mem_cons]
    exact ⟨h.1.1, word_toDigits a, h.2.2.1.1, word_toDigits b, by simp⟩
  | other ws => exact h.1

theorem parseLine_listed {dataset : Path} {l : Line} (h : l.Listed) (out : List LfwPair) :
    parseLine dataset out (Lines.unwords '\t' l.words) = some (out ++ (l.pair dataset).toList) := by
  have hwords := Lines.words_unwords (c := '\t') rfl h.words
  have hne : l.words ≠ [] → Lines.unwords '\t' l.words ≠ [] := by
    intro hl he
    rw [he] at hwords
    exact hl hwords.symm
  cases l with
  | same n a b =>
    rw [parseLine, if_neg (hne (List.cons_ne_nil _ _)), hwords]
    simp [Line.words, Line.pair, stoi_toDigits h.2.1, stoi_toDigits h.2.2]
  | different m a n b =>
    rw [parseLine, if_neg (hne (List.cons_ne_nil _ _)), hwords]
    simp [Line.words, Line.pair, stoi_toDigits h.2.1, stoi_toDigits h.2.2.2]
  | other ws =>
    obtain ⟨-, h₃, h₄⟩ := h
    rw [parseLine, hwords, Line.pair, Option.toList_none, List.append_nil, Line.words]
    split
    · rfl
    · split
      · exact absurd rfl h₃
      · exact absurd rfl h₄
      · rfl

theorem parse_listText {header : List Char} (hheader : ∀ c ∈ header, c ≠ '\n') {ls : List Line}
    (hls : ∀ l ∈ ls, l.Listed) (dataset : Path) :
    parseLfwPairs (listText header ls) dataset = some (pairsOf dataset ls) := by
  have hlf : ∀ l ∈ ls, ∀ c ∈ Lines.unwords '\t' l.words, c ≠ '\n' := by
    rintro l hl c hc rfl
    rcases Lines.mem_unwords hc with he | ⟨w, hw, hmem⟩
    · exact absurd he (by decide)
    · exact absurd ((hls l hl).words w hw |>.2 _ hmem) (by decide)
  have hlines : Lines.lines (listText header ls) =
      header :: ls.map fun l => Lines.unwords '\t' l.words := by
    refine Lines.lines_unlines fun l hl => ?_
    rcases List.mem_cons.mp hl with rfl | hl
    · exact hheader
    · obtain ⟨m, hm, rfl⟩ := List.mem_map.mp hl
      exact hlf m hm
  have hfold : ∀ out, (ls.map fun l => Lines.unwords '\t' l.words).foldlM (parseLine dataset) out =
      some (out ++ pairsOf dataset ls) := by
    clear hlines hlf
    induction ls with
    | nil => simp [pairsOf]
    | cons l ls ih =>
      intro out
      rw [List.map_cons, List.foldlM_cons, parseLine_listed (hls l List.mem_cons_self)]
      refine (ih (fun m hm => hls m (List.mem_cons_of_mem l hm)) _).trans ?_
      rw [pairsOf, pairsOf, List.filterMap_cons, List.append_assoc]
      cases l.pair dataset <;> rfl
  rw [parseLfwPairs, hlines, List.tail_cons, hfold, List.nil_append]

/-! ## The rows read back -/

def headerCells : List Csv.Field :=
  ["image_a", "image_b", "same", "distance", "status"].map String.toList

/-- What the row says of a pair, with both images embedded for it. -/
def cells (v : Vision K) (float : Flt K → List Char) (p : LfwPair) : List Csv.Field :=
  let ra := embedImage v p.a
  let rb := embedImage v p.b
  [p.a, p.b, if p.same then ['1'] else ['0'],
    if ra.status = .ok ∧ rb.status = .ok then float (cosineDistance ra.vector rb.vector) else [],
    pairStatus ra.status rb.status]

open MetricsCsv (dialect)

theorem plain_append {s t : List Char} (hs : dialect.plain s) (ht : dialect.plain t) :
    dialect.plain (s ++ t) := by
  intro c hc
  rcases List.mem_append.mp hc with hc | hc
  · exact hs c hc
  · exact ht c hc

theorem plain_setw (n : ℕ) (i : ℤ) : dialect.plain (setw n '0' (intChars i)) := by
  refine plain_append (fun c hc => ?_) (MetricsCsv.plain_intChars i)
  rw [List.eq_of_mem_replicate hc]
  rfl

theorem plain_join {p q : Path} (hp : dialect.plain p) (hq : dialect.plain q) :
    dialect.plain (join p q) := by
  unfold join
  split
  · exact hq
  · split
    · exact plain_append hp hq
    · refine plain_append hp fun c hc => ?_
      rcases List.mem_cons.mp hc with rfl | hc
      · rfl
      · exact hq c hc

theorem plain_lfwImagePath {dataset : Path} {name : List Char} (hd : dialect.plain dataset)
    (hn : dialect.plain name) (i : ℤ) : dialect.plain (lfwImagePath dataset name i) := by
  refine plain_join (plain_join hd hn) (plain_append (plain_append hn fun c hc => ?_) ?_)
  · rcases List.mem_cons.mp hc with rfl | hc
    · rfl
    · exact plain_setw 4 i c hc
  · exact none_of_all rfl

theorem plain_pairStatus (ra rb : ExtractStatus) : dialect.plain (pairStatus ra rb) := by
  cases ra <;> cases rb <;> exact none_of_all rfl

theorem plain_pair {dataset : Path} (hd : dialect.plain dataset) {ls : List Line}
    (hls : ∀ l ∈ ls, l.Listed) {p : LfwPair} (hp : p ∈ pairsOf dataset ls) :
    dialect.plain p.a ∧ dialect.plain p.b := by
  obtain ⟨l, hl, he⟩ := List.mem_filterMap.mp hp
  have h := hls l hl
  cases l with
  | same n a b =>
    cases he
    exact ⟨plain_lfwImagePath hd h.1.2 a, plain_lfwImagePath hd h.1.2 b⟩
  | different m a n b =>
    cases he
    exact ⟨plain_lfwImagePath hd h.1.2 a, plain_lfwImagePath hd h.2.2.1.2 b⟩
  | other ws => cases he

theorem plain_headerCells : ∀ f ∈ headerCells, dialect.plain f := by
  have h : headerCells.all (fun f => f.all fun c => !dialect.special c) = true := rfl
  intro f hf c hc
  exact Bool.not_eq_true' _ ▸ List.all_eq_true.mp (List.all_eq_true.mp h f hf) c hc

theorem plain_cells (v : Vision K) {float : Flt K → List Char}
    (hfloat : ∀ x, dialect.plain (float x)) {p : LfwPair}
    (hp : dialect.plain p.a ∧ dialect.plain p.b) : ∀ f ∈ cells v float p, dialect.plain f := by
  simp only [cells, List.forall_mem_cons]
  refine ⟨hp.1, hp.2, ?_, ?_, plain_pairStatus _ _, by simp⟩
  · split <;> exact none_of_all rfl
  · split
    · exact hfloat _
    · exact fun c hc => absurd hc List.not_mem_nil

theorem pairRow_eq (v : Vision K) (float : Flt K → List Char) (p : LfwPair) :
    pairRow float p (embedImage v p.a) (embedImage v p.b) =
      [dialect.sep].intercalate (cells v float p) ++ dialect.eol := by
  simp [pairRow, cells, List.intercalate, dialect, Csv.Dialect.eol]

/-- **Every pair of the list has its own row**, whatever the map's order. -/
theorem pairs_evaluated (v : Vision K) {float : Flt K → List Char}
    (hfloat : ∀ x, dialect.plain (float x)) {order : List Path → List Path}
    (horder : ∀ l, (order l).Perm l) {header : List Char} (hheader : ∀ c ∈ header, c ≠ '\n')
    {ls : List Line} (hls : ∀ l ∈ ls, l.Listed) {dataset : Path} (hd : dialect.plain dataset) :
    ∃ embedded file, runPairsMode v float order true (some (listText header ls)) dataset =
        ⟨0, embedded, some file⟩ ∧
      embedded.Nodup ∧ (∀ path, path ∈ embedded ↔ path ∈ images (pairsOf dataset ls)) ∧
      Csv.parse dialect file =
        some (headerCells :: (pairsOf dataset ls).map (cells v float)) := by
  obtain ⟨embedded, hnodup, hmem, hrun⟩ :=
    runPairsMode_eq v float horder (parse_listText hheader hls dataset)
  refine ⟨embedded, _, hrun, hnodup, hmem, ?_⟩
  have htext : pairsHeader ++ pairRows v float (pairsOf dataset ls) =
      (headerCells :: (pairsOf dataset ls).map (cells v float)).flatMap
        fun row => [dialect.sep].intercalate row ++ dialect.eol := by
    have hheader : pairsHeader = [dialect.sep].intercalate headerCells ++ dialect.eol := by decide
    rw [List.flatMap_cons, List.flatMap_map, pairRows, ← hheader]
    exact congrArg (fun f => pairsHeader ++ List.flatMap f _) (funext (pairRow_eq v float))
  rw [htext]
  refine Csv.parse_plainLines fun row hrow => ?_
  rcases List.mem_cons.mp hrow with rfl | hrow
  · exact ⟨List.cons_ne_nil _ _, plain_headerCells⟩
  · obtain ⟨p, hp, rfl⟩ := List.mem_map.mp hrow
    exact ⟨List.cons_ne_nil _ _, plain_cells v hfloat (plain_pair hd hls hp)⟩

/-- The second picture of Ana is missing, all others show her. -/
def album : Vision ExtRat where
  Frame := Path
  Detection := Path
  imread path := if path = "lfw/Ana/Ana_0002.jpg".toList then none else some path
  detectBest frame := some frame
  extract _ _ := some (List.Vector.replicate _ (FloatArith.lit 1))

theorem pairs_evaluated_ana :
    ∃ embedded file, runPairsMode album (fun _ => ['0']) List.reverse true
        (some (listText "2 1".toList
          [.same "Ana".toList 1 2, .other [], .different "Ana".toList 1 "Eva".toList 3]))
        "lfw".toList = ⟨0, embedded, some file⟩ ∧
      "lfw/Ana/Ana_0001.jpg".toList ∈ embedded ∧
      Csv.parse dialect file = some [headerCells,
        ["lfw/Ana/Ana_0001.jpg", "lfw/Ana/Ana_0002.jpg", "1", "", "b:imread_failed"].map
          String.toList,
        ["lfw/Ana/Ana_0001.jpg", "lfw/Eva/Eva_0003.jpg", "0", "0", "ok"].map String.toList] := by
  have hana : IsName "Ana".toList := ⟨⟨by decide, none_of_all rfl⟩, none_of_all rfl⟩
  have heva : IsName "Eva".toList := ⟨⟨by decide, none_of_all rfl⟩, none_of_all rfl⟩
  have hls : ∀ l ∈ [Line.same "Ana".toList 1 2, .other [],
      .different "Ana".toList 1 "Eva".toList 3], l.Listed := by
    simp only [List.forall_mem_cons]
    exact ⟨⟨hana, by decide, by decide⟩, ⟨by simp, by decide, by decide⟩,
      ⟨hana, by decide, heva, by decide⟩, by simp⟩
  obtain ⟨embedded, file, hrun, -, hmem, hparse⟩ := @pairs_evaluated _ _ _ _ album
    (fun _ => ['0']) (fun _ => none_of_all rfl) List.reverse List.reverse_perm
    "2 1".toList (by simp) _ hls "lfw".toList (none_of_all rfl)
  refine ⟨embedded, file, hrun, (hmem _).mpr (by decide), hparse.trans ?_⟩
  decide +kernel

end FaceGate.L3.Eval
