import Mathlib.Data.Char
import Mathlib.Data.List.FinRange
import Mathlib.Data.List.Lex
import FaceGate.L3Edge.Eval

/-!
# The evaluation harness: enroll-scale mode

`eval --enroll-scale N` enrols the first image of `N` identities and searches for their
other images and for an image of identities it did not draw, with the matcher of the edge and
a threshold that lets everyone in.

* `scale_rows`: whatever the two shuffles do, a row is genuine exactly if its identity is in
  the gallery, never shows the image that was enrolled, and names the nearest face; no image
  is embedded twice.
* `evaluation_reproducible`: neither the order in which the directories are listed nor that of
  the `unordered_map` changes what either mode writes, and the clock only the column `match_us`.
-/
namespace FaceGate.L3.Eval

open Core Core.Keyed Core.Scan FaceGate.L1.Domain FaceGate.L1.SyncTopic FaceGate.L2
  FaceGate.L3.EnrollRun

/-! ## Arguments -/

/-- mirrors edge/apps/eval/main.cpp:58 -/
inductive Mode where
  | none | pairs | enrollScale
  deriving DecidableEq, Repr

/-- mirrors edge/apps/eval/main.cpp:60-72 -/
structure Args where
  mode : Mode
  pairsPath : Path
  enrollN : ℤ
  dataset : Path
  blazeModel : Path
  arcModel : Path
  onnxThreads : ℤ
  out : Path
  seed : ℕ
  maxProbesPerIdentity : ℤ
  maxImpostors : ℤ
  deriving DecidableEq

def Args.default : Args where
  mode := .none
  pairsPath := []
  enrollN := 0
  dataset := []
  blazeModel := "models/blaze.onnx".toList
  arcModel := "models/arc.onnx".toList
  onnxThreads := 2
  out := []
  seed := 42
  maxProbesPerIdentity := 5
  maxImpostors := 1000

/-- `std::stoull`, base 10: a negative number wraps. -/
def stoull (s : List Char) : Option ℕ :=
  let (negative, t) := sign (s.dropWhile isSpace)
  let digits := t.takeWhile Char.isDigit
  let n := Nat.ofDigitChars 10 digits 0
  if digits = [] ∨ 2 ^ 64 ≤ n then none
  else some (if negative then (2 ^ 64 - n) % 2 ^ 64 else n)

/-- An option with its value. -/
def Args.set (a : Args) (k : String) (v : List Char) : Option Args :=
  if k = "--pairs" then some { a with pairsPath := v, mode := .pairs }
  else if k = "--enroll-scale" then
    (stoi v).map fun n => { a with enrollN := n, mode := .enrollScale }
  else if k = "--dataset" then some { a with dataset := v }
  else if k = "--blaze-model" then some { a with blazeModel := v }
  else if k = "--arc-model" then some { a with arcModel := v }
  else if k = "--onnx-threads" then (stoi v).map fun n => { a with onnxThreads := n }
  else if k = "--out" then some { a with out := v }
  else if k = "--seed" then (stoull v).map fun n => { a with seed := n }
  else if k = "--max-probes-per-identity" then
    (stoi v).map fun n => { a with maxProbesPerIdentity := n }
  else if k = "--max-impostors" then (stoi v).map fun n => { a with maxImpostors := n }
  else none

/-- The loop over `argv`; what stands last has no value or is unknown. -/
def setAll : List String → Args → Option Args
  | [], a => some a
  | [_], _ => none
  | k :: v :: rest, a => (a.set k v.toList).bind (setAll rest)

/-- mirrors edge/apps/eval/main.cpp:89-142 -/
def parseArgs (argv : List String) : Option Args :=
  match setAll argv .default with
  | none => none
  | some a =>
    if a.mode = .none ∨ a.dataset = [] ∨ a.out = [] then none
    else if a.mode = .pairs ∧ a.pairsPath = [] then none
    else if a.mode = .enrollScale ∧ a.enrollN ≤ 0 then none
    else some a

/-! ## The identities -/

def IsFileName (n : List Char) : Prop := n ≠ [] ∧ '/' ∉ n

/-- What a `directory_iterator` gives: a name, whether it is that of a directory, and the names
of the files in there. -/
structure DirEntry where
  name : List Char
  isDirectory : Bool
  files : List (List Char)
  name_ok : IsFileName name
  files_ok : ∀ f ∈ files, IsFileName f
  files_nodup : files.Nodup

/-- The entries of a directory, in any order. -/
structure Listing where
  entries : List DirEntry
  distinct : DistinctKeys DirEntry.name entries

/-- `fs::path::extension`: from the last dot on, if that is not the first character. -/
def extension (name : List Char) : List Char :=
  if name ≠ "..".toList ∧ '.' ∈ name.tail then
    '.' :: (name.reverse.takeWhile fun c => c ≠ '.').reverse
  else []

def isImage (name : List Char) : Bool :=
  extension name = ".jpg".toList ∨ extension name = ".jpeg".toList ∨
    extension name = ".png".toList

/-- mirrors edge/apps/eval/main.cpp:321-324 -/
structure Identity where
  name : List Char
  images : List Path
  images_ne : images ≠ []

/-- `id.images.front()`. -/
def Identity.front (id : Identity) : Path := id.images.head id.images_ne

/-- One turn of the loop over the dataset. `fs::path` compares element by element, so that the
paths of one directory stand in the order of their file names. -/
def identityOf (dataset : Path) (e : DirEntry) : Option Identity :=
  let files := (e.files.filter isImage).mergeSort fun f g => f ≤ g
  let images := files.map (join (join dataset e.name))
  if h : e.isDirectory = true ∧ images ≠ [] then some ⟨e.name, images, h.2⟩ else none

/-- mirrors edge/apps/eval/main.cpp:326-348 -/
def enumerateIdentities (dataset : Path) (listing : Listing) : List Identity :=
  (listing.entries.filterMap (identityOf dataset)).mergeSort fun x y => x.name ≤ y.name

/-! ## The draw -/

/-- `std::mt19937_64` and `std::shuffle`. -/
structure Rng where
  G : Type
  seeded : ℕ → G
  shuffle : ∀ {α : Type}, G → List α → List α × G
  perm : ∀ {α : Type} (g : G) (l : List α), (shuffle g l).1.Perm l

/-- `static_cast<std::size_t>` of an `int`. -/
def toSize (i : ℤ) : ℕ := (i % 2 ^ 64).toNat

/-- mirrors edge/apps/eval/main.cpp:363-366 -/
def multiImgIdx (ids : List Identity) : List (Fin ids.length) :=
  (List.finRange ids.length).filter fun i => 2 ≤ ids[i].images.length

/-- The identities to enrol, and those to take an impostor's image from; `none`: too few have
two images.
mirrors edge/apps/eval/main.cpp:367-377,417-431 -/
def draw (rng : Rng) (a : Args) (ids : List Identity) :
    Option (List (Fin ids.length) × List (Fin ids.length)) :=
  if ((multiImgIdx ids).length : ℤ).bmod (2 ^ 32) < a.enrollN then none
  else
    let (shuffled, g) := rng.shuffle (rng.seeded a.seed) (multiImgIdx ids)
    let enrolled := shuffled.take a.enrollN.toNat
    let candidates := (rng.shuffle g ((List.finRange ids.length).filter (· ∉ enrolled))).1
    some (enrolled, candidates.take (min candidates.length (toSize a.maxImpostors)))

/-! ## Enrolling and probing -/

variable {K : Type} [LinearOrder K] [BoundedOrder K] [FloatArith K] {ids : List Identity}

/-- An entry of `id_to_name`. -/
structure NameEntry where
  owner : EmployeeId
  name : List Char

/-- The locals of the enrolling loop. -/
structure Gallery (K : Type) (ids : List Identity) where
  gallery : List (Embedding K)
  idToName : List NameEntry
  genuineProbes : List (Fin ids.length × Path)

/-- The body of the loop.
mirrors edge/apps/eval/main.cpp:385-412 -/
def enrolStep (v : Vision K) (maxProbes : ℤ) (s : Gallery K ids) (i : Fin ids.length) :
    Gallery K ids :=
  let er := embedImage v ids[i].front
  if er.status ≠ .ok then s
  else
    let next : ℤ := s.gallery.length + 1
    { gallery := s.gallery ++ [⟨next, next, er.vector⟩]
      idToName := replaceOrPush NameEntry.owner ⟨next, ids[i].name⟩ s.idToName
      genuineProbes := s.genuineProbes ++
        (ids[i].images.tail.take maxProbes.toNat).map fun path => (i, path) }

structure ScaleRow (K : Type) where
  gallerySize : ℕ
  probePath : Path
  probeIdentity : List Char
  isGenuine : Bool
  top1Identity : List Char
  distance : Option (Flt K)
  matchUs : ℤ

/-- mirrors edge/apps/eval/main.cpp:437 -/
def kAcceptAll : Flt K := FloatArith.lit 999

/-- One turn of `run_probes`; nothing is written for an image that cannot be embedded. `us` is
what the clock says of the search for an image.
mirrors edge/apps/eval/main.cpp:451-486 -/
def probeRow (v : Vision K) (us : Path → ℤ) (s : Gallery K ids) (isGenuine : Bool)
    (probe : Fin ids.length × Path) : Option (ScaleRow K) :=
  let er := embedImage v probe.2
  if er.status ≠ .ok then none
  else
    let found := Matcher.findMatch kAcceptAll s.gallery er.vector
    let entry := found.bind fun m => lookup NameEntry.owner m.employee s.idToName
    some
      { gallerySize := s.gallery.length
        probePath := probe.2
        probeIdentity := ids[probe.1].name
        isGenuine
        top1Identity := (entry.map NameEntry.name).getD []
        distance := found.map Match.distance
        matchUs := us probe.2 }

/-- mirrors edge/apps/eval/main.cpp:475-480 -/
def rowText (float : Flt K → List Char) (r : ScaleRow K) : List Char :=
  intChars r.gallerySize ++ ',' :: r.probePath ++ ',' :: r.probeIdentity ++ ',' ::
    (if r.isGenuine then ['1'] else ['0']) ++ ',' :: r.top1Identity ++ ',' ::
    (r.distance.map float).getD [] ++ ',' :: intChars r.matchUs ++ ['\n']

/-- mirrors edge/apps/eval/main.cpp:445-446 -/
def scaleHeader : List Char :=
  "gallery_size,probe_path,probe_identity,is_genuine,top1_identity,distance,match_us\n".toList

def enrol (v : Vision K) (maxProbes : ℤ) (enrolled : List (Fin ids.length)) : Gallery K ids :=
  enrolled.foldl (enrolStep v maxProbes) ⟨[], [], []⟩

def impostorProbes (ids : List Identity) (impostors : List (Fin ids.length)) :
    List (Fin ids.length × Path) :=
  impostors.map fun i => (i, ids[i].front)

def scaleRows (v : Vision K) (us : Path → ℤ) (maxProbes : ℤ)
    (enrolled impostors : List (Fin ids.length)) : List (ScaleRow K) :=
  let s := enrol v maxProbes enrolled
  s.genuineProbes.filterMap (probeRow v us s true) ++
    (impostorProbes ids impostors).filterMap (probeRow v us s false)

/-- From the identities on.
mirrors edge/apps/eval/main.cpp:360-493 -/
def scaleRun (v : Vision K) (rng : Rng) (float : Flt K → List Char) (us : Path → ℤ)
    (opens : Bool) (a : Args) (ids : List Identity) : Run :=
  match draw rng a ids with
  | none => ⟨1, [], none⟩
  | some (enrolled, impostors) =>
    let fronts := enrolled.map fun i => ids[i].front
    if opens then
      let s : Gallery K ids := enrol v a.maxProbesPerIdentity enrolled
      ⟨0, fronts ++ s.genuineProbes.map Prod.snd ++ (impostorProbes ids impostors).map Prod.snd,
        some (scaleHeader ++
          (scaleRows v us a.maxProbesPerIdentity enrolled impostors).flatMap (rowText float))⟩
    else ⟨1, fronts, none⟩

/-- `none` is a dataset that is not a directory.
mirrors edge/apps/eval/main.cpp:350-493,507-511 -/
def runEnrollScaleMode (v : Vision K) (rng : Rng) (float : Flt K → List Char) (us : Path → ℤ)
    (opens : Bool) (listing : Option Listing) (a : Args) : Run :=
  match listing with
  | none => ⟨1, [], none⟩  -- caught in `main`
  | some listing => scaleRun v rng float us opens a (enumerateIdentities a.dataset listing)

/-! ## The program -/

/-- What the program finds on the disk, and what it may write there. -/
structure Disk where
  read : Path → Option (List Char)
  list : Path → Option Listing
  opens : Path → Bool

/-- `load` is the construction of the detector and the embedder, which may throw.
mirrors edge/apps/eval/main.cpp:497-512 -/
def main (load : Path → Path → ℤ → Option (Vision K)) (rng : Rng) (float : Flt K → List Char)
    (us : Path → ℤ) (order : List Path → List Path) (disk : Disk) (argv : List String) : Run :=
  match parseArgs argv with
  | none => ⟨2, [], none⟩
  | some a =>
    match load a.blazeModel a.arcModel a.onnxThreads with
    | none => ⟨1, [], none⟩
    | some v =>
      if a.mode = .pairs then
        runPairsMode v float order (disk.opens a.out) (disk.read a.pairsPath) a.dataset
      else
        runEnrollScaleMode v rng float us (disk.opens a.out) (disk.list a.dataset) a

/-! ## Paths -/

/-- What `join` puts before a file name. -/
def stem (p : Path) : Path := if p = [] ∨ p.getLast? = some '/' then p else p ++ ['/']

theorem join_name (p : Path) {n : List Char} (hn : '/' ∉ n) : join p n = stem p ++ n := by
  have hhead : n.head? ≠ some '/' := fun h => hn (List.mem_of_mem_head? h)
  rw [join, if_neg hhead, stem]
  split
  · rfl
  · rw [List.append_assoc]
    rfl

theorem stem_join (p : Path) {n : List Char} (hn : IsFileName n) :
    stem (join p n) = stem p ++ n ++ ['/'] := by
  have hlast : (stem p ++ n).getLast? ≠ some '/' := by
    rw [List.getLast?_append_of_ne_nil _ hn.1]
    exact fun h => hn.2 (List.mem_of_getLast? h)
  rw [join_name p hn.2, stem, if_neg]
  exact not_or.mpr ⟨fun h => hn.1 (List.append_eq_nil_iff.mp h).2, hlast⟩

theorem first_slash_inj {s t : List Char} : ∀ {f g : List Char}, '/' ∉ f → '/' ∉ g →
    f ++ '/' :: s = g ++ '/' :: t → f = g ∧ s = t
  | [], [], _, _, h => ⟨rfl, (List.cons.inj h).2⟩
  | [], c :: g, _, hg, h => absurd ((List.cons.inj h).1 ▸ List.mem_cons_self) hg
  | c :: f, [], hf, _, h => absurd ((List.cons.inj h).1 ▸ List.mem_cons_self) hf
  | c :: f, d :: g, hf, hg, h => by
    obtain ⟨rfl, hrest⟩ := List.cons.inj h
    obtain ⟨rfl, hst⟩ := first_slash_inj (fun hc => hf (List.mem_cons_of_mem _ hc))
      (fun hc => hg (List.mem_cons_of_mem _ hc)) hrest
    exact ⟨rfl, hst⟩

/-- The path of a file names its directory and the file. -/
theorem join_join_inj {p : Path} {m n f g : List Char} (hm : IsFileName m) (hn : IsFileName n)
    (hf : '/' ∉ f) (hg : '/' ∉ g) (h : join (join p m) f = join (join p n) g) :
    m = n ∧ f = g := by
  rw [join_name _ hf, join_name _ hg, stem_join p hm, stem_join p hn] at h
  have hrev := congrArg List.reverse h
  simp only [List.reverse_append, List.reverse_cons, List.nil_append, List.append_assoc,
    List.cons_append] at hrev
  obtain ⟨hfg, hmn⟩ := first_slash_inj (by simpa using hf) (by simpa using hg) hrev
  exact ⟨List.reverse_injective (List.append_left_injective _ hmn), List.reverse_injective hfg⟩

/-! ## The catalogue of images -/

/-- Names and images are each of one identity only. -/
structure Catalogue (ids : List Identity) : Prop where
  distinct : DistinctKeys Identity.name ids
  nodup : ∀ id ∈ ids, id.images.Nodup
  owner : ∀ id ∈ ids, ∀ id' ∈ ids, ∀ path ∈ id.images, path ∈ id'.images → id.name = id'.name

/-- An identity holds the images of its directory. -/
theorem identityOf_eq_some {dataset : Path} {e : DirEntry} {id : Identity}
    (h : identityOf dataset e = some id) : id.name = e.name ∧
      id.images = ((e.files.filter isImage).mergeSort fun f g => f ≤ g).map
        (join (join dataset e.name)) := by
  dsimp only [identityOf] at h
  split at h
  · cases h
    exact ⟨rfl, rfl⟩
  · cases h

theorem mem_images {dataset : Path} {e : DirEntry} {id : Identity}
    (h : identityOf dataset e = some id) {path : Path} (hp : path ∈ id.images) :
    ∃ f ∈ e.files, path = join (join dataset e.name) f := by
  rw [(identityOf_eq_some h).2] at hp
  obtain ⟨f, hf, rfl⟩ := List.mem_map.mp hp
  exact ⟨f, List.mem_of_mem_filter (List.mem_mergeSort.mp hf), rfl⟩

theorem mem_enumerate {dataset : Path} {listing : Listing} {id : Identity} :
    id ∈ enumerateIdentities dataset listing ↔
      ∃ e ∈ listing.entries, identityOf dataset e = some id := by
  rw [enumerateIdentities, List.mem_mergeSort, List.mem_filterMap]

theorem map_name_sublist (dataset : Path) (entries : List DirEntry) :
    ((entries.filterMap (identityOf dataset)).map Identity.name).Sublist
      (entries.map DirEntry.name) := by
  induction entries with
  | nil => exact List.Sublist.slnil
  | cons e entries ih =>
    cases h : identityOf dataset e with
    | none =>
      rw [List.filterMap_cons_none h]
      exact ih.cons _
    | some id =>
      rw [List.filterMap_cons_some h, List.map_cons, List.map_cons, (identityOf_eq_some h).1]
      exact ih.cons_cons _

theorem catalogue_enumerate (dataset : Path) (listing : Listing) :
    Catalogue (enumerateIdentities dataset listing) where
  distinct := by
    have hperm := List.mergeSort_perm (listing.entries.filterMap (identityOf dataset))
      fun x y => x.name ≤ y.name
    exact (hperm.map _).nodup_iff.mpr (listing.distinct.sublist (map_name_sublist dataset _))
  nodup id hid := by
    obtain ⟨e, -, he⟩ := mem_enumerate.mp hid
    rw [(identityOf_eq_some he).2]
    have hfiles : ((e.files.filter isImage).mergeSort fun f g => f ≤ g).Nodup :=
      (List.mergeSort_perm _ _).nodup_iff.mpr (e.files_nodup.filter _)
    refine hfiles.map_on fun f hf g hg h => ?_
    have hok : ∀ f ∈ (e.files.filter isImage).mergeSort fun f g => f ≤ g, '/' ∉ f := fun f hf =>
      (e.files_ok f (List.mem_of_mem_filter (List.mem_mergeSort.mp hf))).2
    exact (join_join_inj e.name_ok e.name_ok (hok f hf) (hok g hg) h).2
  owner id hid id' hid' path hp hp' := by
    obtain ⟨e, -, he⟩ := mem_enumerate.mp hid
    obtain ⟨e', -, he'⟩ := mem_enumerate.mp hid'
    obtain ⟨f, hf, rfl⟩ := mem_images he hp
    obtain ⟨g, hg, h⟩ := mem_images he' hp'
    rw [(identityOf_eq_some he).1, (identityOf_eq_some he').1]
    exact (join_join_inj e.name_ok e'.name_ok (e.files_ok f hf).2 (e'.files_ok g hg).2 h).1

theorem Catalogue.eq_of_name (h : Catalogue ids) {i j : Fin ids.length}
    (hn : ids[i].name = ids[j].name) : i = j := by
  have hinj := List.nodup_iff_injective_get.mp h.distinct
  have hij := @hinj (i.cast (List.length_map _).symm) (j.cast (List.length_map _).symm)
    (by simpa using hn)
  exact Fin.cast_injective _ hij

theorem Catalogue.eq_of_image (h : Catalogue ids) {i j : Fin ids.length} {path : Path}
    (hi : path ∈ ids[i].images) (hj : path ∈ ids[j].images) : i = j :=
  h.eq_of_name <| h.owner _ (List.getElem_mem _) _ (List.getElem_mem _) path hi hj

theorem Identity.images_eq (id : Identity) : id.images = id.front :: id.images.tail :=
  (List.cons_head_tail id.images_ne).symm

theorem Identity.front_mem (id : Identity) : id.front ∈ id.images := List.head_mem _

/-! ## What is drawn -/

theorem parseArgs_enrollN {argv : List String} {a : Args} (h : parseArgs argv = some a)
    (hmode : a.mode = .enrollScale) : 0 < a.enrollN := by
  unfold parseArgs at h
  split at h
  · cases h
  · split at h
    · cases h
    · split at h
      · cases h
      · split at h
        · cases h
        · rename_i hpos
          cases h
          exact not_le.mp fun hle => hpos ⟨hmode, hle⟩

theorem mem_multiImgIdx {i : Fin ids.length} :
    i ∈ multiImgIdx ids ↔ 2 ≤ ids[i].images.length := by
  simp [multiImgIdx]

theorem nodup_multiImgIdx (ids : List Identity) : (multiImgIdx ids).Nodup :=
  (List.nodup_finRange _).filter _

/-- Those that are not among some. -/
theorem length_others {n : ℕ} {l : List (Fin n)} (hl : l.Nodup) :
    ((List.finRange n).filter (· ∉ l)).length = n - l.length := by
  have hin : ((List.finRange n).filter (· ∈ l)).Perm l :=
    (List.perm_ext_iff_of_nodup ((List.nodup_finRange n).filter _) hl).mpr fun i => by simp
  have hsum := List.length_eq_length_filter_add (l := List.finRange n) fun i => decide (i ∈ l)
  rw [List.length_finRange, hin.length_eq] at hsum
  simp only [← decide_not] at hsum
  omega

/-- What a draw gives. -/
structure Drawn (a : Args) (ids : List Identity) (enrolled impostors : List (Fin ids.length)) :
    Prop where
  length_enrolled : enrolled.length = a.enrollN.toNat
  two_images : ∀ i ∈ enrolled, 2 ≤ ids[i].images.length
  nodup : (enrolled ++ impostors).Nodup
  length_impostors : impostors.length =
    min (ids.length - a.enrollN.toNat) (toSize a.maxImpostors)

/-- The count of identities as an `int`. -/
def count (ids : List Identity) : ℤ := ((multiImgIdx ids).length : ℤ).bmod (2 ^ 32)

theorem bmod_natCast_le (n m : ℕ) : (n : ℤ).bmod m ≤ n := by
  have hmod : (n : ℤ) % m ≤ n := by exact_mod_cast Nat.mod_le n m
  rw [Int.bmod_def]
  split
  · exact hmod
  · omega

theorem bmod_natCast_of_lt {n m : ℕ} (h : 2 * n < m) : (n : ℤ).bmod m = n := by
  have hmod : (n : ℤ) % m = n := Int.emod_eq_of_lt (by omega) (by omega)
  rw [Int.bmod_def, hmod, if_pos]
  omega

theorem enrollN_le {a : Args} (hpos : 0 < a.enrollN) (h : a.enrollN ≤ count ids) :
    a.enrollN.toNat ≤ (multiImgIdx ids).length := by
  have hle : a.enrollN ≤ (multiImgIdx ids).length := h.trans (bmod_natCast_le _ _)
  omega

theorem draw_spec (rng : Rng) {a : Args} (hpos : 0 < a.enrollN) (h : a.enrollN ≤ count ids) :
    ∃ enrolled impostors, draw rng a ids = some (enrolled, impostors) ∧
      Drawn a ids enrolled impostors := by
  have hshuffle := rng.perm (rng.seeded a.seed) (multiImgIdx ids)
  have henrolled : ((rng.shuffle (rng.seeded a.seed) (multiImgIdx ids)).1.take
      a.enrollN.toNat).Nodup :=
    (hshuffle.nodup_iff.mpr (nodup_multiImgIdx ids)).sublist (List.take_sublist _ _)
  have hlength : ((rng.shuffle (rng.seeded a.seed) (multiImgIdx ids)).1.take
      a.enrollN.toNat).length = a.enrollN.toNat := by
    rw [List.length_take, hshuffle.length_eq]
    exact min_eq_left (enrollN_le hpos h)
  refine ⟨_, _, if_neg (not_lt.mpr h), hlength, ?_, ?_, ?_⟩
  · intro i hi
    exact mem_multiImgIdx.mp (hshuffle.mem_iff.mp (List.mem_of_mem_take hi))
  · have hcandidates := rng.perm (rng.shuffle (rng.seeded a.seed) (multiImgIdx ids)).2
      ((List.finRange ids.length).filter
        (· ∉ (rng.shuffle (rng.seeded a.seed) (multiImgIdx ids)).1.take a.enrollN.toNat))
    refine List.nodup_append.mpr ⟨henrolled, ?_, fun i hi j hj hij => ?_⟩
    · have hothers := hcandidates.nodup_iff.mpr ((List.nodup_finRange _).filter _)
      exact hothers.sublist (List.take_sublist _ _)
    · have hmem := hcandidates.mem_iff.mp (List.mem_of_mem_take hj)
      rw [← hij] at hmem
      exact of_decide_eq_true (List.mem_filter.mp hmem).2 hi
  · rw [List.length_take, (rng.perm _ _).length_eq, length_others henrolled, hlength]
    omega

/-! ## The gallery -/

/-- The face that stands for an identity. -/
structure Face (K : Type) where
  name : List Char
  vector : EmbeddingVector K

def embeds (v : Vision K) (path : Path) : Bool := (embedImage v path).status = .ok

/-- The identity gets into the gallery. -/
def enrols (v : Vision K) (i : Fin ids.length) : Bool := embeds v ids[i].front

def face (v : Vision K) (i : Fin ids.length) : Option (Face K) :=
  if enrols v i then some ⟨ids[i].name, (embedImage v ids[i].front).vector⟩ else none

def faces (v : Vision K) (enrolled : List (Fin ids.length)) : List (Face K) :=
  enrolled.filterMap (face v)

/-- What is left of an identity to search for. -/
def probes (maxProbes : ℤ) (i : Fin ids.length) : List (Fin ids.length × Path) :=
  (ids[i].images.tail.take maxProbes.toNat).map fun path => (i, path)

def galleryOf (faces : List (Face K)) : List (Embedding K) :=
  faces.zipIdx.map fun f => ⟨f.2 + 1, f.2 + 1, f.1.vector⟩

def namesOf (faces : List (Face K)) : List NameEntry :=
  faces.zipIdx.map fun f => ⟨f.2 + 1, f.1.name⟩

omit [LinearOrder K] [BoundedOrder K] [FloatArith K] in
theorem owner_of_mem {faces : List (Face K)} {e : NameEntry} (h : e ∈ namesOf faces) :
    e.owner < (faces.length : ℤ) + 1 := by
  obtain ⟨f, hf, rfl⟩ := List.mem_map.mp h
  have hlt := List.snd_lt_of_mem_zipIdx hf
  show (f.2 : ℤ) + 1 < faces.length + 1
  omega

omit [LinearOrder K] [BoundedOrder K] in
theorem enrolStep_eq (v : Vision K) (maxProbes : ℤ) (fs : List (Face K))
    (queued : List (Fin ids.length × Path)) (i : Fin ids.length) :
    enrolStep v maxProbes ⟨galleryOf fs, namesOf fs, queued⟩ i =
      ⟨galleryOf (fs ++ (face v i).toList), namesOf (fs ++ (face v i).toList),
        queued ++ if enrols v i then probes maxProbes i else []⟩ := by
  by_cases h : enrols v i = true
  · have hface : (face v i).toList = [⟨ids[i].name, (embedImage v ids[i].front).vector⟩] := by
      rw [face, if_pos h]
      rfl
    have hfresh : ∀ e ∈ namesOf fs, e.owner ≠ (fs.length : ℤ) + 1 := fun e he =>
      (owner_of_mem he).ne
    rw [enrolStep, if_neg (not_not.mpr (of_decide_eq_true h)), hface, if_pos h]
    simp only [galleryOf, namesOf, List.length_map, List.length_zipIdx, List.zipIdx_append,
      List.map_append, Nat.zero_add, List.zipIdx_singleton, List.map_singleton, probes]
    rw [← namesOf, replaceOrPush_of_fresh hfresh]
  · have hstatus : (embedImage v ids[i].front).status ≠ .ok := fun he => h (decide_eq_true he)
    rw [enrolStep, if_pos hstatus, face, if_neg h, if_neg h, Option.toList_none, List.append_nil,
      List.append_nil]

omit [LinearOrder K] [BoundedOrder K] in
/-- The loop enrols the faces in order, and queues the other images of those enrolled. -/
theorem enrol_eq (v : Vision K) (maxProbes : ℤ) (enrolled : List (Fin ids.length)) :
    enrol v maxProbes enrolled = ⟨galleryOf (faces v enrolled), namesOf (faces v enrolled),
      (enrolled.filter (enrols v)).flatMap (probes maxProbes)⟩ := by
  induction enrolled using List.reverseRecOn with
  | nil => rfl
  | append_singleton l i ih =>
    have hfaces : faces v (l ++ [i]) = faces v l ++ (face v i).toList := by
      rw [faces, List.filterMap_append]
      cases h : face v i <;> simp [faces, h]
    have hstep : enrol v maxProbes (l ++ [i]) = enrolStep v maxProbes (enrol v maxProbes l) i :=
      List.foldl_concat ..
    rw [hstep, ih, enrolStep_eq, hfaces, List.filter_append, List.flatMap_append]
    by_cases h : enrols v i = true
    · rw [if_pos h, List.filter_cons_of_pos h, List.filter_nil, List.flatMap_singleton]
    · rw [if_neg h, List.filter_cons_of_neg h, List.filter_nil, List.flatMap_nil]

/-! ## The search -/

/-- The nearest face of the gallery, and how far it is; none if the threshold lets none in. -/
def Nearest (fs : List (Face K)) (query : EmbeddingVector K) (top1 : List Char) :
    Option (Flt K) → Prop
  | some d => ∃ f x, FirstMin (fun f => Matcher.cosineDistance query f.vector) fs f x ∧
      Flt.num x < kAcceptAll ∧ top1 = f.name ∧ d = .num x
  | none => top1 = [] ∧ ∀ f ∈ fs, ¬ Matcher.cosineDistance query f.vector < kAcceptAll

omit [LinearOrder K] [BoundedOrder K] [FloatArith K] in
theorem lookup_namesOf {fs : List (Face K)} {f : Face K × ℕ} (h : f ∈ fs.zipIdx) :
    lookup NameEntry.owner (f.2 + 1 : ℤ) (namesOf fs) = some ⟨f.2 + 1, f.1.name⟩ := by
  have hdistinct : DistinctKeys NameEntry.owner (namesOf fs) := by
    have hkeys : (namesOf fs).map NameEntry.owner =
        (fs.zipIdx.map Prod.snd).map fun k : ℕ => (k : ℤ) + 1 := by
      rw [namesOf, List.map_map, List.map_map]
      rfl
    rw [DistinctKeys, hkeys, List.zipIdx_map_snd]
    exact List.Nodup.map (fun a b hab => by simpa using hab) List.nodup_range'
  exact lookup_of_mem hdistinct (List.mem_map_of_mem h)

theorem firstMin_galleryOf {fs : List (Face K)} {query : EmbeddingVector K} {e : Embedding K}
    {x : K} (h : FirstMin (Matcher.score query) (galleryOf fs) e x) :
    ∃ f ∈ fs.zipIdx, e.owner = f.2 + 1 ∧
      FirstMin (fun f => Matcher.cosineDistance query f.vector) fs f.1 x := by
  obtain ⟨f, rfl, hf⟩ := firstMin_map.mp h
  refine ⟨f, hf.mem, rfl, ?_⟩
  have hfst : FirstMin (fun f : Face K => Matcher.cosineDistance query f.vector)
      (fs.zipIdx.map Prod.fst) f.1 x := firstMin_map.mpr ⟨f, rfl, hf⟩
  rwa [List.zipIdx_map_fst] at hfst

theorem search_nearest [LawfulFloatArith K] (fs : List (Face K)) (query : EmbeddingVector K) :
    Nearest fs query
      (((Matcher.findMatch kAcceptAll (galleryOf fs) query).bind fun m =>
        lookup NameEntry.owner m.employee (namesOf fs)).map NameEntry.name |>.getD [])
      ((Matcher.findMatch kAcceptAll (galleryOf fs) query).map Match.distance) := by
  obtain ⟨t, ht⟩ : ∃ t, (kAcceptAll : Flt K) = .num t := by
    cases h : (kAcceptAll : Flt K) with
    | nan => exact absurd h (LawfulFloatArith.lit_ne_nan 999)
    | num t => exact ⟨t, rfl⟩
  rw [ht]
  cases h : Matcher.findMatch (.num t) (galleryOf fs) query with
  | some m =>
    obtain ⟨e, x, hmin, hlt, rfl⟩ := Matcher.findMatch_eq_some.mp h
    obtain ⟨f, hf, howner, hfmin⟩ := firstMin_galleryOf hmin
    rw [Option.bind_some, howner, lookup_namesOf hf]
    exact ⟨f.1, x, hfmin, ht ▸ hlt, rfl, rfl⟩
  | none =>
    refine ⟨rfl, fun f hf => ?_⟩
    obtain ⟨k, hk, rfl⟩ := List.getElem_of_mem hf
    have hmem : (⟨k + 1, k + 1, fs[k].vector⟩ : Embedding K) ∈ galleryOf fs :=
      List.mem_map.mpr ⟨(fs[k], k), List.mem_zipIdx_iff_getElem?.mpr (List.getElem?_eq_getElem hk),
        rfl⟩
    rw [ht]
    exact Matcher.findMatch_eq_none.mp h _ hmem

/-! ## The rows -/

/-- A row says whose image was searched for and who is nearest; an identity in the gallery is
searched for with an image of its own, not with the one enrolled. -/
structure ScaleRow.Sound (v : Vision K) (ids : List Identity) (fs : List (Face K))
    (r : ScaleRow K) : Prop where
  gallerySize : r.gallerySize = fs.length
  probe : ∃ id ∈ ids, r.probeIdentity = id.name ∧ r.probePath ∈ id.images ∧
    (r.isGenuine = true → r.probePath ≠ id.front)
  isGenuine : r.isGenuine = true ↔ r.probeIdentity ∈ fs.map Face.name
  embeds : embeds v r.probePath = true
  nearest : Nearest fs (embedImage v r.probePath).vector r.top1Identity r.distance

/-- A probe that gets a row. -/
theorem probeRow_eq_some {v : Vision K} {us : Path → ℤ} {s : Gallery K ids} {genuine : Bool}
    {probe : Fin ids.length × Path} {r : ScaleRow K}
    (h : probeRow v us s genuine probe = some r) : Eval.embeds v probe.2 = true ∧
      r.gallerySize = s.gallery.length ∧ r.probePath = probe.2 ∧
      r.probeIdentity = ids[probe.1].name ∧ r.isGenuine = genuine ∧
      r.top1Identity = (((Matcher.findMatch kAcceptAll s.gallery
        (embedImage v probe.2).vector).bind fun m =>
          lookup NameEntry.owner m.employee s.idToName).map NameEntry.name |>.getD []) ∧
      r.distance = (Matcher.findMatch kAcceptAll s.gallery
        (embedImage v probe.2).vector).map Match.distance := by
  dsimp only [probeRow] at h
  split at h
  · cases h
  · rename_i hok
    cases h
    exact ⟨decide_eq_true (not_not.mp hok), rfl, rfl, rfl, rfl, rfl, rfl⟩

omit [LinearOrder K] [BoundedOrder K] in
theorem mem_faces {v : Vision K} (h : Catalogue ids) {enrolled : List (Fin ids.length)}
    {i : Fin ids.length} :
    ids[i].name ∈ (faces v enrolled).map Face.name ↔ i ∈ enrolled ∧ enrols v i = true := by
  rw [List.mem_map]
  constructor
  · rintro ⟨f, hf, hname⟩
    obtain ⟨j, hj, hface⟩ := List.mem_filterMap.mp hf
    unfold face at hface
    split at hface
    · rename_i henrols
      cases hface
      obtain rfl := h.eq_of_name hname
      exact ⟨hj, henrols⟩
    · cases hface
  · rintro ⟨hi, henrols⟩
    exact ⟨_, List.mem_filterMap.mpr ⟨i, hi, if_pos henrols⟩, rfl⟩

/-- What a probe is searched for with: an image of an identity, which is in the gallery if the
probe counts as genuine, and then shows another image. -/
def Probes (v : Vision K) (enrolled : List (Fin ids.length)) (genuine : Bool)
    (probe : Fin ids.length × Path) : Prop :=
  probe.2 ∈ ids[probe.1].images ∧
    (genuine = true ↔ probe.1 ∈ enrolled ∧ enrols v probe.1 = true) ∧
    (genuine = true → probe.2 ≠ ids[probe.1].front)

omit [LinearOrder K] [BoundedOrder K] in
theorem probes_genuine {v : Vision K} (h : Catalogue ids) {maxProbes : ℤ}
    {enrolled : List (Fin ids.length)} {probe : Fin ids.length × Path}
    (hp : probe ∈ (enrolled.filter (enrols v)).flatMap (probes maxProbes)) :
    Probes v enrolled true probe := by
  obtain ⟨i, hi, hprobe⟩ := List.mem_flatMap.mp hp
  obtain ⟨path, hpath, rfl⟩ := List.mem_map.mp hprobe
  have htail := List.mem_of_mem_take hpath
  refine ⟨List.mem_of_mem_tail htail, iff_of_true rfl (List.mem_filter.mp hi), fun _ => ?_⟩
  have hnodup := h.nodup ids[i] (List.getElem_mem _)
  rw [Identity.images_eq] at hnodup
  intro (he : path = ids[i].front)
  rw [he] at htail
  exact (List.nodup_cons.mp hnodup).1 htail

omit [LinearOrder K] [BoundedOrder K] in
theorem probes_impostor (v : Vision K) {enrolled impostors : List (Fin ids.length)}
    (h : (enrolled ++ impostors).Nodup) {probe : Fin ids.length × Path}
    (hp : probe ∈ impostorProbes ids impostors) : Probes v enrolled false probe := by
  obtain ⟨i, hi, rfl⟩ := List.mem_map.mp hp
  refine ⟨Identity.front_mem _, iff_of_false Bool.false_ne_true fun hin => ?_,
    fun hf => absurd hf Bool.false_ne_true⟩
  exact (List.nodup_append.mp h).2.2 i hin.1 i hi rfl

theorem sound_of_probe [LawfulFloatArith K] {v : Vision K} (h : Catalogue ids) {us : Path → ℤ}
    {maxProbes : ℤ} {enrolled : List (Fin ids.length)} {genuine : Bool}
    {probe : Fin ids.length × Path} (hp : Probes v enrolled genuine probe) {r : ScaleRow K}
    (hr : probeRow v us (enrol v maxProbes enrolled) genuine probe = some r) :
    r.Sound v ids (faces v enrolled) := by
  obtain ⟨hembeds, hsize, hpath, hname, hgenuine, htop1, hdistance⟩ := probeRow_eq_some hr
  rw [enrol_eq] at hsize htop1 hdistance
  refine ⟨?_, ⟨_, List.getElem_mem _, hname, hpath ▸ hp.1, fun hg => ?_⟩, ?_, hpath ▸ hembeds, ?_⟩
  · rw [hsize, galleryOf, List.length_map, List.length_zipIdx]
  · rw [hpath]
    exact hp.2.2 (hgenuine ▸ hg)
  · rw [hgenuine, hname, mem_faces h]
    exact hp.2.1
  · rw [hpath, htop1, hdistance]
    exact search_nearest _ _

/-- **Every row is sound.** -/
theorem sound_of_mem [LawfulFloatArith K] {v : Vision K} (h : Catalogue ids) {us : Path → ℤ}
    {maxProbes : ℤ} {enrolled impostors : List (Fin ids.length)}
    (hd : (enrolled ++ impostors).Nodup) {r : ScaleRow K}
    (hr : r ∈ scaleRows v us maxProbes enrolled impostors) : r.Sound v ids (faces v enrolled) := by
  rcases List.mem_append.mp hr with hr | hr
  · obtain ⟨probe, hp, hr⟩ := List.mem_filterMap.mp hr
    rw [enrol_eq] at hp
    exact sound_of_probe h (probes_genuine h hp) hr
  · obtain ⟨probe, hp, hr⟩ := List.mem_filterMap.mp hr
    exact sound_of_probe h (probes_impostor v hd hp) hr

theorem map_probePath (v : Vision K) (us : Path → ℤ) (s : Gallery K ids) (genuine : Bool)
    (l : List (Fin ids.length × Path)) :
    (l.filterMap (probeRow v us s genuine)).map ScaleRow.probePath =
      (l.map Prod.snd).filter (Eval.embeds v) := by
  induction l with
  | nil => rfl
  | cons probe l ih =>
    rw [List.map_cons]
    cases h : probeRow v us s genuine probe with
    | none =>
      have hfails : ¬ Eval.embeds v probe.2 = true := fun he => by
        rw [probeRow, if_neg (not_not.mpr (of_decide_eq_true he))] at h
        cases h
      rw [List.filterMap_cons_none h, List.filter_cons_of_neg hfails, ih]
    | some r =>
      obtain ⟨hembeds, -, hpath, -⟩ := probeRow_eq_some h
      rw [List.filterMap_cons_some h, List.map_cons, hpath, List.filter_cons_of_pos hembeds, ih]

/-! ## The images embedded -/

/-- What is embedded, in order, and for which identity. -/
def embedded (v : Vision K) (maxProbes : ℤ) (enrolled impostors : List (Fin ids.length)) :
    List (Fin ids.length × Path) :=
  (enrolled.map fun i => (i, ids[i].front)) ++
    (enrolled.filter (enrols v)).flatMap (probes maxProbes) ++ impostorProbes ids impostors

theorem nodup_fronts {l : List (Fin ids.length)} (h : l.Nodup) :
    (l.map fun i => (i, ids[i].front)).Nodup :=
  h.map fun _ _ hij => congrArg Prod.fst hij

omit [LinearOrder K] [BoundedOrder K] in
theorem fst_mem_of_genuine {v : Vision K} {maxProbes : ℤ} {enrolled : List (Fin ids.length)}
    {probe : Fin ids.length × Path}
    (hp : probe ∈ (enrolled.filter (enrols v)).flatMap (probes maxProbes)) :
    probe.1 ∈ enrolled := by
  obtain ⟨i, hi, hprobe⟩ := List.mem_flatMap.mp hp
  obtain ⟨path, -, rfl⟩ := List.mem_map.mp hprobe
  exact List.mem_of_mem_filter hi

omit [LinearOrder K] [BoundedOrder K] in
theorem nodup_genuine {v : Vision K} (h : Catalogue ids) {maxProbes : ℤ}
    {enrolled : List (Fin ids.length)} (hd : enrolled.Nodup) :
    ((enrolled.filter (enrols v)).flatMap (probes maxProbes)).Nodup := by
  refine List.nodup_flatMap.mpr ⟨fun i _ => ?_, ?_⟩
  · have hnodup := h.nodup ids[i] (List.getElem_mem _)
    exact (hnodup.tail.sublist (List.take_sublist _ _)).map fun _ _ hpath => congrArg Prod.snd hpath
  · refine (hd.filter _).imp fun hij probe hi hj => hij ?_
    obtain ⟨path, -, rfl⟩ := List.mem_map.mp hi
    obtain ⟨path', -, he⟩ := List.mem_map.mp hj
    exact (congrArg Prod.fst he).symm

omit [LinearOrder K] [BoundedOrder K] in
/-- An image is embedded for one purpose, if at all. -/
theorem nodup_embedded {v : Vision K} (h : Catalogue ids) {maxProbes : ℤ}
    {enrolled impostors : List (Fin ids.length)} (hd : (enrolled ++ impostors).Nodup) :
    (embedded v maxProbes enrolled impostors).Nodup := by
  obtain ⟨henrolled, himpostors, hdisjoint⟩ := List.nodup_append.mp hd
  refine List.nodup_append.mpr ⟨List.nodup_append.mpr ⟨nodup_fronts henrolled,
    nodup_genuine h henrolled, fun p hp q hq hpq => ?_⟩, nodup_fronts himpostors,
    fun p hp q hq hpq => ?_⟩
  · obtain ⟨i, -, rfl⟩ := List.mem_map.mp hp
    subst hpq
    exact (probes_genuine h hq).2.2 rfl rfl
  · obtain ⟨i, hi, rfl⟩ := List.mem_map.mp hq
    subst hpq
    rcases List.mem_append.mp hp with hp | hp
    · obtain ⟨j, hj, he⟩ := List.mem_map.mp hp
      exact hdisjoint j hj i hi (congrArg Prod.fst he)
    · exact hdisjoint i (fst_mem_of_genuine hp) i hi rfl

omit [LinearOrder K] [BoundedOrder K] in
theorem mem_images_of_embedded {v : Vision K} (h : Catalogue ids) {maxProbes : ℤ}
    {enrolled impostors : List (Fin ids.length)} {p : Fin ids.length × Path}
    (hp : p ∈ embedded v maxProbes enrolled impostors) : p.2 ∈ ids[p.1].images := by
  rcases List.mem_append.mp hp with hp | hp
  · rcases List.mem_append.mp hp with hp | hp
    · obtain ⟨i, -, rfl⟩ := List.mem_map.mp hp
      exact Identity.front_mem _
    · exact (probes_genuine h hp).1
  · obtain ⟨i, -, rfl⟩ := List.mem_map.mp hp
    exact Identity.front_mem _

omit [LinearOrder K] [BoundedOrder K] in
/-- No image is embedded twice. -/
theorem nodup_paths {v : Vision K} (h : Catalogue ids) {maxProbes : ℤ}
    {enrolled impostors : List (Fin ids.length)} (hd : (enrolled ++ impostors).Nodup) :
    ((embedded v maxProbes enrolled impostors).map Prod.snd).Nodup := by
  refine (nodup_embedded h hd).map_on fun p hp q hq hpq => Prod.ext ?_ hpq
  exact h.eq_of_image (mem_images_of_embedded h hp) (hpq ▸ mem_images_of_embedded h hq)

/-! ## The rows read back -/

open MetricsCsv (dialect)

def scaleHeaderCells : List Csv.Field :=
  ["gallery_size", "probe_path", "probe_identity", "is_genuine", "top1_identity", "distance",
    "match_us"].map String.toList

def scaleCells (float : Flt K → List Char) (r : ScaleRow K) : List Csv.Field :=
  [intChars r.gallerySize, r.probePath, r.probeIdentity, if r.isGenuine then ['1'] else ['0'],
    r.top1Identity, (r.distance.map float).getD [], intChars r.matchUs]

omit [LinearOrder K] [BoundedOrder K] [FloatArith K] in
theorem rowText_eq (float : Flt K → List Char) (r : ScaleRow K) :
    rowText float r = [dialect.sep].intercalate (scaleCells float r) ++ dialect.eol := by
  simp [rowText, scaleCells, List.intercalate, dialect, Csv.Dialect.eol]

/-- No name needs quotes. -/
def PlainListing (dataset : Path) (listing : Listing) : Prop :=
  dialect.plain dataset ∧
    ∀ e ∈ listing.entries, dialect.plain e.name ∧ ∀ f ∈ e.files, dialect.plain f

theorem plain_identity {dataset : Path} {listing : Listing} (h : PlainListing dataset listing)
    {id : Identity} (hid : id ∈ enumerateIdentities dataset listing) :
    dialect.plain id.name ∧ ∀ path ∈ id.images, dialect.plain path := by
  obtain ⟨e, he, heq⟩ := mem_enumerate.mp hid
  refine ⟨(identityOf_eq_some heq).1 ▸ (h.2 e he).1, fun path hp => ?_⟩
  obtain ⟨f, hf, rfl⟩ := mem_images heq hp
  exact plain_join (plain_join h.1 (h.2 e he).1) ((h.2 e he).2 f hf)

theorem plain_scaleCells {v : Vision K} {float : Flt K → List Char}
    (hfloat : ∀ x, dialect.plain (float x)) {ids : List Identity} {fs : List (Face K)}
    (hids : ∀ id ∈ ids, dialect.plain id.name ∧ ∀ path ∈ id.images, dialect.plain path)
    (hfs : ∀ f ∈ fs, ∃ id ∈ ids, f.name = id.name) {r : ScaleRow K} (hr : r.Sound v ids fs) :
    ∀ c ∈ scaleCells float r, dialect.plain c := by
  obtain ⟨id, hid, hname, hpath, -⟩ := hr.probe
  have hnil : dialect.plain [] := fun c hc => absurd hc List.not_mem_nil
  have htop1 : dialect.plain r.top1Identity := by
    have hnearest := hr.nearest
    cases hd : r.distance with
    | none =>
      rw [hd] at hnearest
      rw [hnearest.1]
      exact hnil
    | some d =>
      rw [hd] at hnearest
      obtain ⟨f, x, hmin, -, htop1, -⟩ := hnearest
      obtain ⟨id, hid, hf⟩ := hfs f hmin.mem
      rw [htop1, hf]
      exact (hids id hid).1
  have hdistance : dialect.plain ((r.distance.map float).getD []) := by
    cases r.distance with
    | none => exact hnil
    | some d => exact hfloat d
  simp only [scaleCells, List.forall_mem_cons]
  refine ⟨MetricsCsv.plain_intChars _, (hids id hid).2 _ hpath, hname ▸ (hids id hid).1, ?_, htop1,
    hdistance, MetricsCsv.plain_intChars _, by simp⟩
  split <;> exact none_of_all rfl

theorem plain_scaleHeaderCells : ∀ f ∈ scaleHeaderCells, dialect.plain f := by
  have h : scaleHeaderCells.all (fun f => f.all fun c => !dialect.special c) = true := rfl
  exact fun f hf => none_of_all (List.all_eq_true.mp h f hf)

omit [LinearOrder K] [BoundedOrder K] in
theorem name_of_mem_faces {v : Vision K} {enrolled : List (Fin ids.length)} {f : Face K}
    (h : f ∈ faces v enrolled) : ∃ id ∈ ids, f.name = id.name := by
  obtain ⟨i, -, hface⟩ := List.mem_filterMap.mp h
  unfold face at hface
  split at hface
  · cases hface
    exact ⟨ids[i], List.getElem_mem _, rfl⟩
  · cases hface

theorem scaleHeader_eq :
    scaleHeader = [dialect.sep].intercalate scaleHeaderCells ++ dialect.eol := by decide

theorem parse_scaleText {v : Vision K} {float : Flt K → List Char}
    (hfloat : ∀ x, dialect.plain (float x))
    (hids : ∀ id ∈ ids, dialect.plain id.name ∧ ∀ path ∈ id.images, dialect.plain path)
    {enrolled : List (Fin ids.length)} {rows : List (ScaleRow K)}
    (hrows : ∀ r ∈ rows, r.Sound v ids (faces v enrolled)) :
    Csv.parse dialect (scaleHeader ++ rows.flatMap (rowText float)) =
      some (scaleHeaderCells :: rows.map (scaleCells float)) := by
  have htext : scaleHeader ++ rows.flatMap (rowText float) =
      (scaleHeaderCells :: rows.map (scaleCells float)).flatMap
        fun row => [dialect.sep].intercalate row ++ dialect.eol := by
    rw [List.flatMap_cons, List.flatMap_map, ← scaleHeader_eq]
    exact congrArg (fun f => scaleHeader ++ List.flatMap f _) (funext (rowText_eq float))
  rw [htext]
  refine Csv.parse_plainLines fun row hrow => ?_
  rcases List.mem_cons.mp hrow with rfl | hrow
  · exact ⟨List.cons_ne_nil _ _, plain_scaleHeaderCells⟩
  · obtain ⟨r, hr, rfl⟩ := List.mem_map.mp hrow
    exact ⟨List.cons_ne_nil _ _,
      plain_scaleCells hfloat hids (fun f hf => name_of_mem_faces hf) (hrows r hr)⟩

theorem map_probePath_scaleRows (v : Vision K) (us : Path → ℤ) (maxProbes : ℤ)
    (enrolled impostors : List (Fin ids.length)) :
    (scaleRows v us maxProbes enrolled impostors).map ScaleRow.probePath =
      (((enrolled.filter (enrols v)).flatMap fun i => ids[i].images.tail.take maxProbes.toNat) ++
        impostors.map fun i => ids[i].front).filter (embeds v) := by
  have hgenuine : ((enrolled.filter (enrols v)).flatMap (probes maxProbes)).map Prod.snd =
      (enrolled.filter (enrols v)).flatMap fun i => ids[i].images.tail.take maxProbes.toNat := by
    rw [List.map_flatMap]
    refine List.flatMap_congr fun i _ => ?_
    rw [probes, List.map_map]
    exact List.map_id _
  rw [scaleRows, List.map_append, map_probePath, map_probePath, enrol_eq, hgenuine,
    List.filter_append, impostorProbes, List.map_map]
  rfl

/-- **The rows of a run**, whatever the shuffles do. -/
theorem scale_rows [LawfulFloatArith K] {load : Path → Path → ℤ → Option (Vision K)} (rng : Rng)
    {float : Flt K → List Char} (hfloat : ∀ x, dialect.plain (float x)) (us : Path → ℤ)
    (order : List Path → List Path) {disk : Disk} {argv : List String} {a : Args}
    (hargs : parseArgs argv = some a) (hmode : a.mode = .enrollScale) {v : Vision K}
    (hload : load a.blazeModel a.arcModel a.onnxThreads = some v) {listing : Listing}
    (hlist : disk.list a.dataset = some listing) (hplain : PlainListing a.dataset listing)
    (hopens : disk.opens a.out = true) {ids : List Identity}
    (hids : enumerateIdentities a.dataset listing = ids) (hcount : a.enrollN ≤ count ids) :
    ∃ (enrolled impostors : List (Fin ids.length)) (embedded : List Path) (file : List Char)
      (rows : List (ScaleRow K)), Drawn a ids enrolled impostors ∧
      main load rng float us order disk argv = ⟨0, embedded, some file⟩ ∧ embedded.Nodup ∧
      Csv.parse dialect file = some (scaleHeaderCells :: rows.map (scaleCells float)) ∧
      (∀ r ∈ rows, r.Sound v ids (faces v enrolled)) ∧
      rows.map ScaleRow.probePath =
        (((enrolled.filter (enrols v)).flatMap fun i =>
          ids[i].images.tail.take a.maxProbesPerIdentity.toNat) ++
          impostors.map fun i => ids[i].front).filter (embeds v) := by
  subst hids
  have hcatalogue := catalogue_enumerate a.dataset listing
  obtain ⟨enrolled, impostors, hdraw, hdrawn⟩ :=
    draw_spec rng (parseArgs_enrollN hargs hmode) hcount
  have hsound : ∀ r ∈ scaleRows v us a.maxProbesPerIdentity enrolled impostors,
      r.Sound v (enumerateIdentities a.dataset listing) (faces v enrolled) :=
    fun r hr => sound_of_mem hcatalogue hdrawn.nodup hr
  refine ⟨enrolled, impostors,
    (embedded v a.maxProbesPerIdentity enrolled impostors).map Prod.snd, _,
    scaleRows v us a.maxProbesPerIdentity enrolled impostors, hdrawn, ?_,
    nodup_paths hcatalogue hdrawn.nodup,
    parse_scaleText hfloat (fun id hid => plain_identity hplain hid) hsound, hsound,
    map_probePath_scaleRows v us _ enrolled impostors⟩
  have hpairs : a.mode ≠ .pairs := by
    rw [hmode]
    exact Mode.noConfusion
  rw [main, hargs]
  dsimp only
  rw [hload]
  dsimp only
  rw [if_neg hpairs, hopens, hlist]
  dsimp only [runEnrollScaleMode, scaleRun]
  rw [hdraw]
  dsimp only
  rw [if_pos rfl, enrol_eq, embedded, List.map_append, List.map_append, List.map_map]
  rfl

theorem length_images {dataset : Path} {e : DirEntry} (hdir : e.isDirectory = true)
    (h : 2 ≤ (e.files.filter isImage).length) :
    ∃ id, identityOf dataset e = some id ∧ 2 ≤ id.images.length := by
  have hlength : (((e.files.filter isImage).mergeSort fun f g => f ≤ g).map
      (join (join dataset e.name))).length = (e.files.filter isImage).length := by
    rw [List.length_map, List.length_mergeSort]
  have hne : ((e.files.filter isImage).mergeSort fun f g => f ≤ g).map
      (join (join dataset e.name)) ≠ [] := List.ne_nil_of_length_pos (by omega)
  exact ⟨_, dif_pos ⟨hdir, hne⟩, hlength ▸ h⟩

/-- A directory with two images is enough to enrol one. -/
theorem one_le_count {dataset : Path} {listing : Listing} {e : DirEntry}
    (he : e ∈ listing.entries) (hdir : e.isDirectory = true)
    (hfiles : 2 ≤ (e.files.filter isImage).length) (hsize : listing.entries.length < 2 ^ 31) :
    1 ≤ count (enumerateIdentities dataset listing) := by
  obtain ⟨id, hid, himages⟩ := @length_images dataset e hdir hfiles
  obtain ⟨k, hk, hget⟩ := List.getElem_of_mem (mem_enumerate.mpr ⟨e, he, hid⟩)
  have hmem : (⟨k, hk⟩ : Fin _) ∈ multiImgIdx (enumerateIdentities dataset listing) :=
    mem_multiImgIdx.mpr (hget ▸ himages)
  have hpos := List.length_pos_of_mem hmem
  have hle : (multiImgIdx (enumerateIdentities dataset listing)).length ≤
      listing.entries.length := by
    calc (multiImgIdx (enumerateIdentities dataset listing)).length
        ≤ (List.finRange (enumerateIdentities dataset listing).length).length :=
          List.length_filter_le _ _
      _ = (listing.entries.filterMap (identityOf dataset)).length := by
          rw [List.length_finRange, enumerateIdentities, List.length_mergeSort]
      _ ≤ listing.entries.length := List.length_filterMap_le _ _
  have hcount : count (enumerateIdentities dataset listing) =
      (multiImgIdx (enumerateIdentities dataset listing)).length :=
    bmod_natCast_of_lt (by omega)
  omega

/-- Ana has two images, Eva one, and the dataset holds a file besides. -/
def twoPeople : Listing where
  entries :=
    [⟨"Eva".toList, true, ["Eva_0001.jpg".toList], ⟨by decide, by decide⟩,
        List.forall_mem_cons.mpr ⟨⟨by decide, by decide⟩, by simp⟩, by decide⟩,
      ⟨"pairs.txt".toList, false, [], ⟨by decide, by decide⟩, by simp, by decide⟩,
      ⟨"Ana".toList, true, ["Ana_0003.png".toList, "Ana_0001.jpg".toList],
        ⟨by decide, by decide⟩, List.forall_mem_cons.mpr ⟨⟨by decide, by decide⟩,
          List.forall_mem_cons.mpr ⟨⟨by decide, by decide⟩, by simp⟩⟩, by decide⟩]
  distinct := by
    unfold DistinctKeys
    decide

def lfw (listing : Listing) : Disk where
  read path :=
    if path = "pairs.txt".toList then some (listText ['1'] [.same "Ana".toList 1 3]) else none
  list path := if path = "lfw".toList then some listing else none
  opens _ := true

def reversing : Rng := ⟨Unit, fun _ => (), fun g l => (l.reverse, g), fun _ l => l.reverse_perm⟩

def enrolOne : List String := ["--enroll-scale", "1", "--dataset", "lfw", "--out", "scale.csv"]

def onePair : List String := ["--pairs", "pairs.txt", "--dataset", "lfw", "--out", "pairs.csv"]

theorem scale_rows_two : ∃ embedded file, ∃ rows : List (ScaleRow ExtRat),
    main (fun _ _ _ => some album) reversing (fun _ => ['0']) (fun _ => 3) id (lfw twoPeople)
      enrolOne = ⟨0, embedded, some file⟩ ∧ embedded.Nodup ∧
    Csv.parse dialect file =
      some (scaleHeaderCells :: rows.map (scaleCells fun _ => ['0'])) := by
  have hplain : PlainListing "lfw".toList twoPeople := by
    refine ⟨none_of_all rfl, ?_⟩
    simp only [twoPeople, List.forall_mem_cons]
    refine ⟨⟨none_of_all rfl, none_of_all rfl, by simp⟩, ⟨none_of_all rfl, by simp⟩,
      ⟨none_of_all rfl, none_of_all rfl, none_of_all rfl, by simp⟩, by simp⟩
  have hcount : 1 ≤ count (enumerateIdentities "lfw".toList twoPeople) := by
    have hmem : twoPeople.entries[2] ∈ twoPeople.entries := List.getElem_mem _
    exact one_le_count hmem rfl (by decide) (by decide)
  obtain ⟨-, -, embedded, file, rows, -, hrun, hnodup, hparse, -⟩ :=
    @scale_rows _ _ _ _ _ (fun _ _ _ => some album) reversing (fun _ => ['0'])
      (fun _ => none_of_all rfl) (fun _ => 3) id (lfw twoPeople) enrolOne _ rfl rfl album rfl
      twoPeople rfl hplain rfl _ rfl hcount
  exact ⟨embedded, file, rows, hrun, hnodup, hparse⟩

/-! ## Two listings of one disk -/

/-- One directory, its files in two orders. -/
structure SameEntry (e f : DirEntry) : Prop where
  name : e.name = f.name
  isDirectory : e.isDirectory = f.isDirectory
  files : e.files.Perm f.files

/-- The same directories in two orders. -/
def Relisted (l m : Listing) : Prop :=
  ∃ k, l.entries.Perm k ∧ List.Forall₂ SameEntry k m.entries

structure SameDisk (d d' : Disk) : Prop where
  read : d.read = d'.read
  list : ∀ path, Option.Rel Relisted (d.list path) (d'.list path)
  opens : d.opens = d'.opens

theorem identityOf_congr (dataset : Path) {e f : DirEntry} (h : SameEntry e f) :
    identityOf dataset e = identityOf dataset f := by
  have hdistinct : DistinctKeys id (e.files.filter isImage) := by
    rw [DistinctKeys, List.map_id]
    exact e.files_nodup.filter _
  have hsorted := mergeSort_eq_of_perm hdistinct (h.files.filter isImage)
  dsimp only [id] at hsorted
  dsimp only [identityOf]
  simp only [h.name, h.isDirectory, hsorted]

theorem filterMap_identityOf_congr (dataset : Path) {k m : List DirEntry}
    (h : List.Forall₂ SameEntry k m) :
    k.filterMap (identityOf dataset) = m.filterMap (identityOf dataset) := by
  induction h with
  | nil => rfl
  | cons hef _ ih => rw [List.filterMap_cons, List.filterMap_cons, identityOf_congr dataset hef, ih]

/-- The order in which the directories are listed does not show in the identities. -/
theorem enumerateIdentities_congr (dataset : Path) {l m : Listing} (h : Relisted l m) :
    enumerateIdentities dataset l = enumerateIdentities dataset m := by
  obtain ⟨k, hperm, hsame⟩ := h
  have hdistinct : DistinctKeys Identity.name (l.entries.filterMap (identityOf dataset)) :=
    l.distinct.sublist (map_name_sublist dataset _)
  have hrest := hperm.filterMap (identityOf dataset)
  rw [filterMap_identityOf_congr dataset hsame] at hrest
  exact mergeSort_eq_of_perm hdistinct hrest

theorem runEnrollScaleMode_congr (v : Vision K) (rng : Rng) (float : Flt K → List Char)
    (us : Path → ℤ) (opens : Bool) {l m : Option Listing} (h : Option.Rel Relisted l m) (a : Args) :
    runEnrollScaleMode v rng float us opens l a = runEnrollScaleMode v rng float us opens m a := by
  cases h with
  | none => rfl
  | some h =>
    exact congrArg (scaleRun v rng float us opens a) (enumerateIdentities_congr a.dataset h)

/-! ## Two readings of the clock -/

/-- One row, but for the time of the search. -/
def SameRow (r r' : ScaleRow K) : Prop := { r with matchUs := r'.matchUs } = r'

theorem sameRow_probeRow (v : Vision K) (us us' : Path → ℤ) (s : Gallery K ids) (genuine : Bool)
    (probe : Fin ids.length × Path) :
    Option.Rel SameRow (probeRow v us s genuine probe) (probeRow v us' s genuine probe) := by
  unfold probeRow
  dsimp only
  split
  · exact Option.Rel.none
  · exact Option.Rel.some rfl

theorem sameRow_probes (v : Vision K) (us us' : Path → ℤ) (s : Gallery K ids) (genuine : Bool)
    (l : List (Fin ids.length × Path)) :
    List.Forall₂ SameRow (l.filterMap (probeRow v us s genuine))
      (l.filterMap (probeRow v us' s genuine)) := by
  refine List.rel_filterMap (R := Eq) ?_ (List.forall₂_same.mpr fun _ _ => rfl)
  rintro probe _ rfl
  exact sameRow_probeRow v us us' s genuine probe

theorem sameRow_scaleRows (v : Vision K) (us us' : Path → ℤ) (maxProbes : ℤ)
    (enrolled impostors : List (Fin ids.length)) :
    List.Forall₂ SameRow (scaleRows v us maxProbes enrolled impostors)
      (scaleRows v us' maxProbes enrolled impostors) :=
  List.rel_append (sameRow_probes v us us' _ _ _) (sameRow_probes v us us' _ _ _)

/-- One file, but for the column `match_us`. -/
inductive SameFile (float : Flt K → List Char) : Option (List Char) → Option (List Char) → Prop
  | same (file : Option (List Char)) : SameFile float file file
  | rows {rows rows' : List (ScaleRow K)} (h : List.Forall₂ SameRow rows rows') :
    SameFile float (some (scaleHeader ++ rows.flatMap (rowText float)))
      (some (scaleHeader ++ rows'.flatMap (rowText float)))

/-! ## What does not show in the result -/

/-- One result, up to the order in which the images were embedded. -/
structure SameResult (r r' : Run) : Prop where
  code : r.code = r'.code
  file : r.file = r'.file
  embedded : r.embedded.Perm r'.embedded

/-- And up to what the clock said. -/
structure SameButMatchUs (float : Flt K → List Char) (r r' : Run) : Prop where
  code : r.code = r'.code
  file : SameFile float r.file r'.file
  embedded : r.embedded.Perm r'.embedded

theorem SameResult.refl (r : Run) : SameResult r r := ⟨rfl, rfl, List.Perm.refl _⟩

omit [LinearOrder K] [BoundedOrder K] [FloatArith K] in
theorem SameButMatchUs.refl (float : Flt K → List Char) (r : Run) : SameButMatchUs float r r :=
  ⟨rfl, .same _, List.Perm.refl _⟩

omit [LinearOrder K] [BoundedOrder K] [FloatArith K] in
theorem SameResult.trans_butMatchUs {float : Flt K → List Char} {r r' r'' : Run}
    (h : SameResult r r') (h' : SameButMatchUs float r' r'') : SameButMatchUs float r r'' :=
  ⟨h.code.trans h'.code, h.file ▸ h'.file, h.embedded.trans h'.embedded⟩

theorem scaleRun_us (v : Vision K) (rng : Rng) (float : Flt K → List Char) (us us' : Path → ℤ)
    (opens : Bool) (a : Args) (ids : List Identity) :
    SameButMatchUs float (scaleRun v rng float us opens a ids)
      (scaleRun v rng float us' opens a ids) := by
  unfold scaleRun
  cases draw rng a ids with
  | none => exact SameButMatchUs.refl float _
  | some drawn =>
    dsimp only
    split
    · exact ⟨rfl, .rows (sameRow_scaleRows v us us' _ _ _), List.Perm.refl _⟩
    · exact SameButMatchUs.refl float _

theorem runEnrollScaleMode_us (v : Vision K) (rng : Rng) (float : Flt K → List Char)
    (us us' : Path → ℤ) (opens : Bool) (listing : Option Listing) (a : Args) :
    SameButMatchUs float (runEnrollScaleMode v rng float us opens listing a)
      (runEnrollScaleMode v rng float us' opens listing a) := by
  cases listing with
  | none => exact SameButMatchUs.refl float _
  | some listing => exact scaleRun_us v rng float us us' opens a _

theorem sameResult_pairs (v : Vision K) (float : Flt K → List Char)
    {order order' : List Path → List Path} (horder : ∀ l, (order l).Perm l)
    (horder' : ∀ l, (order' l).Perm l) (opens : Bool) (pairsFile : Option (List Char))
    (dataset : Path) :
    SameResult (runPairsMode v float order opens pairsFile dataset)
      (runPairsMode v float order' opens pairsFile dataset) := by
  cases h : pairsFile.bind fun text => parseLfwPairs text dataset with
  | none =>
    rw [runPairsMode, runPairsMode, h]
    exact SameResult.refl _
  | some pairs =>
    obtain ⟨text, rfl, hparse⟩ := Option.bind_eq_some_iff.mp h
    cases opens with
    | true =>
      obtain ⟨visited, hnodup, hmem, hrun⟩ := runPairsMode_eq v float horder hparse
      obtain ⟨visited', hnodup', hmem', hrun'⟩ := runPairsMode_eq v float horder' hparse
      rw [hrun, hrun']
      refine ⟨rfl, rfl, (List.perm_ext_iff_of_nodup hnodup hnodup').mpr fun path => ?_⟩
      rw [hmem, hmem']
    | false =>
      rw [runPairsMode, runPairsMode, h]
      exact ⟨rfl, rfl, (horder _).trans (horder' _).symm⟩

section Main
variable {load : Path → Path → ℤ → Option (Vision K)} {rng : Rng} {float : Flt K → List Char}
  {us us' : Path → ℤ} {order order' : List Path → List Path} {disk disk' : Disk}
  {argv : List String}

/-- For one clock, the orders do not show. -/
theorem sameResult_main (horder : ∀ l, (order l).Perm l) (horder' : ∀ l, (order' l).Perm l)
    (h : SameDisk disk disk') : SameResult (main load rng float us order disk argv)
      (main load rng float us order' disk' argv) := by
  unfold main
  cases parseArgs argv with
  | none => exact SameResult.refl _
  | some a =>
    dsimp only
    cases load a.blazeModel a.arcModel a.onnxThreads with
    | none => exact SameResult.refl _
    | some v =>
      dsimp only
      rw [h.opens, h.read]
      split
      · exact sameResult_pairs v float horder horder' _ _ _
      · rw [runEnrollScaleMode_congr v rng float us _ (h.list a.dataset) a]
        exact SameResult.refl _

/-- The clock shows in one column only. -/
theorem sameButMatchUs_main : SameButMatchUs float (main load rng float us order disk argv)
    (main load rng float us' order disk argv) := by
  unfold main
  cases parseArgs argv with
  | none => exact SameButMatchUs.refl float _
  | some a =>
    dsimp only
    cases load a.blazeModel a.arcModel a.onnxThreads with
    | none => exact SameButMatchUs.refl float _
    | some v =>
      dsimp only
      split
      · exact SameButMatchUs.refl float _
      · exact runEnrollScaleMode_us v rng float us us' _ _ a

/-- In pairs mode no clock is read. -/
theorem main_pairs_us (h : ∀ a ∈ parseArgs argv, a.mode = .pairs) :
    main load rng float us order disk argv = main load rng float us' order disk argv := by
  unfold main
  cases ha : parseArgs argv with
  | none => rfl
  | some a =>
    dsimp only
    cases load a.blazeModel a.arcModel a.onnxThreads with
    | none => rfl
    | some v =>
      dsimp only
      rw [if_pos (h a ha), if_pos (h a ha)]

end Main

/-- **What the program writes depends on its arguments and on what is on the disk**, not on the
order in which a directory or an `unordered_map` is gone through; what it reads off the clock is in
the column `match_us`, which pairs mode does not have. -/
theorem evaluation_reproducible (load : Path → Path → ℤ → Option (Vision K)) (rng : Rng)
    (float : Flt K → List Char) (us us' : Path → ℤ) {order order' : List Path → List Path}
    (horder : ∀ l, (order l).Perm l) (horder' : ∀ l, (order' l).Perm l) {disk disk' : Disk}
    (h : SameDisk disk disk') (argv : List String) :
    SameButMatchUs float (main load rng float us order disk argv)
      (main load rng float us' order' disk' argv) ∧
    ((us = us' ∨ ∀ a ∈ parseArgs argv, a.mode = .pairs) →
      SameResult (main load rng float us order disk argv)
        (main load rng float us' order' disk' argv)) := by
  refine ⟨(sameResult_main horder horder' h).trans_butMatchUs sameButMatchUs_main, ?_⟩
  rintro (rfl | hpairs)
  · exact sameResult_main horder horder' h
  · rw [main_pairs_us hpairs]
    exact sameResult_main horder horder' h

def reversed (listing : Listing) : Listing where
  entries := listing.entries.reverse
  distinct := by
    rw [DistinctKeys, List.map_reverse, List.nodup_reverse]
    exact listing.distinct

theorem sameDisk_reversed : SameDisk (lfw twoPeople) (lfw (reversed twoPeople)) := by
  refine ⟨rfl, fun path => ?_, rfl⟩
  dsimp only [lfw]
  split
  · refine Option.Rel.some ⟨twoPeople.entries.reverse, twoPeople.entries.reverse_perm.symm, ?_⟩
    exact List.forall₂_same.mpr fun e _ => ⟨rfl, rfl, List.Perm.refl _⟩
  · exact Option.Rel.none

/-- One search takes 3 µs, the other 5. -/
theorem evaluation_reproducible_two :
    SameButMatchUs (fun _ : Flt ExtRat => ['0'])
      (main (fun _ _ _ => some album) reversing (fun _ => ['0']) (fun _ => 3) id
        (lfw twoPeople) enrolOne)
      (main (fun _ _ _ => some album) reversing (fun _ => ['0']) (fun _ => 5) List.reverse
        (lfw (reversed twoPeople)) enrolOne) ∧
    SameResult
      (main (fun _ _ _ => some album) reversing (fun _ => ['0']) (fun _ => 3) id
        (lfw twoPeople) onePair)
      (main (fun _ _ _ => some album) reversing (fun _ => ['0']) (fun _ => 5) List.reverse
        (lfw (reversed twoPeople)) onePair) := by
  have hpairs : ∀ a ∈ parseArgs onePair, a.mode = .pairs := by
    intro a ha
    cases Option.some.inj ha
    rfl
  constructor
  · exact (evaluation_reproducible _ reversing _ _ _ (fun l => List.Perm.refl l)
      List.reverse_perm sameDisk_reversed enrolOne).1
  · exact (evaluation_reproducible _ reversing _ _ _ (fun l => List.Perm.refl l)
      List.reverse_perm sameDisk_reversed onePair).2 (.inr hpairs)

end FaceGate.L3.Eval
