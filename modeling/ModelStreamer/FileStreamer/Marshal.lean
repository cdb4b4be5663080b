/-
  ModelStreamer.FileStreamer.Marshal
  ──────────────────────────────────
  **A REQUEST ACROSS THE LANGUAGE BORDER** (`libstreamer.runai_request`,
  `submit_request` of `streamer.cc`).

  On the Python side a request is five lists of strings and integers, of any
  sign and size.  `runai_request` checks them and makes C arrays of them;
  ctypes wraps what does not fit.  On the C side a running base index cuts
  the flat arrays into files again, and nothing there knows how long an array
  is.  Reading past the end of one is `none` here.

    • `runaiRequest_fits` — what the checks have made sure of,
    • `readRanges_spec`, `submitLoop_spec` — the two loops stay inside of the
      arrays, and what they find,
    • `request_marshalled` — every accepted request is rebuilt as it was
      given, and every other one is rejected in Python,
    • `nativeRequest_marshalled` — so `nativeRequest` is what the library
      sees of a request of the iterator.
-/
import Mathlib.Algebra.BigOperators.Group.List.Basic
import ModelStreamer.FileStreamer.Native

namespace ModelStreamer.FileStreamer.Marshal

open ModelStreamer.Lib ModelStreamer.Planning

/-! ## §1. Strings. -/

/-- A Python string, by its code points; they may be surrogates. -/
abbrev PyStr := List (Fin 0x110000)

/-- `encode("utf-8")` of one character, which raises at a surrogate. -/
def encodeChar (c : Fin 0x110000) : Option (List UInt8) :=
  if c.val.isValidChar then some (String.utf8EncodeChar (Char.ofNat c.val)) else none

/-- `encode("utf-8")`. -/
def encode : PyStr → Option (List UInt8)
  | [] => some []
  | c :: s => (encodeChar c).bind (fun bytes => (encode s).map (fun rest => bytes ++ rest))

/-- `[path.encode("utf-8") for path in paths]`. -/
def encodePaths : List PyStr → Option (List (List UInt8))
  | [] => some []
  | path :: paths =>
      (encode path).bind (fun bytes => (encodePaths paths).map (fun rest => bytes :: rest))

/-- What a `c_char_p` of these bytes points at. -/
def cString (bytes : List UInt8) : List UInt8 := bytes ++ [0]

/-- `std::string(const char *)`: the bytes before the first zero. -/
def stdString (memory : List UInt8) : Option (List UInt8) :=
  if 0 ∈ memory then some (memory.takeWhile (· ≠ 0)) else none

/-! ## §2. The Python side. -/

/-- What `fn_runai_request` is called with: the number of files, and the
memory behind each pointer.  No pointer is null: also an empty array has an
address. -/
structure CallArgs where
  numFiles : Nat
  paths : List (List UInt8)
  numRanges : List Nat
  rangeOffsets : List Nat
  rangeSizes : List Nat
  rangeDsts : List Nat
  deriving DecidableEq, Repr

/-- `c_uint32`, and the 64-bit types: silently wrapped. -/
def cUint32 (n : Int) : Nat := (n % 2 ^ 32).toNat

def cUint64 (n : Int) : Nat := (n % 2 ^ 64).toNat

/-- `min(values) < 0 or max(values) >= limit`; nothing is outside of an empty
list. -/
def outside (limit : Int) (values : List Int) : Bool :=
  values.any (fun value => decide (value < 0 ∨ limit ≤ value))

/-- `runai_request`, up to the call. -/
def runaiRequest (paths : List PyStr) (numRanges rangeOffsets rangeSizes rangeDsts : List Int) :
    Except String CallArgs :=
  let numFiles := paths.length
  let totalRanges := rangeSizes.length
  if numRanges.length ≠ numFiles then
    .error s!"num_ranges has {numRanges.length} entries but there are {numFiles} paths"
  else if ¬ (rangeOffsets.length = rangeDsts.length ∧ rangeDsts.length = totalRanges) then
    .error (s!"range_offsets ({rangeOffsets.length}), range_sizes ({totalRanges}) and range_dsts "
      ++ s!"({rangeDsts.length}) must be parallel")
  else if outside (2 ^ 32) numRanges then
    .error s!"every num_ranges value must fit an unsigned 32-bit integer, got {numRanges}"
  -- the C side cannot see this: it trusts the counts
  else if numRanges.sum ≠ totalRanges then
    .error s!"sum(num_ranges) is {numRanges.sum} but the range arrays hold {totalRanges} entries"
  else if outside (2 ^ 64) rangeSizes then
    .error "every range size must fit an unsigned 64-bit integer"
  else if outside (2 ^ 64) rangeOffsets then
    .error "every range offset must fit an unsigned 64-bit integer"
  else if outside (2 ^ 64) rangeDsts then
    .error "every range destination must be a valid address"
  else
    match encodePaths paths with
    | none => .error "'utf-8' codec can't encode: surrogates not allowed"
    | some encoded =>
        .ok ⟨cUint32 numFiles, encoded.map cString, numRanges.map cUint32,
          rangeOffsets.map cUint64, rangeSizes.map cUint64, rangeDsts.map cUint64⟩

/-! ## §3. The C side. -/

/-- `impl::FileRanges`; the path is a `std::string`. -/
structure NativeFile where
  path : List UInt8
  ranges : List ReadRange
  deriving DecidableEq, Repr

/-- `total_ranges`: only whether it is 0 matters, and the entries are read. -/
def totalRanges (args : CallArgs) : Nat → Nat → Nat → Option Nat
  | 0, _, total => some total
  | remaining + 1, i, total =>
      (args.numRanges[i]?).bind (fun n => totalRanges args remaining (i + 1) (wrap (total + n)))

/-- The inner `for` of `submit_request`, from `j` on. -/
def readRanges (args : CallArgs) (base : Nat) : Nat → Nat → Option (List ReadRange)
  | 0, _ => some []
  | remaining + 1, j =>
      -- `base + j` is a `size_t`; an index past the end reads `none`
      (args.rangeOffsets[wrap (base + j)]?).bind (fun offset =>
        (args.rangeSizes[wrap (base + j)]?).bind (fun size =>
          (args.rangeDsts[wrap (base + j)]?).bind (fun dst =>
            (readRanges args base remaining (j + 1)).map (fun ranges =>
              readRange (offset, size) dst :: ranges))))

/-- The outer one, from `i` on. -/
def submitLoop (args : CallArgs) : Nat → Nat → Nat → Option (List NativeFile)
  | 0, _, _ => some []
  | remaining + 1, i, base =>
      ((args.paths[i]?).bind stdString).bind (fun path =>
        (args.numRanges[i]?).bind (fun n =>
          (readRanges args base n 0).bind (fun ranges =>
            (submitLoop args remaining (i + 1) (wrap (base + n))).map (fun files =>
              ⟨path, ranges⟩ :: files))))

/-- `submit_request`, up to `async_request`. -/
def submitRequest (args : CallArgs) : Option (List NativeFile) :=
  (totalRanges args args.numFiles 0 0).bind (fun _ => submitLoop args args.numFiles 0 0)

/-! ## §4. Strings come across. -/

/-- Only the zero character has a zero byte. -/
theorem utf8_no_zero {c : Char} (h : c.val.toNat ≠ 0) : 0 ∉ String.utf8EncodeChar c := by
  have hbyte : ∀ n : Nat, 0 < n % 256 → (0 : UInt8) ≠ UInt8.ofNat n := by
    intro n hn heq
    have hmod := congrArg UInt8.toNat heq
    simp only [UInt8.toNat_ofNat', UInt8.toNat_ofNat] at hmod
    omega
  unfold String.utf8EncodeChar
  dsimp only
  split
  · simp only [List.mem_singleton]
    exact hbyte _ (by omega)
  split
  · simp only [List.mem_cons, List.not_mem_nil, or_false, not_or]
    exact ⟨hbyte _ (by omega), hbyte _ (by omega)⟩
  split
  · simp only [List.mem_cons, List.not_mem_nil, or_false, not_or]
    exact ⟨hbyte _ (by omega), hbyte _ (by omega), hbyte _ (by omega)⟩
  · simp only [List.mem_cons, List.not_mem_nil, or_false, not_or]
    exact ⟨hbyte _ (by omega), hbyte _ (by omega), hbyte _ (by omega), hbyte _ (by omega)⟩

theorem encodeChar_no_zero {c : Fin 0x110000} {bytes : List UInt8} (hc : c ≠ 0)
    (h : encodeChar c = some bytes) : 0 ∉ bytes := by
  unfold encodeChar at h
  split at h
  next hvalid =>
    rw [← Option.some.inj h]
    apply utf8_no_zero
    have hval : (Char.ofNat c.val).val.toNat = c.val := by
      unfold Char.ofNat
      rw [dif_pos hvalid]
      rfl
    rw [hval]
    exact fun hzero => hc (Fin.ext hzero)
  next => simp at h

theorem encode_no_zero {s : PyStr} {bytes : List UInt8} (hs : 0 ∉ s)
    (h : encode s = some bytes) : 0 ∉ bytes := by
  induction s generalizing bytes with
  | nil =>
      rw [← Option.some.inj h]
      exact List.not_mem_nil
  | cons c s ih =>
      rw [List.mem_cons, not_or] at hs
      unfold encode at h
      obtain ⟨first, hfirst, h⟩ := Option.bind_eq_some_iff.mp h
      obtain ⟨rest, hrest, rfl⟩ := Option.map_eq_some_iff.mp h
      rw [List.mem_append]
      exact fun hor => hor.elim (encodeChar_no_zero (Ne.symm hs.1) hfirst) (ih hs.2 hrest)

/-- **A C string** without a zero in it is read as it is. -/
theorem stdString_cString {bytes : List UInt8} (h : 0 ∉ bytes) :
    stdString (cString bytes) = some bytes := by
  unfold stdString cString
  rw [if_pos (by simp), List.takeWhile_append_of_pos]
  · simp
  · intro byte hbyte
    rw [decide_eq_true_eq]
    rintro rfl
    exact h hbyte

theorem encodePaths_get {paths : List PyStr} {encoded : List (List UInt8)}
    (h : encodePaths paths = some encoded) :
    encoded.length = paths.length ∧
      ∀ (f : Nat) (bytes : List UInt8), encoded[f]? = some bytes →
        ∃ path, paths[f]? = some path ∧ encode path = some bytes := by
  induction paths generalizing encoded with
  | nil =>
      rw [← Option.some.inj h]
      exact ⟨rfl, fun f bytes hget => by simp at hget⟩
  | cons path paths ih =>
      unfold encodePaths at h
      obtain ⟨first, hfirst, h⟩ := Option.bind_eq_some_iff.mp h
      obtain ⟨rest, hrest, rfl⟩ := Option.map_eq_some_iff.mp h
      obtain ⟨hlength, hget⟩ := ih hrest
      refine ⟨by rw [List.length_cons, List.length_cons, hlength], fun f bytes hbytes => ?_⟩
      cases f with
      | zero => exact ⟨path, rfl, by rw [← Option.some.inj hbytes]; exact hfirst⟩
      | succ f => exact hget f bytes hbytes

/-! ## §5. The loops stay inside. -/

/-- **Arrays of one request**, as `submit_request` relies on them. -/
structure Parallel (args : CallArgs) : Prop where
  paths_length : args.paths.length = args.numFiles
  numRanges_length : args.numRanges.length = args.numFiles
  offsets_length : args.rangeOffsets.length = args.rangeSizes.length
  dsts_length : args.rangeDsts.length = args.rangeSizes.length
  total : args.numRanges.sum = args.rangeSizes.length
  total_lt : args.rangeSizes.length < 2 ^ 64
  terminated : ∀ memory ∈ args.paths, (0 : UInt8) ∈ memory

/-- The base index of file `i`. -/
def CallArgs.base (args : CallArgs) (i : Nat) : Nat := (args.numRanges.take i).sum

theorem base_succ {args : CallArgs} {i n : Nat} (h : args.numRanges[i]? = some n) :
    args.base (i + 1) = args.base i + n := by
  unfold CallArgs.base
  rw [List.take_add_one, h, List.sum_append]
  simp

theorem base_le (args : CallArgs) (i : Nat) : args.base i ≤ args.numRanges.sum := by
  have hsplit := congrArg List.sum (List.take_append_drop i args.numRanges)
  rw [List.sum_append] at hsplit
  unfold CallArgs.base
  omega

theorem totalRanges_isSome {args : CallArgs} (h : Parallel args) (remaining i total : Nat)
    (hi : i + remaining ≤ args.numFiles) : (totalRanges args remaining i total).isSome := by
  induction remaining generalizing i total with
  | zero => rfl
  | succ remaining ih =>
      have hlt : i < args.numRanges.length := by
        rw [h.numRanges_length]
        omega
      unfold totalRanges
      rw [List.getElem?_eq_getElem hlt, Option.bind_some]
      exact ih (i + 1) _ (by omega)

/-- **The inner loop** reads the ranges from the base index on. -/
theorem readRanges_spec {args : CallArgs} (h : Parallel args) (base remaining j : Nat)
    (hbase : base + (j + remaining) ≤ args.rangeSizes.length) :
    ∃ ranges, readRanges args base remaining j = some ranges ∧ ranges.length = remaining ∧
      ∀ (k : Nat) (r : ReadRange), ranges[k]? = some r →
        ∃ offset size dst, args.rangeOffsets[base + (j + k)]? = some offset ∧
          args.rangeSizes[base + (j + k)]? = some size ∧
          args.rangeDsts[base + (j + k)]? = some dst ∧ r = readRange (offset, size) dst := by
  induction remaining generalizing j with
  | zero => exact ⟨[], rfl, rfl, fun k r hr => by simp at hr⟩
  | succ remaining ih =>
      have htotal := h.total_lt
      have hwrap : wrap (base + j) = base + j := wrap_of_lt (by omega)
      have hsize : base + j < args.rangeSizes.length := by omega
      have hoffset : base + j < args.rangeOffsets.length := by
        rw [h.offsets_length]
        exact hsize
      have hdst : base + j < args.rangeDsts.length := by
        rw [h.dsts_length]
        exact hsize
      obtain ⟨ranges, hranges, hlength, hget⟩ := ih (j + 1) (by omega)
      refine ⟨readRange (args.rangeOffsets[base + j], args.rangeSizes[base + j])
        args.rangeDsts[base + j] :: ranges, ?_, by rw [List.length_cons, hlength],
        fun k r hr => ?_⟩
      · unfold readRanges
        rw [hwrap, List.getElem?_eq_getElem hoffset, List.getElem?_eq_getElem hsize,
          List.getElem?_eq_getElem hdst, hranges]
        rfl
      · cases k with
        | zero =>
            exact ⟨_, _, _, List.getElem?_eq_getElem hoffset, List.getElem?_eq_getElem hsize,
              List.getElem?_eq_getElem hdst, (Option.some.inj hr).symm⟩
        | succ k =>
            have hspec := hget k r hr
            rw [show j + 1 + k = j + (k + 1) by omega] at hspec
            exact hspec

/-- **The outer loop** gives each file its path and its ranges. -/
theorem submitLoop_spec {args : CallArgs} (h : Parallel args) (remaining i : Nat)
    (hi : i + remaining = args.numFiles) :
    ∃ files, submitLoop args remaining i (args.base i) = some files ∧ files.length = remaining ∧
      ∀ (f : Nat) (file : NativeFile), files[f]? = some file →
        ∃ memory n, args.paths[i + f]? = some memory ∧ args.numRanges[i + f]? = some n ∧
          stdString memory = some file.path ∧ file.ranges.length = n ∧
          ∀ (j : Nat) (r : ReadRange), file.ranges[j]? = some r →
            ∃ offset size dst, args.rangeOffsets[args.base (i + f) + j]? = some offset ∧
              args.rangeSizes[args.base (i + f) + j]? = some size ∧
              args.rangeDsts[args.base (i + f) + j]? = some dst ∧
              r = readRange (offset, size) dst := by
  induction remaining generalizing i with
  | zero => exact ⟨[], rfl, rfl, fun f file hfile => by simp at hfile⟩
  | succ remaining ih =>
      have hpath : i < args.paths.length := by
        rw [h.paths_length]
        omega
      have hcount : i < args.numRanges.length := by
        rw [h.numRanges_length]
        omega
      have hn := List.getElem?_eq_getElem hcount
      have hnext := base_succ hn
      have hle := base_le args (i + 1)
      have htotal := h.total
      have hlt := h.total_lt
      have hstring : stdString args.paths[i] = some (args.paths[i].takeWhile (· ≠ 0)) :=
        if_pos (h.terminated _ (List.getElem_mem hpath))
      obtain ⟨ranges, hranges, hlength, hget⟩ := readRanges_spec h (args.base i)
        args.numRanges[i] 0 (by omega)
      have hwrap : wrap (args.base i + args.numRanges[i]) = args.base (i + 1) := by
        rw [hnext]
        exact wrap_of_lt (by omega)
      obtain ⟨files, hfiles, hfilesLength, hspec⟩ := ih (i + 1) (by omega)
      refine ⟨⟨args.paths[i].takeWhile (· ≠ 0), ranges⟩ :: files, ?_,
        by rw [List.length_cons, hfilesLength], fun f file hfile => ?_⟩
      · unfold submitLoop
        rw [List.getElem?_eq_getElem hpath, Option.bind_some, hstring, Option.bind_some, hn,
          Option.bind_some, hranges, Option.bind_some, hwrap, hfiles]
        rfl
      · cases f with
        | zero =>
            obtain rfl := Option.some.inj hfile
            refine ⟨_, _, List.getElem?_eq_getElem hpath, hn, hstring, hlength, fun j r hr => ?_⟩
            have hrange := hget j r hr
            rw [Nat.zero_add] at hrange
            exact hrange
        | succ f =>
            have hrest := hspec f file hfile
            rw [show i + 1 + f = i + (f + 1) by omega] at hrest
            exact hrest

/-- **`submit_request`** on such arrays. -/
theorem submitRequest_spec {args : CallArgs} (h : Parallel args) :
    ∃ files, submitRequest args = some files ∧ files.length = args.numFiles ∧
      ∀ (f : Nat) (file : NativeFile), files[f]? = some file →
        ∃ memory n, args.paths[f]? = some memory ∧ args.numRanges[f]? = some n ∧
          stdString memory = some file.path ∧ file.ranges.length = n ∧
          ∀ (j : Nat) (r : ReadRange), file.ranges[j]? = some r →
            ∃ offset size dst, args.rangeOffsets[args.base f + j]? = some offset ∧
              args.rangeSizes[args.base f + j]? = some size ∧
              args.rangeDsts[args.base f + j]? = some dst ∧
              r = readRange (offset, size) dst := by
  obtain ⟨files, hfiles, hlength, hspec⟩ := submitLoop_spec h args.numFiles 0 (Nat.zero_add _)
  obtain ⟨total, htotal⟩ := Option.isSome_iff_exists.mp
    (totalRanges_isSome h args.numFiles 0 0 (Nat.zero_add _).le)
  refine ⟨files, ?_, hlength, fun f file hfile => ?_⟩
  · unfold submitRequest
    rw [htotal, Option.bind_some]
    exact hfiles
  · have hfileSpec := hspec f file hfile
    rw [Nat.zero_add] at hfileSpec
    exact hfileSpec

/-! ## §6. Requests. -/

/-- **A request that can be passed on**: lists that agree, and values that
fit their C types. -/
structure Fits (paths : List PyStr) (numRanges rangeOffsets rangeSizes rangeDsts : List Int) :
    Prop where
  files : numRanges.length = paths.length
  offsets : rangeOffsets.length = rangeSizes.length
  dsts : rangeDsts.length = rangeSizes.length
  total : numRanges.sum = rangeSizes.length
  counts : ∀ n ∈ numRanges, 0 ≤ n ∧ n < 2 ^ 32
  words : ∀ value ∈ rangeOffsets ++ (rangeSizes ++ rangeDsts), 0 ≤ value ∧ value < 2 ^ 64

/-- **What the C side is to make of it**: for file `f` its path and the
ranges from the sum of the counts before it on. -/
structure Rebuilds (paths : List PyStr) (numRanges rangeOffsets rangeSizes rangeDsts : List Int)
    (files : List NativeFile) : Prop where
  length_eq : files.length = paths.length
  file : ∀ (f : Nat) (file : NativeFile), files[f]? = some file →
    ∃ path n, paths[f]? = some path ∧ numRanges[f]? = some n ∧ encode path = some file.path ∧
      (file.ranges.length : Int) = n
  range : ∀ (f : Nat) (file : NativeFile), files[f]? = some file →
    ∀ (j : Nat) (r : ReadRange), file.ranges[j]? = some r →
      rangeOffsets[(numRanges.take f).sum.toNat + j]? = some (r.offset : Int) ∧
        rangeSizes[(numRanges.take f).sum.toNat + j]? = some (r.size : Int) ∧
        rangeDsts[(numRanges.take f).sum.toNat + j]? = some (r.dst : Int)

theorem not_outside {limit : Int} {values : List Int} (h : ¬ outside limit values = true) :
    ∀ value ∈ values, 0 ≤ value ∧ value < limit := by
  intro value hvalue
  unfold outside at h
  rw [List.any_eq_true] at h
  by_contra hout
  exact h ⟨value, hvalue, by rw [decide_eq_true_eq]; omega⟩

/-- **The checks**: what is accepted can be passed on. -/
theorem runaiRequest_fits {paths : List PyStr} {numRanges rangeOffsets rangeSizes
    rangeDsts : List Int} {args : CallArgs}
    (h : runaiRequest paths numRanges rangeOffsets rangeSizes rangeDsts = .ok args) :
    Fits paths numRanges rangeOffsets rangeSizes rangeDsts ∧
      ∃ encoded, encodePaths paths = some encoded ∧
        args = ⟨cUint32 paths.length, encoded.map cString, numRanges.map cUint32,
          rangeOffsets.map cUint64, rangeSizes.map cUint64, rangeDsts.map cUint64⟩ := by
  unfold runaiRequest at h
  dsimp only at h
  split at h
  · simp at h
  next hfiles =>
  split at h
  · simp at h
  next hparallel =>
  split at h
  · simp at h
  next hcounts =>
  split at h
  · simp at h
  next htotal =>
  split at h
  · simp at h
  next hsizes =>
  split at h
  · simp at h
  next hoffsets =>
  split at h
  · simp at h
  next hdsts =>
  rw [ne_eq, not_not] at hfiles htotal
  rw [not_not] at hparallel
  refine ⟨⟨hfiles, hparallel.1.trans hparallel.2, hparallel.2, htotal, not_outside hcounts,
    fun value hvalue => ?_⟩, ?_⟩
  · rcases List.mem_append.mp hvalue with hoffset | hvalue
    · exact not_outside hoffsets value hoffset
    · rcases List.mem_append.mp hvalue with hsize | hdst
      · exact not_outside hsizes value hsize
      · exact not_outside hdsts value hdst
  · cases hencoded : encodePaths paths with
    | none =>
        rw [hencoded] at h
        simp at h
    | some encoded =>
        rw [hencoded] at h
        exact ⟨encoded, rfl, (Except.ok.inj h).symm⟩

theorem cUint32_eq {n : Int} (h : 0 ≤ n ∧ n < 2 ^ 32) : (cUint32 n : Int) = n := by
  unfold cUint32
  omega

/-- A length or a count that fits comes across. -/
theorem cUint32_cast {n : Nat} (h : n < 2 ^ 32) : cUint32 (n : Int) = n := by
  unfold cUint32
  omega

theorem cUint64_eq {n : Int} (h : 0 ≤ n ∧ n < 2 ^ 64) : (cUint64 n : Int) = n := by
  unfold cUint64
  omega

theorem sum_cUint32 {counts : List Int} (h : ∀ n ∈ counts, 0 ≤ n ∧ n < 2 ^ 32) :
    ((counts.map cUint32).sum : Int) = counts.sum := by
  induction counts with
  | nil => rfl
  | cons n counts ih =>
      rw [List.forall_mem_cons] at h
      rw [List.map_cons, List.sum_cons, List.sum_cons, Nat.cast_add, cUint32_eq h.1, ih h.2]

/-- Fewer than `2 ^ 32` counts below `2 ^ 32` do not overflow a word. -/
theorem sum_lt_word {counts : List Nat} (hlength : counts.length < 2 ^ 32)
    (h : ∀ n ∈ counts, n < 2 ^ 32) : counts.sum < 2 ^ 64 := by
  have hle : counts.sum ≤ counts.length * (2 ^ 32 - 1) := by
    clear hlength
    induction counts with
    | nil => exact Nat.zero_le _
    | cons n counts ih =>
        rw [List.forall_mem_cons] at h
        have := ih h.2
        rw [List.sum_cons, List.length_cons, Nat.succ_mul]
        omega
  omega

/-- **What the C side is given.** -/
theorem accepted_parallel {paths : List PyStr} {numRanges rangeOffsets rangeSizes
    rangeDsts : List Int} {encoded : List (List UInt8)} (hcount : paths.length < 2 ^ 32)
    (hfits : Fits paths numRanges rangeOffsets rangeSizes rangeDsts)
    (hencoded : encodePaths paths = some encoded) :
    Parallel ⟨cUint32 paths.length, encoded.map cString, numRanges.map cUint32,
      rangeOffsets.map cUint64, rangeSizes.map cUint64, rangeDsts.map cUint64⟩ := by
  have hfiles : cUint32 paths.length = paths.length := cUint32_cast hcount
  have hsum := sum_cUint32 hfits.counts
  have htotal : (numRanges.map cUint32).sum = rangeSizes.length := by
    have := hfits.total
    omega
  constructor
  case paths_length =>
    show (encoded.map cString).length = _
    rw [List.length_map, (encodePaths_get hencoded).1, hfiles]
  case numRanges_length =>
    show (numRanges.map cUint32).length = _
    rw [List.length_map, hfits.files, hfiles]
  case offsets_length =>
    show (rangeOffsets.map cUint64).length = (rangeSizes.map cUint64).length
    rw [List.length_map, List.length_map, hfits.offsets]
  case dsts_length =>
    show (rangeDsts.map cUint64).length = (rangeSizes.map cUint64).length
    rw [List.length_map, List.length_map, hfits.dsts]
  case total =>
    show (numRanges.map cUint32).sum = (rangeSizes.map cUint64).length
    rw [List.length_map, htotal]
  case total_lt =>
    show (rangeSizes.map cUint64).length < 2 ^ 64
    rw [List.length_map, ← htotal]
    apply sum_lt_word
    · rw [List.length_map, hfits.files]
      exact hcount
    · intro n hn
      obtain ⟨m, hm, rfl⟩ := List.mem_map.mp hn
      have := hfits.counts m hm
      have := cUint32_eq this
      omega
  case terminated =>
    intro memory hmemory
    obtain ⟨bytes, -, rfl⟩ := List.mem_map.mp hmemory
    unfold cString
    simp

/-- An element of a C array is the integer it was made of. -/
theorem cUint64_get {values : List Int} (h : ∀ value ∈ values, 0 ≤ value ∧ value < 2 ^ 64)
    {k word : Nat} (hget : (values.map cUint64)[k]? = some word) :
    values[k]? = some (word : Int) ∧ word < 2 ^ 64 := by
  rw [List.getElem?_map] at hget
  obtain ⟨value, hvalue, rfl⟩ := Option.map_eq_some_iff.mp hget
  have hfit := h value (List.mem_of_getElem? hvalue)
  have heq := cUint64_eq hfit
  exact ⟨by rw [hvalue, heq], by omega⟩

/-- **Accepted requests** are rebuilt. -/
theorem accepted_rebuilds {paths : List PyStr} {numRanges rangeOffsets rangeSizes
    rangeDsts : List Int} {args : CallArgs} (hcount : paths.length < 2 ^ 32)
    (hnul : ∀ path ∈ paths, 0 ∉ path)
    (h : runaiRequest paths numRanges rangeOffsets rangeSizes rangeDsts = .ok args) :
    ∃ files, submitRequest args = some files ∧
      Rebuilds paths numRanges rangeOffsets rangeSizes rangeDsts files := by
  obtain ⟨hfits, encoded, hencoded, rfl⟩ := runaiRequest_fits h
  have hparallel := accepted_parallel hcount hfits hencoded
  obtain ⟨files, hfiles, hlength, hspec⟩ := submitRequest_spec hparallel
  have hnumFiles : cUint32 paths.length = paths.length := cUint32_cast hcount
  refine ⟨files, hfiles, ?_, fun f file hfile => ?_, fun f file hfile j r hr => ?_⟩
  · rw [hlength]
    exact hnumFiles
  · obtain ⟨memory, n, hmemory, hn, hpath, hranges, -⟩ := hspec f file hfile
    dsimp only at hmemory hn
    rw [List.getElem?_map] at hmemory hn
    obtain ⟨bytes, hbytes, rfl⟩ := Option.map_eq_some_iff.mp hmemory
    obtain ⟨m, hm, rfl⟩ := Option.map_eq_some_iff.mp hn
    obtain ⟨path, hget, hencode⟩ := (encodePaths_get hencoded).2 f bytes hbytes
    -- the path has no zero in it, so the string ends where it did
    rw [stdString_cString (encode_no_zero (hnul path (List.mem_of_getElem? hget)) hencode)] at hpath
    refine ⟨path, m, hget, hm, ?_, ?_⟩
    · rw [hencode, hpath]
    · rw [hranges]
      exact cUint32_eq (hfits.counts m (List.mem_of_getElem? hm))
  · obtain ⟨memory, n, -, -, -, -, hget⟩ := hspec f file hfile
    obtain ⟨offset, size, dst, hoffset, hsize, hdst, rfl⟩ := hget j r hr
    have hbase : CallArgs.base ⟨cUint32 paths.length, encoded.map cString, numRanges.map cUint32,
        rangeOffsets.map cUint64, rangeSizes.map cUint64, rangeDsts.map cUint64⟩ f
          = (numRanges.take f).sum.toNat := by
      unfold CallArgs.base
      dsimp only
      rw [← List.map_take]
      have hsum := sum_cUint32 (fun n hn => hfits.counts n (List.mem_of_mem_take hn) :
        ∀ n ∈ numRanges.take f, 0 ≤ n ∧ n < 2 ^ 32)
      omega
    rw [hbase] at hoffset hsize hdst
    have hwords := hfits.words
    simp only [List.forall_mem_append] at hwords
    obtain ⟨hoffsetEq, hoffsetLt⟩ := cUint64_get hwords.1 hoffset
    obtain ⟨hsizeEq, hsizeLt⟩ := cUint64_get hwords.2.1 hsize
    obtain ⟨hdstEq, hdstLt⟩ := cUint64_get hwords.2.2 hdst
    unfold readRange
    dsimp only
    rw [wrap_of_lt hoffsetLt, wrap_of_lt hsizeLt, wrap_of_lt hdstLt]
    exact ⟨hoffsetEq, hsizeEq, hdstEq⟩

/-- **Requests come across as they were given**: what Python accepts, of
fewer than `2 ^ 32` files with no zero character in their paths, the C side
rebuilds without reading outside of an array; and Python rejects all whose
lists disagree or whose values do not fit. -/
theorem request_marshalled (paths : List PyStr)
    (numRanges rangeOffsets rangeSizes rangeDsts : List Int) :
    (∀ args, paths.length < 2 ^ 32 → (∀ path ∈ paths, 0 ∉ path) →
      runaiRequest paths numRanges rangeOffsets rangeSizes rangeDsts = .ok args →
        ∃ files, submitRequest args = some files ∧
          Rebuilds paths numRanges rangeOffsets rangeSizes rangeDsts files) ∧
      (¬ Fits paths numRanges rangeOffsets rangeSizes rangeDsts →
        ∃ error, runaiRequest paths numRanges rangeOffsets rangeSizes rangeDsts
          = .error error) := by
  constructor
  · exact fun args hcount hnul h => accepted_rebuilds hcount hnul h
  · intro hunfit
    cases h : runaiRequest paths numRanges rangeOffsets rangeSizes rangeDsts with
    | error error => exact ⟨error, rfl⟩
    | ok args => exact absurd (runaiRequest_fits h).1 hunfit

/-- The witness: two files, the first of which has no ranges. -/
theorem request_marshalled_two :
    (∃ files, submitRequest ⟨2, [[97, 0], [98, 0]], [0, 2], [5, 0], [1, 3], [64, 16]⟩ = some files ∧
      Rebuilds [[97], [98]] [0, 2] [5, 0] [1, 3] [64, 16] files) ∧
      ∃ error, runaiRequest [[97], [98]] [-1, 1] [] [] [] = .error error :=
  ⟨(request_marshalled [[97], [98]] [0, 2] [5, 0] [1, 3] [64, 16]).1 _ (by decide) (by decide)
      (by rfl),
    (request_marshalled [[97], [98]] [-1, 1] [] [] []).2 (fun hfits =>
      absurd (hfits.counts (-1) (by simp)) (by decide))⟩

/-! ## §7. The requests of the iterator. -/

/-- Words as Python integers. -/
def ints (values : List Nat) : List Int := values.map (fun n : Nat => (n : Int))

/-- A string without surrogates. -/
def ofString (s : String) : PyStr :=
  s.toList.map (fun c => ⟨c.val.toNat, by
    have hvalid := c.valid
    unfold UInt32.isValidChar Nat.isValidChar at hvalid
    omega⟩)

/-- `FileRanges`, with the bytes of its path. -/
def native (file : FileRanges) : NativeFile :=
  ⟨file.path.toList.flatMap String.utf8EncodeChar, file.ranges⟩

theorem encode_ofString (s : String) :
    encode (ofString s) = some (s.toList.flatMap String.utf8EncodeChar) := by
  unfold ofString
  induction s.toList with
  | nil => rfl
  | cons c chars ih =>
      rw [List.map_cons, List.flatMap_cons]
      have hchar : encodeChar ⟨c.val.toNat, by
          have hvalid := c.valid
          unfold UInt32.isValidChar Nat.isValidChar at hvalid
          omega⟩ = some (String.utf8EncodeChar c) := by
        unfold encodeChar
        dsimp only
        rw [if_pos c.valid]
        exact congrArg (fun c => some (String.utf8EncodeChar c)) (Char.ofNat_toNat c)
      unfold encode
      rw [hchar, Option.bind_some, ih]
      rfl

theorem encodePaths_ofString (paths : List String) :
    encodePaths (paths.map ofString)
      = some (paths.map (fun path => path.toList.flatMap String.utf8EncodeChar)) := by
  induction paths with
  | nil => rfl
  | cons path paths ih =>
      rw [List.map_cons, List.map_cons]
      unfold encodePaths
      rw [encode_ofString, Option.bind_some, ih]
      rfl

theorem outside_cast {limit : Nat} {bound : Int} (hbound : bound = limit) (values : List Nat) :
    outside bound (ints values)
      = values.any (fun n => decide (limit ≤ n)) := by
  have hsame : ((fun value : Int => decide (value < 0 ∨ bound ≤ value)) ∘ fun n : Nat => (n : Int))
      = fun n => decide (limit ≤ n) := by
    funext n
    show decide ((n : Int) < 0 ∨ bound ≤ (n : Int)) = _
    rw [decide_eq_decide]
    omega
  unfold outside ints
  rw [List.any_map, hsame]

theorem sum_cast (values : List Nat) :
    (ints values).sum = (values.sum : Int) := by
  induction values with
  | nil => rfl
  | cons n values ih =>
      show (n : Int) + (ints values).sum = _
      rw [ih, List.sum_cons, Nat.cast_add]

theorem ints_length (values : List Nat) : (ints values).length = values.length :=
  List.length_map _

theorem cUint64_cast (n : Nat) : cUint64 (n : Int) = wrap n := by
  unfold cUint64 wrap
  omega

/-- File `f` of the flat ranges. -/
theorem submitRequest_get {paths : List String} {numRanges : List Nat} (ranges : List ReadRange)
    {f n : Nat} {path : String} (hpath : paths[f]? = some path) (hn : numRanges[f]? = some n) :
    (FileStreamer.submitRequest paths numRanges ranges)[f]?
      = some ⟨path, (ranges.drop (numRanges.take f).sum).take n⟩ := by
  induction f generalizing paths numRanges ranges with
  | zero =>
      cases paths with
      | nil => simp at hpath
      | cons first paths =>
          cases numRanges with
          | nil => simp at hn
          | cons m numRanges =>
              obtain rfl := Option.some.inj hpath
              obtain rfl := Option.some.inj hn
              rfl
  | succ f ih =>
      cases paths with
      | nil => simp at hpath
      | cons first paths =>
          cases numRanges with
          | nil => simp at hn
          | cons m numRanges =>
              unfold FileStreamer.submitRequest
              rw [List.getElem?_cons_succ, List.take_succ_cons, List.sum_cons]
              rw [@ih paths numRanges (ranges.drop m) hpath hn, List.drop_drop]

theorem submitRequest_length (paths : List String) (numRanges : List Nat)
    (ranges : List ReadRange) :
    (FileStreamer.submitRequest paths numRanges ranges).length
      = min paths.length numRanges.length := by
  induction paths generalizing numRanges ranges with
  | nil => simp [FileStreamer.submitRequest]
  | cons path paths ih =>
      cases numRanges with
      | nil => rfl
      | cons n numRanges =>
          unfold FileStreamer.submitRequest
          rw [List.length_cons, ih, List.length_cons, List.length_cons]
          omega

/-- **A request of words** that the one accepts is accepted by the other. -/
theorem runaiRequest_cast {paths : List String} {numRanges rangeOffsets rangeSizes
    rangeDsts : List Nat} {files : List FileRanges}
    (h : FileStreamer.runaiRequest paths numRanges rangeOffsets rangeSizes rangeDsts
      = .ok files) :
    files = FileStreamer.submitRequest paths numRanges
        (List.zipWith readRange (rangeOffsets.zip rangeSizes) rangeDsts) ∧
      runaiRequest (paths.map ofString) (ints numRanges)
          (ints rangeOffsets) (ints rangeSizes)
          (ints rangeDsts)
        = .ok ⟨cUint32 (paths.map ofString).length,
            (paths.map (fun path => path.toList.flatMap String.utf8EncodeChar)).map cString,
            (ints numRanges).map cUint32,
            (ints rangeOffsets).map cUint64,
            (ints rangeSizes).map cUint64,
            (ints rangeDsts).map cUint64⟩ := by
  unfold FileStreamer.runaiRequest at h
  dsimp only at h
  split_ifs at h with hfiles hparallel hcounts htotal hsizes hoffsets hdsts
  refine ⟨(Except.ok.inj h).symm, ?_⟩
  have hword : (2 ^ 64 : Int) = ((2 ^ 64 : Nat) : Int) := by norm_num
  have hcount : (2 ^ 32 : Int) = ((2 ^ 32 : Nat) : Int) := by norm_num
  unfold runaiRequest
  dsimp only
  rw [if_neg (by rw [ints_length, List.length_map]; exact hfiles),
    if_neg (by rw [ints_length, ints_length, ints_length, not_not]; exact hparallel),
    if_neg (by rw [outside_cast hcount]; exact hcounts),
    if_neg (by rw [sum_cast, ints_length]; omega),
    if_neg (by rw [outside_cast hword]; exact hsizes),
    if_neg (by rw [outside_cast hword]; exact hoffsets),
    if_neg (by rw [outside_cast hword]; exact hdsts), encodePaths_ofString]

/-- A range read from wrapped words. -/
theorem readRange_wrap (offset size dst : Nat) :
    readRange (wrap offset, wrap size) (wrap dst) = readRange (offset, size) dst := by
  have hwrap : ∀ n, wrap (wrap n) = wrap n := fun n => wrap_of_lt (wrap_lt n)
  unfold readRange
  simp only [hwrap]

theorem ints_get {values : List Nat} {k word : Nat}
    (h : ((ints values).map cUint64)[k]? = some word) :
    ∃ value, values[k]? = some value ∧ word = wrap value := by
  unfold ints at h
  rw [List.map_map, List.getElem?_map] at h
  obtain ⟨value, hvalue, rfl⟩ := Option.map_eq_some_iff.mp h
  exact ⟨value, hvalue, cUint64_cast value⟩

theorem counts_cast {numRanges : List Nat} (h : ∀ n ∈ ints numRanges, 0 ≤ n ∧ n < 2 ^ 32) :
    (ints numRanges).map cUint32 = numRanges := by
  unfold ints at h ⊢
  rw [List.map_map]
  refine Eq.trans (List.map_congr_left (fun n hn => ?_)) (List.map_id numRanges)
  have hfit := h n (List.mem_map.mpr ⟨n, hn, rfl⟩)
  exact cUint32_cast (by omega)

/-- Ranges read from the arrays are cut out of the list of them. -/
theorem cut_ranges {rangeOffsets rangeSizes rangeDsts : List Nat} {base n : Nat}
    {ranges : List ReadRange} (hlength : ranges.length = n)
    (hget : ∀ (j : Nat) (r : ReadRange), ranges[j]? = some r →
      ∃ offset size dst, ((ints rangeOffsets).map cUint64)[base + j]? = some offset ∧
        ((ints rangeSizes).map cUint64)[base + j]? = some size ∧
        ((ints rangeDsts).map cUint64)[base + j]? = some dst ∧
        r = readRange (offset, size) dst) :
    ranges = ((List.zipWith readRange (rangeOffsets.zip rangeSizes) rangeDsts).drop base).take n := by
  apply List.ext_getElem?
  intro j
  cases hr : ranges[j]? with
  | none =>
      have hle := List.getElem?_eq_none_iff.mp hr
      rw [List.getElem?_take, if_neg (by omega)]
  | some r =>
      have hlt : j < n := by
        rw [← hlength]
        exact (List.getElem?_eq_some_iff.mp hr).1
      obtain ⟨offset, size, dst, hoffset, hsize, hdst, rfl⟩ := hget j r hr
      obtain ⟨offset', hoffset', rfl⟩ := ints_get hoffset
      obtain ⟨size', hsize', rfl⟩ := ints_get hsize
      obtain ⟨dst', hdst', rfl⟩ := ints_get hdst
      have hpair : (rangeOffsets.zip rangeSizes)[base + j]? = some (offset', size') :=
        List.getElem?_zip_eq_some.mpr ⟨hoffset', hsize'⟩
      rw [List.getElem?_take, if_pos hlt, List.getElem?_drop, List.getElem?_zipWith, hpair, hdst',
        readRange_wrap]

/-- **The C side** rebuilds what `submitRequest` cuts out. -/
theorem submitRequest_native {paths : List String} {numRanges rangeOffsets rangeSizes
    rangeDsts : List Nat} {files : List FileRanges} (hcount : paths.length < 2 ^ 32)
    (hnul : ∀ path ∈ paths, 0 ∉ ofString path)
    (h : FileStreamer.runaiRequest paths numRanges rangeOffsets rangeSizes rangeDsts
      = .ok files) :
    ∃ args, runaiRequest (paths.map ofString) (ints numRanges) (ints rangeOffsets)
        (ints rangeSizes) (ints rangeDsts) = .ok args ∧
      submitRequest args = some (files.map native) := by
  obtain ⟨hfiles, haccepted⟩ := runaiRequest_cast h
  obtain ⟨hfits, -⟩ := runaiRequest_fits haccepted
  have hparallel := accepted_parallel (by rw [List.length_map]; exact hcount) hfits
    (encodePaths_ofString paths)
  have hcounts := counts_cast hfits.counts
  rw [hcounts] at haccepted hparallel
  have htotal := hparallel.total
  obtain ⟨rebuilt, hrebuilt, hlength, hspec⟩ := submitRequest_spec hparallel
  refine ⟨_, haccepted, ?_⟩
  rw [hrebuilt, hfiles]
  congr 1
  have hpaths := hparallel.paths_length
  have hnumRanges := hparallel.numRanges_length
  dsimp only at hpaths hnumRanges hlength
  rw [List.length_map, List.length_map] at hpaths
  apply List.ext_getElem?
  intro f
  rw [List.getElem?_map]
  cases hfile : rebuilt[f]? with
  | none =>
      have hle := List.getElem?_eq_none_iff.mp hfile
      rw [List.getElem?_eq_none_iff.mpr (by rw [submitRequest_length]; omega)]
      rfl
  | some file =>
      obtain ⟨memory, n, hmemory, hn, hstring, hranges, hget⟩ := hspec f file hfile
      dsimp only at hmemory hn hget
      rw [List.map_map, List.getElem?_map] at hmemory
      obtain ⟨path, hpath, rfl⟩ := Option.map_eq_some_iff.mp hmemory
      have hzero := encode_no_zero (hnul path (List.mem_of_getElem? hpath)) (encode_ofString path)
      have hbytes : path.toList.flatMap String.utf8EncodeChar = file.path :=
        Option.some.inj ((stdString_cString hzero).symm.trans hstring)
      rw [submitRequest_get _ hpath hn, Option.map_some]
      congr 1
      unfold native
      dsimp only
      rw [hbytes]
      obtain ⟨filePath, fileRanges⟩ := file
      congr 1
      exact cut_ranges hranges hget

/-- **What the library sees** of a request of the iterator is
`nativeRequest`. -/
theorem nativeRequest_marshalled {request : FilesRequest} {files : List FileRanges}
    (h : nativeRequest request = .ok files) (hcount : request.files.length < 2 ^ 32)
    (hnul : ∀ file ∈ request.files, 0 ∉ ofString file.path) :
    ∃ args, runaiRequest ((request.files.map FileChunks.path).map ofString)
        (ints (request.files.map (fun file => file.sizes.length)))
        (ints (request.files.flatMap FileChunks.offsets)) (ints request.flatSizes)
        (ints request.rangeDsts) = .ok args ∧
      submitRequest args = some (files.map native) := by
  refine submitRequest_native (by rw [List.length_map]; exact hcount) (fun path hpath => ?_) h
  obtain ⟨file, hfile, rfl⟩ := List.mem_map.mp hpath
  exact hnul file hfile

end ModelStreamer.FileStreamer.Marshal
