/-
  ModelStreamer.Listing.Files
  ───────────────────────────
  **A LISTING, FROM THE SERVICE TO PYTHON** (`Streamer::list_files`, the C
  function `runai_list_files`, and `runai_list_files` of `libstreamer.py`).

  The streamer filters what the plugin hands over, the C function calls back
  into Python once for each file, and Python decodes the path.  An exception
  of a callback cannot pass through C: the first one is kept and raised
  afterwards, before the error code is looked at.

    • `decode_utf8`, `isMarker_utf8`, `cut_utf8` — a path on its way,
    • `listFiles_holds` — what the streamer lists of a bucket,
    • `listedPath_parse` — a listed path is the URI of its object,
    • `files_listed` — what Python gets is what the service holds.

  `fnmatch` is a parameter; the paths of Python have no surrogates.
-/
import Mathlib.Data.List.TakeWhile
import ModelStreamer.Listing.Stores

namespace ModelStreamer.Listing

open ModelStreamer.Lib ModelStreamer.FileStreamer ModelStreamer.Delivery

/-! ## §1. The streamer. -/

/-- What an iteration over a directory gives. -/
structure DirectoryEntry where
  path : List UInt8
  isRegularFile : Bool
  fileSize : Nat
  deriving DecidableEq, Repr

/-- The surroundings of a streamer that lists: whether a pattern matches a
path, the client a URI gets, the allocator and the memory of the process, and
the filesystem; an iteration over a directory may throw. -/
structure Host where
  fnmatch : List UInt8 → List UInt8 → Bool
  client : StorageUri → Except Failure Store
  new : Allocator
  memory : Nat → UInt8
  pathExists : String → Bool
  iterate : String → Bool → Option (List DirectoryEntry)

section Streamer

variable (host : Host)

/-- The lambda `keep`: no pattern at all allows everything. -/
def Host.keep (allow ignore : List (List UInt8)) (path : List UInt8) : Bool :=
  (allow.isEmpty || allow.any (fun p => host.fnmatch p path)) &&
    !ignore.any (fun p => host.fnmatch p path)

/-- `Streamer::list_files`; `none` while it still runs. -/
def Host.listFiles (fuel : Nat) (path : String) (isRecursive : Bool)
    (allow ignore : List (List UInt8)) : Option (Except Failure (List Listed)) :=
  match StorageUri.parse path with
  | some uri =>
      match host.client uri with
      | .error f => some (.error f)
      | .ok store =>
          match implObjListFiles store host.new host.memory fuel path isRecursive with
          | none => none
          | some handed =>
              if handed.ret ≠ .success then some (.error (.exception handed.ret))
              else
                handed.read.map (fun entries =>
                  .ok (entries.filter (fun entry => host.keep allow ignore entry.1)))
  | none =>
      if host.pathExists path then
        match host.iterate path isRecursive with
        -- `std::filesystem::filesystem_error`
        | none => some (.error .assertion)
        | some entries =>
            some (.ok ((entries.filter (fun entry =>
              entry.isRegularFile && host.keep allow ignore entry.path)).map
                (fun entry => (entry.path, entry.fileSize))))
      else some (.error (.exception .fileAccessError))

/-- `runai_list_files` of `streamer.cc`: its calls of the callback, and what
it returns. -/
def Host.runaiListFilesC (fuel : Nat) (path : String) (isRecursive : Bool)
    (allow ignore : List (List UInt8)) : Option (List Listed × ResponseCode) :=
  (host.listFiles fuel path isRecursive allow ignore).map (fun result =>
    match result with
    | .ok files => (files.map cut, .success)
    | .error f => ([], f.code))

end Streamer

/-! ## §2. Python. -/

/-- The calls of `_cb`: what they append, and the exception of the first one
that raises; the calls after it return at once. -/
def callbacks : List Listed → List (String × Nat) × Option String
  | [] => ([], none)
  | (path, size) :: calls =>
      match String.fromUTF8? ⟨path.toArray⟩ with
      | none => ([], some "'utf-8' codec can't decode")
      | some path =>
          let (results, error) := callbacks calls
          ((path, size) :: results, error)

/-- `make_pattern_array`, as the library reads it. -/
def patternArray (patterns : List String) : List (List UInt8) :=
  patterns.map (fun pattern => utf8 (received pattern).toList)

/-- `libstreamer.runai_list_files`, with a callback that appends. -/
def Host.runaiListFiles (host : Host) (responseStr : ResponseCode → String) (fuel : Nat)
    (path : String) (isRecursive : Bool) (allowPatterns ignorePatterns : List String) :
    Option (Except String (List (String × Nat))) :=
  (host.runaiListFilesC fuel (received path) isRecursive (patternArray allowPatterns)
    (patternArray ignorePatterns)).map (fun called =>
      match callbacks called.1 with
      | (_, some error) => .error error
      | (results, none) =>
          if called.2 ≠ .success then
            .error s!"runai_list_files failed: {responseStr called.2}"
          else .ok results)

/-! ## §3. A path on its way. -/

/-- A path of valid UTF-8 is decoded. -/
theorem decode_utf8 (s : String) : String.fromUTF8? ⟨(utf8 s.toList).toArray⟩ = some s := by
  have hbytes : (⟨(utf8 s.toList).toArray⟩ : ByteArray) = s.toByteArray := by
    rw [← String.utf8Encode_toList]
    apply ByteArray.ext
    unfold List.utf8Encode
    rw [List.data_toByteArray]
    rfl
  rw [hbytes]
  exact dif_pos s.isValidUTF8

/-- The slash is the only character whose last byte is one. -/
theorem utf8EncodeChar_last (c : Char) :
    (String.utf8EncodeChar c).getLast? = some 47 ↔ c = '/' := by
  have hlast : ∀ n : Nat, UInt8.ofNat (n % 64 + 128) ≠ 47 := by
    intro n heq
    have hmod := congrArg UInt8.toNat heq
    rw [UInt8.toNat_ofNat'] at hmod
    have hvalue : (47 : UInt8).toNat = 47 := rfl
    omega
  constructor
  · intro h
    unfold String.utf8EncodeChar at h
    dsimp only at h
    split at h
    · have hbyte := congrArg UInt8.toNat (Option.some.inj h)
      rw [List.getLast_singleton, UInt8.toNat_ofNat'] at hbyte
      have hvalue : (47 : UInt8).toNat = 47 := rfl
      exact Char.ext (UInt32.toNat_inj.mp (by show c.val.toNat = 47; omega))
    split at h
    · exact absurd (Option.some.inj h) (hlast _)
    split at h
    · exact absurd (Option.some.inj h) (hlast _)
    · exact absurd (Option.some.inj h) (hlast _)
  · rintro rfl
    rfl

/-- A marker is a name that ends with a slash. -/
theorem isMarker_utf8 (chars : List Char) :
    isMarker (utf8 chars) = decide (chars.getLast? = some '/') := by
  unfold isMarker
  rw [decide_eq_decide]
  rcases List.eq_nil_or_concat chars with rfl | ⟨front, c, rfl⟩
  · simp [utf8]
  · unfold utf8
    rw [List.concat_eq_append, List.flatMap_append, List.getLast?_append, List.getLast?_append]
    have hc := utf8EncodeChar_last c
    obtain ⟨last, hlast⟩ := Option.ne_none_iff_exists'.mp
      (mt List.getLast?_eq_none_iff.mp (@String.utf8EncodeChar_ne_nil c))
    rw [hlast] at hc
    simpa [hlast] using hc

theorem zero_notMem_utf8 {chars : List Char} (h : Char.ofNat 0 ∉ chars) : 0 ∉ utf8 chars := by
  intro hzero
  obtain ⟨c, hc, hbyte⟩ := List.mem_flatMap.mp hzero
  refine Marshal.utf8_no_zero (fun hval => h ?_) hbyte
  have hnul : c = Char.ofNat 0 := Char.ext (UInt32.toNat_inj.mp hval)
  exact hnul ▸ hc

/-- A path without a zero is not cut. -/
theorem cut_utf8 {chars : List Char} (h : Char.ofNat 0 ∉ chars) (size : Nat) :
    cut (utf8 chars, size) = (utf8 chars, size) := by
  have hbytes : ∀ byte ∈ utf8 chars, decide (byte ≠ 0) = true := by
    intro byte hbyte
    rw [decide_eq_true_eq]
    rintro rfl
    exact zero_notMem_utf8 h hbyte
  unfold cut
  rw [List.takeWhile_eq_self_iff.mpr hbytes]

/-- **All callbacks append**, where every path can be decoded. -/
theorem callbacks_utf8 (files : List (String × Nat)) :
    callbacks (files.map (fun file => (utf8 file.1.toList, file.2))) = (files, none) := by
  induction files with
  | nil => rfl
  | cons file files ih =>
      rw [List.map_cons, callbacks, decode_utf8]
      dsimp only
      rw [ih]

/-! ## §4. The objects of a bucket. -/

/-- An object by its name. -/
def stored (object : String × Nat) : StoredObject := ⟨utf8 object.1.toList, object.2⟩

/-- Its path in a listing. -/
def listedPath (uri : StorageUri) (name : String) : String :=
  uri.scheme ++ "://" ++ uri.bucket ++ "/" ++ name

/-- Not a directory marker. -/
def isFile (object : String × Nat) : Bool := !decide (object.1.toList.getLast? = some '/')

/-- The objects a listing names: with no zero in the name, and of a size that
is one. -/
structure Nameable (objects : List (String × Nat)) : Prop where
  no_zero : ∀ object ∈ objects, Char.ofNat 0 ∉ object.1.toList
  size_lt : ∀ object ∈ objects, object.2 < 2 ^ 64

/-- What a listing of the objects gives, before the filter. -/
def listedFiles (uri : StorageUri) (objects : List (String × Nat)) : List (String × Nat) :=
  (objects.filter isFile).map (fun object => (listedPath uri object.1, object.2))

/-- As the plugin hands it over. -/
def asBytes (file : String × Nat) : Listed := (utf8 file.1.toList, file.2)

section Objects

variable {uri : StorageUri}

/-- **What the plugin lists** of them. -/
theorem filterMap_listed {objects : List (String × Nat)} (h : Nameable objects) :
    (objects.map stored).filterMap (listed uri) = (listedFiles uri objects).map asBytes := by
  have hone : ∀ object ∈ objects, listed uri (stored object)
      = if isFile object then some (asBytes (listedPath uri object.1, object.2)) else none := by
    intro object hobject
    have hsize : Marshal.cUint64 (object.2 : Int) = object.2 := by
      have hlt := h.size_lt object hobject
      unfold Marshal.cUint64
      omega
    unfold listed stored isFile
    dsimp only
    rw [isMarker_utf8, hsize]
    cases hlast : decide (object.1.toList.getLast? = some '/') with
    | true => rfl
    | false =>
        show some (uriPrefix uri ++ utf8 object.1.toList, object.2) = some _
        unfold uriPrefix asBytes listedPath utf8
        rw [String.toList_append (s := uri.scheme ++ "://" ++ uri.bucket ++ "/"),
          List.flatMap_append]
  unfold listedFiles
  clear h
  induction objects with
  | nil => rfl
  | cons object objects ih =>
      rw [List.forall_mem_cons] at hone
      rw [List.map_cons, List.filterMap_cons, hone.1, ih hone.2]
      cases hfile : isFile object with
      | true => simp [hfile]
      | false => simp [hfile]

/-- A URI has no zero before its key, where the path it is of has none. -/
theorem parse_received {path : String} (h : StorageUri.parse (received path) = some uri)
    {name : String} (hname : Char.ofNat 0 ∉ name.toList) :
    Char.ofNat 0 ∉ (listedPath uri name).toList := by
  obtain ⟨-, hpath, -⟩ := StorageUri.parse_eq_some.mp h
  have hzero : Char.ofNat 0 ∉ (received path).toList := by
    rw [received_toList]
    intro hmem
    have hstop := List.all_eq_true.mp List.all_takeWhile (Char.ofNat 0) hmem
    simp at hstop
  rw [hpath] at hzero
  unfold listedPath
  simp only [String.toList_append, List.mem_append, List.mem_cons, not_or] at hzero ⊢
  exact ⟨⟨⟨hzero.1, hzero.2.1⟩, by decide⟩, hname⟩

/-- **A listed path is the URI of its object**, unless the name cannot be in
one. -/
theorem listedPath_parse {path : String} (h : StorageUri.parse (received path) = some uri)
    {name : String} (hname : Char.ofNat 0 ∉ name.toList) :
    pathType (listedPath uri name) = some (protocol (pluginOf uri)) ∧
      (StorageUri.parse (received (listedPath uri name)) = some ⟨uri.scheme, uri.bucket, name⟩ ↔
        name ≠ "" ∧ ∀ c ∈ name.toList, c ≠ '\n' ∧ c ≠ '\r') := by
  have hzero := parse_received h hname
  have hwhole : received (listedPath uri name) = listedPath uri name := by
    unfold received
    rw [List.takeWhile_eq_self_iff.mpr, String.ofList_toList]
    intro c hc
    rw [decide_eq_true_eq]
    rintro rfl
    exact hzero hc
  have hchars : (listedPath uri name).toList
      = uri.scheme.toList ++ "://".toList ++ (uri.bucket.toList ++ '/' :: name.toList) := by
    unfold listedPath
    simp [String.toList_append]
  obtain ⟨hscheme, -, hbucket, hslash, -⟩ := StorageUri.parse_eq_some.mp h
  constructor
  · apply pathType_of_protocol
    rw [hchars]
    refine List.IsPrefix.trans ?_ (List.prefix_append _ _)
    simp only [List.mem_cons, List.not_mem_nil, or_false] at hscheme
    unfold pluginOf StorageUri.isGcs StorageUri.isAzure
    rcases hscheme with hscheme | hscheme | hscheme <;> rw [hscheme] <;>
      exact List.prefix_refl _
  · have hempty : name.toList ≠ [] ↔ name ≠ "" := not_congr String.toList_eq_nil_iff
    rw [hwhole, StorageUri.parse_eq_some, hempty]
    exact ⟨fun hparts => ⟨hparts.2.2.2.2.1, hparts.2.2.2.2.2⟩,
      fun hname => ⟨hscheme, hchars, hbucket, hslash, hname.1, hname.2⟩⟩

end Objects

/-! ## §5. The whole way. -/

/-- What a caller is to get: the files of the bucket that pass the filter. -/
def Host.expected (host : Host) (uri : StorageUri) (allowPatterns ignorePatterns : List String)
    (objects : List (String × Nat)) : List (String × Nat) :=
  (listedFiles uri objects).filter (fun file =>
    host.keep (patternArray allowPatterns) (patternArray ignorePatterns) (utf8 file.1.toList))

section Listing

variable {host : Host} {path : String} {uri : StorageUri} {store : Store}

theorem runaiListFiles_holds (responseStr : ResponseCode → String)
    (huri : StorageUri.parse (received path) = some uri) (hclient : host.client uri = .ok store)
    {isRecursive : Bool} (allowPatterns ignorePatterns : List String)
    {objects : List (String × Nat)} (hnames : Nameable objects)
    (hholds : store.Holds uri isRecursive (objects.map stored))
    (hnew : host.new (blockBytes ((listedFiles uri objects).map asBytes)) ≠ none)
    (hcount : (listedFiles uri objects).length < 2 ^ 32) :
    ∃ fuel, ∀ more, host.runaiListFiles responseStr (fuel + more) path isRecursive allowPatterns
      ignorePatterns = some (.ok (host.expected uri allowPatterns ignorePatterns objects)) := by
  have hlisted := @filterMap_listed uri objects hnames
  obtain ⟨fuel, hhanded⟩ := @implObjListFiles_holds store host.new host.memory _ uri
    isRecursive _ huri hholds (hlisted ▸ hnew) (by rw [hlisted, List.length_map]; exact hcount)
  refine ⟨fuel, fun more => ?_⟩
  obtain ⟨handed, himpl, hret, hread⟩ := hhanded more
  have hzero : ∀ file ∈ listedFiles uri objects, Char.ofNat 0 ∉ file.1.toList := by
    intro file hfile
    obtain ⟨object, hobject, rfl⟩ := List.mem_map.mp hfile
    exact parse_received huri (hnames.no_zero object (List.mem_of_mem_filter hobject))
  have hcut : ∀ files : List (String × Nat), (∀ file ∈ files, Char.ofNat 0 ∉ file.1.toList) →
      (files.map asBytes).map cut = files.map asBytes := by
    intro files hfiles
    rw [List.map_map]
    exact List.map_congr_left fun file hfile => cut_utf8 (hfiles file hfile) file.2
  rw [hlisted, hcut _ hzero] at hread
  unfold Host.runaiListFiles Host.runaiListFilesC Host.listFiles
  rw [huri]
  dsimp only
  rw [hclient]
  dsimp only
  rw [himpl]
  dsimp only
  rw [if_neg (not_not.mpr hret), hread, Option.map_some, Option.map_some, Option.map_some]
  dsimp only
  have hfilter : ((listedFiles uri objects).map asBytes).filter (fun entry =>
        host.keep (patternArray allowPatterns) (patternArray ignorePatterns) entry.1)
      = (host.expected uri allowPatterns ignorePatterns objects).map asBytes := by
    rw [List.filter_map]
    rfl
  have hexpected : ∀ file ∈ host.expected uri allowPatterns ignorePatterns objects,
      Char.ofNat 0 ∉ file.1.toList := fun file hfile =>
    hzero file (List.mem_of_mem_filter hfile)
  have hcalls := callbacks_utf8 (host.expected uri allowPatterns ignorePatterns objects)
  rw [hfilter, hcut _ hexpected]
  unfold asBytes
  rw [hcalls]
  rfl

theorem runaiListFiles_fails (responseStr : ResponseCode → String)
    (huri : StorageUri.parse (received path) = some uri) (hclient : host.client uri = .ok store)
    {isRecursive : Bool} (allowPatterns ignorePatterns : List String)
    (hfails : store.Fails uri isRecursive) :
    ∃ fuel, ∀ more, ∃ error, host.runaiListFiles responseStr (fuel + more) path isRecursive
      allowPatterns ignorePatterns = some (.error error) := by
  obtain ⟨fuel, hhanded⟩ :=
    @implObjListFiles_fails store host.new host.memory _ uri isRecursive huri hfails
  refine ⟨fuel, fun more => ?_⟩
  obtain ⟨handed, himpl, hret, -, -⟩ := hhanded more
  unfold Host.runaiListFiles Host.runaiListFilesC Host.listFiles
  rw [huri]
  dsimp only
  rw [hclient]
  dsimp only
  rw [himpl]
  dsimp only
  rw [if_pos hret, Option.map_some, Option.map_some]
  exact ⟨_, congrArg some (if_pos hret)⟩

/-- **A bucket listed from Python.**  However the listing comes in pages,
what is returned is one path and size for each object that is no directory
marker and passes the filter; a failure of the service on any page is raised,
and nothing is returned.  A path that is listed has the source type of the
listing, and the library reads it as the bucket and the name of its object,
unless the name has a line break. -/
theorem files_listed (responseStr : ResponseCode → String)
    (huri : StorageUri.parse (received path) = some uri) (hclient : host.client uri = .ok store)
    (isRecursive : Bool) (allowPatterns ignorePatterns : List String) :
    (∀ objects, Nameable objects → store.Holds uri isRecursive (objects.map stored) →
      host.new (blockBytes ((listedFiles uri objects).map asBytes)) ≠ none →
      (listedFiles uri objects).length < 2 ^ 32 →
      ∃ fuel, ∀ more, host.runaiListFiles responseStr (fuel + more) path isRecursive allowPatterns
        ignorePatterns = some (.ok (host.expected uri allowPatterns ignorePatterns objects))) ∧
    (store.Fails uri isRecursive →
      ∃ fuel, ∀ more, ∃ error, host.runaiListFiles responseStr (fuel + more) path isRecursive
        allowPatterns ignorePatterns = some (.error error)) ∧
    (∀ objects, Nameable objects → ∀ object ∈ objects,
      pathType (listedPath uri object.1) = some (protocol (pluginOf uri)) ∧
      (StorageUri.parse (received (listedPath uri object.1))
          = some ⟨uri.scheme, uri.bucket, object.1⟩ ↔
        object.1 ≠ "" ∧ ∀ c ∈ object.1.toList, c ≠ '\n' ∧ c ≠ '\r')) := by
  refine ⟨fun objects hnames hholds hnew hcount => ?_, fun hfails => ?_,
    fun objects hnames object hobject => ?_⟩
  · exact runaiListFiles_holds responseStr huri hclient allowPatterns ignorePatterns hnames hholds
      hnew hcount
  · exact runaiListFiles_fails responseStr huri hclient allowPatterns ignorePatterns hfails
  · exact listedPath_parse huri (hnames.no_zero object hobject)

/-- A service that gives a directory marker and a file on its first page, and
another file on the second. -/
def twoPages (calls : Nat) (_ : ListObjectsV2Request) : Option ListObjectsV2Result :=
  if calls = 0 then some ⟨[stored ("m/", 0), stored ("m/a", 3)], true, "t"⟩
  else some ⟨[stored ("m/b", 5)], false, ""⟩

theorem block_fits {n : Nat} (h : 2 ^ 32 + n ≤ 2 ^ 64) : 2 ^ 32 + n ≤ 2 ^ 64 := h

/-- Its host: blocks at one address, and patterns that are the path. -/
def twoPagesHost : Host where
  fnmatch pattern path := decide (pattern = path)
  client _ := .ok (.s3 twoPages)
  new n := if h : 2 ^ 32 + n ≤ 2 ^ 64 then some ⟨2 ^ 32, block_fits h⟩ else none
  memory _ := 0
  pathExists _ := false
  iterate _ _ := none

theorem twoPages_parse : StorageUri.parse (received "s3://b/m/") = some ⟨"s3", "b", "m/"⟩ := by
  decide +kernel

theorem twoPages_nameable : Nameable [("m/", 0), ("m/a", 3), ("m/b", 5)] :=
  ⟨by decide, by decide⟩

theorem twoPages_holds :
    (Store.s3 twoPages).Holds ⟨"s3", "b", "m/"⟩ true
      ([("m/", 0), ("m/a", 3), ("m/b", 5)].map stored) := by
  have hrest : Pages twoPages 1 { firstRequest ⟨"s3", "b", "m/"⟩ true with
      continuationToken := some "t" } [stored ("m/b", 5)] := .last rfl
  exact @Pages.more twoPages 0 _ [stored ("m/", 0), stored ("m/a", 3)] _ "t" rfl hrest

/-- Two pages and a file to ignore. -/
theorem files_listed_twoPages :
    ∃ fuel, ∀ more, twoPagesHost.runaiListFiles (fun _ => "") (fuel + more) "s3://b/m/" true []
      ["s3://b/m/b"] = some (.ok [("s3://b/m/a", 3)]) := by
  have hlisted := (@files_listed twoPagesHost "s3://b/m/" _ _ (fun _ => "") twoPages_parse rfl true
    [] ["s3://b/m/b"]).1 _ twoPages_nameable twoPages_holds (by decide +kernel) (by decide +kernel)
  exact hlisted

end Listing

end ModelStreamer.Listing
