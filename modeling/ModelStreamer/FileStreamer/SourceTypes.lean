/-
  ModelStreamer.FileStreamer.SourceTypes
  ──────────────────────────────────────
  **THE SOURCE TYPE OF A PATH**, in Python and in the native library.

  `homogeneous_paths` goes by the prefix of a path.  `lock_object_plugin`
  takes for object storage what `StorageUri` accepts, a whole URI; any other
  path is one of the filesystem.

    • `received_marshalled` — which part of a path the library gets,
    • `native_eq_some` — what the library takes for object storage,
    • `Full`, `Bare`, `BrokenKey` — whole URIs, what has only the prefix of
      one, and keys that `.` does not match,
    • `source_types` — the two agree on all but the bare paths, and what
      follows for a list of paths.
-/
import ModelStreamer.Delivery.Outcome
import ModelStreamer.FileStreamer.Marshal
import ModelStreamer.FileStreamer.Stream

namespace ModelStreamer.FileStreamer

open ModelStreamer.Planning ModelStreamer.Delivery

/-! ## §1. The path the library gets. -/

/-- A path as a `std::string` made of a `c_char_p`: it ends before its first
zero character. -/
def received (path : String) : String :=
  String.ofList (path.toList.takeWhile (· ≠ Char.ofNat 0))

theorem received_toList (path : String) :
    (received path).toList = path.toList.takeWhile (· ≠ Char.ofNat 0) :=
  String.toList_ofList

theorem received_isFront (path : String) : (received path).toList <+: path.toList := by
  rw [received_toList]
  exact List.takeWhile_prefix _

theorem codePoint_lt (c : Char) : c.toNat < 0x110000 := by
  have hvalid : c.toNat < 0xd800 ∨ 0xdfff < c.toNat ∧ c.toNat < 0x110000 := c.valid
  omega

/-- The Python string. -/
def codePoints (path : String) : Marshal.PyStr :=
  path.toList.map (fun c => ⟨c.toNat, codePoint_lt c⟩)

def utf8 (chars : List Char) : List UInt8 := chars.flatMap String.utf8EncodeChar

theorem encode_codePoints (path : String) :
    Marshal.encode (codePoints path) = some (utf8 path.toList) := by
  unfold codePoints
  induction path.toList with
  | nil => rfl
  | cons c chars ih =>
      have hchar : Marshal.encodeChar ⟨c.toNat, codePoint_lt c⟩ = some (String.utf8EncodeChar c) := by
        have hvalid : c.toNat.isValidChar := c.valid
        show (if c.toNat.isValidChar then some (String.utf8EncodeChar (Char.ofNat c.toNat))
          else none) = _
        rw [if_pos hvalid, Char.ofNat_toNat]
      rw [List.map_cons, Marshal.encode, hchar, ih]
      rfl

/-- Up to the first zero byte is up to the first zero character. -/
theorem takeWhile_utf8 (chars : List Char) :
    (Marshal.cString (utf8 chars)).takeWhile (· ≠ 0)
      = utf8 (chars.takeWhile (· ≠ Char.ofNat 0)) := by
  induction chars with
  | nil => rfl
  | cons c chars ih =>
      by_cases hc : c = Char.ofNat 0
      · subst hc
        rfl
      · have hbytes : ∀ byte ∈ String.utf8EncodeChar c, decide (byte ≠ 0) = true := by
          intro byte hbyte
          rw [decide_eq_true_eq]
          rintro rfl
          refine Marshal.utf8_no_zero (fun hzero => hc ?_) hbyte
          exact Char.ext (UInt32.toNat_inj.mp hzero)
        show ((String.utf8EncodeChar c ++ utf8 chars) ++ [0]).takeWhile (· ≠ 0) = _
        rw [List.append_assoc, List.takeWhile_append_of_pos hbytes, List.takeWhile_cons_of_pos]
        · show String.utf8EncodeChar c ++ (Marshal.cString (utf8 chars)).takeWhile (· ≠ 0) = _
          rw [ih]
          rfl
        · exact decide_eq_true hc

/-- **What the library gets** of a path. -/
theorem received_marshalled (path : String) :
    (Marshal.encode (codePoints path)).bind (fun bytes => Marshal.stdString (Marshal.cString bytes))
      = some (utf8 (received path).toList) := by
  rw [encode_codePoints, Option.bind_some, received_toList, ← takeWhile_utf8]
  exact if_pos (by simp [Marshal.cString])

/-! ## §2. A path in the library. -/

/-- What a URI of the plugin begins with. -/
def protocol : Plugin → String
  | .s3 => "s3://"
  | .gcs => "gs://"
  | .azure => "az://"

/-- The plugin `lock_object_plugin` finds for a path; none for the
filesystem. -/
def native (path : String) : Option Plugin := (StorageUri.parse (received path)).map pluginOf

/-- A whole URI of the plugin. -/
structure Splits (path : String) (p : Plugin) (bucket key : List Char) : Prop where
  uri : (received path).toList = (protocol p).toList ++ (bucket ++ '/' :: key)
  bucket_ne : bucket ≠ []
  bucket_slash : '/' ∉ bucket
  key_ne : key ≠ []

def Full (path : String) : Prop := ∃ p bucket key, Splits path p bucket key

/-- The prefix of a URI, without a bucket or without a key. -/
def Bare (path : String) : Prop := pathType path ≠ none ∧ ¬ Full path

/-- A line break in the key. -/
def BrokenKey (path : String) : Prop :=
  ∃ p bucket key, Splits path p bucket key ∧ ∃ c ∈ key, c = '\n' ∨ c = '\r'

/-- **Object storage** is a whole URI, unless its key is broken. -/
theorem native_eq_some {path : String} {p : Plugin} :
    native path = some p ↔
      ∃ bucket key, Splits path p bucket key ∧ ∀ c ∈ key, c ≠ '\n' ∧ c ≠ '\r' := by
  constructor
  · intro h
    obtain ⟨uri, huri, hp⟩ := Option.map_eq_some_iff.mp h
    obtain ⟨hscheme, hpath, hbucket, hslash, hkey, hplain⟩ := StorageUri.parse_eq_some.mp huri
    refine ⟨uri.bucket.toList, uri.path.toList, ⟨?_, hbucket, hslash, hkey⟩, hplain⟩
    rw [hpath, ← hp]
    simp only [List.mem_cons, List.not_mem_nil, or_false] at hscheme
    unfold pluginOf StorageUri.isGcs StorageUri.isAzure
    rcases hscheme with hscheme | hscheme | hscheme <;> rw [hscheme] <;> rfl
  · rintro ⟨bucket, key, hsplits, hplain⟩
    have hparse : ∀ scheme ∈ ["s3", "gs", "az"],
        (protocol p).toList = scheme.toList ++ "://".toList →
          StorageUri.parse (received path)
            = some ⟨scheme, String.ofList bucket, String.ofList key⟩ := by
      intro scheme hscheme hprotocol
      rw [StorageUri.parse_eq_some]
      simp only [String.toList_ofList]
      refine ⟨hscheme, ?_, hsplits.bucket_ne, hsplits.bucket_slash, hsplits.key_ne, hplain⟩
      rw [hsplits.uri, hprotocol]
    unfold native
    cases p with
    | s3 =>
        rw [hparse "s3" (by simp) rfl]
        rfl
    | gcs =>
        rw [hparse "gs" (by simp) rfl]
        rfl
    | azure =>
        rw [hparse "az" (by simp) rfl]
        rfl

/-! ## §3. The two sides on one path. -/

/-- Both sides attribute the path to the same backend. -/
def Alike (path : String) : Prop := pathType path = (native path).map protocol

theorem protocol_injective : Function.Injective protocol := by
  intro p q h
  revert h
  cases p <;> cases q <;> decide

/-- No protocol is the prefix of another. -/
theorem pathType_of_protocol {path : String} {p : Plugin}
    (h : (protocol p).toList <+: path.toList) : pathType path = some (protocol p) := by
  obtain ⟨rest, hrest⟩ := h
  unfold pathType
  rw [← hrest]
  cases p <;> rfl

theorem Splits.pathType_eq {path : String} {p : Plugin} {bucket key : List Char}
    (h : Splits path p bucket key) : pathType path = some (protocol p) :=
  pathType_of_protocol ((h.uri ▸ List.prefix_append _ _).trans (received_isFront path))

theorem native_ne_none {path : String} (hbroken : ¬ BrokenKey path) :
    native path ≠ none ↔ Full path := by
  constructor
  · intro h
    obtain ⟨p, hp⟩ := Option.ne_none_iff_exists'.mp h
    obtain ⟨bucket, key, hsplits, -⟩ := native_eq_some.mp hp
    exact ⟨p, bucket, key, hsplits⟩
  · rintro ⟨p, bucket, key, hsplits⟩
    have hplain : ∀ c ∈ key, c ≠ '\n' ∧ c ≠ '\r' := by
      intro c hc
      constructor <;> intro hbreak
      · exact hbroken ⟨p, bucket, key, hsplits, c, hc, Or.inl hbreak⟩
      · exact hbroken ⟨p, bucket, key, hsplits, c, hc, Or.inr hbreak⟩
    rw [native_eq_some.mpr ⟨bucket, key, hsplits, hplain⟩]
    simp

/-- **The bare paths** are those on which the two sides differ. -/
theorem alike_iff {path : String} (hbroken : ¬ BrokenKey path) : Alike path ↔ ¬ Bare path := by
  have hfull := native_ne_none hbroken
  unfold Alike Bare
  cases hnative : native path with
  | none =>
      -- for the library it is no URI, so Python must not see a prefix
      rw [hnative] at hfull
      have hnot : ¬ Full path := fun h => absurd rfl (hfull.mpr h)
      rw [Option.map_none]
      exact ⟨fun h hbare => hbare.1 h, fun h => by_contra fun hne => h ⟨hne, hnot⟩⟩
  | some p =>
      obtain ⟨bucket, key, hsplits, -⟩ := native_eq_some.mp hnative
      rw [Option.map_some, hsplits.pathType_eq]
      exact ⟨fun _ hbare => hbare.2 ⟨p, bucket, key, hsplits⟩, fun _ => rfl⟩

/-! ## §4. The two sides on a list of paths. -/

theorem homogeneousPaths_iff (paths : List String) :
    homogeneousPaths paths = true ↔ ∀ p ∈ paths, ∀ q ∈ paths, pathType p = pathType q := by
  cases paths with
  | nil => exact ⟨fun _ p hp => absurd hp List.not_mem_nil, fun _ => rfl⟩
  | cons first paths =>
      constructor
      · intro h
        have hfirst : ∀ p ∈ first :: paths, pathType p = pathType first := by
          intro p hp
          rcases List.mem_cons.mp hp with rfl | hp
          · rfl
          · exact of_decide_eq_true (List.all_eq_true.mp h p hp)
        exact fun p hp q hq => (hfirst p hp).trans (hfirst q hq).symm
      · intro h
        refine List.all_eq_true.mpr fun p hp => decide_eq_true ?_
        exact h p (List.mem_cons_of_mem _ hp) first List.mem_cons_self

/-- The paths of a request are these, and each of its files has a range. -/
structure Submits (request : List FileRanges) (paths : List String) : Prop where
  paths_eq : request.map FileRanges.path = paths.map received
  ranges : ∀ file ∈ request, file.ranges ≠ []

variable {n : Nat} {request : List FileRanges} {paths : List String}

/-- A fresh streamer reports a mix where the request is one. -/
theorem reports_iff (host : Host) {s : Service n} (hfresh : s.plugin = none) :
    (s.lockObjectPlugin host request).1 = .returned .unsupportedBackendMix ↔
      backendOf request = .mixed := by
  rw [lockObjectPlugin_eq]
  cases backendOf request with
  | mixed => simp
  | filesystem => simp
  | plugin p =>
      rcases lock_cases host s.marks p with ⟨-, q, hq, -⟩ | ⟨e, hlock, -⟩ | ⟨hlock, -⟩
      · have hnone : s.marks.plugin = none := hfresh
        rw [hnone] at hq
        simp at hq
      · simp [hlock]
      · simp [hlock]

/-- **A mix**, in terms of the paths: two that go to different backends. -/
theorem Submits.mixed_iff (h : Submits request paths) :
    backendOf request = .mixed ↔ ∃ p ∈ paths, ∃ q ∈ paths, native p ≠ native q := by
  have hasks : ∀ file ∈ request,
      askedBy file = some ((StorageUri.parse file.path).map pluginOf) := fun file hfile =>
    if_neg (by simpa using h.ranges file hfile)
  have hfile : ∀ p ∈ paths, ∃ file ∈ request, file.path = received p := by
    intro p hp
    have hmem : received p ∈ request.map FileRanges.path := by
      rw [h.paths_eq]
      exact List.mem_map_of_mem hp
    exact List.mem_map.mp hmem
  have hpath : ∀ file ∈ request, ∃ p ∈ paths, received p = file.path := by
    intro file hfile
    have hmem : file.path ∈ paths.map received := by
      rw [← h.paths_eq]
      exact List.mem_map_of_mem hfile
    exact List.mem_map.mp hmem
  rw [backendOf_mixed]
  constructor
  · rintro ⟨f, hf, g, hg, a, b, ha, hb, hne⟩
    obtain ⟨p, hp, hpf⟩ := hpath f hf
    obtain ⟨q, hq, hqg⟩ := hpath g hg
    refine ⟨p, hp, q, hq, ?_⟩
    rw [hasks f hf, ← hpf, Option.some.injEq] at ha
    rw [hasks g hg, ← hqg, Option.some.injEq] at hb
    unfold native
    rw [ha, hb]
    exact hne
  · rintro ⟨p, hp, q, hq, hne⟩
    obtain ⟨f, hf, hpf⟩ := hfile p hp
    obtain ⟨g, hg, hqg⟩ := hfile q hq
    refine ⟨f, hf, g, hg, native p, native q, ?_, ?_, hne⟩
    · rw [hasks f hf, hpf]
      rfl
    · rw [hasks g hg, hqg]
      rfl

/-- The two sides judge the list alike, and when it is accepted also each of
its paths. -/
def JudgedAlike (host : Host) (s : Service n) (request : List FileRanges) (paths : List String) :
    Prop :=
  (homogeneousPaths paths = true ↔
    (s.lockObjectPlugin host request).1 ≠ .returned .unsupportedBackendMix) ∧
  (homogeneousPaths paths = true → ∀ path ∈ paths, Alike path)

/-- **Source types in Python and in the library.**  A path goes to the same
backend on both sides unless it is bare.  A list is judged alike if none of
its paths is, and else only where both sides reject it: its paths begin
differently, and one of them is a whole URI. -/
theorem source_types (host : Host) {s : Service n} (hfresh : s.plugin = none)
    (hsubmits : Submits request paths) (hkeys : ∀ path ∈ paths, ¬ BrokenKey path) :
    (∀ path ∈ paths, (Alike path ↔ ¬ Bare path)) ∧
    (JudgedAlike host s request paths ↔
      (∀ path ∈ paths, ¬ Bare path) ∨
      ((∃ p ∈ paths, ∃ q ∈ paths, pathType p ≠ pathType q) ∧ ∃ path ∈ paths, Full path)) := by
  have halike : ∀ path ∈ paths, (Alike path ↔ ¬ Bare path) := fun path hpath =>
    alike_iff (hkeys path hpath)
  refine ⟨halike, ?_⟩
  unfold JudgedAlike
  rw [ne_eq, reports_iff host hfresh, hsubmits.mixed_iff, homogeneousPaths_iff]
  push Not
  constructor
  · rintro ⟨hjudge, hpaths⟩
    by_cases hbare : ∃ path ∈ paths, Bare path
    · obtain ⟨path, hpath, hbare⟩ := hbare
      right
      -- Python cannot have accepted the list, so the library has not either
      have hrejects : ¬ ∀ p ∈ paths, ∀ q ∈ paths, pathType p = pathType q := fun h =>
        (halike path hpath).mp (hpaths h path hpath) hbare
      have hreports : ¬ ∀ p ∈ paths, ∀ q ∈ paths, native p = native q := fun h =>
        hrejects (hjudge.mpr h)
      push Not at hrejects hreports
      refine ⟨hrejects, ?_⟩
      obtain ⟨p, hp, q, hq, hne⟩ := hreports
      by_cases hnone : native p = none
      · exact ⟨q, hq, (native_ne_none (hkeys q hq)).mp (hnone ▸ Ne.symm hne)⟩
      · exact ⟨p, hp, (native_ne_none (hkeys p hp)).mp hnone⟩
    · push Not at hbare
      exact Or.inl hbare
  · rintro (hnone | ⟨⟨p, hp, q, hq, hne⟩, path, hpath, hfull⟩)
    · have hall : ∀ path ∈ paths, pathType path = (native path).map protocol :=
        fun path hpath => (halike path hpath).mpr (hnone path hpath)
      refine ⟨⟨fun h p hp q hq => ?_, fun h p hp q hq => ?_⟩, fun _ => hall⟩
      · have hsame := h p hp q hq
        rw [hall p hp, hall q hq] at hsame
        exact Option.map_injective protocol_injective hsame
      · rw [hall p hp, hall q hq, h p hp q hq]
    · -- one URI: were all paths of its kind, Python would see one type
      have hrejects : ¬ ∀ p ∈ paths, ∀ q ∈ paths, pathType p = pathType q := fun h =>
        hne (h p hp q hq)
      refine ⟨⟨fun h => absurd h hrejects, fun h => ?_⟩, fun h => absurd h hrejects⟩
      obtain ⟨plugin, hplugin⟩ :=
        Option.ne_none_iff_exists'.mp ((native_ne_none (hkeys path hpath)).mpr hfull)
      have htype : ∀ other ∈ paths, pathType other = some (protocol plugin) := by
        intro other hother
        obtain ⟨bucket, key, hsplits, -⟩ :=
          native_eq_some.mp ((h other hother path hpath).trans hplugin)
        exact hsplits.pathType_eq
      exact absurd ((htype p hp).trans (htype q hq).symm) hne

/-- One byte of each path. -/
def oneByteEach (paths : List String) : List FileRanges :=
  paths.map (fun path =>
    ⟨received path, [⟨0, 1, 1, zero_lt_word, one_lt_word, one_lt_word⟩]⟩)

theorem oneByteEach_submits (paths : List String) : Submits (oneByteEach paths) paths := by
  refine ⟨by simp [oneByteEach], fun file hfile => ?_⟩
  obtain ⟨path, -, rfl⟩ := List.mem_map.mp hfile
  exact List.cons_ne_nil _ _

/-- A path in one line has no broken key. -/
theorem not_brokenKey {path : String} (h : ∀ c ∈ path.toList, c ≠ '\n' ∧ c ≠ '\r') :
    ¬ BrokenKey path := by
  rintro ⟨p, bucket, key, hsplits, c, hc, hbreak⟩
  have hmem : c ∈ path.toList := by
    refine (received_isFront path).subset ?_
    rw [hsplits.uri]
    exact List.mem_append_right _ (List.mem_append_right _ (List.mem_cons_of_mem _ hc))
  rcases hbreak with hbreak | hbreak
  · exact (h c hmem).1 hbreak
  · exact (h c hmem).2 hbreak

/-- Two objects of one bucket. -/
theorem source_types_objects :
    JudgedAlike noDescriptors (⟨idle, none, false, false⟩ : Service 1)
      (oneByteEach ["s3://b/k", "s3://b/l"]) ["s3://b/k", "s3://b/l"] := by
  have hpaths : ∀ path ∈ ["s3://b/k", "s3://b/l"], ¬ BrokenKey path ∧ Full path := by
    intro path hpath
    simp only [List.mem_cons, List.not_mem_nil, or_false] at hpath
    rcases hpath with rfl | rfl
    · exact ⟨not_brokenKey (by simp), .s3, ['b'], ['k'], by decide +kernel, by simp,
        by decide +kernel, by simp⟩
    · exact ⟨not_brokenKey (by simp), .s3, ['b'], ['l'], by decide +kernel, by simp,
        by decide +kernel, by simp⟩
  refine (source_types noDescriptors rfl (oneByteEach_submits _)
    fun path hpath => (hpaths path hpath).1).2.mpr (Or.inl fun path hpath hbare => ?_)
  exact hbare.2 (hpaths path hpath).2

/-- A bucket and an object in it: Python accepts them as two S3 paths, the
library reports that the filesystem and object storage mix. -/
theorem bucket_alone_mixes :
    homogeneousPaths ["s3://bucket", "s3://bucket/key"] = true ∧
      ((⟨idle, none, false, false⟩ : Service 1).lockObjectPlugin noDescriptors
        (oneByteEach ["s3://bucket", "s3://bucket/key"])).1
        = .returned .unsupportedBackendMix ∧
      pathType "s3://bucket" = some (protocol .s3) ∧ native "s3://bucket" = none := by
  decide +kernel

end ModelStreamer.FileStreamer
