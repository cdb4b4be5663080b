/-
  ModelStreamer.ModelCache.Download
  ─────────────────────────────────
  **WHERE DOWNLOADED OBJECTS LAND** (`files.py` of the S3, Azure and GCS
  packages).

  The local name of an object is what follows the prefix in its key, less
  the slashes in front.  Nothing is done about the components of that name,
  so `..` leaves the destination directory and different keys may share a
  file.

    • `land_inside`, `land_escapes` — a name stays in every directory exactly
      when none of its `..` climbs above the start,
    • `pull_safe_iff` — what a listing has to be for its files to be safe, for
      each of the three packages,
    • `parent_key_escapes` — a key that leaves the directory, and two keys of
      one file.
-/
import Mathlib.Data.List.TakeWhile
import ModelStreamer.ModelCache.Protocol

namespace ModelStreamer.ModelCache

/-! ## §1. The three packages. -/

inductive Provider where
  | s3
  | azure
  | gcs
  deriving DecidableEq, Repr

def Provider.scheme : Provider → Text
  | .s3 => "s3://".toList
  | .azure => "az://".toList
  | .gcs => "gs://".toList

/-- An object of the bucket, and what `_is_adls_directory` says of it. -/
structure Blob where
  key : Text
  stub : Bool
  deriving DecidableEq, Repr

/-- One call of `pull_files`: the model's path, what the service lists, and
the two pattern lists, each by what `fnmatch` says. -/
structure Request where
  modelPath : Text
  listing : List Blob
  allow : Option (Text → Bool)
  ignore : Option (Text → Bool)

/-- `model_path`, with a slash at its end. -/
def Request.path (r : Request) : Text :=
  if r.modelPath.getLast? = some '/' then r.modelPath else r.modelPath ++ ['/']

/-- What follows the bucket in the path.  Azure splits at the first slash,
the others at every one. -/
def Provider.rest (p : Provider) (path : Text) : Text :=
  let path := removePrefix path p.scheme
  match p with
  | .azure => (path.dropWhile (· ≠ '/')).tail
  | .s3 => ['/'].intercalate (path.splitOn '/').tail
  | .gcs => ['/'].intercalate (path.splitOn '/').tail

/-- `prefix` of `list_files`, which `pull_files` calls `base_dir`. -/
def Request.baseDir (p : Provider) (r : Request) : Text :=
  let base := rstripSlash (p.rest r.path)
  -- the root of the bucket has no prefix, not even a slash
  if base = [] then [] else base ++ ['/']

/-- The names in the listing; Azure leaves out directory stubs. -/
def Request.names (p : Provider) (r : Request) : List Text :=
  match p with
  | .azure => (r.listing.filter (fun blob => !blob.stub)).map Blob.key
  | .s3 => r.listing.map Blob.key
  | .gcs => r.listing.map Blob.key

/-- `list_files`: first nothing that matches `*/`, then the two patterns. -/
def Request.files (p : Provider) (r : Request) : List Text :=
  let paths := (r.names p).filter (fun key => key.getLast? ≠ some '/')
  let paths := match r.allow with
    | none => paths
    | some allow => paths.filter allow
  match r.ignore with
  | none => paths
  | some ignore => paths.filter (fun path => !ignore path)

/-- The components of `destination_file` after `dst`. -/
def Request.components (p : Provider) (r : Request) (file : Text) : List Text :=
  (lstripSlash (removePrefix file (r.baseDir p))).splitOn '/'

/-- Where a path ends that goes on from a directory. -/
def land (dir : Path) (components : List Text) : Path := components.foldl resolve dir

/-- `destination_file`, resolved. -/
def Request.destination (p : Provider) (r : Request) (dir : Path) (file : Text) : Path :=
  land dir (r.components p file)

/-- A path that ends like this names a directory, and no file is written. -/
def namesFile (components : List Text) : Bool :=
  match components.getLast? with
  | none => false
  | some name => decide (name ≠ [] ∧ name ≠ ['.'] ∧ name ≠ ['.', '.'])

/-- `pull_files` writes a file for this key.  The file system may still object:
where an earlier file stands in the way of a directory, as `m/a` does for
`m/a/../b`, `makedirs` raises, and the pull ends there. -/
def Request.Writes (p : Provider) (r : Request) (file : Text) : Prop :=
  file ∈ r.files p ∧ namesFile (r.components p file) = true

/-- **The three prefixes** are what follows the first slash after the
scheme. -/
theorem rest_eq (p : Provider) (path : Text) :
    p.rest path = ((removePrefix path p.scheme).dropWhile (· ≠ '/')).tail := by
  have hsplit : ∀ s : Text,
      ['/'].intercalate (s.splitOn '/').tail = (s.dropWhile (· ≠ '/')).tail := by
    intro s
    have hparts : s.takeWhile (· ≠ '/') ++ s.dropWhile (· ≠ '/') = s :=
      List.takeWhile_append_dropWhile
    have hbefore : '/' ∉ s.takeWhile (· ≠ '/') := by
      intro hmem
      have htrue := List.mem_takeWhile_imp hmem
      simp at htrue
    cases hafter : s.dropWhile (· ≠ '/') with
    | nil =>
        -- there is no slash
        rw [hafter, List.append_nil] at hparts
        rw [hparts] at hbefore
        rw [List.splitOn_eq_singleton hbefore]
        rfl
    | cons slash after =>
        have hslash : slash = '/' := by
          have hhead := List.head_dropWhile_not (· ≠ '/') (by rw [hafter]; simp)
          simp only [hafter, List.head_cons] at hhead
          simpa using hhead
        subst hslash
        rw [hafter] at hparts
        have heq : s.splitOn '/' = s.takeWhile (· ≠ '/') :: after.splitOn '/' := by
          rw [← List.splitOn_append_cons_self_of_not_mem hbefore, hparts]
        rw [heq, List.tail_cons, List.intercalate_splitOn, List.tail_cons]
  cases p with
  | s3 => exact hsplit _
  | azure => rfl
  | gcs => exact hsplit _

/-- **The S3 package** is the one the model cache calls. -/
theorem s3_pull (r : Request) (dir : Path) :
    r.files .s3 = Pull.listFiles ⟨r.path, r.listing.map Blob.key, r.allow, r.ignore⟩ ∧
      ∀ file, (walk dir (r.components .s3 file)).filterMap (within dir)
        = made dir (Pull.localName ⟨r.path, r.listing.map Blob.key, r.allow, r.ignore⟩ file) :=
  ⟨rfl, fun _ => rfl⟩

/-- The file is the last that is made on the way. -/
theorem walk_land (dir : Path) (component : Text) (components : List Text) :
    (walk dir (component :: components)).getLast? = some (land dir (component :: components)) := by
  induction components generalizing dir component with
  | nil => rfl
  | cons next components ih =>
      show (resolve dir component :: walk (resolve dir component) (next :: components)).getLast?
        = some (land (resolve dir component) (next :: components))
      rw [List.getLast?_cons, ih]
      rfl

/-! ## §2. Staying in a directory. -/

/-- Some `..` leaves more than was entered, `depth` having been entered
before. -/
def climbs : Nat → List Text → Bool
  | _, [] => false
  | depth, component :: components =>
      if component = [] ∨ component = ['.'] then climbs depth components
      else if component = ['.', '.'] then
        match depth with
        -- there is nothing left to leave
        | 0 => true
        | depth + 1 => climbs depth components
      else climbs (depth + 1) components

theorem land_cons (path : Path) (component : Text) (components : List Text) :
    land path (component :: components) = land (resolve path component) components := rfl

/-- **Where no `..` climbs**, the directory does not matter. -/
theorem land_inside (dir : Path) (components : List Text) {path : Path}
    (h : climbs path.length components = false) :
    land (dir ++ path) components = dir ++ land path components := by
  induction components generalizing path with
  | nil => rfl
  | cons component components ih =>
      rw [land_cons, land_cons]
      unfold climbs at h
      unfold resolve
      split
      next hskip =>
        rw [if_pos hskip] at h
        exact ih h
      next hname =>
        rw [if_neg hname] at h
        by_cases hparent : component = ['.', '.']
        · rw [if_pos hparent] at h
          rw [if_pos hparent, if_pos hparent]
          cases hpath : path with
          | nil => simp [hpath] at h
          | cons first rest =>
              rw [hpath, List.length_cons] at h
              rw [List.dropLast_append_of_ne_nil (by simp)]
              apply ih
              rw [List.length_dropLast, List.length_cons, Nat.add_sub_cancel]
              exact h
        · rw [if_neg hparent] at h
          rw [if_neg hparent, if_neg hparent, List.append_assoc]
          apply ih
          rw [List.length_append]
          exact h

theorem land_fresh {name : Text} (components : List Text) {path : Path} (hpath : name ∉ path)
    (hname : name ∉ components) : name ∉ land path components := by
  induction components generalizing path with
  | nil => exact hpath
  | cons component components ih =>
      rw [List.mem_cons, not_or] at hname
      rw [land_cons]
      refine ih ?_ hname.2
      unfold resolve
      split
      · exact hpath
      · split
        · exact fun hmem => hpath (List.mem_of_mem_dropLast hmem)
        · rw [List.mem_append, List.mem_singleton]
          exact fun hor => hor.elim hpath hname.1

/-- **Where one climbs**, a directory whose name does not come again is
left for good. -/
theorem land_escapes {name : Text} (components : List Text) {path : Path}
    (h : climbs path.length components = true) (hpath : name ∉ path)
    (hname : name ∉ components) : name ∉ land (name :: path) components := by
  induction components generalizing path with
  | nil => simp [climbs] at h
  | cons component components ih =>
      rw [List.mem_cons, not_or] at hname
      rw [land_cons]
      unfold climbs at h
      unfold resolve
      split
      next hskip =>
        rw [if_pos hskip] at h
        exact ih h hpath hname.2
      next hskip =>
        rw [if_neg hskip] at h
        split
        next hparent =>
          rw [if_pos hparent] at h
          cases hcases : path with
          | nil => exact land_fresh components (List.not_mem_nil) hname.2
          | cons first rest =>
              rw [hcases, List.length_cons] at h
              show name ∉ land (name :: (first :: rest).dropLast) components
              refine ih ?_ ?_ hname.2
              · rw [List.length_dropLast, List.length_cons, Nat.add_sub_cancel]
                exact h
              · rw [hcases] at hpath
                exact fun hmem => hpath (List.mem_of_mem_dropLast hmem)
        next hparent =>
          rw [if_neg hparent] at h
          show name ∉ land (name :: (path ++ [component])) components
          refine ih ?_ ?_ hname.2
          · rw [List.length_append]
            exact h
          · rw [List.mem_append, List.mem_singleton]
            exact fun hor => hor.elim hpath hname.1

/-- A name that is none of the components. -/
theorem fresh_name (components : List Text) : 'x' :: components.flatten ∉ components := by
  intro hmem
  have hle := (List.sublist_flatten_of_mem hmem).length_le
  rw [List.length_cons] at hle
  omega

/-- **Inside every directory** lies what never climbs. -/
theorem inside_iff (components : List Text) :
    (∀ dir, dir <+: land dir components) ↔ climbs 0 components = false := by
  constructor
  · intro hinside
    by_contra hclimbs
    have hprefix := hinside ['x' :: components.flatten]
    have hmem := hprefix.subset (List.mem_singleton_self _)
    exact land_escapes components (by simpa using hclimbs) List.not_mem_nil
      (fresh_name components) hmem
  · intro hclimbs dir
    have hland := @land_inside dir components [] hclimbs
    rw [List.append_nil] at hland
    rw [hland]
    exact List.prefix_append _ _

/-! ## §3. Safe downloads. -/

/-- Every file is in the destination directory, and no two keys have one. -/
structure Safe (p : Provider) (r : Request) (dir : Path) : Prop where
  inside : ∀ file, r.Writes p file → dir <+: r.destination p dir file
  apart : ∀ file file', r.Writes p file → r.Writes p file' → file ≠ file' →
    r.destination p dir file ≠ r.destination p dir file'

/-- A name without its empty and `.` components, each `..` taken with the
component it leaves. -/
def plain (components : List Text) : List Text := land [] components

/-- **The condition**: no key's name climbs, and no two names are plainly the
same. -/
structure Confined (p : Provider) (r : Request) : Prop where
  stays : ∀ file, r.Writes p file → climbs 0 (r.components p file) = false
  distinct : ∀ file file', r.Writes p file → r.Writes p file' → file ≠ file' →
    plain (r.components p file) ≠ plain (r.components p file')

theorem destination_eq {p : Provider} {r : Request} (h : Confined p r) (dir : Path) {file : Text}
    (hwrites : r.Writes p file) :
    r.destination p dir file = dir ++ plain (r.components p file) := by
  have hland := @land_inside dir (r.components p file) [] (h.stays file hwrites)
  rw [List.append_nil] at hland
  exact hland

theorem Confined.safe {p : Provider} {r : Request} (h : Confined p r) (dir : Path) :
    Safe p r dir where
  inside := by
    intro file hwrites
    rw [destination_eq h dir hwrites]
    exact List.prefix_append _ _
  apart := by
    intro file file' hwrites hwrites' hne heq
    rw [destination_eq h dir hwrites, destination_eq h dir hwrites'] at heq
    exact h.distinct file file' hwrites hwrites' hne (List.append_cancel_left heq)

/-- **When downloads are safe**, whatever the destination directory. -/
theorem pull_safe_iff (p : Provider) (r : Request) :
    (∀ dir, Safe p r dir) ↔ Confined p r := by
  constructor
  · intro hsafe
    have hstays : ∀ file, r.Writes p file → climbs 0 (r.components p file) = false :=
      fun file hwrites => (inside_iff _).mp (fun dir => (hsafe dir).inside file hwrites)
    exact ⟨hstays, (hsafe []).apart⟩
  · exact fun h dir => h.safe dir

/-- **Without a `..`** nothing climbs, and two names are plainly the same when
they differ in `.` and in slashes only. -/
theorem plain_of_no_parent {components : List Text} (h : ['.', '.'] ∉ components) :
    climbs 0 components = false ∧
      plain components = components.filter (fun c => decide (c ≠ [] ∧ c ≠ ['.'])) := by
  have hall : ∀ (depth : Nat) (path : Path), climbs depth components = false ∧
      land path components
        = path ++ components.filter (fun c => decide (c ≠ [] ∧ c ≠ ['.'])) := by
    induction components with
    | nil => exact fun depth path => ⟨rfl, (List.append_nil path).symm⟩
    | cons component components ih =>
        intro depth path
        rw [List.mem_cons, not_or] at h
        have hparent : component ≠ ['.', '.'] := Ne.symm h.1
        rw [land_cons]
        unfold climbs resolve
        by_cases hskip : component = [] ∨ component = ['.']
        · rw [if_pos hskip, if_pos hskip, List.filter_cons_of_neg (by
            rw [decide_eq_true_eq, not_and_or, not_not, not_not]
            exact hskip)]
          exact ih h.2 depth path
        · rw [if_neg hskip, if_neg hskip, if_neg hparent, if_neg hparent,
            List.filter_cons_of_pos (by
              rw [decide_eq_true_eq, ← not_or]
              exact hskip)]
          obtain ⟨hclimbs, hland⟩ := ih h.2 (depth + 1) (path ++ [component])
          exact ⟨hclimbs, by rw [hland, List.append_assoc]; rfl⟩
  exact ⟨(hall 0 []).1, (hall 0 []).2⟩

/-- The model `m` of a bucket `b`, in which someone put three more objects. -/
def parentRequest : Request :=
  ⟨"s3://b/m".toList,
    [⟨"m/a".toList, false⟩, ⟨"m//a".toList, false⟩, ⟨"m/../x".toList, false⟩], none, none⟩

/-- **A key with `..`** is written outside of the destination directory, and
two keys that differ in a slash are written to one file. -/
theorem parent_key_escapes :
    parentRequest.Writes .s3 "m/../x".toList ∧
      parentRequest.destination .s3 ["dst".toList] "m/../x".toList = ["x".toList] ∧
      ¬ Safe .s3 parentRequest ["dst".toList] ∧
      parentRequest.Writes .s3 "m/a".toList ∧ parentRequest.Writes .s3 "m//a".toList ∧
      parentRequest.destination .s3 ["dst".toList] "m/a".toList
        = parentRequest.destination .s3 ["dst".toList] "m//a".toList := by
  have hwrites : parentRequest.Writes .s3 "m/../x".toList := ⟨by decide, by decide⟩
  refine ⟨hwrites, by decide, fun hsafe => ?_, ⟨by decide, by decide⟩, ⟨by decide, by decide⟩,
    by decide⟩
  exact absurd (hsafe.inside _ hwrites) (by decide)

end ModelStreamer.ModelCache
