/-
  ModelStreamer.ModelCache.Protocol
  ─────────────────────────────────
  **THE CACHE DIRECTORY OF A MODEL** (`ObjectStorageModel`, and the
  `pull_files` it calls).

  Any number of processes share one cache directory.  Each one takes the lock
  beside the directory, decides by the sentinel file whether to download, and
  writes the sentinel when its `with` block ends well.

  One step is one system call, or the end of a pull.  An exception is possible
  at every step, a process may die at every step, and a lock is converted in
  two steps.

  The lock file, `dst + ".lock"`, lies beside the directory and stays there.
  That takes a `dst` that ends in a name: after a slash, a `.` or a `..` the
  lock file would lie inside of the directory, and `rmtree` would remove it.
-/
import ModelStreamer.Lib.Flock
import ModelStreamer.Lib.TransitionSystem

namespace ModelStreamer.ModelCache

open ModelStreamer.Lib

/-! ## §1. Paths. -/

/-- A name, or a text such as an object's key. -/
abbrev Text := List Char

/-- A path, by its components. -/
abbrev Path := List Text

/-- `SENTINEL_NAME`. -/
def sentinelName : Text := ".runai_complete".toList

/-- `self._sentinel`, seen from the cache directory. -/
def sentinel : Path := [sentinelName]

/-- `removeprefix`. -/
def removePrefix (s before : Text) : Text :=
  if before.isPrefixOf s then s.drop before.length else s

/-- `lstrip("/")`. -/
def lstripSlash (s : Text) : Text := s.dropWhile (· = '/')

/-- `rstrip("/")`. -/
def rstripSlash (s : Text) : Text := (lstripSlash s.reverse).reverse

/-- One more component of a path, resolved. -/
def resolve (path : Path) (component : Text) : Path :=
  if component = [] ∨ component = ['.'] then path
  else if component = ['.', '.'] then path.dropLast
  else path ++ [component]

/-- What there is on the way to a file, and the file. -/
def walk : Path → List Text → List Path
  | _, [] => []
  | path, component :: components =>
      resolve path component :: walk (resolve path component) components

/-- A path seen from the cache directory, where it lies in it. -/
def within (dir path : Path) : Option Path :=
  if dir.isPrefixOf path then some (path.drop dir.length) else none

/-- What writing the file `name` of the cache directory makes in it: the
directories on the way (`os.makedirs`) and the file. -/
def made (dir : Path) (name : Text) : List Path :=
  (walk dir (name.splitOn '/')).filterMap (within dir)

/-! ## §2. `pull_files`. -/

/-- What one call of `pull_files` is about: the model's path, the keys in the
bucket under its prefix, and the two patterns, each by what `fnmatch` says. -/
structure Pull where
  modelPath : Text
  keys : List Text
  allow : Option (Text → Bool)
  ignore : Option (Text → Bool)

/-- `prefix` of `list_files`, which `pull_files` calls `base_dir`. -/
def Pull.baseDir (pull : Pull) : Text :=
  let parts := (removePrefix pull.modelPath "s3://".toList).splitOn '/'
  let base := rstripSlash (['/'].intercalate parts.tail)
  if base = [] then [] else base ++ ['/']

/-- `list_files`, after the listing. -/
def Pull.listFiles (pull : Pull) : List Text :=
  let paths := pull.keys.filter (fun key => key.getLast? ≠ some '/')
  let paths := match pull.allow with
    | none => paths
    | some allow => paths.filter allow
  match pull.ignore with
    | none => paths
    | some ignore => paths.filter (fun path => !ignore path)

/-- `destination_file`, seen from the cache directory. -/
def Pull.localName (pull : Pull) (file : Text) : Text :=
  lstripSlash (removePrefix file pull.baseDir)

/-- Everything the call makes in the cache directory, in order. -/
def Pull.todo (dir : Path) (pull : Pull) : List Path :=
  pull.listFiles.flatMap (fun file => made dir (pull.localName file))

/-! ## §3. One process. -/

/-- Where a process is in its use of the cache: what it does next. -/
inductive Pc where
  /-- `open(self._lock_path, "a")`. -/
  | init
  /-- `flock(LOCK_SH)`. -/
  | opened
  /-- The first `os.path.exists(self._sentinel)`. -/
  | shared
  /-- `flock(LOCK_UN)`, to give up the shared lock. -/
  | releasing
  /-- `flock(LOCK_EX)`. -/
  | unlocked
  /-- The second `os.path.exists(self._sentinel)`. -/
  | exclusive
  /-- `flock(LOCK_SH)`, holding the exclusive lock: it goes first. -/
  | downgrading
  /-- The same call, waiting for the shared lock. -/
  | converting
  /-- `os.path.exists(self.dir)`. -/
  | looking
  /-- In `shutil.rmtree(self.dir)`. -/
  | removing
  /-- `os.makedirs(self.dir)`. -/
  | making
  /-- In the `with` block. -/
  | block
  /-- In a `pull_files` of the block, with this to make. -/
  | pulling (todo : List Path)
  /-- `__exit__`, without an exception: `os.listdir(self.dir)`. -/
  | exiting
  /-- `open(self._sentinel, "w")`. -/
  | sealing
  /-- The last `flock(LOCK_UN)`: in an exception handler, `__exit__` or
  `__del__`. -/
  | unlocking
  /-- The lock file is closed, or the process is dead. -/
  | gone
  deriving DecidableEq, Repr

/-- One process and its use of the cache.  `skip` is `_skip`, once it is set;
`clean` and `finished` are history: no `pull_files` has raised an exception,
and the `with` block ended without one. -/
structure Use where
  pc : Pc
  skip : Option Bool
  clean : Bool
  finished : Bool
  deriving DecidableEq, Repr

/-- Nothing done yet. -/
def Use.new : Use := ⟨.init, none, true, false⟩

/-- It goes on at `pc`. -/
def Use.goto (pc : Pc) (u : Use) : Use := { u with pc := pc }

@[simp] theorem Use.goto_pc (pc : Pc) (u : Use) : (u.goto pc).pc = pc := rfl

@[simp] theorem Use.goto_skip (pc : Pc) (u : Use) : (u.goto pc).skip = u.skip := rfl

/-- It sets `_skip`, and goes on at `pc`. -/
def Use.decide (skip : Bool) (pc : Pc) (u : Use) : Use := { u with pc := pc, skip := some skip }

@[simp] theorem Use.decide_pc (skip : Bool) (pc : Pc) (u : Use) : (u.decide skip pc).pc = pc := rfl

@[simp] theorem Use.decide_skip (skip : Bool) (pc : Pc) (u : Use) :
    (u.decide skip pc).skip = some skip := rfl

/-- An exception: `pull_files` has raised it, if that is where it comes from. -/
def Use.raise (u : Use) : Use :=
  { u with
    pc := .unlocking
    clean := match u.pc with
      | .pulling _ => false
      | _ => u.clean }

/-- The `with` block ends without an exception. -/
def Use.leave (u : Use) : Use :=
  { u with
    pc := if u.skip = some true then .unlocking else .exiting
    finished := true }

/-- The lock, the processes, and what is in the cache directory: `[]` is the
directory itself. -/
structure State (ι : Type) where
  lock : Flock ι
  use : ι → Use
  tree : List Path

/-- What a process does. -/
inductive Op where
  | openLock
  | flockShared
  | look
  | flockUnlock
  | flockExclusive
  | downgrade
  | convert
  | lookDir
  | removeEntry (path : Path)
  | removed
  | makedirs
  | pullFiles (pull : Pull)
  | make
  | returned
  /-- The block catches what `pull_files` raised. -/
  | swallow
  /-- The block ends without an exception. -/
  | leave
  | listdir
  | writeSentinel
  /-- An exception, or the object is dropped (`__del__`). -/
  | fail
  | unlock
  | die

/-! ## §4. Steps. -/

section Steps

variable {ι : Type} [DecidableEq ι]

/-- Process `i` goes on, and the rest stays. -/
def State.move (s : State ι) (i : ι) (f : Use → Use) : State ι :=
  { s with use := Function.update s.use i (f (s.use i)) }

def State.acquire (s : State ι) (i : ι) (mode : LockMode) (h : s.lock.Grants i mode) : State ι :=
  { s with lock := s.lock.acquire i mode h }

def State.release (s : State ι) (i : ι) : State ι := { s with lock := s.lock.release i }

omit [DecidableEq ι] in
def State.add (s : State ι) (path : Path) : State ι := { s with tree := s.tree.insert path }

/-- The downloaded names of `__exit__`. -/
def downloaded (tree : List Path) : List Path :=
  tree.filter (fun path => path.length = 1 ∧ path ≠ sentinel)

/-- What process `i` may do. -/
inductive Step (dir : Path) : State ι → ι × Op → State ι → Prop
  | openLock {s : State ι} {i : ι} (hpc : (s.use i).pc = .init) :
      Step dir s (i, .openLock) (s.move i (.goto .opened))
  | flockShared {s : State ι} {i : ι} (hpc : (s.use i).pc = .opened)
      (hgrants : s.lock.Grants i .shared) :
      Step dir s (i, .flockShared) ((s.acquire i .shared hgrants).move i (.goto .shared))
  | lookFirst {s : State ι} {i : ι} (hpc : (s.use i).pc = .shared) :
      Step dir s (i, .look)
        (s.move i (if sentinel ∈ s.tree then .decide true .block else .goto .releasing))
  | flockUnlock {s : State ι} {i : ι} (hpc : (s.use i).pc = .releasing) :
      Step dir s (i, .flockUnlock) ((s.release i).move i (.goto .unlocked))
  | flockExclusive {s : State ι} {i : ι} (hpc : (s.use i).pc = .unlocked)
      (hgrants : s.lock.Grants i .exclusive) :
      Step dir s (i, .flockExclusive) ((s.acquire i .exclusive hgrants).move i (.goto .exclusive))
  | lookAgain {s : State ι} {i : ι} (hpc : (s.use i).pc = .exclusive) :
      Step dir s (i, .look)
        (s.move i (if sentinel ∈ s.tree then .decide true .downgrading
          else .decide false .looking))
  | downgrade {s : State ι} {i : ι} (hpc : (s.use i).pc = .downgrading) :
      Step dir s (i, .downgrade) ((s.release i).move i (.goto .converting))
  | convert {s : State ι} {i : ι} (hpc : (s.use i).pc = .converting)
      (hgrants : s.lock.Grants i .shared) :
      Step dir s (i, .convert) ((s.acquire i .shared hgrants).move i (.goto .block))
  | lookDir {s : State ι} {i : ι} (hpc : (s.use i).pc = .looking) :
      Step dir s (i, .lookDir)
        (s.move i (.goto (if [] ∈ s.tree then .removing else .making)))
  /-- `rmtree` removes a file or an empty directory. -/
  | removeEntry {s : State ι} {i : ι} (path : Path) (hpc : (s.use i).pc = .removing)
      (hmem : path ∈ s.tree) (hleaf : ∀ p ∈ s.tree, path <+: p → p = path) :
      Step dir s (i, .removeEntry path) { s with tree := s.tree.filter (· ≠ path) }
  | removed {s : State ι} {i : ι} (hpc : (s.use i).pc = .removing) (hgone : [] ∉ s.tree) :
      Step dir s (i, .removed) (s.move i (.goto .making))
  | makedirs {s : State ι} {i : ι} (hpc : (s.use i).pc = .making) :
      Step dir s (i, .makedirs) ((s.add []).move i (.goto .block))
  /-- A process that skips pulls nothing. -/
  | pullSkipped {s : State ι} {i : ι} (pull : Pull) (hpc : (s.use i).pc = .block)
      (hskip : (s.use i).skip = some true) : Step dir s (i, .pullFiles pull) s
  | pullFiles {s : State ι} {i : ι} (pull : Pull) (hpc : (s.use i).pc = .block)
      (hskip : (s.use i).skip = some false) :
      Step dir s (i, .pullFiles pull) (s.move i (.goto (.pulling (pull.todo dir))))
  | make {s : State ι} {i : ι} (path : Path) (todo : List Path)
      (hpc : (s.use i).pc = .pulling (path :: todo)) :
      Step dir s (i, .make) ((s.add path).move i (.goto (.pulling todo)))
  | returned {s : State ι} {i : ι} (hpc : (s.use i).pc = .pulling []) :
      Step dir s (i, .returned) (s.move i (.goto .block))
  | swallow {s : State ι} {i : ι} (todo : List Path) (hpc : (s.use i).pc = .pulling todo) :
      Step dir s (i, .swallow) (s.move i (fun u => u.raise.goto .block))
  | leave {s : State ι} {i : ι} (hpc : (s.use i).pc = .block) :
      Step dir s (i, .leave) (s.move i .leave)
  | listdir {s : State ι} {i : ι} (hpc : (s.use i).pc = .exiting) (hdir : [] ∈ s.tree) :
      Step dir s (i, .listdir)
        (s.move i (.goto (if downloaded s.tree = [] then .unlocking else .sealing)))
  | writeSentinel {s : State ι} {i : ι} (hpc : (s.use i).pc = .sealing) (hdir : [] ∈ s.tree) :
      Step dir s (i, .writeSentinel) ((s.add sentinel).move i (.goto .unlocking))
  | fail {s : State ι} {i : ι} (hinit : (s.use i).pc ≠ .init) (hgone : (s.use i).pc ≠ .gone) :
      Step dir s (i, .fail) (s.move i .raise)
  | unlock {s : State ι} {i : ι} (hpc : (s.use i).pc = .unlocking) :
      Step dir s (i, .unlock) ((s.release i).move i (.goto .gone))
  | die {s : State ι} {i : ι} : Step dir s (i, .die) ((s.release i).move i (.goto .gone))

/-- The processes that use the cache directory `dir`, of which `tree` was
there before. -/
def cache (ι : Type) [DecidableEq ι] (dir : Path) (tree : List Path) :
    System (State ι) (ι × Op) where
  init s := s.lock = .free ∧ (∀ i, s.use i = .new) ∧ s.tree = tree
  step := Step dir

/-! ## §5. What a step changes. -/

/-- A step of one process is a step of that process alone. -/
theorem step_other {dir : Path} {s t : State ι} {a : ι × Op} (hstep : Step dir s a t) {j : ι}
    (hj : j ≠ a.1) : t.use j = s.use j := by
  cases hstep <;> first | rfl | exact Function.update_of_ne hj ..

/-- **Who decides**: only a process that looks for the sentinel, and to skip
only when it is there. -/
theorem step_skip {dir : Path} {s t : State ι} {a : ι × Op} (hstep : Step dir s a t) :
    (t.use a.1).skip = (s.use a.1).skip ∨
      ((s.use a.1).pc = .shared ∨ (s.use a.1).pc = .exclusive) ∧
        ((t.use a.1).skip = some true → sentinel ∈ s.tree) := by
  cases hstep with
  | @lookFirst i hpc =>
      by_cases hmem : sentinel ∈ s.tree
      · exact .inr ⟨.inl hpc, fun _ => hmem⟩
      · refine .inl ?_
        show (Function.update s.use i _ i).skip = _
        rw [Function.update_self, if_neg hmem]
        rfl
  | @lookAgain i hpc =>
      refine .inr ⟨.inr hpc, fun htrue => ?_⟩
      by_contra habsent
      simp [State.move, Use.decide, habsent] at htrue
  | removeEntry path hpc hmem hleaf => exact .inl rfl
  | pullSkipped pull hpc hskip => exact .inl rfl
  | _ =>
      left
      show (Function.update s.use _ _ _).skip = _
      rw [Function.update_self]
      rfl

/-- **Who removes**: only a process in `rmtree`. -/
theorem step_tree {dir : Path} {s t : State ι} {a : ι × Op} (hstep : Step dir s a t) :
    (∀ path ∈ s.tree, path ∈ t.tree) ∨ (s.use a.1).pc = .removing := by
  cases hstep with
  | removeEntry path hpc hmem hleaf => exact .inr hpc
  | makedirs hpc => exact .inl (fun _ hmem => List.mem_insert_of_mem hmem)
  | make path todo hpc => exact .inl (fun _ hmem => List.mem_insert_of_mem hmem)
  | writeSentinel hpc hdir => exact .inl (fun _ hmem => List.mem_insert_of_mem hmem)
  | _ => exact .inl (fun _ => id)

end Steps

end ModelStreamer.ModelCache
