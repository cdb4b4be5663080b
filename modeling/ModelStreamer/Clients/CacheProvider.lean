/-
  ModelStreamer.Clients.CacheProvider
  ───────────────────────────────────
  **THE AZURE CACHE PROVIDER, LOADED AND SHUT DOWN**
  (`azure/azcache_provider/azcache_provider_loader.cc`).

  Loaders share one handle to a cache library through a `weak_ptr`.  They
  take and release it under a mutex, apart from a constructor that throws:
  what it has locked is released while the exception is on its way.

    • `Step` — constructors, destructors and reads, in any order,
    • `Inv.step` — every step keeps the invariant,
    • `handle_contract` — a library handle is shut down at most once, when
      nobody holds it any more, and never read from again,
    • `one_session` — with one library path its sessions do not overlap.
-/
import ModelStreamer.Lib.TransitionSystem
import Mathlib.Data.List.Nodup
import Mathlib.Data.Fintype.Basic

namespace ModelStreamer.Clients.CacheProvider

open ModelStreamer.Lib

/-! ## §1. The loaders. -/

inductive CacheMode where
  | disabled
  | required
  | auto
  deriving DecidableEq, Repr

structure CacheProviderConfig where
  libPath : String
  mode : CacheMode
  deriving DecidableEq, Repr

/-- `CacheLibHandle`.  `loaded` is that `lib_handle` is not null, nor
`read_fn`; `closeFn` that `shutdown` is exported. -/
structure CacheLibHandle where
  libPath : String
  loaded : Bool
  closeFn : Bool
  deriving DecidableEq, Repr

/-- `CacheLibHandle::CacheLibHandle`; `none` when it throws.  `opened` is what
comes of the library: nothing, when it cannot be opened, has another ABI or
lacks `blob_read`; or else whether it exports `shutdown`. -/
def CacheLibHandle.new (config : CacheProviderConfig) (opened : Option Bool) :
    Option CacheLibHandle :=
  match opened with
  | some closeFn => some ⟨config.libPath, true, closeFn⟩
  | none => if config.mode = .required then none else some ⟨config.libPath, false, false⟩

/-- Where a loader is. -/
inductive Phase where
  | absent
  /-- In the section of its constructor. -/
  | constructing (config : CacheProviderConfig)
  /-- Its constructor has thrown, behind the section. -/
  | unwinding
  | live
  /-- Before the section of its destructor. -/
  | dying
  deriving DecidableEq, Repr

/-- An `AzCacheProviderLoader`: the handle it holds, by its number, its
`shared_ptr`s (the client's and those of its tasks), and how many of these
are in `read`. -/
structure Loader where
  phase : Phase
  handle : Option Nat
  owners : Nat
  reads : Nat

/-- What the libraries are called for.  `close` is `~CacheLibHandle` of a
loaded handle, and whether it calls `shutdown`. -/
inductive Event where
  | load (h : Nat)
  | read (h : Nat)
  | close (h : Nat) (called : Bool)
  deriving DecidableEq, Repr

def Event.handle : Event → Nat
  | .load h => h
  | .read h => h
  | .close h _ => h

/-- The handles ever made, the `weak_ptr`, the loaders of the process, and the
handles whose last reference is gone while their destructor is still to run,
each with whether the mutex is held for it. -/
structure State (n : Nat) where
  handles : List CacheLibHandle
  shared : Option Nat
  loaders : Fin n → Loader
  ending : List (Nat × Bool)
  log : List Event

variable {n : Nat}

/-- Somebody holds the handle. -/
def State.Refs (s : State n) (h : Nat) : Prop := ∃ i, (s.loaders i).handle = some h

instance (s : State n) (h : Nat) : Decidable (s.Refs h) :=
  inferInstanceAs (Decidable (∃ i, (s.loaders i).handle = some h))

/-- The handle has a library. -/
def State.Loaded (s : State n) (h : Nat) : Prop :=
  ∃ lib, s.handles[h]? = some lib ∧ lib.loaded = true

/-- `s_shared_handle.lock()`. -/
def State.lock (s : State n) : Option Nat := s.shared.filter (fun h => decide (s.Refs h))

/-- Nobody is in a section of the mutex. -/
def State.Free (s : State n) : Prop :=
  (∀ i config, (s.loaders i).phase ≠ .constructing config) ∧ ∀ e ∈ s.ending, e.2 = false

/-- Loader `i` becomes `l`.  A handle that nobody holds then comes to its
destructor. -/
def State.put (s : State n) (i : Fin n) (l : Loader) (locked : Bool) : State n :=
  let t : State n := { s with loaders := Function.update s.loaders i l }
  { t with
    ending := match (s.loaders i).handle with
      | some h => if t.Refs h then s.ending else s.ending ++ [(h, locked)]
      | none => s.ending }

/-- The constructor can use the handle it has locked. -/
def State.Reuses (s : State n) (i : Fin n) (config : CacheProviderConfig) : Prop :=
  ∃ h lib, (s.loaders i).handle = some h ∧ s.handles[h]? = some lib ∧ lib.loaded = true ∧
    lib.libPath = config.libPath

/-- A new handle, before anybody holds it. -/
def State.add (s : State n) (lib : CacheLibHandle) : State n :=
  { s with
    handles := s.handles ++ [lib]
    shared := some s.handles.length
    log := if lib.loaded then s.log ++ [.load s.handles.length] else s.log }

/-- `~CacheLibHandle`. -/
def State.finish (s : State n) (e : Nat × Bool) : State n :=
  { s with
    ending := s.ending.erase e
    log := match s.handles[e.1]? with
      | some lib => if lib.loaded then s.log ++ [.close e.1 lib.closeFn] else s.log
      | none => s.log }

inductive Op where
  | plain (config : CacheProviderConfig)
  | enter (config : CacheProviderConfig)
  | reuse
  | load (opened : Option Bool)
  | throws
  | unwound
  | share
  | drop
  | destroy
  | read
  | readDone
  | finish
  deriving DecidableEq, Repr

/-- The steps of loader `i`. -/
inductive Step : State n → Fin n × Op → State n → Prop
  /-- A constructor without a library to load.  With `Required` it throws
  where there is no path, and leaves nothing. -/
  | plain {s : State n} {i : Fin n} (config : CacheProviderConfig)
      (hphase : (s.loaders i).phase = .absent)
      (hnone : config.mode = .disabled ∨ config.libPath = "" ∧ config.mode = .auto) :
      Step s (i, .plain config) (s.put i ⟨.live, none, 1, 0⟩ false)
  /-- The constructor locks the `weak_ptr`, under the mutex. -/
  | enter {s : State n} {i : Fin n} (config : CacheProviderConfig)
      (hphase : (s.loaders i).phase = .absent) (hmode : config.mode ≠ .disabled)
      (hpath : config.libPath ≠ "") (hfree : s.Free) :
      Step s (i, .enter config) (s.put i ⟨.constructing config, s.lock, 0, 0⟩ true)
  | reuse {s : State n} {i : Fin n} {config : CacheProviderConfig}
      (hphase : (s.loaders i).phase = .constructing config) (hreuses : s.Reuses i config) :
      Step s (i, .reuse) (s.put i ⟨.live, (s.loaders i).handle, 1, 0⟩ true)
  /-- A new handle takes the place of what was locked. -/
  | load {s : State n} {i : Fin n} {config : CacheProviderConfig} (opened : Option Bool)
      {lib : CacheLibHandle} (hphase : (s.loaders i).phase = .constructing config)
      (hreuses : ¬ s.Reuses i config) (hnew : CacheLibHandle.new config opened = some lib) :
      Step s (i, .load opened)
        ((s.add lib).put i ⟨.live, some s.handles.length, 1, 0⟩ true)
  /-- The section is left with what was locked. -/
  | throws {s : State n} {i : Fin n} {config : CacheProviderConfig}
      (hphase : (s.loaders i).phase = .constructing config) (hreuses : ¬ s.Reuses i config)
      (hnew : CacheLibHandle.new config none = none) :
      Step s (i, .throws) (s.put i ⟨.unwinding, (s.loaders i).handle, 0, 0⟩ true)
  /-- Its member is destroyed, without the mutex. -/
  | unwound {s : State n} {i : Fin n} (hphase : (s.loaders i).phase = .unwinding) :
      Step s (i, .unwound) (s.put i ⟨.absent, none, 0, 0⟩ false)
  | share {s : State n} {i : Fin n} (hphase : (s.loaders i).phase = .live) :
      Step s (i, .share) (s.put i
        ⟨.live, (s.loaders i).handle, (s.loaders i).owners + 1, (s.loaders i).reads⟩ false)
  /-- An owner that is not in `read`. -/
  | drop {s : State n} {i : Fin n} (hphase : (s.loaders i).phase = .live)
      (hidle : (s.loaders i).reads < (s.loaders i).owners) :
      Step s (i, .drop) (s.put i
        ⟨if (s.loaders i).owners = 1 then .dying else .live, (s.loaders i).handle,
          (s.loaders i).owners - 1, (s.loaders i).reads⟩ false)
  | destroy {s : State n} {i : Fin n} (hphase : (s.loaders i).phase = .dying) (hfree : s.Free) :
      Step s (i, .destroy) (s.put i ⟨.absent, none, 0, (s.loaders i).reads⟩ true)
  /-- `read` of an enabled loader, up to the call of `blob_read`. -/
  | read {s : State n} {i : Fin n} {h : Nat} (hphase : (s.loaders i).phase = .live)
      (hidle : (s.loaders i).reads < (s.loaders i).owners)
      (hhandle : (s.loaders i).handle = some h) (hloaded : s.Loaded h) :
      Step s (i, .read) (State.put { s with log := s.log ++ [.read h] } i
        ⟨.live, (s.loaders i).handle, (s.loaders i).owners, (s.loaders i).reads + 1⟩ false)
  | readDone {s : State n} {i : Fin n} (hphase : (s.loaders i).phase = .live)
      (hreads : 0 < (s.loaders i).reads) :
      Step s (i, .readDone) (s.put i
        ⟨.live, (s.loaders i).handle, (s.loaders i).owners, (s.loaders i).reads - 1⟩ false)
  /-- A destructor runs, on whatever thread. -/
  | finish {s : State n} {i : Fin n} {e : Nat × Bool} (he : e ∈ s.ending) :
      Step s (i, .finish) (s.finish e)

/-- No loader yet. -/
structure Init (s : State n) : Prop where
  handles_eq : s.handles = []
  shared_eq : s.shared = none
  loaders_eq : ∀ i, s.loaders i = ⟨.absent, none, 0, 0⟩
  ending_eq : s.ending = []
  log_eq : s.log = []

/-- The loaders of a process. -/
def loaders (n : Nat) : System (State n) (Fin n × Op) := ⟨Init, Step⟩

/-- Every loader is configured with this path, or with none. -/
def OnePath (path : String) (_ : State n) : Fin n × Op → Prop
  | (_, .enter config) => config.libPath = path
  | _ => True

/-! ## §2. Loaders that move. -/

section Put

variable {s : State n} {i : Fin n} {l : Loader} {locked : Bool}

@[simp] theorem put_handles : (s.put i l locked).handles = s.handles := rfl

@[simp] theorem put_shared : (s.put i l locked).shared = s.shared := rfl

@[simp] theorem put_log : (s.put i l locked).log = s.log := rfl

@[simp] theorem put_loaders :
    (s.put i l locked).loaders = Function.update s.loaders i l := rfl

theorem put_self : (s.put i l locked).loaders i = l := by
  rw [put_loaders, Function.update_self]

theorem put_other {j : Fin n} (hj : j ≠ i) : (s.put i l locked).loaders j = s.loaders j := by
  rw [put_loaders, Function.update_of_ne hj]

/-- Who holds a handle then. -/
theorem refs_put {h : Nat} : (s.put i l locked).Refs h ↔
    l.handle = some h ∨ ∃ j, j ≠ i ∧ (s.loaders j).handle = some h := by
  constructor
  · rintro ⟨j, hj⟩
    by_cases heq : j = i
    · rw [heq, put_self] at hj
      exact Or.inl hj
    · rw [put_other heq] at hj
      exact Or.inr ⟨j, heq, hj⟩
  · rintro (hl | ⟨j, heq, hj⟩)
    · refine ⟨i, ?_⟩
      rw [put_self]
      exact hl
    · refine ⟨j, ?_⟩
      rw [put_other heq]
      exact hj

/-- A handle comes to its end when its last holder lets go. -/
theorem mem_ending_put {e : Nat × Bool} : e ∈ (s.put i l locked).ending ↔
    e ∈ s.ending ∨ e.2 = locked ∧ (s.loaders i).handle = some e.1 ∧
      ¬ (s.put i l locked).Refs e.1 := by
  have hending : (s.put i l locked).ending = match (s.loaders i).handle with
      | some h => if (s.put i l locked).Refs h then s.ending else s.ending ++ [(h, locked)]
      | none => s.ending := rfl
  rw [hending]
  cases hhandle : (s.loaders i).handle with
  | none => simp
  | some h =>
      dsimp only
      by_cases hrefs : (s.put i l locked).Refs h
      · rw [if_pos hrefs]
        refine ⟨Or.inl, fun hor => hor.resolve_right ?_⟩
        rintro ⟨-, heq, hnot⟩
        exact hnot (Option.some.inj heq ▸ hrefs)
      · rw [if_neg hrefs, List.mem_append, List.mem_singleton]
        refine or_congr_right ⟨?_, ?_⟩
        · rintro rfl
          exact ⟨rfl, rfl, hrefs⟩
        · rintro ⟨hlocked, heq, -⟩
          exact Prod.ext (Option.some.inj heq).symm hlocked

/-- The numbers of the handles that come to their end. -/
theorem ending_put_nodup (hnodup : (s.ending.map Prod.fst).Nodup)
    (hrefs : ∀ e ∈ s.ending, ¬ s.Refs e.1) :
    ((s.put i l locked).ending.map Prod.fst).Nodup := by
  show (List.map Prod.fst (match (s.loaders i).handle with
    | some h => if (s.put i l locked).Refs h then s.ending else s.ending ++ [(h, locked)]
    | none => s.ending)).Nodup
  cases hhandle : (s.loaders i).handle with
  | none => exact hnodup
  | some h =>
      show (List.map Prod.fst
        (if (s.put i l locked).Refs h then s.ending else s.ending ++ [(h, locked)])).Nodup
      split
      · exact hnodup
      · rw [List.map_append, List.nodup_append]
        refine ⟨hnodup, List.nodup_singleton h, fun a ha b hb hab => ?_⟩
        obtain ⟨e, he, rfl⟩ := List.mem_map.mp ha
        obtain rfl : b = h := List.mem_singleton.mp hb
        exact hrefs e he ⟨i, hab ▸ hhandle⟩

end Put

/-! ## §3. The invariant. -/

/-- **The library handles**: those at their end are held by nobody, a handle
is closed when it is neither held nor at its end, and whoever reads holds one
with a library.  `new` is the handle that is being made. -/
structure Inv (s : State n) (new : Option Nat) : Prop where
  known : ∀ i h, (s.loaders i).handle = some h → h < s.handles.length
  reads_le : ∀ i, (s.loaders i).reads ≤ (s.loaders i).owners
  spent : ∀ i, (s.loaders i).phase ≠ .live → (s.loaders i).owners = 0
  reading : ∀ i, 0 < (s.loaders i).reads → ∃ h, (s.loaders i).handle = some h ∧ s.Loaded h
  ending_nodup : (s.ending.map Prod.fst).Nodup
  ending_free : ∀ e ∈ s.ending, e.1 < s.handles.length ∧ ¬ s.Refs e.1
  loads : ∀ h, .load h ∈ s.log ↔ s.Loaded h
  opened : ∀ e ∈ s.log, s.Loaded e.handle
  closed : ∀ h, s.Loaded h → new ≠ some h →
    ((∃ called, .close h called ∈ s.log) ↔ ¬ s.Refs h ∧ h ∉ s.ending.map Prod.fst)
  fresh : ∀ h, new = some h → h < s.handles.length ∧ (∀ called, .close h called ∉ s.log) ∧
    h ∉ s.ending.map Prod.fst
  called : ∀ h called, .close h called ∈ s.log →
    ∃ lib, s.handles[h]? = some lib ∧ lib.closeFn = called
  ordered : s.log.Pairwise (fun e e' => e.handle = e'.handle →
    (∀ called, e ≠ .close e.handle called) ∧ e' ≠ .load e'.handle)

theorem Init.not_loaded {s : State n} (h : Init s) (k : Nat) : ¬ s.Loaded k := by
  rintro ⟨lib, hlib, -⟩
  rw [h.handles_eq] at hlib
  simp at hlib

theorem inv_init {s : State n} (h : Init s) : Inv s none := by
  have hnone := h.not_loaded
  refine ⟨?_, ?_, ?_, ?_, ?_, ?_, ?_, ?_, fun k hk => absurd hk (hnone k), by simp, ?_, ?_⟩
  · simp [h.loaders_eq]
  · simp [h.loaders_eq]
  · simp [h.loaders_eq]
  · simp [h.loaders_eq]
  · simp [h.ending_eq]
  · simp [h.ending_eq]
  · intro k
    simp [h.log_eq, hnone k]
  · simp [h.log_eq]
  · simp [h.log_eq]
  · simp [h.log_eq]

/-- **A loader moves.** -/
theorem Inv.put {s : State n} {new : Option Nat} (h : Inv s new) {i : Fin n} {l : Loader}
    (locked : Bool) (hnew : ∀ k, new = some k → l.handle = some k)
    (hheld : ∀ k, l.handle = some k → s.Refs k ∨ new = some k) (hreads : l.reads ≤ l.owners)
    (hspent : l.phase ≠ .live → l.owners = 0)
    (hreading : 0 < l.reads → ∃ k, l.handle = some k ∧ s.Loaded k) :
    Inv (s.put i l locked) none := by
  have hrefs : ∀ k, (s.put i l locked).Refs k → s.Refs k ∨ new = some k := by
    intro k hk
    rcases refs_put.mp hk with hl | ⟨j, -, hj⟩
    · exact hheld k hl
    · exact Or.inl ⟨j, hj⟩
  have hrange : ∀ k, s.Refs k → k < s.handles.length := by
    rintro k ⟨j, hj⟩
    exact h.known j k hj
  refine ⟨?_, ?_, ?_, ?_, ending_put_nodup h.ending_nodup (fun e he => (h.ending_free e he).2), ?_,
    h.loads, h.opened, ?_, by simp, h.called, h.ordered⟩
  · intro j k hj
    rcases hrefs k ⟨j, hj⟩ with hold | hk
    · exact hrange k hold
    · exact (h.fresh k hk).1
  · intro j
    by_cases hj : j = i
    · rw [hj, put_self]
      exact hreads
    · rw [put_other hj]
      exact h.reads_le j
  · intro j
    by_cases hj : j = i
    · rw [hj, put_self]
      exact hspent
    · rw [put_other hj]
      exact h.spent j
  · intro j
    by_cases hj : j = i
    · rw [hj, put_self]
      exact hreading
    · rw [put_other hj]
      exact h.reading j
  · intro e he
    rcases mem_ending_put.mp he with hold | ⟨-, hhandle, hnot⟩
    · obtain ⟨hlt, hfree⟩ := h.ending_free e hold
      refine ⟨hlt, fun hk => ?_⟩
      rcases hrefs e.1 hk with hk | hk
      · exact hfree hk
      · exact (h.fresh e.1 hk).2.2 (List.mem_map_of_mem hold)
    · exact ⟨h.known i e.1 hhandle, hnot⟩
  · intro k hloaded _
    by_cases hk : new = some k
    · -- the new handle is held, and has no past
      obtain ⟨-, hopen, -⟩ := h.fresh k hk
      refine iff_of_false (fun hclosed => ?_)
        (fun hfree => hfree.1 (refs_put.mpr (Or.inl (hnew k hk))))
      obtain ⟨called, hmem⟩ := hclosed
      exact hopen called hmem
    · rw [put_log, h.closed k hloaded hk]
      constructor
      · rintro ⟨hfree, hending⟩
        refine ⟨fun hk' => (hrefs k hk').elim hfree hk, fun hmem => ?_⟩
        obtain ⟨e, he, rfl⟩ := List.mem_map.mp hmem
        rcases mem_ending_put.mp he with hold | ⟨-, hhandle, -⟩
        · exact hending (List.mem_map_of_mem hold)
        · exact hfree ⟨i, hhandle⟩
      · rintro ⟨hfree, hending⟩
        refine ⟨?_, fun hmem => hending ?_⟩
        · rintro ⟨j, hj⟩
          by_cases hji : j = i
          · rw [hji] at hj
            exact hending (List.mem_map.mpr
              ⟨(k, locked), mem_ending_put.mpr (Or.inr ⟨rfl, hj, hfree⟩), rfl⟩)
          · exact hfree (refs_put.mpr (Or.inr ⟨j, hji, hj⟩))
        · obtain ⟨e, he, rfl⟩ := List.mem_map.mp hmem
          exact List.mem_map_of_mem (mem_ending_put.mpr (Or.inl he))

/-- What is held or at its end is not closed. -/
theorem Inv.unclosed {s : State n} (h : Inv s none) {k : Nat} (hloaded : s.Loaded k)
    (hopen : s.Refs k ∨ k ∈ s.ending.map Prod.fst) : ∀ called, .close k called ∉ s.log := by
  intro called hmem
  obtain ⟨hfree, hending⟩ := (h.closed k hloaded (Option.some_ne_none k).symm).mp ⟨called, hmem⟩
  exact hopen.elim hfree hending

/-- One more event, of a handle that is not closed. -/
theorem ordered_snoc {log : List Event} {e : Event}
    (h : log.Pairwise (fun e e' => e.handle = e'.handle →
      (∀ called, e ≠ .close e.handle called) ∧ e' ≠ .load e'.handle))
    (hopen : ∀ called, .close e.handle called ∉ log)
    (hload : ∀ e' ∈ log, e'.handle = e.handle → e ≠ .load e.handle) :
    (log ++ [e]).Pairwise (fun e e' => e.handle = e'.handle →
      (∀ called, e ≠ .close e.handle called) ∧ e' ≠ .load e'.handle) := by
  rw [List.pairwise_append]
  refine ⟨h, List.pairwise_singleton _ _, ?_⟩
  intro e' he' e'' he'' hsame
  rw [List.mem_singleton] at he''
  rw [he''] at hsame ⊢
  refine ⟨fun called heq => hopen called ?_, hload e' he' hsame⟩
  rw [← hsame, ← heq]
  exact he'

/-- `blob_read` is called. -/
theorem Inv.read {s : State n} (h : Inv s none) {k : Nat} (hloaded : s.Loaded k)
    (hrefs : s.Refs k) : Inv { s with log := s.log ++ [.read k] } none := by
  have hunclosed := h.unclosed hloaded (Or.inl hrefs)
  refine ⟨h.known, h.reads_le, h.spent, h.reading, h.ending_nodup, h.ending_free, ?_, ?_, ?_,
    by simp, ?_, ?_⟩
  · intro j
    have hnot : Event.load j ∉ [Event.read k] := by simp
    rw [List.mem_append, h.loads j]
    exact ⟨fun hor => hor.resolve_right hnot, Or.inl⟩
  · intro e he
    rcases List.mem_append.mp he with he | he
    · exact h.opened e he
    · rw [List.mem_singleton.mp he]
      exact hloaded
  · intro j hj hne
    have hmem : (∃ called, Event.close j called ∈ s.log ++ [.read k]) ↔
        ∃ called, Event.close j called ∈ s.log := by simp
    rw [hmem]
    exact h.closed j hj hne
  · intro j called hmem
    exact h.called j called (by simpa using hmem)
  · exact ordered_snoc h.ordered hunclosed (fun _ _ _ => by simp [Event.handle])

theorem loaded_add {s : State n} {lib : CacheLibHandle} {k : Nat} : (s.add lib).Loaded k ↔
    s.Loaded k ∨ k = s.handles.length ∧ lib.loaded = true := by
  show (∃ lib', (s.handles ++ [lib])[k]? = some lib' ∧ lib'.loaded = true) ↔ _
  rw [List.getElem?_append]
  split
  next hlt =>
    refine ⟨Or.inl, fun hor => hor.resolve_right ?_⟩
    rintro ⟨heq, -⟩
    omega
  next hge =>
    rw [List.getElem?_singleton]
    have hnone : ¬ s.Loaded k := by
      rintro ⟨lib', hlib', -⟩
      have := (List.getElem?_eq_some_iff.mp hlib').1
      omega
    split
    next hzero =>
      obtain rfl : k = s.handles.length := by omega
      simp [hnone]
    next hne =>
      have hk : k ≠ s.handles.length := by omega
      simp [hnone, hk]

/-- A handle is made. -/
theorem Inv.add {s : State n} (h : Inv s none) (lib : CacheLibHandle) :
    Inv (s.add lib) (some s.handles.length) := by
  have hlength : (s.add lib).handles.length = s.handles.length + 1 := by simp [State.add]
  have hget : ∀ {k : Nat} {lib' : CacheLibHandle}, s.handles[k]? = some lib' →
      (s.add lib).handles[k]? = some lib' := by
    intro k lib' hlib'
    show (s.handles ++ [lib])[k]? = some lib'
    rw [List.getElem?_append_left (List.getElem?_eq_some_iff.mp hlib').1]
    exact hlib'
  have hbelow : ∀ k, s.Loaded k → k < s.handles.length := by
    rintro k ⟨lib', hlib', -⟩
    exact (List.getElem?_eq_some_iff.mp hlib').1
  have hclose : ∀ k called, .close k called ∈ (s.add lib).log ↔ .close k called ∈ s.log := by
    intro k called
    unfold State.add
    dsimp only
    split
    · simp
    · exact Iff.rfl
  refine ⟨?_, h.reads_le, h.spent, ?_, h.ending_nodup, ?_, ?_, ?_, ?_, ?_, ?_, ?_⟩
  · intro i k hk
    have hlt := h.known i k hk
    omega
  · intro i hi
    obtain ⟨k, hk, hloaded⟩ := h.reading i hi
    exact ⟨k, hk, loaded_add.mpr (Or.inl hloaded)⟩
  · intro e he
    obtain ⟨hlt, hfree⟩ := h.ending_free e he
    exact ⟨by omega, hfree⟩
  · intro k
    rw [loaded_add, ← h.loads k]
    unfold State.add
    dsimp only
    cases lib.loaded with
    | true => simp
    | false => simp
  · intro e he
    have hcases : e ∈ s.log ∨ lib.loaded = true ∧ e = .load s.handles.length := by
      unfold State.add at he
      dsimp only at he
      split at he
      next hloaded =>
        rcases List.mem_append.mp he with he | he
        · exact Or.inl he
        · exact Or.inr ⟨hloaded, List.mem_singleton.mp he⟩
      · exact Or.inl he
    rcases hcases with he | ⟨hloaded, rfl⟩
    · exact loaded_add.mpr (Or.inl (h.opened e he))
    · exact loaded_add.mpr (Or.inr ⟨rfl, hloaded⟩)
  · intro k hloaded hne
    have hk : s.Loaded k := (loaded_add.mp hloaded).resolve_right
      (fun hnew => hne (congrArg some hnew.1.symm))
    have hmem : (∃ called, Event.close k called ∈ (s.add lib).log) ↔
        ∃ called, Event.close k called ∈ s.log :=
      exists_congr (fun called => hclose k called)
    rw [hmem]
    exact h.closed k hk (Option.some_ne_none k).symm
  · intro k hk
    obtain rfl : s.handles.length = k := Option.some.inj hk
    refine ⟨by omega, fun called hmem => ?_, fun hmem => ?_⟩
    · have hlt := hbelow _ (h.opened _ ((hclose _ called).mp hmem))
      simp only [Event.handle] at hlt
      omega
    · obtain ⟨e, he, heq⟩ := List.mem_map.mp hmem
      have hlt := (h.ending_free e he).1
      omega
  · intro k called hmem
    obtain ⟨lib', hlib', hcalled⟩ := h.called k called ((hclose k called).mp hmem)
    exact ⟨lib', hget hlib', hcalled⟩
  · show (if lib.loaded = true then s.log ++ [.load s.handles.length] else s.log).Pairwise _
    have hnothing : ∀ e ∈ s.log, e.handle ≠ s.handles.length := by
      intro e he heq
      have hlt := hbelow _ (h.opened e he)
      omega
    split
    · exact ordered_snoc h.ordered (fun called hmem => hnothing _ hmem rfl)
        (fun e he heq => absurd heq (hnothing e he))
    · exact h.ordered

theorem loaded_iff {s : State n} {k : Nat} {lib : CacheLibHandle}
    (hlib : s.handles[k]? = some lib) : s.Loaded k ↔ lib.loaded = true := by
  constructor
  · rintro ⟨lib', hlib', hloaded⟩
    obtain rfl : lib = lib' := Option.some.inj (hlib.symm.trans hlib')
    exact hloaded
  · intro hloaded
    exact ⟨lib, hlib, hloaded⟩

theorem finish_log {s : State n} {e : Nat × Bool} {lib : CacheLibHandle}
    (hlib : s.handles[e.1]? = some lib) : (s.finish e).log
      = if lib.loaded = true then s.log ++ [.close e.1 lib.closeFn] else s.log := by
  show (match s.handles[e.1]? with
    | some lib => if lib.loaded then s.log ++ [Event.close e.1 lib.closeFn] else s.log
    | none => s.log) = _
  rw [hlib]

/-- The destructor of one handle only. -/
theorem ending_finish {s : State n} {e : Nat × Bool} (h : (s.ending.map Prod.fst).Nodup)
    (he : e ∈ s.ending) {k : Nat} : k ∈ (s.finish e).ending.map Prod.fst ↔
      k ∈ s.ending.map Prod.fst ∧ k ≠ e.1 := by
  have hpairs : s.ending.Nodup := List.Nodup.of_map _ h
  constructor
  · intro hk
    obtain ⟨e', he', rfl⟩ := List.mem_map.mp hk
    obtain ⟨hne, hmem⟩ := hpairs.mem_erase_iff.mp he'
    exact ⟨List.mem_map_of_mem hmem, fun heq => hne (List.inj_on_of_nodup_map h hmem he heq)⟩
  · rintro ⟨hk, hne⟩
    obtain ⟨e', he', rfl⟩ := List.mem_map.mp hk
    exact List.mem_map_of_mem
      (hpairs.mem_erase_iff.mpr ⟨fun heq => hne (congrArg Prod.fst heq), he'⟩)

/-- A destructor runs. -/
theorem Inv.finish {s : State n} (h : Inv s none) {e : Nat × Bool} (he : e ∈ s.ending) :
    Inv (s.finish e) none := by
  obtain ⟨hlt, hfree⟩ := h.ending_free e he
  obtain ⟨lib, hlib⟩ : ∃ lib, s.handles[e.1]? = some lib := ⟨_, List.getElem?_eq_getElem hlt⟩
  have hlog := finish_log hlib
  have hloaded := loaded_iff hlib
  have hsub : (s.ending.erase e).Sublist s.ending := List.erase_sublist
  have hunclosed : lib.loaded = true → ∀ called, Event.close e.1 called ∉ s.log :=
    fun hyes => h.unclosed (hloaded.mpr hyes) (Or.inr (List.mem_map_of_mem he))
  have hmem : ∀ e' : Event, e' ∈ (s.finish e).log ↔
      e' ∈ s.log ∨ lib.loaded = true ∧ e' = .close e.1 lib.closeFn := by
    intro e'
    rw [hlog]
    split
    next hyes => simp [hyes]
    next hno => simp [hno]
  refine ⟨h.known, h.reads_le, h.spent, h.reading, h.ending_nodup.sublist (hsub.map _),
    fun e' he' => h.ending_free e' (hsub.subset he'), ?_, ?_, ?_, by simp, ?_, ?_⟩
  · intro k
    rw [hmem, h.loads k]
    refine ⟨fun hor => hor.resolve_right ?_, Or.inl⟩
    rintro ⟨-, heq⟩
    cases heq
  · intro e' he'
    rcases (hmem e').mp he' with he' | ⟨hyes, rfl⟩
    · exact h.opened e' he'
    · exact hloaded.mpr hyes
  · intro k hk hne
    show (∃ called, Event.close k called ∈ (s.finish e).log) ↔
      ¬ s.Refs k ∧ k ∉ (s.finish e).ending.map Prod.fst
    rw [ending_finish h.ending_nodup he]
    by_cases heq : k = e.1
    · rw [heq] at hk ⊢
      have hyes := hloaded.mp hk
      exact iff_of_true ⟨_, (hmem _).mpr (Or.inr ⟨hyes, rfl⟩)⟩ ⟨hfree, fun hmem => hmem.2 rfl⟩
    · have hclose : (∃ called, Event.close k called ∈ (s.finish e).log) ↔
          ∃ called, Event.close k called ∈ s.log := by
        apply exists_congr
        intro called
        rw [hmem]
        simp [heq]
      rw [hclose, h.closed k hk hne]
      exact and_congr_right (fun _ => not_congr (and_iff_left heq).symm)
  · intro k called hk
    rcases (hmem _).mp hk with hk | ⟨-, heq⟩
    · exact h.called k called hk
    · obtain ⟨rfl, rfl⟩ := Event.close.inj heq
      exact ⟨lib, hlib, rfl⟩
  · rw [hlog]
    split
    next hyes => exact ordered_snoc h.ordered (hunclosed hyes) (fun _ _ _ => by simp [Event.handle])
    · exact h.ordered

/-- What the `weak_ptr` gives is held. -/
theorem refs_of_lock {s : State n} {k : Nat} (h : s.lock = some k) :
    s.shared = some k ∧ s.Refs k := by
  obtain ⟨hshared, hrefs⟩ := Option.filter_eq_some_iff.mp h
  exact ⟨hshared, of_decide_eq_true hrefs⟩

/-- **Every step keeps the invariant.** -/
theorem Inv.step {s t : State n} {a : Fin n × Op} (h : Inv s none) (hstep : Step s a t) :
    Inv t none := by
  have hnone : ∀ k : Nat, none = some k → ∀ l : Loader, l.handle = some k :=
    fun k hk => absurd hk.symm (Option.some_ne_none k)
  have hempty : ∀ k : Nat, (none : Option Nat) = some k → s.Refs k ∨ none = some k :=
    fun k hk => absurd hk.symm (Option.some_ne_none k)
  cases hstep with
  | plain config hphase hplain =>
      exact h.put false (fun k hk => hnone k hk _) hempty (Nat.zero_le _) (by simp) (by simp)
  | enter config hphase hmode hpath hfree =>
      exact h.put true (fun k hk => hnone k hk _) (fun k hk => Or.inl (refs_of_lock hk).2)
        (Nat.zero_le _) (by simp) (by simp)
  | @reuse i config hphase hreuses =>
      exact h.put true (fun k hk => hnone k hk _) (fun k hk => Or.inl ⟨i, hk⟩) (Nat.zero_le _)
        (by simp) (by simp)
  | load opened hphase hreuses hnew =>
      refine (h.add _).put true (fun k hk => hk) (fun k hk => Or.inr hk) (Nat.zero_le _) (by simp)
        (by simp)
  | @throws i config hphase hreuses hnew =>
      exact h.put true (fun k hk => hnone k hk _) (fun k hk => Or.inl ⟨i, hk⟩) (Nat.zero_le _)
        (by simp) (by simp)
  | unwound hphase =>
      exact h.put false (fun k hk => hnone k hk _) hempty (Nat.zero_le _) (by simp) (by simp)
  | @share i hphase =>
      exact h.put false (fun k hk => hnone k hk _) (fun k hk => Or.inl ⟨i, hk⟩)
        (Nat.le_succ_of_le (h.reads_le i)) (by simp) (h.reading i)
  | @drop i hphase hidle =>
      refine h.put false (fun k hk => hnone k hk _) (fun k hk => Or.inl ⟨i, hk⟩)
        (Nat.le_sub_one_of_lt hidle) ?_ (h.reading i)
      intro hdying
      by_cases hone : (s.loaders i).owners = 1
      · show (s.loaders i).owners - 1 = 0
        omega
      · exact absurd (if_neg hone) hdying
  | @destroy i hphase hfree =>
      -- without an owner nobody reads
      have howners := h.spent i (by rw [hphase]; simp)
      have hreads := h.reads_le i
      refine h.put true (fun k hk => hnone k hk _) hempty ?_ (fun _ => rfl) ?_
      · show (s.loaders i).reads ≤ 0
        omega
      · intro hpos
        have hpos : 0 < (s.loaders i).reads := hpos
        omega
  | @read i k hphase hidle hhandle hloaded =>
      exact (h.read hloaded ⟨i, hhandle⟩).put false (fun k hk => hnone k hk _)
        (fun k hk => Or.inl ⟨i, hk⟩) hidle (by simp) (fun _ => ⟨k, hhandle, hloaded⟩)
  | @readDone i hphase hreads =>
      have hle := h.reads_le i
      refine h.put false (fun k hk => hnone k hk _) (fun k hk => Or.inl ⟨i, hk⟩) ?_ (by simp)
        (fun _ => h.reading i hreads)
      show (s.loaders i).reads - 1 ≤ (s.loaders i).owners
      omega
  | finish he => exact h.finish he

theorem reachable_inv : ∀ s : State n, (loaders n).Reachable s → Inv s none := by
  apply System.Reachable.invariant
  · intro s hinit
    exact inv_init hinit
  · intro s a t _ h hstep
    exact h.step hstep

/-! ## §4. One handle. -/

/-- **What the header promises a provider**, for each library handle: nothing
comes before it is loaded or after it is closed; it is closed when nobody
holds it any more; whoever reads holds one that is neither closed nor at its
end. -/
structure HandleContract (s : State n) : Prop where
  ordered : s.log.Pairwise (fun e e' => e.handle = e'.handle →
    (∀ called, e ≠ .close e.handle called) ∧ e' ≠ .load e'.handle)
  opened : ∀ e ∈ s.log, .load e.handle ∈ s.log
  called : ∀ h called, .close h called ∈ s.log →
    ∃ lib, s.handles[h]? = some lib ∧ lib.closeFn = called
  closed : ∀ h, .load h ∈ s.log →
    ((∃ called, .close h called ∈ s.log) ↔ ¬ s.Refs h ∧ h ∉ s.ending.map Prod.fst)
  reading : ∀ i, 0 < (s.loaders i).reads → ∃ h, (s.loaders i).handle = some h ∧ .load h ∈ s.log ∧
    h ∉ s.ending.map Prod.fst ∧ ∀ called, .close h called ∉ s.log

/-- **EVERY HANDLE IS SHUT DOWN ONCE, AND AFTER ITS LAST READ**, in every run
of the loaders, with any libraries, and with constructors that throw. -/
theorem handle_contract {s : State n} (h : (loaders n).Reachable s) : HandleContract s := by
  have hinv := reachable_inv s h
  refine ⟨hinv.ordered, fun e he => (hinv.loads _).mpr (hinv.opened e he), hinv.called,
    fun k hk => hinv.closed k ((hinv.loads k).mp hk) (Option.some_ne_none k).symm, ?_⟩
  intro i hi
  obtain ⟨k, hk, hloaded⟩ := hinv.reading i hi
  refine ⟨k, hk, (hinv.loads k).mpr hloaded, fun hmem => ?_, hinv.unclosed hloaded (Or.inl ⟨i, hk⟩)⟩
  obtain ⟨e, he, heq⟩ := List.mem_map.mp hmem
  exact (hinv.ending_free e he).2 ⟨i, heq ▸ hk⟩

/-- One cache library, used where it is found. -/
def cacheConfig : CacheProviderConfig := ⟨"libcache.so", .auto⟩

theorem not_reuses {s : State n} {i : Fin n} {config : CacheProviderConfig}
    (h : (s.loaders i).handle = none) : ¬ s.Reuses i config := by
  rintro ⟨k, lib, hk, -⟩
  rw [h] at hk
  exact Option.some_ne_none k hk.symm

/-- A client and the task that outlives it, then another client. -/
theorem reloads : ∃ s : State 1, ((loaders 1).restrict (OnePath "libcache.so")).Reachable s ∧
    s.log = [.load 0, .read 0, .close 0 true, .load 1] := by
  have h₀ : ((loaders 1).restrict (OnePath "libcache.so")).Reachable
      ⟨[], none, fun _ => ⟨.absent, none, 0, 0⟩, [], []⟩ :=
    .init ⟨rfl, rfl, fun _ => rfl, rfl, rfl⟩
  have h₁ := h₀.restrict_step (Step.enter (i := 0) cacheConfig rfl (by decide) (by decide)
    ⟨Fin.forall_fin_one.mpr (fun _ => Phase.noConfusion), by decide⟩) rfl
  have h₂ := h₁.restrict_step (Step.load (i := 0) (some true) rfl (not_reuses rfl) rfl) trivial
  have h₃ := h₂.restrict_step (Step.share (i := 0) rfl) trivial
  have h₄ := h₃.restrict_step
    (Step.read (i := 0) (h := 0) rfl (by decide) rfl ⟨_, rfl, rfl⟩) trivial
  have h₅ := h₄.restrict_step (Step.drop (i := 0) rfl (by decide)) trivial
  have h₆ := h₅.restrict_step (Step.readDone (i := 0) rfl (by decide)) trivial
  have h₇ := h₆.restrict_step (Step.drop (i := 0) rfl (by decide)) trivial
  have h₈ := h₇.restrict_step (Step.destroy (i := 0) rfl
    ⟨Fin.forall_fin_one.mpr (fun _ => Phase.noConfusion), by decide⟩) trivial
  have h₉ := h₈.restrict_step (Step.finish (i := 0) (e := (0, true)) (by decide)) trivial
  have h₁₀ := h₉.restrict_step (Step.enter (i := 0) cacheConfig rfl (by decide) (by decide)
    ⟨Fin.forall_fin_one.mpr (fun _ => Phase.noConfusion), by decide⟩) rfl
  have h₁₁ := h₁₀.restrict_step (Step.load (i := 0) (some true) rfl (not_reuses rfl) rfl) trivial
  exact ⟨_, h₁₁, rfl⟩

theorem handle_contract_reloads : ∃ s : State 1,
    s.log = [.load 0, .read 0, .close 0 true, .load 1] ∧ HandleContract s := by
  obtain ⟨s, hreach, hlog⟩ := reloads
  exact ⟨s, hlog, handle_contract hreach.of_restrict⟩

/-! ## §5. One library. -/

/-- A session: from a load on, up to the close of that handle. -/
def nextSession : Option Nat → Event → Option (Option Nat)
  | none, .load h => some (some h)
  | some h, .read k => if k = h then some (some h) else none
  | some h, .close k _ => if k = h then some none else none
  | _, _ => none

/-- The sessions of a log, one after the other, and the one that goes on. -/
def sessions (log : List Event) : Option (Option Nat) := log.foldlM nextSession none

theorem sessions_snoc (log : List Event) (e : Event) :
    sessions (log ++ [e]) = (sessions log).bind (fun o => nextSession o e) := by
  unfold sessions
  rw [List.foldlM_append]
  cases log.foldlM nextSession none with
  | none => rfl
  | some o => cases h : nextSession o e <;> simp [h]

/-- A library that is held, or at its end. -/
def State.Open (s : State n) (h : Nat) : Prop :=
  s.Loaded h ∧ (s.Refs h ∨ h ∈ s.ending.map Prod.fst)

/-- What one path makes sure of: the library that is held is the one the
`weak_ptr` has, and it is let go of in the mutex only. -/
structure Alone (path : String) (s : State n) : Prop where
  path_eq : ∀ lib ∈ s.handles, lib.libPath = path
  config_eq : ∀ i config, (s.loaders i).phase = .constructing config → config.libPath = path
  gone : ∀ i, (s.loaders i).phase = .absent → (s.loaders i).handle = none
  current : ∀ k, s.Loaded k → s.Refs k → s.shared = some k
  building : ∀ i config, (s.loaders i).phase = .constructing config →
    (∀ k, (s.loaders i).handle = some k → ¬ s.Loaded k) → ∀ k, s.Loaded k → ¬ s.Refs k
  idle : ∀ i, (s.loaders i).phase = .unwinding → ∀ k, (s.loaders i).handle = some k → ¬ s.Loaded k
  locked : ∀ e ∈ s.ending, s.Loaded e.1 → e.2 = true
  mutex : ∀ e ∈ s.ending, e.2 = true → ∀ i config, (s.loaders i).phase ≠ .constructing config
  single : ∀ i j config config', (s.loaders i).phase = .constructing config →
    (s.loaders j).phase = .constructing config' → i = j

/-- **A loader moves.** -/
theorem Alone.put {path : String} {s : State n} (h : Alone path s) {i : Fin n} {l : Loader}
    {locked : Bool} (hcurrent : ∀ k, l.handle = some k → s.Loaded k → s.shared = some k)
    (hheld : ∀ k, l.handle = some k → s.Refs k ∨ locked = true)
    (hbuild : ∀ config, l.phase = .constructing config → config.libPath = path ∧ s.Free ∧
      (s.loaders i).handle = none ∧ ((∀ k, l.handle = some k → ¬ s.Loaded k) →
        ∀ k, s.Loaded k → ¬ s.Refs k))
    (hidle : l.phase = .unwinding → ∀ k, l.handle = some k → ¬ s.Loaded k)
    (hgone : l.phase = .absent → l.handle = none)
    (hlost : ∀ k, (s.loaders i).handle = some k → l.handle ≠ some k → s.Loaded k → locked = true)
    (hmutex : locked = true → ∀ j config, j ≠ i → (s.loaders j).phase ≠ .constructing config) :
    Alone path (s.put i l locked) := by
  refine ⟨h.path_eq, ?_, ?_, ?_, ?_, ?_, ?_, ?_, ?_⟩
  · intro j config
    by_cases hj : j = i
    · rw [hj, put_self]
      exact fun hphase => (hbuild config hphase).1
    · rw [put_other hj]
      exact h.config_eq j config
  · intro j
    by_cases hj : j = i
    · rw [hj, put_self]
      exact hgone
    · rw [put_other hj]
      exact h.gone j
  · intro k hloaded hrefs
    rcases refs_put.mp hrefs with hl | ⟨j, -, hj⟩
    · exact hcurrent k hl hloaded
    · exact h.current k hloaded ⟨j, hj⟩
  · intro j config
    by_cases hj : j = i
    · rw [hj, put_self]
      intro hphase hunloaded k hloaded hrefs
      obtain ⟨-, -, -, hnobody⟩ := hbuild config hphase
      rcases refs_put.mp hrefs with hl | ⟨j', -, hj'⟩
      · exact hunloaded k hl hloaded
      · exact hnobody hunloaded k hloaded ⟨j', hj'⟩
    · rw [put_other hj]
      intro hphase hunloaded k hloaded hrefs
      have hnobody := h.building j config hphase hunloaded k hloaded
      rcases refs_put.mp hrefs with hl | ⟨j', -, hj'⟩
      · rcases hheld k hl with hold | hlocked
        · exact hnobody hold
        · exact hmutex hlocked j config hj hphase
      · exact hnobody ⟨j', hj'⟩
  · intro j
    by_cases hj : j = i
    · rw [hj, put_self]
      exact hidle
    · rw [put_other hj]
      exact h.idle j
  · intro e he hloaded
    rcases mem_ending_put.mp he with hold | ⟨hlocked, hhandle, hnot⟩
    · exact h.locked e hold hloaded
    · rw [hlocked]
      exact hlost e.1 hhandle (fun hl => hnot (refs_put.mpr (Or.inl hl))) hloaded
  · intro e he htrue j config
    by_cases hj : j = i
    · rw [hj, put_self]
      intro hphase
      obtain ⟨-, hfree, hnone, -⟩ := hbuild config hphase
      rcases mem_ending_put.mp he with hold | ⟨-, hhandle, -⟩
      · rw [hfree.2 e hold] at htrue
        exact Bool.false_ne_true htrue
      · rw [hnone] at hhandle
        exact absurd hhandle.symm (Option.some_ne_none e.1)
    · rw [put_other hj]
      rcases mem_ending_put.mp he with hold | ⟨hlocked, -, -⟩
      · exact h.mutex e hold htrue j config
      · exact hmutex (hlocked ▸ htrue) j config hj
  · intro j j' config config'
    by_cases hj : j = i
    · by_cases hj' : j' = i
      · exact fun _ _ => hj.trans hj'.symm
      · rw [hj, put_self, put_other hj']
        intro hphase hphase'
        exact absurd hphase' ((hbuild config hphase).2.1.1 j' config')
    · by_cases hj' : j' = i
      · rw [hj', put_self, put_other hj]
        intro hphase hphase'
        exact absurd hphase ((hbuild config' hphase').2.1.1 j config)
      · rw [put_other hj, put_other hj']
        exact h.single j j' config config'

/-- The libraries stay the same where no loader takes one that nobody held. -/
theorem open_put {s : State n} {i : Fin n} {l : Loader} {locked : Bool}
    (hheld : ∀ k, l.handle = some k → s.Refs k) (k : Nat) :
    (s.put i l locked).Open k ↔ s.Open k := by
  refine and_congr_right (fun _ => ⟨?_, ?_⟩)
  · rintro (hrefs | hending)
    · rcases refs_put.mp hrefs with hl | ⟨j, -, hj⟩
      · exact Or.inl (hheld k hl)
      · exact Or.inl ⟨j, hj⟩
    · obtain ⟨e, he, rfl⟩ := List.mem_map.mp hending
      rcases mem_ending_put.mp he with hold | ⟨-, hhandle, -⟩
      · exact Or.inr (List.mem_map_of_mem hold)
      · exact Or.inl ⟨i, hhandle⟩
  · rintro (⟨j, hj⟩ | hending)
    · by_cases hrefs : (s.put i l locked).Refs k
      · exact Or.inl hrefs
      · by_cases hji : j = i
        · rw [hji] at hj
          exact Or.inr (List.mem_map.mpr
            ⟨(k, locked), mem_ending_put.mpr (Or.inr ⟨rfl, hj, hrefs⟩), rfl⟩)
        · exact absurd (refs_put.mpr (Or.inr ⟨j, hji, hj⟩)) hrefs
    · obtain ⟨e, he, rfl⟩ := List.mem_map.mp hending
      exact Or.inr (List.mem_map_of_mem (mem_ending_put.mpr (Or.inl he)))

/-- The log is one of sessions, and the one that goes on is that of the
library held or at its end. -/
def InSession (s : State n) : Prop :=
  ∃ o, sessions s.log = some o ∧ ∀ k, o = some k ↔ s.Open k

/-- A log that is the same, with the same libraries. -/
theorem InSession.congr {s t : State n} (h : InSession s) (hlog : t.log = s.log)
    (hopen : ∀ k, t.Open k ↔ s.Open k) : InSession t := by
  obtain ⟨o, hsessions, hiff⟩ := h
  refine ⟨o, ?_, fun k => (hiff k).trans (hopen k).symm⟩
  rw [hlog]
  exact hsessions

/-- With one path, a loader that makes a handle finds no library. -/
theorem Alone.none_open {path : String} {s : State n} (h : Alone path s) {i : Fin n}
    {config : CacheProviderConfig} (hphase : (s.loaders i).phase = .constructing config)
    (hreuses : ¬ s.Reuses i config) :
    (∀ k, (s.loaders i).handle = some k → ¬ s.Loaded k) ∧ ∀ k, ¬ s.Open k := by
  have hunloaded : ∀ k, (s.loaders i).handle = some k → ¬ s.Loaded k := by
    rintro k hk ⟨lib, hlib, hloaded⟩
    apply hreuses
    refine ⟨k, lib, hk, hlib, hloaded, ?_⟩
    rw [h.path_eq lib (List.mem_of_getElem? hlib), h.config_eq i config hphase]
  refine ⟨hunloaded, ?_⟩
  rintro k ⟨hloaded, hrefs | hending⟩
  · exact h.building i config hphase hunloaded k hloaded hrefs
  · obtain ⟨e, he, rfl⟩ := List.mem_map.mp hending
    exact h.mutex e he (h.locked e he hloaded) i config hphase

/-- **A new handle.** -/
theorem Alone.load {path : String} {s : State n} (h : Alone path s) (hinv : Inv s none) {i : Fin n}
    {config : CacheProviderConfig} {lib : CacheLibHandle}
    (hphase : (s.loaders i).phase = .constructing config) (hreuses : ¬ s.Reuses i config)
    (hpath : lib.libPath = config.libPath) :
    Alone path ((s.add lib).put i ⟨.live, some s.handles.length, 1, 0⟩ true) := by
  obtain ⟨hunloaded, hnone⟩ := h.none_open hphase hreuses
  have hrefs : ∀ k, s.Refs k → k ≠ s.handles.length := by
    rintro k ⟨j, hj⟩
    exact Nat.ne_of_lt (hinv.known j k hj)
  have hold : ∀ k, (s.add lib).Loaded k → s.Refs k → s.Loaded k :=
    fun k hk hrefd => (loaded_add.mp hk).resolve_right (fun hnew => hrefs k hrefd hnew.1)
  have hadd : Alone path (s.add lib) := by
    refine ⟨?_, h.config_eq, h.gone, ?_, ?_, ?_, ?_, h.mutex, h.single⟩
    · intro lib' hlib'
      rcases List.mem_append.mp hlib' with hlib' | hlib'
      · exact h.path_eq lib' hlib'
      · rw [List.mem_singleton.mp hlib', hpath]
        exact h.config_eq i config hphase
    · intro k hk hrefd
      exact absurd ⟨hold k hk hrefd, Or.inl hrefd⟩ (hnone k)
    · intro j config' _ _ k hk hrefd
      exact hnone k ⟨hold k hk hrefd, Or.inl hrefd⟩
    · intro j hj k hk hloaded
      exact h.idle j hj k hk (hold k hloaded ⟨j, hk⟩)
    · intro e he hloaded
      rcases loaded_add.mp hloaded with hloaded | ⟨heq, -⟩
      · exact h.locked e he hloaded
      · have hlt := (hinv.ending_free e he).1
        omega
  refine hadd.put ?_ (fun _ _ => Or.inr rfl) (by simp) (by simp) (by simp) (fun _ _ _ _ => rfl) ?_
  · intro k hk _
    exact hk
  · intro _ j config' hj hphase'
    exact hj (h.single j i config' config hphase' hphase)

/-- Nothing was open, and now the new library is, if there is one. -/
theorem InSession.load {s : State n} (h : InSession s) {i : Fin n}
    (hnone : ∀ k, ¬ s.Open k) (lib : CacheLibHandle) :
    InSession ((s.add lib).put i ⟨.live, some s.handles.length, 1, 0⟩ true) := by
  obtain ⟨o, hsessions, hiff⟩ := h
  have ho : o = none := by
    cases o with
    | none => rfl
    | some k => exact absurd ((hiff k).mp rfl) (hnone k)
  rw [ho] at hsessions
  have hopen : ∀ k, State.Open ((s.add lib).put i ⟨.live, some s.handles.length, 1, 0⟩ true) k ↔
      k = s.handles.length ∧ lib.loaded = true := by
    intro k
    constructor
    · rintro ⟨hloaded, hor⟩
      refine (loaded_add.mp hloaded).resolve_left (fun hold => hnone k ⟨hold, ?_⟩)
      have hlt : k < s.handles.length := by
        obtain ⟨lib', hlib', -⟩ := hold
        exact (List.getElem?_eq_some_iff.mp hlib').1
      have hrefs : ∀ k', k' < s.handles.length →
          State.Refs ((s.add lib).put i ⟨.live, some s.handles.length, 1, 0⟩ true) k' →
            s.Refs k' := by
        intro k' hk' hrefs
        rcases refs_put.mp hrefs with hl | ⟨j, -, hj⟩
        · have heq : s.handles.length = k' := Option.some.inj hl
          omega
        · exact ⟨j, hj⟩
      rcases hor with hrefs' | hending
      · exact Or.inl (hrefs k hlt hrefs')
      · obtain ⟨e, he, rfl⟩ := List.mem_map.mp hending
        rcases mem_ending_put.mp he with hold | ⟨-, hhandle, -⟩
        · exact Or.inr (List.mem_map_of_mem hold)
        · exact Or.inl ⟨i, hhandle⟩
    · rintro ⟨rfl, hloaded⟩
      exact ⟨loaded_add.mpr (Or.inr ⟨rfl, hloaded⟩), Or.inl (refs_put.mpr (Or.inl rfl))⟩
  cases hloaded : lib.loaded with
  | true =>
      refine ⟨some s.handles.length, ?_, fun k => ?_⟩
      · show sessions (if lib.loaded = true then s.log ++ [.load s.handles.length] else s.log) = _
        rw [if_pos hloaded, sessions_snoc, hsessions]
        rfl
      · rw [hopen k, hloaded]
        simp [eq_comm]
  | false =>
      refine ⟨none, ?_, fun k => ?_⟩
      · show sessions (if lib.loaded = true then s.log ++ [.load s.handles.length] else s.log) = _
        rw [if_neg (by simp [hloaded])]
        exact hsessions
      · rw [hopen k, hloaded]
        simp

/-- **A read** is of the library of the session. -/
theorem InSession.read {s : State n} (h : InSession s) {k : Nat} (hopen : s.Open k) :
    InSession { s with log := s.log ++ [.read k] } := by
  obtain ⟨o, hsessions, hiff⟩ := h
  obtain rfl : o = some k := (hiff k).mpr hopen
  refine ⟨some k, ?_, hiff⟩
  show sessions (s.log ++ [.read k]) = some (some k)
  rw [sessions_snoc, hsessions]
  exact if_pos rfl

/-- **A destructor** ends the session, if the handle has a library. -/
theorem InSession.finish {s : State n} (h : InSession s) (hinv : Inv s none) {e : Nat × Bool}
    (he : e ∈ s.ending) : InSession (s.finish e) := by
  obtain ⟨hlt, hfree⟩ := hinv.ending_free e he
  have hlib : s.handles[e.1]? = some s.handles[e.1] := List.getElem?_eq_getElem hlt
  have hlog := finish_log hlib
  have hending : ∀ k, k ∈ (s.finish e).ending.map Prod.fst ↔
      k ∈ s.ending.map Prod.fst ∧ k ≠ e.1 := fun k => ending_finish hinv.ending_nodup he
  have hrest : ∀ k, k ≠ e.1 → ((s.finish e).Open k ↔ s.Open k) := by
    intro k hk
    exact and_congr_right (fun _ => or_congr_right ((hending k).trans (and_iff_left hk)))
  have hgone : ¬ (s.finish e).Open e.1 := by
    rintro ⟨-, hrefs | hmem⟩
    · exact hfree hrefs
    · exact ((hending e.1).mp hmem).2 rfl
  obtain ⟨o, hsessions, hiff⟩ := h
  cases hloaded : s.handles[e.1].loaded with
  | true =>
      have hopen : s.Open e.1 := ⟨⟨_, hlib, hloaded⟩, Or.inr (List.mem_map_of_mem he)⟩
      obtain rfl : o = some e.1 := (hiff e.1).mpr hopen
      refine ⟨none, ?_, fun k => ⟨fun hk => absurd hk.symm (Option.some_ne_none k), fun hk => ?_⟩⟩
      · rw [hlog, if_pos hloaded, sessions_snoc, hsessions]
        exact if_pos rfl
      · by_cases heq : k = e.1
        · exact absurd (heq ▸ hk) hgone
        · have hsame := (hiff k).mpr ((hrest k heq).mp hk)
          exact absurd (Option.some.inj hsame).symm heq
  | false =>
      have hunloaded : ¬ s.Loaded e.1 := by
        rw [loaded_iff hlib, hloaded]
        exact Bool.false_ne_true
      refine ⟨o, ?_, fun k => (hiff k).trans ?_⟩
      · rw [hlog, if_neg (by simp [hloaded])]
        exact hsessions
      · by_cases heq : k = e.1
        · rw [heq]
          exact iff_of_false (fun hopen => hunloaded hopen.1) hgone
        · exact (hrest k heq).symm

theorem alone_init {path : String} {s : State n} (h : Init s) : Alone path s := by
  refine ⟨?_, ?_, ?_, fun k hk => absurd hk (h.not_loaded k), ?_, ?_, ?_, ?_, ?_⟩
  · simp [h.handles_eq]
  · simp [h.loaders_eq]
  · simp [h.loaders_eq]
  · simp [h.loaders_eq]
  · simp [h.loaders_eq]
  · simp [h.ending_eq]
  · simp [h.ending_eq]
  · simp [h.loaders_eq]

theorem inSession_init {s : State n} (h : Init s) : InSession s := by
  refine ⟨none, ?_, fun k => ⟨fun hk => absurd hk.symm (Option.some_ne_none k), ?_⟩⟩
  · rw [h.log_eq]
    rfl
  · exact fun hopen => absurd hopen.1 (h.not_loaded k)

/-- A loader that keeps its handle. -/
theorem Alone.keep {path : String} {s : State n} (h : Alone path s) {i : Fin n} {l : Loader}
    (hhandle : l.handle = (s.loaders i).handle) (hphase : l.phase = .live ∨ l.phase = .dying) :
    Alone path (s.put i l false) := by
  refine h.put ?_ ?_ ?_ ?_ ?_ ?_ (fun hfalse => absurd hfalse Bool.false_ne_true)
  · intro k hk hloaded
    exact h.current k hloaded ⟨i, hhandle ▸ hk⟩
  · intro k hk
    exact Or.inl ⟨i, hhandle ▸ hk⟩
  · intro config hconfig
    rw [hconfig] at hphase
    simp at hphase
  · intro hunwinding
    rw [hunwinding] at hphase
    simp at hphase
  · intro habsent
    rw [habsent] at hphase
    simp at hphase
  · intro k hk hne _
    exact absurd (hhandle.trans hk) hne

theorem CacheLibHandle.new_libPath {config : CacheProviderConfig} {opened : Option Bool}
    {lib : CacheLibHandle} (h : CacheLibHandle.new config opened = some lib) :
    lib.libPath = config.libPath := by
  unfold CacheLibHandle.new at h
  split at h
  · rw [← Option.some.inj h]
  · split at h
    · simp at h
    · rw [← Option.some.inj h]

/-- **Every step keeps the library alone.** -/
theorem Alone.step {path : String} {s t : State n} {a : Fin n × Op} (h : Alone path s)
    (hinv : Inv s none) (hpath : OnePath path s a) (hstep : Step s a t) : Alone path t := by
  cases hstep with
  | @plain i config hphase hplain =>
      have hnone := h.gone i hphase
      refine h.put (by simp) (by simp) (by simp) (by simp) (by simp) ?_ (by simp)
      intro k hk
      rw [hnone] at hk
      exact absurd hk.symm (Option.some_ne_none k)
  | @enter i config hphase hmode hlib hfree =>
      have hnone := h.gone i hphase
      refine h.put ?_ (fun _ _ => Or.inr rfl) ?_ (by simp) (by simp) (fun _ _ _ _ => rfl)
        (fun _ j config' _ => hfree.1 j config')
      · exact fun k hk _ => (refs_of_lock hk).1
      · intro config' hconfig
        obtain rfl := Phase.constructing.inj hconfig
        refine ⟨hpath, hfree, hnone, fun hunlocked k hloaded hrefs => ?_⟩
        -- a library that is held is what the `weak_ptr` gives
        refine hunlocked k (Option.filter_eq_some_iff.mpr ?_) hloaded
        exact ⟨h.current k hloaded hrefs, decide_eq_true hrefs⟩
  | @reuse i config hphase hreuses =>
      refine h.put ?_ (fun _ _ => Or.inr rfl) (by simp) (by simp) (by simp) (fun _ _ _ _ => rfl) ?_
      · exact fun k hk hloaded => h.current k hloaded ⟨i, hk⟩
      · exact fun _ j config' hj hphase' => hj (h.single j i config' config hphase' hphase)
  | load opened hphase hreuses hnew =>
      exact h.load hinv hphase hreuses (CacheLibHandle.new_libPath hnew)
  | @throws i config hphase hreuses hnew =>
      refine h.put ?_ (fun _ _ => Or.inr rfl) (by simp) ?_ (by simp) (fun _ _ _ _ => rfl) ?_
      · exact fun k hk hloaded => h.current k hloaded ⟨i, hk⟩
      · exact fun _ => (h.none_open hphase hreuses).1
      · exact fun _ j config' hj hphase' => hj (h.single j i config' config hphase' hphase)
  | @unwound i hphase =>
      refine h.put (by simp) (by simp) (by simp) (by simp) (by simp) ?_ (by simp)
      exact fun k hk _ hloaded => absurd hloaded (h.idle i hphase k hk)
  | share hphase => exact h.keep rfl (Or.inl rfl)
  | @drop i hphase hidle =>
      refine h.keep rfl ?_
      show (if (s.loaders i).owners = 1 then Phase.dying else .live) = .live ∨
        (if (s.loaders i).owners = 1 then Phase.dying else .live) = .dying
      split
      · exact Or.inr rfl
      · exact Or.inl rfl
  | destroy hphase hfree =>
      exact h.put (by simp) (fun _ _ => Or.inr rfl) (by simp) (by simp) (by simp)
        (fun _ _ _ _ => rfl) (fun _ j config' _ => hfree.1 j config')
  | @read i k hphase hidle hhandle hloaded =>
      have hread : Alone path { s with log := s.log ++ [.read k] } :=
        ⟨h.path_eq, h.config_eq, h.gone, h.current, h.building, h.idle, h.locked, h.mutex, h.single⟩
      exact hread.keep rfl (Or.inl rfl)
  | readDone hphase hreads => exact h.keep rfl (Or.inl rfl)
  | finish he =>
      exact ⟨h.path_eq, h.config_eq, h.gone, h.current, h.building, h.idle,
        fun e he' => h.locked e (List.mem_of_mem_erase he'),
        fun e he' => h.mutex e (List.mem_of_mem_erase he'), h.single⟩

/-- **And keeps the sessions apart.** -/
theorem InSession.step {path : String} {s t : State n} {a : Fin n × Op} (h : InSession s)
    (halone : Alone path s) (hinv : Inv s none) (hstep : Step s a t) : InSession t := by
  cases hstep with
  | plain config hphase hplain => exact h.congr rfl (open_put (by simp))
  | enter config hphase hmode hlib hfree =>
      exact h.congr rfl (open_put (fun k hk => (refs_of_lock hk).2))
  | @reuse i config hphase hreuses => exact h.congr rfl (open_put (fun k hk => ⟨i, hk⟩))
  | load opened hphase hreuses hnew => exact h.load (halone.none_open hphase hreuses).2 _
  | @throws i config hphase hreuses hnew => exact h.congr rfl (open_put (fun k hk => ⟨i, hk⟩))
  | unwound hphase => exact h.congr rfl (open_put (by simp))
  | @share i hphase => exact h.congr rfl (open_put (fun k hk => ⟨i, hk⟩))
  | @drop i hphase hidle => exact h.congr rfl (open_put (fun k hk => ⟨i, hk⟩))
  | destroy hphase hfree => exact h.congr rfl (open_put (by simp))
  | @read i k hphase hidle hhandle hloaded =>
      exact (h.read ⟨hloaded, Or.inl ⟨i, hhandle⟩⟩).congr rfl (open_put (fun k' hk' => ⟨i, hk'⟩))
  | @readDone i hphase hreads => exact h.congr rfl (open_put (fun k hk => ⟨i, hk⟩))
  | finish he => exact h.finish hinv he

/-- **A LIBRARY'S SESSIONS DO NOT OVERLAP**, in every run whose loaders are
configured with one path: it is loaded anew only after its last shutdown, and
read from only in between. -/
theorem one_session {path : String} {s : State n}
    (h : ((loaders n).restrict (OnePath path)).Reachable s) : InSession s := by
  have hall : ∀ s, ((loaders n).restrict (OnePath path)).Reachable s →
      Alone path s ∧ InSession s := by
    apply System.Reachable.invariant
    · intro s hinit
      exact ⟨alone_init hinit, inSession_init hinit⟩
    · rintro s a t hreach ⟨halone, hsession⟩ ⟨hpath, hstep⟩
      have hinv := reachable_inv s hreach.of_restrict
      exact ⟨halone.step hinv hpath hstep, hsession.step halone hinv hstep⟩
  exact (hall s h).2

theorem one_session_reloads : ∃ s : State 1,
    s.log = [.load 0, .read 0, .close 0 true, .load 1] ∧ InSession s := by
  obtain ⟨s, hreach, hlog⟩ := reloads
  exact ⟨s, hlog, one_session hreach⟩

end ModelStreamer.Clients.CacheProvider
