/-
  ModelStreamer.Pools.PluginLock
  ──────────────────────────────
  **LOCKING A STREAMER TO ONE OBJECT-STORAGE PLUGIN**
  (`BackendPools::lock_object_plugin`), by any number of calls at once.

  A call looks at `_ready_plugin` without the mutex, and goes the slow way if
  it sees none: an atomic load may also see the value before the last store.
  Under the mutex the first call builds the pool, then records its plugin,
  then publishes both.

  Building a pool starts its threads one by one, and may throw before each.
  Then the members of the half-built pool are destroyed, which joins the
  threads it has started; the destructor that would tell them to end,
  `~ThreadPool`, is not run for an object whose constructor has thrown.

    • `Inv.step` — who holds the mutex, and what each place in the code knows,
    • `stuck_leads` — a pool that fails with a thread started is never left,
    • `retry_leads` — otherwise the next call may lock any plugin,
    • `lockPlugin_alone` — a call that is not interrupted,
    • `plugin_lock` — the lock over whole runs.
-/
import ModelStreamer.Delivery.Submit
import ModelStreamer.Lib.TransitionSystem

namespace ModelStreamer.Pools

open ModelStreamer.Lib ModelStreamer.Delivery

/-! ## §1. A pool and its threads. -/

/-- What a `ThreadPool` without work has: the threads that run, and of its
deque the semaphore's count and `_stopped`. -/
structure ThreadPool where
  threads : Nat
  sem : Nat
  stopped : Bool
  deriving DecidableEq, Repr

/-- The pool before its first thread. -/
def ThreadPool.new : ThreadPool := ⟨0, 0, false⟩

/-- `_threads.emplace_back`. -/
def ThreadPool.spawn (pool : ThreadPool) : ThreadPool :=
  ⟨pool.threads + 1, pool.sem, pool.stopped⟩

/-- The body of `~ThreadPool`: stop the deque, and post for every thread. -/
def ThreadPool.stop (pool : ThreadPool) : ThreadPool :=
  ⟨pool.threads, pool.sem + pool.threads, true⟩

/-- A thread waiting in `Deque::pop` ends: it is woken, and told that the
deque has been stopped. -/
def ThreadPool.threadEnds (pool : ThreadPool) : Option ThreadPool :=
  if 0 < pool.threads ∧ 0 < pool.sem ∧ pool.stopped = true then
    some ⟨pool.threads - 1, pool.sem - 1, pool.stopped⟩
  else none

/-- Nobody has told the threads anything. -/
def ThreadPool.Waiting (pool : ThreadPool) : Prop := pool.sem = 0 ∧ pool.stopped = false

/-- **The threads of a waiting pool never end.** -/
theorem ThreadPool.Waiting.threadEnds {pool : ThreadPool} (h : pool.Waiting) :
    pool.threadEnds = none := by
  unfold ThreadPool.threadEnds
  rw [if_neg]
  rintro ⟨-, hsem, -⟩
  have := h.1
  omega

/-- The threads of a stopped pool do, one after another. -/
theorem ThreadPool.stop_threadEnds {pool : ThreadPool} (k : Nat) (hk : k < pool.threads) :
    (⟨pool.stop.threads - k, pool.stop.sem - k, pool.stop.stopped⟩ : ThreadPool).threadEnds
      = some ⟨pool.stop.threads - (k + 1), pool.stop.sem - (k + 1), pool.stop.stopped⟩ := by
  unfold ThreadPool.threadEnds ThreadPool.stop
  rw [if_pos]
  · simp only [Nat.sub_sub]
  · refine ⟨?_, ?_, rfl⟩
    · show 0 < pool.threads - k
      omega
    · show 0 < pool.sem + pool.threads - k
      omega

/-! ## §2. The calls. -/

/-- How a call of `lock_object_plugin` ends. -/
inductive Ending where
  | returned (code : ResponseCode)
  | threw
  deriving DecidableEq, Repr

/-- Where a call is. -/
inductive Pc where
  | idle
  /-- Saw no plugin ready; waits for the mutex. -/
  | slow
  /-- Has the mutex. -/
  | entered
  /-- In the constructor of the pool. -/
  | building (pool : ThreadPool)
  /-- The constructor has thrown; the threads of the pool are joined. -/
  | unwinding (pool : ThreadPool)
  /-- The pool is in `_object_storage_pool`. -/
  | built
  /-- The plugin is in `_plugin`. -/
  | recorded
  /-- Leaves, and gives the mutex back. -/
  | leaving (ending : Ending)
  | ended (ending : Ending)
  deriving DecidableEq, Repr

/-- Between taking the mutex and giving it back. -/
def Pc.Critical : Pc → Prop
  | .idle | .slow | .ended _ => False
  | _ => True

/-- The plugin of each call, and `_object_storage_size`. -/
structure Config (ι : Type) where
  plugin : ι → Plugin
  size : Nat

/-- `BackendPools`, and where the calls are.  The pool is known by the plugin
of the call that built it; `locks` and `built` are everything ever stored in
`_plugin` and in `_object_storage_pool`. -/
structure State (ι : Type) where
  readyPlugin : Option Plugin
  holder : Option ι
  plugin : Option Plugin
  pool : Option Plugin
  locks : List Plugin
  built : List Plugin
  pc : ι → Pc

section Calls

variable {ι : Type} [DecidableEq ι]

/-- Before the first call. -/
def State.new : State ι := ⟨none, none, none, none, [], [], fun _ => .idle⟩

/-- Call `i` goes on, and the rest stays. -/
def State.goto (s : State ι) (i : ι) (pc : Pc) : State ι :=
  ⟨s.readyPlugin, s.holder, s.plugin, s.pool, s.locks, s.built, Function.update s.pc i pc⟩

/-- What a call for `plugin` is told where `locked` is locked. -/
def verdict (locked plugin : Plugin) : ResponseCode :=
  if locked ≠ plugin then .unsupportedBackendMix else .success

/-- One step of one call. -/
inductive Step (config : Config ι) : State ι → ι → State ι → Prop
  /-- The fast path. -/
  | loadReady {s : State ι} {i : ι} (p : Plugin) (hpc : s.pc i = .idle)
      (hready : s.readyPlugin = some p) :
      Step config s i (s.goto i (.ended (.returned (verdict p (config.plugin i)))))
  /-- The load sees -1, be it the last value or the one before. -/
  | loadNone {s : State ι} {i : ι} (hpc : s.pc i = .idle) : Step config s i (s.goto i .slow)
  | lock {s : State ι} {i : ι} (hpc : s.pc i = .slow) (hfree : s.holder = none) :
      Step config s i
        ⟨s.readyPlugin, some i, s.plugin, s.pool, s.locks, s.built,
          Function.update s.pc i .entered⟩
  /-- Locked already. -/
  | found {s : State ι} {i : ι} (p : Plugin) (hpc : s.pc i = .entered)
      (hplugin : s.plugin = some p) :
      Step config s i (s.goto i (.leaving (.returned (verdict p (config.plugin i)))))
  | construct {s : State ι} {i : ι} (hpc : s.pc i = .entered) (hplugin : s.plugin = none) :
      Step config s i (s.goto i (.building .new))
  | spawn {s : State ι} {i : ι} (pool : ThreadPool) (hpc : s.pc i = .building pool)
      (hmore : pool.threads < config.size) :
      Step config s i (s.goto i (.building pool.spawn))
  /-- An allocation, the worker's factory or the start of a thread throws. -/
  | throws {s : State ι} {i : ι} (pool : ThreadPool) (hpc : s.pc i = .building pool)
      (hmore : pool.threads = 0 ∨ pool.threads < config.size) :
      Step config s i (s.goto i (.unwinding pool))
  | threadEnds {s : State ι} {i : ι} (pool rest : ThreadPool) (hpc : s.pc i = .unwinding pool)
      (hends : pool.threadEnds = some rest) : Step config s i (s.goto i (.unwinding rest))
  /-- All threads are joined. -/
  | unwound {s : State ι} {i : ι} (pool : ThreadPool) (hpc : s.pc i = .unwinding pool)
      (hnone : pool.threads = 0) : Step config s i (s.goto i (.leaving .threw))
  | assign {s : State ι} {i : ι} (pool : ThreadPool) (hpc : s.pc i = .building pool)
      (hall : pool.threads = config.size) :
      Step config s i
        ⟨s.readyPlugin, s.holder, s.plugin, some (config.plugin i), s.locks,
          config.plugin i :: s.built, Function.update s.pc i .built⟩
  | record {s : State ι} {i : ι} (hpc : s.pc i = .built) :
      Step config s i
        ⟨s.readyPlugin, s.holder, some (config.plugin i), s.pool, config.plugin i :: s.locks,
          s.built, Function.update s.pc i .recorded⟩
  | publish {s : State ι} {i : ι} (hpc : s.pc i = .recorded) :
      Step config s i
        ⟨some (config.plugin i), s.holder, s.plugin, s.pool, s.locks, s.built,
          Function.update s.pc i (.leaving (.returned .success))⟩
  | unlock {s : State ι} {i : ι} (ending : Ending) (hpc : s.pc i = .leaving ending) :
      Step config s i
        ⟨s.readyPlugin, none, s.plugin, s.pool, s.locks, s.built,
          Function.update s.pc i (.ended ending)⟩

/-- The object, from its construction on. -/
def pools (config : Config ι) : System (State ι) ι where
  init s := s = State.new
  step := Step config

/-! ## §3. The invariant. -/

/-- A call with the code `code` was told the truth. -/
def Told (config : Config ι) (s : State ι) (i : ι) (code : ResponseCode) : Prop :=
  (code = .success ∧ s.plugin = some (config.plugin i)) ∨
    (code = .unsupportedBackendMix ∧ ∃ p, s.plugin = some p ∧ p ≠ config.plugin i)

/-- What a call knows, by where it is. -/
def Fits (config : Config ι) (s : State ι) (i : ι) : Pc → Prop
  | .idle | .slow | .ended .threw => True
  | .entered => s.pool = s.plugin
  | .building pool | .unwinding pool => s.plugin = none ∧ s.pool = none ∧ pool.Waiting
  | .built => s.plugin = none ∧ s.pool = some (config.plugin i)
  | .recorded => s.plugin = some (config.plugin i)
  | .leaving .threw => s.plugin = none ∧ s.pool = none
  | .leaving (.returned code) | .ended (.returned code) => Told config s i code

/-- What holds of the object's own members. -/
structure Coherent (s : State ι) : Prop where
  ready : ∀ p, s.readyPlugin = some p → s.plugin = some p
  plugin : ∀ p, s.plugin = some p → s.pool = some p
  locks : s.locks = s.plugin.toList
  built : s.built = s.pool.toList

/-- What holds between any two steps. -/
structure Inv (config : Config ι) (s : State ι) : Prop where
  coherent : Coherent s
  holds : ∀ i, (s.pc i).Critical → s.holder = some i
  free : s.holder = none → s.pool = s.plugin
  fits : ∀ i, Fits config s i (s.pc i)

omit [DecidableEq ι] in
theorem told_verdict {config : Config ι} {s : State ι} {i : ι} {p : Plugin}
    (h : s.plugin = some p) : Told config s i (verdict p (config.plugin i)) := by
  unfold verdict
  split
  next hne => exact .inr ⟨rfl, p, h, hne⟩
  next heq =>
    rw [not_not.mp heq] at h
    exact .inl ⟨rfl, h⟩

omit [DecidableEq ι] in
theorem Told.keeps {config : Config ι} {s t : State ι} {i : ι} {code : ResponseCode}
    (h : Told config s i code) (hplugin : ∀ p, s.plugin = some p → t.plugin = some p) :
    Told config t i code := by
  rcases h with ⟨hcode, hown⟩ | ⟨hcode, p, hother, hne⟩
  · exact .inl ⟨hcode, hplugin _ hown⟩
  · exact .inr ⟨hcode, p, hplugin _ hother, hne⟩

omit [DecidableEq ι] in
theorem Fits.congr {config : Config ι} {s t : State ι} {i : ι} {pc : Pc}
    (h : Fits config s i pc) (hplugin : t.plugin = s.plugin) (hpool : t.pool = s.pool) :
    Fits config t i pc := by
  have heq : Fits config t i pc = Fits config s i pc := by
    unfold Fits Told
    rw [hplugin, hpool]
  rw [heq]
  exact h

/-- **Call `i` moves.**  Either it leaves the plugin and the pool alone, or it
has the mutex, so that no other call looks at them. -/
theorem Inv.move {config : Config ι} {s t : State ι} (h : Inv config s) {i : ι} {pc : Pc}
    (hpc : t.pc = Function.update s.pc i pc) (hcoherent : Coherent t)
    (hplugin : ∀ p, s.plugin = some p → t.plugin = some p)
    (hshared : (t.plugin = s.plugin ∧ t.pool = s.pool) ∨ s.holder = some i)
    (hother : ∀ j, j ≠ i → s.holder = some j → t.holder = some j)
    (hself : pc.Critical → t.holder = some i)
    (hfree : t.holder = none → t.pool = t.plugin) (hfits : Fits config t i pc) :
    Inv config t := by
  refine ⟨hcoherent, fun j hj => ?_, hfree, fun j => ?_⟩
  · -- the thread that moved
    by_cases hji : j = i
    · subst hji
      rw [hpc, Function.update_self] at hj
      exact hself hj
    · -- the lock is still held by whom it was
      rw [hpc, Function.update_of_ne hji] at hj
      exact hother j hji (h.holds j hj)
  · by_cases hji : j = i
    · subst hji
      rw [hpc, Function.update_self]
      exact hfits
    · rw [hpc, Function.update_of_ne hji]
      have hj := h.fits j
      have hholds := h.holds j
      rcases hshared with ⟨hp, hq⟩ | hi
      · exact hj.congr hp hq
      · -- the others are outside the critical section
        have hout : ¬ (s.pc j).Critical := by
          intro hcrit
          rw [hholds hcrit] at hi
          exact hji (Option.some.inj hi)
        cases hat : s.pc j with
        | idle | slow => trivial
        | ended ending =>
            rw [hat] at hj
            cases ending with
            | returned code => exact Told.keeps hj hplugin
            | threw => trivial
        | _ =>
            rw [hat] at hout
            exact absurd trivial hout

/-- Call `i` moves on its own: the object's members stay. -/
theorem Inv.goto {config : Config ι} {s : State ι} (h : Inv config s) {i : ι} {pc : Pc}
    (hself : pc.Critical → s.holder = some i) (hfits : Fits config s i pc) :
    Inv config (s.goto i pc) :=
  h.move rfl ⟨h.coherent.ready, h.coherent.plugin, h.coherent.locks, h.coherent.built⟩
    (fun _ => id) (.inl ⟨rfl, rfl⟩) (fun _ _ => id) hself h.free (by cases pc <;> exact hfits)

omit [DecidableEq ι] in
theorem Inv.init {config : Config ι} : Inv config (State.new : State ι) :=
  ⟨⟨by simp [State.new], by simp [State.new], rfl, rfl⟩, fun _ h => h.elim, fun _ => rfl,
    fun _ => trivial⟩

/-- **Every step keeps the invariant.** -/
theorem Inv.step {config : Config ι} {s t : State ι} {i : ι} (h : Inv config s)
    (hstep : Step config s i t) : Inv config t := by
  obtain ⟨hready, hplugin, hlocks, hbuilt⟩ := h.coherent
  have hholds := h.holds i
  have hfits := h.fits i
  cases hstep with
  | loadReady p hpc hload => exact h.goto False.elim (told_verdict (hready p hload))
  | loadNone hpc => exact h.goto False.elim trivial
  | lock hpc hfree =>
      refine h.move rfl ⟨hready, hplugin, hlocks, hbuilt⟩ (fun _ => id) (.inl ⟨rfl, rfl⟩) ?_
        (fun _ => rfl) (fun hnone => by simp at hnone) (h.free hfree)
      intro j _ hj
      rw [hfree] at hj
      simp at hj
  | found p hpc hat =>
      rw [hpc] at hholds
      exact h.goto (fun _ => hholds trivial) (told_verdict hat)
  | construct hpc hnone =>
      rw [hpc] at hholds hfits
      have hpool : s.pool = s.plugin := hfits
      exact h.goto (fun _ => hholds trivial) ⟨hnone, by rw [hpool, hnone], rfl, rfl⟩
  | spawn pool hpc hmore =>
      rw [hpc] at hholds hfits
      exact h.goto (fun _ => hholds trivial) hfits
  | throws pool hpc hmore =>
      rw [hpc] at hholds hfits
      exact h.goto (fun _ => hholds trivial) hfits
  | threadEnds pool rest hpc hends =>
      -- a pool that unwinds waits for threads that wait for work: none of them ends
      rw [hpc] at hfits
      obtain ⟨-, -, hwaiting⟩ := hfits
      rw [hwaiting.threadEnds] at hends
      simp at hends
  | unwound pool hpc hnone =>
      rw [hpc] at hholds hfits
      exact h.goto (fun _ => hholds trivial) ⟨hfits.1, hfits.2.1⟩
  | assign pool hpc hall =>
      rw [hpc] at hholds hfits
      obtain ⟨hnone, hnopool, -⟩ := hfits
      have hi := hholds trivial
      -- the pool is built here and by nobody else, under the mutex
      refine h.move rfl ⟨hready, ?_, hlocks, ?_⟩ (fun _ => id) (.inr hi) (fun _ _ => id)
        (fun _ => hi) ?_ ⟨hnone, rfl⟩
      · intro p hp
        rw [show s.plugin = some p from hp] at hnone
        simp at hnone
      · show config.plugin i :: s.built = [config.plugin i]
        rw [hbuilt, hnopool]
        rfl
      · intro hfree
        rw [show s.holder = none from hfree] at hi
        simp at hi
  | record hpc =>
      rw [hpc] at hholds hfits
      obtain ⟨hnone, hpool⟩ := hfits
      have hi := hholds trivial
      -- the plugin was not set, so nothing that is set changes
      refine h.move rfl ⟨?_, ?_, ?_, hbuilt⟩ ?_ (.inr hi) (fun _ _ => id) (fun _ => hi) ?_ rfl
      · intro p hp
        have := hready p hp
        rw [hnone] at this
        simp at this
      · intro p hp
        rw [← hp]
        exact hpool
      · show config.plugin i :: s.locks = [config.plugin i]
        rw [hlocks, hnone]
        rfl
      · intro p hp
        rw [hnone] at hp
        simp at hp
      · intro hfree
        rw [show s.holder = none from hfree] at hi
        simp at hi
  | publish hpc =>
      rw [hpc] at hholds hfits
      have hplug : s.plugin = some (config.plugin i) := hfits
      refine h.move rfl ⟨?_, hplugin, hlocks, hbuilt⟩ (fun _ => id) (.inl ⟨rfl, rfl⟩)
        (fun _ _ => id) (fun _ => hholds trivial) h.free (.inl ⟨rfl, hplug⟩)
      intro p hp
      rw [← hp]
      exact hplug
  | unlock ending hpc =>
      rw [hpc] at hholds hfits
      have hi := hholds trivial
      refine h.move rfl ⟨hready, hplugin, hlocks, hbuilt⟩ (fun _ => id) (.inl ⟨rfl, rfl⟩) ?_
        False.elim ?_ ?_
      · intro j hj hholder
        rw [hi] at hholder
        exact absurd (Option.some.inj hholder).symm hj
      · -- at the unlock pool and plugin belong together again, however the call ended
        intro _
        show s.pool = s.plugin
        cases ending with
        | threw => rw [hfits.1, hfits.2]
        | returned code =>
            have htold : Told config s i code := hfits
            rcases htold with ⟨-, hown⟩ | ⟨-, p, hother, -⟩
            · rw [hplugin _ hown, hown]
            · rw [hplugin _ hother, hother]
      · cases ending with
        | threw => trivial
        | returned code => exact hfits

theorem reachable_inv {config : Config ι} :
    ∀ s, (pools config).Reachable s → Inv config s := by
  apply System.Reachable.invariant
  · rintro s rfl
    exact Inv.init
  · intro s a t _ h hstep
    exact h.step hstep

/-! ## §4. What stays. -/

/-- The locked plugin stays locked. -/
theorem step_plugin {config : Config ι} {s t : State ι} {i : ι} (h : Inv config s)
    (hstep : Step config s i t) {p : Plugin} (hp : s.plugin = some p) : t.plugin = some p := by
  have hfits := h.fits i
  cases hstep with
  | record hpc =>
      rw [hpc] at hfits
      rw [hfits.1] at hp
      simp at hp
  | _ => exact hp

/-- **A call for another plugin does not throw**, once a plugin is locked. -/
theorem step_unthrown {config : Config ι} {s t : State ι} {i j : ι} (h : Inv config s)
    (hstep : Step config s i t) {p : Plugin} (hp : s.plugin = some p)
    (hj : s.pc j ≠ .ended .threw) : t.pc j ≠ .ended .threw := by
  have hfits := h.fits i
  by_cases hji : j = i
  · subst hji
    cases hstep with
    | unlock ending hpc =>
        rw [hpc] at hfits
        show Function.update s.pc j _ j ≠ _
        rw [Function.update_self]
        rintro heq
        obtain rfl : ending = .threw := by simpa using heq
        rw [hfits.1] at hp
        simp at hp
    | _ =>
        show Function.update s.pc j _ j ≠ _
        rw [Function.update_self]
        simp
  · cases hstep <;>
    · show Function.update s.pc i _ j ≠ _
      rw [Function.update_of_ne hji]
      exact hj

/-- Call `i` waits for a thread of a half-built pool. -/
structure Stuck (s : State ι) (i : ι) : Prop where
  holder : s.holder = some i
  pc : ∃ pool, s.pc i = .unwinding pool ∧ pool.Waiting ∧ 0 < pool.threads

/-- **It waits for ever.** -/
theorem Stuck.step {config : Config ι} {s t : State ι} {i j : ι} (hinv : Inv config s)
    (h : Stuck s i) (hstep : Step config s j t) : Stuck t i := by
  obtain ⟨hholder, pool, hpc, hwaiting, hthreads⟩ := h
  by_cases hij : i = j
  · subst hij
    -- its own thread could go on only if one of the pool's had ended
    cases hstep with
    | threadEnds pool' rest hpc' hends =>
        obtain rfl : pool = pool' := by simpa [hpc] using hpc'
        rw [hwaiting.threadEnds] at hends
        simp at hends
    | unwound pool' hpc' hnone =>
        obtain rfl : pool = pool' := by simpa [hpc] using hpc'
        omega
    | _ => simp_all
  · -- the others cannot take the mutex, and have none to give back
    have hcrit : ¬ (s.pc j).Critical := by
      intro hcrit
      have := hinv.holds j hcrit
      rw [hholder] at this
      exact hij (Option.some.inj this)
    have hkeep : ∀ pc, Function.update s.pc j pc i = .unwinding pool := by
      intro pc
      rw [Function.update_of_ne hij]
      exact hpc
    cases hstep with
    | loadReady p hpc' hload => exact ⟨hholder, pool, hkeep _, hwaiting, hthreads⟩
    | loadNone hpc' => exact ⟨hholder, pool, hkeep _, hwaiting, hthreads⟩
    | lock hpc' hfree =>
        rw [hholder] at hfree
        simp at hfree
    | found p hpc' _ => exact absurd (by rw [hpc']; trivial) hcrit
    | construct hpc' _ => exact absurd (by rw [hpc']; trivial) hcrit
    | spawn pool' hpc' _ => exact absurd (by rw [hpc']; trivial) hcrit
    | throws pool' hpc' _ => exact absurd (by rw [hpc']; trivial) hcrit
    | threadEnds pool' rest hpc' _ => exact absurd (by rw [hpc']; trivial) hcrit
    | unwound pool' hpc' _ => exact absurd (by rw [hpc']; trivial) hcrit
    | assign pool' hpc' _ => exact absurd (by rw [hpc']; trivial) hcrit
    | record hpc' => exact absurd (by rw [hpc']; trivial) hcrit
    | publish hpc' => exact absurd (by rw [hpc']; trivial) hcrit
    | unlock ending hpc' => exact absurd (by rw [hpc']; trivial) hcrit

theorem stuck_leads {config : Config ι} {s t : State ι} {i : ι}
    (hreach : (pools config).Reachable s) (h : Stuck s i) (hleads : (pools config).Leads s t) :
    Stuck t i :=
  System.Leads.keeps (p := fun u => Stuck u i)
    (fun u _ _ hu h hstep => h.step (reachable_inv u hu) hstep) hreach h hleads

/-! ## §5. Trying again. -/

/-- From `s` on, call `j` may still succeed. -/
def CanSucceed (config : Config ι) (s : State ι) (j : ι) : Prop :=
  ∃ t, (pools config).Leads s t ∧ t.pc j = .ended (.returned .success)

theorem CanSucceed.before {config : Config ι} {s t : State ι} {i j : ι}
    (hstep : Step config s i t) (h : CanSucceed config t j) : CanSucceed config s j := by
  obtain ⟨u, hleads, hu⟩ := h
  exact ⟨u, .head ⟨i, hstep⟩ hleads, hu⟩

/-- A construction may go on to its end. -/
theorem building_succeeds {config : Config ι} {j : ι} (k : Nat) :
    ∀ (s : State ι) (pool : ThreadPool), s.pc j = .building pool →
      pool.threads + k = config.size → CanSucceed config s j := by
  induction k with
  | zero =>
      intro s pool hpc hall
      refine .before (.assign pool hpc hall) ?_
      refine .before (.record (Function.update_self ..)) ?_
      refine .before (.publish (Function.update_self ..)) ?_
      refine .before (.unlock (.returned .success) (Function.update_self ..)) ?_
      exact ⟨_, .refl, Function.update_self ..⟩
  | succ k ih =>
      intro s pool hpc hmore
      refine .before (.spawn pool hpc (by omega)) ?_
      refine ih _ pool.spawn (Function.update_self ..) ?_
      show pool.threads + 1 + k = config.size
      omega

/-- **A new call may lock its plugin** where the mutex is free and no plugin
is locked. -/
theorem idle_succeeds {config : Config ι} {s : State ι} {j : ι} (hpc : s.pc j = .idle)
    (hfree : s.holder = none) (hplugin : s.plugin = none) : CanSucceed config s j := by
  refine .before (.loadNone hpc) ?_
  refine .before (.lock (Function.update_self ..) hfree) ?_
  refine .before (.construct (Function.update_self ..) hplugin) ?_
  exact building_succeeds config.size _ .new (Function.update_self ..) (Nat.zero_add _)

/-- **The next call may succeed** exactly when no thread had been started. -/
theorem retry_iff {config : Config ι} {s : State ι} (hreach : (pools config).Reachable s)
    {i j : ι} {pool : ThreadPool} (hi : s.pc i = .unwinding pool) (hj : s.pc j = .idle) :
    CanSucceed config s j ↔ pool.threads = 0 := by
  have hinv := reachable_inv s hreach
  have hfits := hinv.fits i
  have hholds := hinv.holds i
  rw [hi] at hfits hholds
  obtain ⟨hplugin, -, hwaiting⟩ := hfits
  constructor
  · rintro ⟨t, hleads, ht⟩
    by_contra hthreads
    have hstuck : Stuck s i := ⟨hholds trivial, pool, hi, hwaiting, by omega⟩
    -- where one is stuck no plugin is locked, so nobody has succeeded
    obtain ⟨pool', hpc', -⟩ := (stuck_leads hreach hstuck hleads).pc
    have hinv' := reachable_inv t (hreach.leads hleads)
    have hnone := hinv'.fits i
    have htold := hinv'.fits j
    rw [hpc'] at hnone
    rw [ht] at htold
    rcases htold with ⟨-, hown⟩ | ⟨hcode, -⟩
    · rw [hnone.1] at hown
      simp at hown
    · simp at hcode
  · intro hthreads
    have hji : j ≠ i := by
      rintro rfl
      rw [hi] at hj
      simp at hj
    refine .before (.unwound pool hi hthreads) ?_
    refine .before (.unlock .threw (Function.update_self ..)) ?_
    refine idle_succeeds ?_ rfl hplugin
    show Function.update (Function.update s.pc i _) i _ j = .idle
    rw [Function.update_of_ne hji, Function.update_of_ne hji]
    exact hj

/-! ## §6. A call alone. -/

/-- Between calls, with or without a plugin. -/
def State.resting (plugin : Option Plugin) : State ι :=
  ⟨plugin, none, plugin, plugin, plugin.toList, plugin.toList, fun _ => .idle⟩

/-- How the call ends, as the submission sees it. -/
def Ending.of : Exit → Ending
  | .returned code => .returned code
  | .threw _ => .threw

/-- **A call that nobody interrupts does what `Service.lockPlugin` says**: it
ends the same way, and leaves the same plugin. -/
theorem lockPlugin_alone {n : Nat} (host : Host) (service : Service n) (config : Config ι)
    (j : ι) :
    ∃ t, (pools config).Leads (State.resting service.plugin) t ∧
      t.pc j = .ended (Ending.of (service.lockPlugin host (config.plugin j)).1) ∧
      t.plugin = (service.lockPlugin host (config.plugin j)).2.plugin := by
  unfold Service.lockPlugin
  cases hplugin : service.plugin with
  | some locked =>
      refine ⟨_, .single ⟨j, .loadReady locked rfl rfl⟩, ?_, hplugin.symm⟩
      show Function.update _ j _ j = _
      rw [Function.update_self]
      simp only [verdict, Ending.of]
      split <;> rfl
  | none =>
      cases hhost : host.threadPool with
      | some e =>
          -- the factory throws at once, so there is no thread to join
          refine ⟨_, .head ⟨j, .loadNone rfl⟩ (.head ⟨j, .lock (Function.update_self ..) rfl⟩
            (.head ⟨j, .construct (Function.update_self ..) rfl⟩
              (.head ⟨j, .throws .new (Function.update_self ..) (.inl rfl)⟩
                (.head ⟨j, .unwound .new (Function.update_self ..) rfl⟩
                  (.single ⟨j, .unlock .threw (Function.update_self ..)⟩))))), ?_, hplugin.symm⟩
          exact Function.update_self ..
      | none =>
          -- undisturbed, it gets through
          obtain ⟨t, hleads, ht⟩ : CanSucceed config (State.resting none) j :=
            idle_succeeds rfl rfl rfl
          refine ⟨t, hleads, ht, ?_⟩
          have hreach : (pools config).Reachable (State.resting none) := .init rfl
          have htold := (reachable_inv t (hreach.leads hleads)).fits j
          rw [ht] at htold
          rcases htold with ⟨-, hown⟩ | ⟨hmix, -⟩
          · exact hown
          · simp at hmix

/-! ## §7. The lock over whole runs. -/

/-- **What the lock promises of a state.** -/
structure Locked (config : Config ι) (s : State ι) : Prop where
  /-- at most one plugin has ever been locked in -/
  once : s.locks.length ≤ 1
  /-- and at most one pool built -/
  one : s.built.length ≤ 1
  /-- a call that succeeded finds the pool, built for its plugin -/
  success : ∀ i, s.pc i = .ended (.returned .success) →
    s.pool = some (config.plugin i) ∧ s.built = [config.plugin i]
  /-- and no other code but the refusal of another plugin is returned -/
  refused : ∀ i code, s.pc i = .ended (.returned code) → code ≠ .success →
    code = .unsupportedBackendMix ∧ ∃ p, s.locks = [p] ∧ p ≠ config.plugin i

omit [DecidableEq ι] in
theorem Inv.locked {config : Config ι} {s : State ι} (h : Inv config s) : Locked config s := by
  obtain ⟨-, hplugin, hlocks, hbuilt⟩ := h.coherent
  refine ⟨?_, ?_, fun i hi => ?_, fun i code hi hcode => ?_⟩
  · rw [hlocks]
    cases s.plugin <;> simp
  · rw [hbuilt]
    cases s.pool <;> simp
  · have htold := h.fits i
    rw [hi] at htold
    rcases htold with ⟨-, hown⟩ | ⟨hmix, -⟩
    · have hpool := hplugin _ hown
      exact ⟨hpool, by rw [hbuilt, hpool]; rfl⟩
    · simp at hmix
  · have htold := h.fits i
    rw [hi] at htold
    rcases htold with ⟨hsuccess, -⟩ | ⟨hmix, p, hother, hne⟩
    · exact absurd hsuccess hcode
    · exact ⟨hmix, p, by rw [hlocks, hother]; rfl, hne⟩

/-- **Every call for another plugin is refused** from then on. -/
def Refuses (config : Config ι) (s : State ι) : Prop :=
  ∀ p, s.plugin = some p → ∀ i, config.plugin i ≠ p → (∀ ending, s.pc i ≠ .ended ending) →
    ∀ t, (pools config).Leads s t → ∀ ending, t.pc i = .ended ending →
      ending = .returned .unsupportedBackendMix

theorem refuses {config : Config ι} {s : State ι} (hreach : (pools config).Reachable s) :
    Refuses config s := by
  intro p hp i hi hrunning t hleads ending hended
  obtain ⟨hlocked, hunthrown⟩ := System.Leads.keeps
    (p := fun u : State ι => u.plugin = some p ∧ u.pc i ≠ .ended .threw)
    (fun u _ _ hu h hstep => ⟨step_plugin (reachable_inv u hu) hstep h.1,
      step_unthrown (reachable_inv u hu) hstep h.1 h.2⟩)
    hreach ⟨hp, hrunning .threw⟩ hleads
  cases ending with
  | threw => exact absurd hended hunthrown
  | returned code =>
      have htold := (reachable_inv t (hreach.leads hleads)).fits i
      rw [hended] at htold
      rcases htold with ⟨-, hown⟩ | ⟨hmix, -⟩
      · rw [hlocked] at hown
        exact absurd (Option.some.inj hown).symm hi
      · rw [hmix]

/-- **The plugin lock**, in every state of every run: at most one plugin, one
pool, and every other plugin refused.  When a construction has thrown, the
next call may succeed exactly when it had not started a thread. -/
theorem plugin_lock (config : Config ι) (s : State ι) (hreach : (pools config).Reachable s) :
    Locked config s ∧ Refuses config s ∧
      ∀ i pool, s.pc i = .unwinding pool → ∀ j, s.pc j = .idle →
        (CanSucceed config s j ↔ pool.threads = 0) :=
  ⟨(reachable_inv s hreach).locked, refuses hreach, fun _ _ hi _ hj => retry_iff hreach hi hj⟩

/-- Two threads a pool; every call for the same plugin. -/
def twoThreads : Config Nat := ⟨fun _ => .s3, 2⟩

/-- The second thread of the pool could not be started. -/
def secondThrew : State Nat :=
  ((⟨none, some 0, none, none, [], [], fun _ => .idle⟩ : State Nat).goto 0
    (.unwinding ⟨1, 0, false⟩))

theorem secondThrew_reachable : (pools twoThreads).Reachable secondThrew := by
  have h₀ : (pools twoThreads).Reachable State.new := .init rfl
  have h₁ := h₀.step (Step.loadNone (i := 0) rfl)
  have h₂ := h₁.step (Step.lock (i := 0) rfl rfl)
  have h₃ := h₂.step (Step.construct (i := 0) rfl rfl)
  have h₄ := h₃.step (Step.spawn (i := 0) .new rfl (by decide))
  have h₅ := h₄.step (Step.throws (i := 0) ThreadPool.new.spawn rfl (by decide))
  simp only [State.goto, State.new, Function.update_idem] at h₅
  exact h₅

/-- The next call waits for the mutex for ever. -/
theorem secondThrew_stuck :
    ¬ ∀ s, (pools twoThreads).Reachable s → ∀ i pool, s.pc i = .unwinding pool →
      ∀ j, s.pc j = .idle → CanSucceed twoThreads s j := by
  intro h
  have hnone := (retry_iff secondThrew_reachable (i := 0) (j := 1) rfl rfl).mp
    (h secondThrew secondThrew_reachable 0 _ rfl 1 rfl)
  exact absurd hnone (by decide)

theorem plugin_lock_two :
    Locked twoThreads secondThrew ∧ Refuses twoThreads secondThrew ∧
      ∀ i pool, secondThrew.pc i = .unwinding pool → ∀ j, secondThrew.pc j = .idle →
        (CanSucceed twoThreads secondThrew j ↔ pool.threads = 0) :=
  plugin_lock twoThreads secondThrew secondThrew_reachable

end Calls

end ModelStreamer.Pools
