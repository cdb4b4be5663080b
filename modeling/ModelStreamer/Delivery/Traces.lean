/-
  ModelStreamer.Delivery.Traces
  ─────────────────────────────
  **WHAT A REJECTED SUBMISSION LEAVES BEHIND.**

  `lock_object_plugin` runs before the checks that can still reject a
  submission, and nothing takes the lock back.  A submission of a range that
  wraps, say, pins the streamer to its plugin without a byte read, and every
  later submission to another plugin is refused.

  Two runs are compared, with the submission and without it, through any
  calls in between.  Only the marks of the two streamers matter, and of these
  only what the later call asks of them: an object-storage lock that is not
  against its plugin, and set-ups it could not make itself.

    • `judge_code_iff` — when two streamers judge a call alike,
    • `later_marks` — the marks after any later calls,
    • `rejected_traceless` — exactly when a submission leaves no trace.
-/
import ModelStreamer.Delivery.Outcome

namespace ModelStreamer.Delivery

open ModelStreamer.Lib ModelStreamer.Planning

variable {n : Nat}

/-! ## §1. Codes. -/

/-- The code the caller gets: `runai_request` turns what is thrown into one. -/
def Exit.code : Exit → ResponseCode
  | .returned code => code
  | .threw e => e.code

/-- A process around the calls: whether the threads of a pool can be started,
`setrlimit` succeeds and there is memory for the clean-up, with the limits on
file descriptors.  None of these fails with a `common::Exception`. -/
structure Process where
  threads : Bool
  rlimit : Bool
  memory : Bool
  fdLimit : Nat
  fdMax : Nat

/-- What fails in a process. -/
def Process.host (process : Process) : Host where
  threadPool := if process.threads then none else some .assertion
  fdLimitSetter := if process.rlimit then none else some .assertion
  cleanup := if process.memory then none else some .assertion
  fdLimit := process.fdLimit
  fdMax := process.fdMax

/-- The plugin a call is going to lock. -/
def needs (request : List FileRanges) : Option Plugin :=
  if verifyRequests request then
    match backendOf request with
    | .plugin p => some p
    | _ => none
  else none

/-- The streamer is locked against the plugin. -/
def Marks.Against (m : Marks) (p : Plugin) : Prop := ∃ q, m.plugin = some q ∧ q ≠ p

/-- The first set-up the call has to make and cannot: the pool of the lock,
and, unless the submission is too large, those of `handle_s3`. -/
def Marks.lacks (host : Host) (config : Config) (m : Marks) (request : List FileRanges) :
    Option Failure :=
  match if m.plugin.isSome then none else host.threadPool with
  | some e => some e
  | none => if oversized request then none else (m.setUp host config).1

theorem needs_some {request : List FileRanges} {p : Plugin} :
    needs request = some p ↔ verifyRequests request = true ∧ backendOf request = .plugin p := by
  unfold needs
  cases verifyRequests request with
  | false => simp
  | true => cases backendOf request <;> simp

theorem setUp_failure (host : Host) (config : Config) (m : Marks) (p : Plugin) :
    (Marks.setUp host config { m with plugin := some p }).1 = (m.setUp host config).1 := by
  unfold Marks.setUp
  simp only
  cases if m.streamInit = true then none else raiseLimit host config with
  | some e => rfl
  | none =>
      simp only
      cases if m.cleanupInit = true then none else host.cleanup <;> rfl

/-- A call that needs no plugin ends as its request decides. -/
theorem judge_none {request : List FileRanges} (hneeds : needs request = none) (host host' : Host)
    (config : Config) (m m' : Marks) :
    (judge host config m request).1 = (judge host' config m' request).1 ∧
      (judge host config m request).2 = m := by
  unfold needs at hneeds
  unfold judge
  cases hverify : verifyRequests request with
  | false => exact ⟨rfl, rfl⟩
  | true =>
      simp only [hverify, if_true] at hneeds ⊢
      cases hb : backendOf request with
      | mixed => exact ⟨rfl, rfl⟩
      | filesystem => exact ⟨rfl, rfl⟩
      | plugin p => simp [hb] at hneeds

/-- A call that needs a plugin: against the lock, without a pool, or locked. -/
theorem judge_some {request : List FileRanges} {p : Plugin} (hneeds : needs request = some p)
    (host : Host) (config : Config) (m : Marks) :
    (m.Against p ∧ judge host config m request = (.returned .unsupportedBackendMix, m)) ∨
    (∃ e, ¬ m.Against p ∧ m.plugin = none ∧ host.threadPool = some e ∧
      judge host config m request = (.threw e, m)) ∨
    (¬ m.Against p ∧ (m.plugin.isSome = true ∨ host.threadPool = none) ∧
      judge host config m request
        = if oversized request then (requestExit request, { m with plugin := some p })
          else ((m.setUp host config).1.elim (requestExit request) .threw,
            (Marks.setUp host config { m with plugin := some p }).2)) := by
  obtain ⟨hverify, hb⟩ := needs_some.mp hneeds
  unfold judge
  rw [if_pos hverify, hb]
  rcases lock_cases host m p with ⟨hlock, hagainst⟩ | ⟨e, hlock, hplugin, hpool⟩ | ⟨hlock, hhad⟩
  · exact Or.inl ⟨hagainst, by simp only [hlock]⟩
  · refine Or.inr (Or.inl ⟨e, ?_, hplugin, hpool, by simp only [hlock]⟩)
    rintro ⟨q, hq, -⟩
    rw [hplugin] at hq
    simp at hq
  · refine Or.inr (Or.inr ⟨?_, ?_, by simp only [hlock, setUp_failure]⟩)
    · rintro ⟨q, hq, hne⟩
      rcases hhad with hp | ⟨hnone, -⟩
      · rw [hp] at hq
        exact hne (Option.some.inj hq).symm
      · rw [hnone] at hq
        simp at hq
    · rcases hhad with hp | ⟨-, hpool⟩
      · exact Or.inl (by rw [hp]; rfl)
      · exact Or.inr hpool

/-! ## §2. When two streamers judge a call alike. -/

/-- **The call is judged by the same of the marks**: either streamer is
locked against its plugin, or neither; and then the call lacks alike what it
has to set up itself. -/
def Alike (process : Process) (config : Config) (m m' : Marks) (request : List FileRanges) :
    Prop :=
  ∀ p, needs request = some p → (m.Against p ↔ m'.Against p) ∧
    (¬ m.Against p → (m.lacks process.host config request).map Failure.code
      = (m'.lacks process.host config request).map Failure.code)

/-- The code of a call that needs a plugin. -/
theorem judge_code {host : Host} {config : Config} {m : Marks} {request : List FileRanges}
    {p : Plugin} (hneeds : needs request = some p) :
    (m.Against p → (judge host config m request).1.code = .unsupportedBackendMix) ∧
    (¬ m.Against p → (judge host config m request).1.code
      = (m.lacks host config request).elim (requestExit request).code Failure.code) := by
  rcases judge_some hneeds host config m with
    ⟨hagainst, hjudge⟩ | ⟨e, hagainst, hplugin, hpool, hjudge⟩ | ⟨hagainst, hhad, hjudge⟩
  · refine ⟨fun _ => ?_, fun h => absurd hagainst h⟩
    rw [hjudge]
    rfl
  · refine ⟨fun h => absurd h hagainst, fun _ => ?_⟩
    rw [hjudge]
    unfold Marks.lacks
    rw [hplugin, hpool]
    rfl
  · refine ⟨fun h => absurd h hagainst, fun _ => ?_⟩
    have hpool : (if m.plugin.isSome = true then none else host.threadPool) = none := by
      rcases hhad with hsome | hnone
      · rw [if_pos hsome]
      · rw [hnone]
        split <;> rfl
    rw [hjudge]
    unfold Marks.lacks
    rw [hpool]
    simp only
    cases oversized request with
    | true => rfl
    | false =>
        simp only [Bool.false_eq_true, if_false]
        cases (m.setUp host config).1 <;> rfl

/-- The codes of what a process lacks: never a request's own. -/
theorem lacks_code {process : Process} {config : Config} {m : Marks}
    {request : List FileRanges} {e : Failure}
    (h : m.lacks process.host config request = some e) :
    e.code = .unknownError ∨ e.code = .insufficientFdLimit := by
  have hmade : ∀ {made : Bool}, (if made then none else some Failure.assertion) = some e →
      e.code = .unknownError := by
    intro made h
    cases made with
    | true => simp at h
    | false =>
        simp only [Bool.false_eq_true, if_false, Option.some.injEq] at h
        rw [← h]
        rfl
  have hpool : process.host.threadPool = some e → e.code = .unknownError := hmade
  have hcleanup : process.host.cleanup = some e → e.code = .unknownError := hmade
  have hraise : raiseLimit process.host config = some e →
      e.code = .unknownError ∨ e.code = .insufficientFdLimit := by
    intro h
    unfold raiseLimit at h
    split at h
    · split at h
      · simp only [Option.some.injEq] at h
        rw [← h]
        exact Or.inr rfl
      · exact Or.inl (hmade h)
    · simp at h
  -- the pool, the limit on open files and the cleanup are tried in this order
  unfold Marks.lacks at h
  split at h
  next e' heq =>
    simp only [Option.some.injEq] at h
    subst h
    split at heq
    · simp at heq
    · exact Or.inl (hpool heq)
  next =>
    split at h
    · simp at h
    · unfold Marks.setUp at h
      split at h
      next e' heq =>
        simp only [Option.some.injEq] at h
        subst h
        split at heq
        · simp at heq
        · exact hraise heq
      next =>
        split at h
        next e' heq =>
          simp only [Option.some.injEq] at h
          subst h
          split at heq
          · simp at heq
          · exact Or.inl (hcleanup heq)
        next => simp at h

theorem requestExit_code (request : List FileRanges) :
    (requestExit request).code = .success ∨
      (requestExit request).code = .invalidParameterError := by
  unfold requestExit
  split
  · exact Or.inr rfl
  · split
    · exact Or.inr rfl
    · exact Or.inl rfl

/-- **When two streamers judge a call alike.** -/
theorem judge_code_iff (process : Process) (config : Config) (m m' : Marks)
    (request : List FileRanges) :
    (judge process.host config m request).1.code = (judge process.host config m' request).1.code
      ↔ Alike process config m m' request := by
  cases hneeds : needs request with
  | none =>
      refine ⟨fun _ p hp => ?_, fun _ => ?_⟩
      · rw [hneeds] at hp
        simp at hp
      · rw [(judge_none hneeds process.host process.host config m m').1]
  | some p =>
      obtain ⟨hmix, hfree⟩ := @judge_code process.host config m request p hneeds
      obtain ⟨hmix', hfree'⟩ := @judge_code process.host config m' request p hneeds
      have hown := requestExit_code request
      -- a call that is not against the lock has another code
      have hother : ∀ {k : Marks}, (k.lacks process.host config request).elim
          (requestExit request).code Failure.code ≠ .unsupportedBackendMix := by
        intro k
        cases hlacks : k.lacks process.host config request with
        | none =>
            show (requestExit request).code ≠ _
            rcases hown with h | h <;> rw [h] <;> simp
        | some e =>
            show e.code ≠ _
            rcases lacks_code hlacks with h | h <;> rw [h] <;> simp
      have halike : Alike process config m m' request ↔ (m.Against p ↔ m'.Against p) ∧
          (¬ m.Against p → (m.lacks process.host config request).map Failure.code
            = (m'.lacks process.host config request).map Failure.code) := by
        refine ⟨fun h => h p hneeds, fun h q hq => ?_⟩
        rw [hneeds] at hq
        obtain rfl := Option.some.inj hq
        exact h
      rw [halike]
      by_cases hagainst : m.Against p
      · by_cases hagainst' : m'.Against p
        · rw [hmix hagainst, hmix' hagainst']
          simp [hagainst, hagainst']
        · rw [hmix hagainst, hfree' hagainst']
          refine ⟨fun h => absurd h.symm hother, fun h => absurd (h.1.mp hagainst) hagainst'⟩
      · by_cases hagainst' : m'.Against p
        · rw [hfree hagainst, hmix' hagainst']
          refine ⟨fun h => absurd h hother, fun h => absurd (h.1.mpr hagainst') hagainst⟩
        · rw [hfree hagainst, hfree' hagainst']
          simp only [hagainst, hagainst', not_false_eq_true, forall_const, iff_self, true_and]
          cases hlacks : m.lacks process.host config request with
          | none =>
              cases hlacks' : m'.lacks process.host config request with
              | none => simp
              | some e =>
                  have := lacks_code hlacks'
                  simp only [Option.elim_none, Option.elim_some, Option.map_none, Option.map_some,
                    reduceCtorEq, iff_false]
                  rcases hown with h | h <;> rcases this with h' | h' <;> rw [h, h'] <;> simp
          | some e =>
              cases hlacks' : m'.lacks process.host config request with
              | none =>
                  have := lacks_code hlacks
                  simp only [Option.elim_none, Option.elim_some, Option.map_none, Option.map_some,
                    reduceCtorEq, iff_false]
                  rcases hown with h | h <;> rcases this with h' | h' <;> rw [h, h'] <;> simp
              | some e' => simp

/-! ## §3. Runs with the call, and without. -/

/-- The marks a submission leaves: once its plugin is locked, the lock, and,
unless it is too large, the set-ups its process can make. -/
def Marks.after (process : Process) (config : Config) (m : Marks) (request : List FileRanges) :
    Marks :=
  match needs request with
  | none => m
  | some p =>
      -- the fast path of the lock, or the pool it makes
      if m.plugin = some p ∨ m.plugin = none ∧ process.threads = true then
        if oversized request then { m with plugin := some p }
        else (Marks.setUp process.host config { m with plugin := some p }).2
      else m

theorem judge_after (process : Process) (config : Config) (m : Marks)
    (request : List FileRanges) :
    (judge process.host config m request).2 = m.after process config request := by
  unfold Marks.after
  cases hneeds : needs request with
  | none => exact (judge_none hneeds process.host process.host config m m).2
  | some p =>
      simp only
      rcases judge_some hneeds process.host config m with
        ⟨⟨q, hq, hne⟩, hjudge⟩ | ⟨e, -, hplugin, hpool, hjudge⟩ | ⟨hagainst, hhad, hjudge⟩
      · -- another plugin is locked already
        rw [hjudge, if_neg]
        rintro (h | ⟨h, -⟩) <;> rw [hq] at h
        · exact hne (Option.some.inj h)
        · simp at h
      · -- none is, and the pool cannot be made
        have hthreads : process.threads = false := by
          cases hthreads : process.threads with
          | false => rfl
          | true => simp [Process.host, hthreads] at hpool
        rw [hjudge, if_neg]
        rintro (h | ⟨-, h⟩)
        · rw [hplugin] at h
          simp at h
        · rw [hthreads] at h
          simp at h
      · -- the plugin is locked now, whoever came first
        have hlock : m.plugin = some p ∨ m.plugin = none ∧ process.threads = true := by
          cases hplugin : m.plugin with
          | some q =>
              left
              by_contra hne
              exact hagainst ⟨q, hplugin, fun h => hne (by rw [h])⟩
          | none =>
              right
              refine ⟨rfl, ?_⟩
              rw [hplugin] at hhad
              rcases hhad with hsome | hpool
              · simp at hsome
              · cases hthreads : process.threads with
                | true => rfl
                | false => simp [Process.host, hthreads] at hpool
        rw [if_pos hlock, hjudge]
        split <;> rfl

/-- A call of the streamer's, in some process. -/
inductive Called where
  | submit (process : Process) (request : List FileRanges)
  | listFiles (process : Process) (path : String)

/-- `list_files` sets up the clean-up that `handle_s3` shares with it. -/
def Service.listFiles (host : Host) (s : Service n) (path : String) : Service n :=
  if (StorageUri.parse path).isSome then (s.initCleanup host).2 else s

/-- What a call leaves of the streamer. -/
def Service.call (config : StreamerConfig) (s : Service n) : Called → Service n
  | .submit process request => (s.asyncRequest process.host config request).service
  | .listFiles process path => s.listFiles process.host path

/-- What a call leaves of the marks. -/
def Marks.call (config : Config) (m : Marks) : Called → Marks
  | .submit process request => m.after process config request
  | .listFiles process path =>
      if (StorageUri.parse path).isSome ∧ process.memory = true then
        { m with cleanupInit := true }
      else m

/-- `t` comes after `s` and the calls `calls`; in between anything may happen
that the streamer's threads and its consumer do. -/
inductive Later (config : StreamerConfig) : Service n → List Called → Service n → Prop
  | nil (s : Service n) : Later config s [] s
  | call {s t : Service n} {c : Called} {calls : List Called} :
      Later config (s.call config c) calls t → Later config s (c :: calls) t
  | other {s t : Service n} {core : State n} {a : Action n} {calls : List Called} :
      Step s.core a core → Later config { s with core := core } calls t → Later config s calls t

theorem call_marks (config : StreamerConfig) {s : Service n}
    (hreach : (streamer n).Reachable s.core) (c : Called) :
    (s.call config c).marks = s.marks.call config.config c ∧
      (streamer n).Reachable (s.call config c).core := by
  cases c with
  | submit process request =>
      refine ⟨?_, asyncRequest_reachable process.host config hreach request⟩
      show (s.asyncRequest process.host config request).service.marks = _
      rw [asyncRequest_marks process.host config hreach request, judge_after]
      rfl
  | listFiles process path =>
      unfold Service.call Service.listFiles Marks.call
      simp only
      cases (StorageUri.parse path).isSome with
      | false => exact ⟨rfl, hreach⟩
      | true =>
          refine ⟨?_, ?_⟩
          · rw [if_pos rfl, initCleanup_eq]
            obtain ⟨core, plugin, streamInit, cleanupInit⟩ := s
            unfold Process.host Service.marks
            cases cleanupInit <;> cases process.memory <;> rfl
          · rw [if_pos rfl, initCleanup_core]
            exact hreach

/-- **The marks after any later calls** are those the calls leave. -/
theorem later_marks {config : StreamerConfig} {s t : Service n} {calls : List Called}
    (hreach : (streamer n).Reachable s.core) (h : Later config s calls t) :
    t.marks = calls.foldl (Marks.call config.config) s.marks ∧
      (streamer n).Reachable t.core := by
  induction h with
  | nil s => exact ⟨rfl, hreach⟩
  | @call s t c calls _ ih =>
      obtain ⟨hmarks, hcall⟩ := call_marks config hreach c
      obtain ⟨ht, hreach'⟩ := ih hcall
      refine ⟨?_, hreach'⟩
      rw [ht, hmarks]
      rfl
  | other hstep _ ih => exact ih (.step hreach hstep)

/-- **When a submission leaves no trace.**  Whether rejected or not, through
any later calls: exactly where the last of them is judged by the same marks. -/
theorem rejected_traceless (config : StreamerConfig) (s : Service n)
    (hreach : (streamer n).Reachable s.core) (rejecting : Process) (rejected : List FileRanges)
    (calls : List Called) {t t' : Service n} (hwithout : Later config s calls t)
    (hwith : Later config (s.asyncRequest rejecting.host config rejected).service calls t')
    (process : Process) (request : List FileRanges) :
    (t'.asyncRequest process.host config request).exit.code
        = (t.asyncRequest process.host config request).exit.code ↔
      Alike process config.config
        (calls.foldl (Marks.call config.config) (s.marks.after rejecting config.config rejected))
        (calls.foldl (Marks.call config.config) s.marks) request := by
  have hafter := asyncRequest_marks rejecting.host config hreach rejected
  rw [judge_after] at hafter
  obtain ⟨hmarks, ht⟩ := later_marks hreach hwithout
  obtain ⟨hmarks', ht'⟩ :=
    later_marks (asyncRequest_reachable rejecting.host config hreach rejected) hwith
  rw [asyncRequest_exit process.host config ht', asyncRequest_exit process.host config ht,
    hmarks, hmarks', hafter]
  exact judge_code_iff process config.config _ _ request

/-! ## §4. The lock is left. -/

/-- A process that lacks nothing. -/
def roomy : Process := ⟨true, true, true, 64, 64⟩

/-- Two bytes of an object, the second past the last address. -/
def wrappingObject : List FileRanges :=
  [⟨"gs://b/k", [⟨2 ^ 64 - 1, 2, 1, last_lt_word, two_lt_word, one_lt_word⟩]⟩]

/-- A byte of an object of another plugin. -/
def otherObject : List FileRanges := [⟨"s3://b/k", [⟨0, 1, 1, zero_lt_word, one_lt_word, one_lt_word⟩]⟩]

/-- A streamer fresh from its constructor. -/
def fresh : Service 1 := ⟨idle, none, false, false⟩

/-- **The trace**: a submission that is rejected for its range, and never
reads, has the next one refused for its plugin. -/
theorem wrappingObject_pins :
    (fresh.asyncRequest roomy.host oneWorker wrappingObject).exit ≠ .returned .success ∧
    (fresh.asyncRequest roomy.host oneWorker otherObject).exit.code = .success ∧
    ((fresh.asyncRequest roomy.host oneWorker wrappingObject).service.asyncRequest roomy.host
      oneWorker otherObject).exit.code = .unsupportedBackendMix := by
  have hfresh : (streamer 1).Reachable fresh.core := .init idle_init
  have hreach := asyncRequest_reachable roomy.host oneWorker hfresh wrappingObject
  rw [asyncRequest_exit roomy.host oneWorker hfresh, asyncRequest_exit roomy.host oneWorker hfresh,
    asyncRequest_exit roomy.host oneWorker hreach,
    asyncRequest_marks roomy.host oneWorker hfresh]
  decide +kernel

/-- A byte of a local file. -/
def localByte : List FileRanges := [⟨"/a", [⟨0, 1, 1, zero_lt_word, one_lt_word, one_lt_word⟩]⟩]

/-- A submission that needs no plugin does not see the lock. -/
theorem rejected_traceless_local :
    ((fresh.asyncRequest roomy.host oneWorker wrappingObject).service.asyncRequest roomy.host
        oneWorker localByte).exit.code
      = (fresh.asyncRequest roomy.host oneWorker localByte).exit.code := by
  have hneeds : needs localByte = none := by decide +kernel
  refine (rejected_traceless oneWorker fresh (.init idle_init) roomy wrappingObject [] (.nil _)
    (.nil _) roomy localByte).mpr (fun p hp => ?_)
  rw [hneeds] at hp
  simp at hp

end ModelStreamer.Delivery
