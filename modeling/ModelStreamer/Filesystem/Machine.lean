/-
  ModelStreamer.Filesystem.Machine
  ────────────────────────────────
  **THE THREADS, AND THE MEMORY THEY WRITE.**

  The streamer of `Delivery.System` with a memory.  A thread that takes a job
  of a file goes through the acts of its execution, one at a time and in
  between those of the other threads: a transfer writes the memory, and a
  call of `Request::finished` is the step `store` of the streamer.

    • `Reachable.core` — every run is one of the streamer, so all that
      is proved of its responses holds here,
    • `Tied` — the acts of a thread are what it still has to report, whatever
      the callers do,
    • `Careful` — what the caller sees to: the ranges of a submission lie
      apart, and memory is handed out again only after the range it was given
      for has its response,
    • `Sound` — the invariant of careful callers: a range without a response
      owns its memory, and every act is right where it stands.
-/
import ModelStreamer.Delivery.Accounting
import ModelStreamer.Delivery.ExactlyOnce
import ModelStreamer.Delivery.Landing
import ModelStreamer.Filesystem.Orderly

namespace ModelStreamer.Filesystem

open ModelStreamer.Lib ModelStreamer.Planning ModelStreamer.Delivery

/-! ## §1. The acts of a job. -/

/-- The call a report of a job makes. -/
def eventOf (job : Job) (f : Finish) : Option Event :=
  job.batch.tasks[f.task]?.map (fun task =>
    ⟨(job.ticket f.task task).ref, (job.ticket f.task task).range, f.ret⟩)

/-- The acts of a batch, as acts of the streamer. -/
def jobActs (job : Job) (acts : List (Effect UInt8 Finish)) : List (Effect UInt8 Event) :=
  acts.filterMap (fun act =>
    match act with
    | .write address cells => some (.write address cells)
    | .mark f => (eventOf job f).map .mark)

theorem marks_jobActs (job : Job) (acts : List (Effect UInt8 Finish)) :
    marks (jobActs job acts) = (marks acts).filterMap (eventOf job) := by
  induction acts with
  | nil => rfl
  | cons act acts ih =>
      cases act with
      | write address cells => exact ih
      | mark f =>
          rw [jobActs, List.filterMap_cons]
          simp only [marks, List.filterMap_cons]
          cases eventOf job f with
          | none => exact ih
          | some e => exact congrArg (e :: ·) ih

theorem replay_jobActs (job : Job) (acts : List (Effect UInt8 Finish)) (memory : Nat → UInt8) :
    replay (2 ^ 64) memory (jobActs job acts) = replay (2 ^ 64) memory acts := by
  induction acts generalizing memory with
  | nil => rfl
  | cons act acts ih =>
      cases act with
      | write address cells => exact ih _
      | mark f =>
          rw [jobActs, List.filterMap_cons]
          simp only [replay]
          cases eventOf job f with
          | none => exact ih memory
          | some e => exact ih memory

/-- The acts before and after a write of a job are those of its batch. -/
theorem jobActs_write {job : Job} {acts : List (Effect UInt8 Finish)}
    {front rest : List (Effect UInt8 Event)} {address : Nat} {cells : List UInt8}
    (h : jobActs job acts = front ++ .write address cells :: rest) :
    ∃ front' rest', acts = front' ++ .write address cells :: rest' ∧ rest = jobActs job rest' := by
  rw [jobActs, List.filterMap_eq_append_iff] at h
  obtain ⟨front', tail, rfl, -, htail⟩ := h
  rw [List.filterMap_eq_cons_iff] at htail
  obtain ⟨skipped, act, rest', rfl, -, hact, rfl⟩ := htail
  cases act with
  | mark f => simp at hact
  | write address' cells' =>
      obtain ⟨rfl, rfl⟩ := Effect.write.inj (Option.some.inj hact)
      exact ⟨front' ++ skipped, rest', by simp, rfl⟩

/-- The acts before a mark of a job, replayed, are those of its batch. -/
theorem jobActs_mark {job : Job} {acts : List (Effect UInt8 Finish)}
    {front rest : List (Effect UInt8 Event)} {e : Event} (h : jobActs job acts = front ++ .mark e :: rest) :
    ∃ front' f rest', acts = front' ++ .mark f :: rest' ∧ eventOf job f = some e ∧
      ∀ memory, replay (2 ^ 64) memory front = replay (2 ^ 64) memory front' := by
  rw [jobActs, List.filterMap_eq_append_iff] at h
  obtain ⟨front', tail, rfl, hfront, htail⟩ := h
  rw [List.filterMap_eq_cons_iff] at htail
  obtain ⟨skipped, act, rest', rfl, hskipped, hact, -⟩ := htail
  cases act with
  | write address cells => simp at hact
  | mark f =>
      simp only [Option.map_eq_some_iff, Effect.mark.injEq, exists_eq_right] at hact
      refine ⟨front' ++ skipped, f, rest', by simp, hact, fun memory => ?_⟩
      -- what is skipped leaves no act
      have hnone : jobActs job skipped = [] := by
        rw [jobActs, List.filterMap_eq_nil_iff]
        exact hskipped
      rw [replay_append, ← replay_jobActs job skipped, hnone, ← hfront]
      exact replay_jobActs job front' memory

/-! ## §2. Steps. -/

/-- The streamer, its memory, and what each thread still has to do. -/
structure Machine (n : Nat) where
  core : State n
  memory : Nat → UInt8
  acts : Fin n → List (Effect UInt8 Event)

/-- Who moves. -/
inductive Move (n : Nat) where
  /-- A step of the streamer that reads nothing. -/
  | core (a : Action n)
  | take (i : Fin n) (job : Job)
  | write (i : Fin n)
  | report (i : Fin n)

/-- The steps of a streamer with this config, where the files have these
bytes. -/
inductive Step {n : Nat} (config : Config) (files : String → List UInt8) :
    Machine n → Move n → Machine n → Prop
  | core {s : Machine n} (a : Action n) (t : State n) (hstep : Delivery.Step s.core a t)
      (htake : ∀ i job, a ≠ .take i job) (hstore : ∀ i, a ≠ .store i) :
      Step config files s (.core a) { s with core := t }
  /-- An idle thread takes a batch of a file, and `Batch::execute` begins.
  How the OS will behave, and when the stop will be seen, is not known to
  anyone. -/
  | take {s : Machine n} (i : Fin n) (job : Job) (disk : Disk) (os : Os) (stopAt : Nat)
      (hjob : job ∈ s.core.queue) (hthread : s.core.threads i = ⟨[], .store⟩)
      (hacts : s.acts i = []) (hfile : job.batch.isObjectStorage = false)
      (hdisk : disk.content = files job.batch.path) :
      Step config files s (.take i job)
        { s with
          core := { s.core with
            queue := s.core.queue.erase job
            threads := Function.update s.core.threads i
              ⟨marks (jobActs job (executeActs config disk os stopAt job.batch)), .store⟩ }
          acts := Function.update s.acts i
            (jobActs job (executeActs config disk os stopAt job.batch)) }
  /-- One transfer of the OS. -/
  | write {s : Machine n} (i : Fin n) (address : Nat) (cells : List UInt8)
      (rest : List (Effect UInt8 Event)) (hacts : s.acts i = .write address cells :: rest)
      (hpc : (s.core.threads i).pc = .store) :
      Step config files s (.write i)
        { s with
          memory := store (2 ^ 64) s.memory address cells
          acts := Function.update s.acts i rest }
  /-- A call of `Request::finished` begins: `_ret = result`, unless it is
  Success. -/
  | report {s : Machine n} (i : Fin n) (e : Event) (todo : List Event)
      (rest : List (Effect UInt8 Event)) (hacts : s.acts i = .mark e :: rest)
      (hthread : s.core.threads i = ⟨e :: todo, .store⟩) :
      Step config files s (.report i)
        { s with core := s.core.storeRet i e todo, acts := Function.update s.acts i rest }

/-- A streamer nothing has been submitted to. -/
structure Init {n : Nat} (s : Machine n) : Prop where
  core : Delivery.Init s.core
  acts_eq : ∀ i, s.acts i = []

/-- The streamer with `n` threads, and its memory. -/
def machine (n : Nat) (config : Config) (files : String → List UInt8) :
    System (Machine n) (Move n) := ⟨Init, Step config files⟩

/-! ## §3. Every run is one of the streamer. -/

/-- An execution of a file's batch, for the streamer. -/
def fileExecution (sub : Submission) {job : Job} (h : job ∈ sub.jobs) (config : Config) (disk : Disk)
    (os : Os) (stopAt : Nat) : Execution job.batch where
  run := (executeFile config disk os stopAt job.batch blank).run
  ran := by
    obtain ⟨o, ho⟩ := executeFile_refines config disk os stopAt job.batch blank
    rw [ho]
    exact (execute_complete (fun task htask =>
      (planned_stops sub.workers_pos sub.planned _ (mem_jobs h) task htask).2)).1
  complete := by
    obtain ⟨o, ho⟩ := executeFile_refines config disk os stopAt job.batch blank
    rw [ho]
    exact (execute_complete (fun task htask =>
      (planned_stops sub.workers_pos sub.planned _ (mem_jobs h) task htask).2)).2

/-- The calls of the acts are those of the execution. -/
theorem events_fileExecution (sub : Submission) {job : Job} (h : job ∈ sub.jobs) (config : Config)
    (disk : Disk) (os : Os) (stopAt : Nat) :
    job.events (fileExecution sub h config disk os stopAt)
      = marks (jobActs job (executeActs config disk os stopAt job.batch)) := by
  rw [marks_jobActs, ← (executeFile_over config disk os stopAt job.batch blank).2]
  rfl

/-- **Every step is one of the streamer**, or leaves it as it is. -/
theorem Step.core_step {n : Nat} {config : Config} {files : String → List UInt8} {s t : Machine n}
    {m : Move n} (h : Step config files s m t) (hqueued : Queued s.core) :
    t.core = s.core ∨ ∃ a, Delivery.Step s.core a t.core := by
  cases h with
  | core a t hstep htake hstore => exact .inr ⟨a, hstep⟩
  | take i job disk os stopAt hjob hthread hacts hfile hdisk =>
      obtain ⟨sub, -, hmem⟩ := hqueued job hjob
      refine .inr ⟨_, .take i job (fileExecution sub hmem config disk os stopAt) _ hjob
        (by rw [hthread]) ?_⟩
      rw [hthread, events_fileExecution]
      exact .refl _
  | write => exact .inl rfl
  | report i e todo rest hacts hthread => exact .inr ⟨_, .store i e todo hthread⟩

/-- **Every run is one of the streamer.** -/
theorem Reachable.core {n : Nat} {config : Config} {files : String → List UInt8} {s : Machine n}
    (h : (machine n config files).Reachable s) : (streamer n).Reachable s.core := by
  induction h with
  | init hinit => exact .init hinit.core
  | step _ hstep ih =>
      rcases Step.core_step hstep (reachable_inv _ ih).queued with heq | ⟨a, hcore⟩
      · rwa [heq]
      · exact ih.step hcore

/-! ## §4. What the caller sees to. -/

/-- The range has its response. -/
def HasResponse {n : Nat} (s : State n) (k : RangeId) : Prop := ∃ r ∈ s.pushed, r.range = k

/-- **A careful submission**: no range wraps, the ranges lie apart, and each
address is free: what it was given for before has its response. -/
structure CarefulSubmit {n : Nat} (s : State n) (sub : Submission) : Prop where
  noWrap : NoWrap sub.request
  apart : ∀ k k' a path path' pos pos', sub.Byte k a path pos → sub.Byte k' a path' pos' → k = k'
  free : ∀ old ∈ s.committed, ∀ k k' a path path' pos pos', old.Byte k a path pos →
    sub.Byte k' a path' pos' → HasResponse s k

/-- The caller is careful. -/
def Careful {n : Nat} (s : Machine n) : Move n → Prop
  | .core (.submit sub) => CarefulSubmit s.core sub
  | _ => True

/-- The runs of careful callers. -/
def carefulMachine (n : Nat) (config : Config) (files : String → List UInt8) :
    System (Machine n) (Move n) := (machine n config files).restrict Careful

/-! ## §5. The acts of a thread. -/

/-- The calls a thread has not begun. -/
def ahead (th : Thread) : List Event :=
  match th.pc with
  | .store => th.todo
  | _ => th.todo.tail

theorem mem_rest_of_ahead {th : Thread} {e : Event} (h : e ∈ ahead th) : e ∈ th.rest := by
  unfold ahead at h
  unfold Thread.rest
  cases hpc : th.pc with
  | store => rwa [hpc] at h
  | sub =>
      rw [hpc] at h
      exact List.mem_of_mem_tail h
  | answer => rwa [hpc] at h
  | push r => rwa [hpc] at h

/-- The acts of each thread are the calls it has not begun. -/
def Tied {n : Nat} (s : Machine n) : Prop := ∀ i, marks (s.acts i) = ahead (s.core.threads i)

section Acts

variable {n : Nat}

/-- A thread that moves without beginning a call. -/
theorem ahead_update {s t : State n} {i : Fin n} {th : Thread}
    (hthreads : t.threads = Function.update s.threads i th) (hth : ahead th = ahead (s.threads i))
    (j : Fin n) : ahead (t.threads j) = ahead (s.threads j) := by
  rw [hthreads]
  by_cases hj : j = i
  · subst hj
    rw [Function.update_self]
    exact hth
  · rw [Function.update_of_ne hj]

/-- A step of the streamer that reads nothing begins no call. -/
theorem ahead_core_step {s t : State n} {a : Action n} (hstep : Delivery.Step s a t)
    (htake : ∀ i job, a ≠ .take i job) (hstore : ∀ i, a ≠ .store i) (j : Fin n) :
    ahead (t.threads j) = ahead (s.threads j) := by
  cases hstep with
  | take i job => exact absurd rfl (htake i job)
  | store i => exact absurd rfl (hstore i)
  | sub i e todo hthread =>
      refine ahead_update (i := i) rfl ?_ j
      rw [hthread]
      split <;> rfl
  | answer i e todo hthread => exact ahead_update (i := i) rfl (by rw [hthread]; rfl) j
  | push i e todo r hthread => exact ahead_update (i := i) rfl (by rw [hthread]; rfl) j
  | mint => rfl
  | submit => rfl
  | pop => rfl
  | popFailed => rfl
  | bare => rfl
  | stop => rfl

/-- What a thread had before it did one act. -/
theorem acts_shift {α : Type} {acts : Fin n → List α} {i : Fin n} {act : α} {rest : List α}
    (hacts : acts i = act :: rest) (j : Fin n) :
    acts j = (if j = i then [act] else []) ++ Function.update acts i rest j := by
  by_cases hji : j = i
  · subst hji
    rw [if_pos rfl, Function.update_self, hacts]
    rfl
  · rw [if_neg hji, Function.update_of_ne hji]
    rfl

theorem Tied.write {s : Machine n} (h : Tied s) {memory : Nat → UInt8} {i : Fin n} {address : Nat}
    {cells : List UInt8} {rest : List (Effect UInt8 Event)}
    (hacts : s.acts i = .write address cells :: rest) :
    Tied { s with memory := memory, acts := Function.update s.acts i rest } := by
  intro j
  rw [← h j, acts_shift hacts j, marks_append]
  show marks (Function.update s.acts i rest j) = _
  split <;> rfl

theorem Tied.report {s : Machine n} (h : Tied s) {i : Fin n} {e : Event} {todo : List Event}
    {rest : List (Effect UInt8 Event)} (hacts : s.acts i = .mark e :: rest)
    (hthread : s.core.threads i = ⟨e :: todo, .store⟩) :
    Tied { s with core := s.core.storeRet i e todo, acts := Function.update s.acts i rest } := by
  have htodo : marks rest = todo := by
    have htied := h i
    rw [hacts, hthread] at htied
    exact (List.cons.inj htied).2
  intro j
  show marks (Function.update s.acts i rest j)
    = ahead (Function.update s.core.threads i ⟨e :: todo, .sub⟩ j)
  by_cases hji : j = i
  · subst hji
    rw [Function.update_self, Function.update_self, htodo]
    rfl
  · rw [Function.update_of_ne hji, Function.update_of_ne hji]
    exact h j

theorem Tied.take {s : Machine n} (h : Tied s) {queue : List Job} {i : Fin n}
    (acts : List (Effect UInt8 Event)) :
    Tied { s with
      core := { s.core with
        queue := queue
        threads := Function.update s.core.threads i ⟨marks acts, .store⟩ }
      acts := Function.update s.acts i acts } := by
  intro j
  show marks (Function.update s.acts i _ j) = ahead (Function.update s.core.threads i _ j)
  by_cases hji : j = i
  · subst hji
    rw [Function.update_self, Function.update_self]
    rfl
  · rw [Function.update_of_ne hji, Function.update_of_ne hji]
    exact h j

/-- **Every step keeps the acts and the calls together.** -/
theorem Tied.step {config : Config} {files : String → List UInt8} {s t : Machine n} {m : Move n}
    (h : Tied s) (hstep : Step config files s m t) : Tied t := by
  cases hstep with
  | core a t hcore htake hstore =>
      exact fun i => (h i).trans (ahead_core_step hcore htake hstore i).symm
  | take i job disk os stopAt => exact h.take _
  | write i address cells rest hacts => exact h.write hacts
  | report i e todo rest hacts hthread => exact h.report hacts hthread

theorem tied_init {s : Machine n} (h : Init s) : Tied s := by
  intro i
  rw [h.acts_eq, h.core.threads_eq]
  rfl

/-- In every run, whatever the callers do. -/
theorem reachable_tied {config : Config} {files : String → List UInt8} :
    ∀ s, (machine n config files).Reachable s → Tied s :=
  System.Reachable.invariant (fun _ hinit => tied_init hinit)
    (fun _ _ _ _ htied hstep => htied.step hstep)

end Acts

/-! ## §6. What holds of the acts and of the memory. -/

/-- The file's byte for this address of range `k` is `v`. -/
def Right (files : String → List UInt8) (committed : List Submission) (k : RangeId) (a : Nat)
    (v : UInt8) : Prop :=
  ∃ sub ∈ committed, ∃ path pos, sub.Byte k a path pos ∧ (files path)[pos]? = some v

theorem Right.append {files : String → List UInt8} {committed : List Submission} {k : RangeId}
    {a : Nat} {v : UInt8} (h : Right files committed k a v) (sub : Submission) :
    Right files (committed ++ [sub]) k a v := by
  obtain ⟨old, hold, hbyte⟩ := h
  exact ⟨old, List.mem_append_left _ hold, hbyte⟩

/-- The call has begun. -/
def Reported {n : Nat} (s : State n) (e : Event) : Prop :=
  e ∈ s.finished ∨ ∃ i, (s.threads i).stored = some e

/-- The bytes the ticket's holder reads are right in this memory, as far as
its range owns them. -/
def InPlace {n : Nat} (files : String → List UInt8) (s : State n) (memory : Nat → UInt8) (e : Event) :
    Prop :=
  ∀ sub ∈ s.committed, ∀ a path pos, sub.Reads e.ticket a path pos →
    Owns s.committed e.range a → Right files s.committed e.range a (memory a)

/-- **The invariant**. -/
structure Sound {n : Nat} (files : String → List UInt8) (s : Machine n) : Prop where
  tied : Tied s
  noWrap : ∀ sub ∈ s.core.committed, NoWrap sub.request
  apart : ∀ sub ∈ s.core.committed, ∀ k k' a path path' pos pos', sub.Byte k a path pos →
    sub.Byte k' a path' pos' → k = k'
  free : ∀ sub ∈ s.core.committed, ∀ k a path pos, sub.Byte k a path pos →
    ¬ HasResponse s.core k → Owns s.core.committed k a
  writes : ∀ i front address cells rest, s.acts i = front ++ .write address cells :: rest →
    ∀ j v, cells[j]? = some v →
      ∃ e ∈ marks rest, Right files s.core.committed e.range ((address + j) % 2 ^ 64) v
  reports : ∀ i front e rest, s.acts i = front ++ .mark e :: rest → e.ret = .success →
    InPlace files s.core (replay (2 ^ 64) s.memory front) e
  done : ∀ e, Reported s.core e → e.ret = .success → InPlace files s.core s.memory e

section Facts

variable {n : Nat} {files : String → List UInt8} {s : Machine n}

/-- What a thread has before it is not counted. -/
theorem Sound.outstanding (h : Sound files s) {i : Fin n} {e : Event} (he : e ∈ marks (s.acts i)) :
    e.ticket ∈ outstanding s.core := by
  rw [h.tied] at he
  refine Multiset.mem_add.mpr (.inr (Multiset.mem_sum.mpr ⟨i, Finset.mem_univ i, ?_⟩))
  exact List.mem_map_of_mem (mem_rest_of_ahead he)

/-- A range with a task out has no response. -/
theorem outstanding_no_response {s : State n} (hinv : Inv s) {t : Ticket} (ht : t ∈ outstanding s) :
    ¬ HasResponse s t.range := by
  rintro ⟨r, hr, hrange⟩
  have hknown := hinv.conserved.known_outstanding ht
  have hpos : 1 ≤ ticketsOf t.range (Delivery.outstanding s) := Multiset.countP_pos_of_mem ht rfl
  rw [← hinv.left _ hknown, ← hrange, (hinv.final.pushed r hr).counted_down] at hpos
  exact absurd hpos (by omega)

/-- A call that has begun is for a task of a committed submission. -/
theorem reported_issued {s : State n} (hinv : Inv s) {e : Event} (h : Reported s e) :
    e.ticket ∈ issued s := by
  rw [← hinv.conserved]
  rcases h with hfin | ⟨i, hstored⟩
  · exact Multiset.mem_add.mpr (.inr (List.mem_map_of_mem hfin))
  · exact Multiset.mem_add.mpr (.inl (current_outstanding (stored_current hstored)))

/-- **A cell about to be written** is right for a range that has no response
yet, and so owns it. -/
theorem Sound.cell (h : Sound files s) (hinv : Inv s.core) {i : Fin n}
    {front rest : List (Effect UInt8 Event)} {address j : Nat} {cells : List UInt8} {v : UInt8}
    (hacts : s.acts i = front ++ .write address cells :: rest) (hget : cells[j]? = some v) :
    ∃ k, ¬ HasResponse s.core k ∧ Owns s.core.committed k ((address + j) % 2 ^ 64) ∧
      Right files s.core.committed k ((address + j) % 2 ^ 64) v := by
  obtain ⟨e, he, hright⟩ := h.writes i front address cells rest hacts j v hget
  have hmem : e ∈ marks (s.acts i) := by
    rw [hacts, marks_append]
    exact List.mem_append_right _ he
  have hnone := outstanding_no_response hinv (h.outstanding hmem)
  have hbyte := hright
  obtain ⟨sub, hsub, path, pos, hbyte, -⟩ := hbyte
  exact ⟨e.range, hnone, h.free sub hsub _ _ path pos hbyte hnone, hright⟩

/-- A memory that differs where an owner's byte was written serves whom the
old one served. -/
theorem InPlace.write {s : State n} {memory memory' : Nat → UInt8} {e : Event}
    (h : InPlace files s memory e)
    (hapart : ∀ sub ∈ s.committed, ∀ k k' a path path' pos pos', sub.Byte k a path pos →
      sub.Byte k' a path' pos' → k = k')
    (hchange : ∀ a, memory' a = memory a ∨
      ∃ k, Owns s.committed k a ∧ Right files s.committed k a (memory' a)) :
    InPlace files s memory' e := by
  intro sub hsub a path pos hreads howns
  rcases hchange a with hsame | ⟨k, hk, hright⟩
  · rw [hsame]
    exact h sub hsub a path pos hreads howns
  · rw [howns.unique hapart hk]
    exact hright

end Facts

/-! ## §7. Every step keeps it. -/

section Steps

variable {n : Nat} {files : String → List UInt8} {s : Machine n}

/-- A step of the streamer that commits nothing. -/
theorem Sound.core_same (h : Sound files s) {t : State n} (hcom : t.committed = s.core.committed)
    (hahead : ∀ i, ahead (t.threads i) = ahead (s.core.threads i))
    (hpushed : ∀ k, HasResponse s.core k → HasResponse t k)
    (hreported : ∀ e, Reported t e → Reported s.core e) : Sound files { s with core := t } where
  tied i := (h.tied i).trans (hahead i).symm
  noWrap sub hsub := h.noWrap sub (hcom ▸ hsub)
  apart sub hsub := h.apart sub (hcom ▸ hsub)
  free sub hsub k a path pos hbyte hnone := by
    show Owns t.committed k a
    rw [hcom]
    exact h.free sub (hcom ▸ hsub) k a path pos hbyte (fun hhas => hnone (hpushed k hhas))
  writes := by
    show ∀ i front address cells rest, s.acts i = _ → ∀ j v, _ → ∃ e ∈ _, Right files t.committed _ _ v
    rw [hcom]
    exact h.writes
  reports i front e rest hacts hret := by
    unfold InPlace
    show ∀ sub ∈ t.committed, _
    rw [hcom]
    exact h.reports i front e rest hacts hret
  done e he hret := by
    unfold InPlace
    show ∀ sub ∈ t.committed, _
    rw [hcom]
    exact h.done e (hreported e he) hret

/-- A thread that moves on from a call it has stored, or has none stored. -/
theorem stored_update {s t : State n} {i : Fin n} {th : Thread}
    (hthreads : t.threads = Function.update s.threads i th) (hth : th.stored = none) {e : Event}
    (h : ∃ j, (t.threads j).stored = some e) : ∃ j, (s.threads j).stored = some e := by
  obtain ⟨j, hj⟩ := h
  rw [hthreads] at hj
  by_cases hji : j = i
  · subst hji
    rw [Function.update_self, hth] at hj
    cases hj
  · rw [Function.update_of_ne hji] at hj
    exact ⟨j, hj⟩

/-- **The steps of the streamer that read nothing** and commit nothing. -/
theorem Sound.core_step (h : Sound files s) {a : Action n} {t : State n}
    (hstep : Delivery.Step s.core a t) (htake : ∀ i job, a ≠ .take i job)
    (hstore : ∀ i, a ≠ .store i) (hsubmit : ∀ sub, a ≠ .submit sub) :
    Sound files { s with core := t } := by
  have hahead := ahead_core_step hstep htake hstore
  cases hstep with
  | mint => exact h.core_same rfl hahead (fun _ hk => hk) (fun _ he => he)
  | submit sub => exact absurd rfl (hsubmit sub)
  | take i job => exact absurd rfl (htake i job)
  | store i => exact absurd rfl (hstore i)
  | sub i e todo hthread =>
      have hstored : (s.core.threads i).stored = some e := by
        rw [hthread]
        rfl
      refine h.core_same rfl hahead (fun _ hk => hk) ?_
      rintro e' (hfin | hthreads)
      · rcases List.mem_append.mp hfin with hfin | hnew
        · exact .inl hfin
        · -- the call that is counted had begun
          rw [List.mem_singleton.mp hnew]
          exact .inr ⟨i, hstored⟩
      · refine .inr (stored_update (i := i) rfl ?_ hthreads)
        split <;> rfl
  | answer i e todo hthread =>
      refine h.core_same rfl hahead (fun _ hk => hk) ?_
      exact fun e' he' => he'.imp id (stored_update (i := i) rfl rfl)
  | push i e todo r hthread =>
      refine h.core_same rfl hahead ?_ ?_
      · rintro k ⟨r', hr', hk⟩
        exact ⟨r', List.mem_append_left _ hr', hk⟩
      · exact fun e' he' => he'.imp id (stored_update (i := i) rfl rfl)
  | pop => exact h.core_same rfl hahead (fun _ hk => hk) (fun _ he => he)
  | popFailed => exact h.core_same rfl hahead (fun _ hk => hk) (fun _ he => he)
  | bare => exact h.core_same rfl hahead (fun _ hk => hk) (fun _ he => he)
  | stop => exact h.core_same rfl hahead (fun _ hk => hk) (fun _ he => he)

/-- The holder of a ticket issued before a submission is not its. -/
theorem issued_old {s : State n} (hids : Ids s) {sub : Submission} (hid : sub.id ∈ s.minted)
    {t : Ticket} (ht : t ∈ issued s) : t.range.submission ≠ sub.id := by
  obtain ⟨old, hold, -, hk⟩ := known_submission (known_of_issued ht)
  rw [hk]
  exact hids.minted_unused _ hid _ hold

theorem InPlace.commit {s : State n} (hids : Ids s) {sub : Submission} {mgr : SubmissionsMgr}
    (hid : sub.id ∈ s.minted) {memory : Nat → UInt8} {e : Event} (he : e.ticket ∈ issued s)
    (h : InPlace files s memory e) : InPlace files (s.commit sub mgr) memory e := by
  have hne := issued_old hids hid he
  intro sub' hsub' a path pos hreads howns
  rcases List.mem_append.mp hsub' with hold | hnew
  · exact (h sub' hold a path pos hreads (howns.of_append hne)).append sub
  · rw [List.mem_singleton.mp hnew] at hreads
    exact absurd (ticket_submission hreads.ticket).2 hne

/-- **A careful submission.** -/
theorem Sound.commit (h : Sound files s) (hinv : Inv s.core) {sub : Submission}
    {mgr : SubmissionsMgr} (hid : sub.id ∈ s.core.minted) (hcareful : CarefulSubmit s.core sub) :
    Sound files { s with core := s.core.commit sub mgr } where
  tied := h.tied
  noWrap sub' hsub' := by
    rcases List.mem_append.mp hsub' with hold | hnew
    · exact h.noWrap sub' hold
    · rw [List.mem_singleton.mp hnew]
      exact hcareful.noWrap
  apart sub' hsub' := by
    rcases List.mem_append.mp hsub' with hold | hnew
    · exact h.apart sub' hold
    · rw [List.mem_singleton.mp hnew]
      exact hcareful.apart
  free sub' hsub' k a path pos hbyte hnone := by
    rcases List.mem_append.mp hsub' with hold | hnew
    · -- it keeps its memory, for it has no response yet
      refine (h.free sub' hold k a path pos hbyte hnone).append (fun k' path' pos' hbyte' => ?_)
      exact hnone (hcareful.free sub' hold k k' a path path' pos pos' hbyte hbyte')
    · rw [List.mem_singleton.mp hnew] at hbyte
      exact ⟨s.core.committed, sub, [], rfl, ⟨path, pos, hbyte⟩, by simp⟩
  writes i front address cells rest hacts j v hget := by
    obtain ⟨e, he, hright⟩ := h.writes i front address cells rest hacts j v hget
    exact ⟨e, he, hright.append sub⟩
  reports i front e rest hacts hret := by
    have hmem : e ∈ marks (s.acts i) := by
      rw [hacts, marks_append]
      exact List.mem_append_right _ (List.mem_cons_self ..)
    have hissued : e.ticket ∈ issued s.core := by
      rw [← hinv.conserved]
      exact Multiset.mem_add.mpr (.inl (h.outstanding hmem))
    exact (h.reports i front e rest hacts hret).commit hinv.ids hid hissued
  done e he hret := (h.done e he hret).commit hinv.ids hid (reported_issued hinv he)

/-- **A transfer.** -/
theorem Sound.write (h : Sound files s) (hinv : Inv s.core) {i : Fin n} {address : Nat}
    {cells : List UInt8} {rest : List (Effect UInt8 Event)}
    (hacts : s.acts i = .write address cells :: rest) :
    Sound files { s with
      memory := store (2 ^ 64) s.memory address cells
      acts := Function.update s.acts i rest } := by
  have hchange : ∀ a, store (2 ^ 64) s.memory address cells a = s.memory a ∨
      ∃ k, Owns s.core.committed k a ∧
        Right files s.core.committed k a (store (2 ^ 64) s.memory address cells a) := by
    intro a
    rcases @store_cases _ (2 ^ 64) s.memory address cells a with hsame | ⟨j, v, hget, rfl, hval⟩
    · exact .inl hsame
    · rw [hval]
      obtain ⟨k, -, howns, hright⟩ := h.cell hinv (hacts.trans (List.nil_append _).symm) hget
      exact .inr ⟨k, howns, hright⟩
  refine ⟨h.tied.write hacts, h.noWrap, h.apart, h.free,
    fun j front address' cells' rest' hj => ?_, fun j front e rest' hj hret => ?_,
    fun e he hret => (h.done e he hret).write h.apart hchange⟩
  · have hold := acts_shift hacts j
    rw [show Function.update s.acts i rest j = _ from hj, ← List.append_assoc] at hold
    exact h.writes j _ address' cells' rest' hold
  · have hold := acts_shift hacts j
    rw [show Function.update s.acts i rest j = _ from hj, ← List.append_assoc] at hold
    have hinplace := h.reports j _ e rest' hold hret
    rw [replay_append] at hinplace
    by_cases hji : j = i
    · -- the thread itself has one act less before the mark
      rw [if_pos hji] at hinplace
      exact hinplace
    · rw [if_neg hji] at hinplace
      refine hinplace.write h.apart (fun a => ?_)
      rcases @replay_agree _ _ (2 ^ 64) front s.memory (store (2 ^ 64) s.memory address cells) a with
        hsame | ⟨hold, hnew⟩
      · exact .inl hsame.symm
      · show replay (2 ^ 64) (store (2 ^ 64) s.memory address cells) front a
          = replay (2 ^ 64) s.memory front a ∨ _
        rw [hold, hnew]
        exact hchange a

/-- **A report begins**: its bytes are in place. -/
theorem Sound.report (h : Sound files s) {i : Fin n} {e : Event} {todo : List Event}
    {rest : List (Effect UInt8 Event)} (hacts : s.acts i = .mark e :: rest)
    (hthread : s.core.threads i = ⟨e :: todo, .store⟩) :
    Sound files
      { s with core := s.core.storeRet i e todo, acts := Function.update s.acts i rest } := by
  refine ⟨h.tied.report hacts hthread, h.noWrap, h.apart, h.free,
    fun j front address' cells' rest' hj => ?_, fun j front e' rest' hj hret => ?_,
    fun e' he' hret => ?_⟩
  · have hold := acts_shift hacts j
    rw [show Function.update s.acts i rest j = _ from hj, ← List.append_assoc] at hold
    exact h.writes j _ address' cells' rest' hold
  · have hold := acts_shift hacts j
    rw [show Function.update s.acts i rest j = _ from hj, ← List.append_assoc] at hold
    have hinplace := h.reports j _ e' rest' hold hret
    rw [replay_append] at hinplace
    split at hinplace <;> exact hinplace
  · rcases he' with hfin | ⟨j, hj⟩
    · exact h.done e' (.inl hfin) hret
    · have hj : (Function.update s.core.threads i ⟨e :: todo, .sub⟩ j).stored = some e' := hj
      by_cases hji : j = i
      · -- the call that begins: nothing stands before it
        subst hji
        rw [Function.update_self] at hj
        obtain rfl : e = e' := Option.some.inj hj
        exact h.reports j [] e rest hacts hret
      · rw [Function.update_of_ne hji] at hj
        exact h.done e' (.inr ⟨j, hj⟩) hret

/-- The holder of a job's ticket reads what its task says. -/
theorem Reads.of_ticket {sub : Submission} {job : Job} (hjob : job ∈ sub.jobs) {i : Nat}
    {task : Task} (htask : job.batch.tasks[i]? = some task) {t : Ticket}
    (ht : t = job.ticket i task) {a pos : Nat} {path : String} (h : sub.Reads t a path pos) :
    ∃ y, y < task.info.bytesize ∧ a = wrap (task.destination + y) ∧ path = job.batch.path ∧
      pos = task.info.offset + y := by
  cases h with
  | @mk job' i' y task' hjob' htask' hy =>
      have href := congrArg Ticket.ref ht
      simp only [Job.ticket, TaskRef.mk.injEq] at href
      obtain rfl := job_unique hjob' hjob href.2.1
      rw [href.2.2, htask, Option.some.injEq] at htask'
      subst htask'
      exact ⟨y, hy, rfl, rfl, rfl⟩

theorem eventOf_eq {job : Job} {f : Finish} {e : Event} (h : eventOf job f = some e) :
    ∃ task, job.batch.tasks[f.task]? = some task ∧ e.ticket = job.ticket f.task task ∧
      e.ret = f.ret := by
  unfold eventOf at h
  obtain ⟨task, htask, rfl⟩ := Option.map_eq_some_iff.mp h
  exact ⟨task, htask, rfl, rfl⟩

/-- **A thread takes a job**: the acts of its execution are right. -/
theorem Sound.take (h : Sound files s) (hinv : Inv s.core) {config : Config}
    (hblock : 1 ≤ config.fsBlockBytesize) {i : Fin n} {job : Job} {disk : Disk} {os : Os}
    {stopAt : Nat} (hjob : job ∈ s.core.queue) (hthread : s.core.threads i = ⟨[], .store⟩)
    (hdisk : disk.content = files job.batch.path) :
    Sound files { s with
      core := { s.core with
        queue := s.core.queue.erase job
        threads := Function.update s.core.threads i
          ⟨marks (jobActs job (executeActs config disk os stopAt job.batch)), .store⟩ }
      acts := Function.update s.acts i
        (jobActs job (executeActs config disk os stopAt job.batch)) } := by
  obtain ⟨sub, hsub, hmem⟩ := hinv.queued job hjob
  have hno := h.noWrap sub hsub
  have horderly := executeActs_orderly hblock
    (planned_contiguous sub.workers_pos sub.planned _ (mem_jobs hmem)) disk os stopAt
  rw [hdisk] at horderly
  refine ⟨h.tied.take _, h.noWrap, h.apart, h.free, fun j front address cells rest hj => ?_,
    fun j front e rest hj hret => ?_, fun e he hret => h.done e ?_ hret⟩
  · have hj : Function.update s.acts i (jobActs job (executeActs config disk os stopAt job.batch)) j
        = front ++ .write address cells :: rest := hj
    by_cases hji : j = i
    · subst hji
      rw [Function.update_self] at hj
      obtain ⟨front', rest', hacts, rfl⟩ := jobActs_write hj
      intro m v hget
      obtain ⟨f, hf, task, y, htask, hy, haddress, hbyte⟩ :=
        horderly.writes front' address cells rest' hacts m v hget
      have hreads := Submission.Reads.mk hmem htask hy
      refine ⟨⟨(job.ticket f.task task).ref, (job.ticket f.task task).range, f.ret⟩, ?_, ?_⟩
      · rw [marks_jobActs]
        refine List.mem_filterMap.mpr ⟨f, hf, ?_⟩
        rw [eventOf, htask]
        rfl
      · rw [haddress]
        exact ⟨sub, hsub, _, _, hreads.byte hno, hbyte⟩
    · rw [Function.update_of_ne hji] at hj
      exact h.writes j front address cells rest hj
  · have hj : Function.update s.acts i (jobActs job (executeActs config disk os stopAt job.batch)) j
        = front ++ .mark e :: rest := hj
    by_cases hji : j = i
    · subst hji
      rw [Function.update_self] at hj
      obtain ⟨front', f, rest', hacts, hevent, hreplay⟩ := jobActs_mark hj
      obtain ⟨task, htask, hticket, hcode⟩ := eventOf_eq hevent
      intro sub' hsub' a path pos hreads _
      -- a ticket is held by one submission
      obtain rfl : sub' = sub := by
        refine List.inj_on_of_nodup_map hinv.ids.distinct hsub' hsub ?_
        rw [← (ticket_submission hreads.ticket).2, hticket,
          (ticket_submission (mem_tickets hmem htask)).2]
      obtain ⟨y, hy, rfl, rfl, rfl⟩ := Reads.of_ticket hmem htask hticket hreads
      have hbyte := horderly.marks front' f rest' hacts (hcode ▸ hret) task htask y hy s.memory
      rw [show (replay (2 ^ 64) s.memory front) = replay (2 ^ 64) s.memory front' from
        hreplay s.memory]
      exact ⟨sub', hsub', _, _, hreads.byte hno, hbyte⟩
    · rw [Function.update_of_ne hji] at hj
      exact h.reports j front e rest hj hret
  · rcases he with hfin | hstored
    · exact .inl hfin
    · exact .inr (stored_update (i := i) rfl rfl hstored)

theorem Sound.step {config : Config} (hblock : 1 ≤ config.fsBlockBytesize) (h : Sound files s)
    (hinv : Inv s.core) {t : Machine n} {m : Move n} (hcareful : Careful s m)
    (hstep : Step config files s m t) : Sound files t := by
  cases hstep with
  | core a t hcore htake hstore =>
      by_cases hsubmit : ∀ sub, a ≠ .submit sub
      · exact h.core_step hcore htake hstore hsubmit
      · simp only [ne_eq, not_forall, not_not] at hsubmit
        obtain ⟨sub, rfl⟩ := hsubmit
        cases hcore with
        | submit _ mgr hid hadd => exact h.commit hinv hid hcareful
  | take i job disk os stopAt hjob hthread hacts hfile hdisk =>
      exact h.take hinv hblock hjob hthread hdisk
  | write i address cells rest hacts hpc => exact h.write hinv hacts
  | report i e todo rest hacts hthread => exact h.report hacts hthread

end Steps

theorem sound_init {n : Nat} {files : String → List UInt8} {s : Machine n} (h : Init s) :
    Sound files s where
  tied := tied_init h
  noWrap := by simp [h.core.committed_eq]
  apart := by simp [h.core.committed_eq]
  free := by simp [h.core.committed_eq]
  writes := by simp [h.acts_eq]
  reports := by simp [h.acts_eq]
  done := by
    rintro e (hfin | ⟨i, hi⟩)
    · simp [h.core.finished_eq] at hfin
    · rw [h.core.threads_eq] at hi
      cases hi

/-- **Every state of every careful run.** -/
theorem reachable_sound {n : Nat} {config : Config} (hblock : 1 ≤ config.fsBlockBytesize)
    {files : String → List UInt8} :
    ∀ s, (carefulMachine n config files).Reachable s → Sound files s := by
  apply System.Reachable.invariant
  · exact fun s hinit => sound_init hinit
  · intro s m t hreach hsound hstep
    have hcore := Reachable.core (System.Reachable.of_restrict hreach)
    exact hsound.step hblock (reachable_inv _ hcore) hstep.1 hstep.2

end ModelStreamer.Filesystem
