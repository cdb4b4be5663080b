/-
  ModelStreamer.Filesystem.Bytes
  ──────────────────────────────
  **WHAT IS IN MEMORY WHEN A RANGE IS ANSWERED**, for any number of threads
  and submissions, however the transfers of the OS interleave.

    • `popped_bytes` — when a response with Success has been popped, every
      byte of its range is in place, and stays there until the address is
      given out again,
    • `memory_kept` — nothing else is written: an address keeps its byte
      unless it is part of a range without a response,
    • `machine_rests` — the threads always come to rest, and then every range
      has its response.
-/
import ModelStreamer.Filesystem.Machine

namespace ModelStreamer.Filesystem

open ModelStreamer.Lib ModelStreamer.Planning ModelStreamer.Delivery

variable {n : Nat} {config : Config} {files : String → List UInt8}

/-! ## §1. A file of one byte. -/

theorem page_lt_word : 4096 < 2 ^ 64 := by omega

/-- One byte of a file. -/
def onePart : List FileRanges :=
  [⟨"/data/weights", [⟨0, 1, 4096, zero_lt_word, one_lt_word, page_lt_word⟩]⟩]

theorem onePart_range : 0 ≤ 1 := by decide

/-- Its one batch. -/
def onePartBatch : Batch :=
  ⟨1, 0, 0, "/data/weights", none, [⟨⟨0, 0, 0, 1, 1, 4096⟩, ⟨0, 1, 1, 0⟩⟩], ⟨0, 1, onePart_range⟩⟩

theorem onePart_planned :
    Planning.plan ⟨1, 1, 1, 1⟩ 1 onePart = .ok ⟨1, [onePartBatch], [⟨0, 0, 0, 1, 1, 4096⟩]⟩ := by
  have hassigned : Assigner.new ⟨1, 1, 1, 1⟩ onePart
      = .ok ⟨[⟨0, 0, 1, 4096, 0, [1], [⟨0, 0, 0, 1, 4096⟩]⟩], 1⟩ := by decide
  have hloop : handleLoop ⟨[⟨0, 0, 0, 1, 4096⟩], 0, 1⟩ [] 0 1 0
      = .ok ([(0, Info.new 0 1 0)], ⟨[⟨0, 0, 0, 1, 4096⟩], 0, 0⟩) := by
    rw [handleLoop]
    rfl
  rw [Planning.plan, hassigned]
  simp only [planTransfers, Batches.new, buildTasks, buildLoop, handleRequest, hloop]
  rfl

/-- The submission of that byte. -/
def onePartSubmission : Submission where
  id := 1
  config := ⟨1, 1, 1, 1⟩
  request := onePart
  plan := ⟨1, [onePartBatch], [⟨0, 0, 0, 1, 1, 4096⟩]⟩
  workers_pos := by decide
  ranges_pos := by decide
  ranges_lt := by decide
  planned := onePart_planned

theorem bytewise_lively (i : Nat) : ∃ j, i ≤ j ∧ OsRead.transfers 0 ≠ .interrupted :=
  ⟨i, Nat.le_refl i, by simp⟩

/-- An OS that hands out one byte at a time. -/
def bytewiseOs : Os where
  next := fun _ => .transfers 0
  lively := bytewise_lively

/-- A file of one byte. -/
def oneByteDisk : Disk := ⟨[7], true, true⟩

theorem onePart_fdRead :
    fdRead oneByteDisk bytewiseOs 1 1 4096 0 ⟨blank, 0, 0⟩
      = (⟨store (2 ^ 64) blank 4096 [7], 1, 1⟩, some 1) := by
  have hread : osRead oneByteDisk bytewiseOs ⟨blank, 0, 0⟩ (wrap (4096 + 0)) (min 1 (1 - 0))
      = (⟨store (2 ^ 64) blank 4096 [7], 1, 1⟩, .bytes 1) := rfl
  rw [fdRead_bytes (by omega) hread, if_neg (by omega), fdRead, if_neg (by omega)]

theorem onePart_fdActs :
    fdActs oneByteDisk bytewiseOs 1 1 4096 0 ⟨blank, 0, 0⟩ = [.write 4096 [7]] := by
  have hread : osRead oneByteDisk bytewiseOs ⟨blank, 0, 0⟩ (wrap (4096 + 0)) (min 1 (1 - 0))
      = (⟨store (2 ^ 64) blank 4096 [7], 1, 1⟩, .bytes 1) := rfl
  rw [fdActs_bytes (by omega) hread, if_neg (by omega), fdActs, if_neg (by omega)]
  rfl

theorem onePart_fileRead :
    fileRead oneByteDisk bytewiseOs 1 1 4096 ⟨blank, 0, 0⟩
      = (⟨store (2 ^ 64) blank 4096 [7], 1, 1⟩, none) := by
  rw [fileRead, onePart_fdRead]
  rfl

theorem onePart_acts :
    jobActs ⟨0, onePartBatch⟩ (executeActs ⟨1, 1, 1, 1⟩ oneByteDisk bytewiseOs 9 onePartBatch)
      = [.write 4096 [7], .mark ⟨⟨1, 0, 0⟩, ⟨1, 0, 0⟩, .success⟩] := by
  have hloop : blockLoop onePartBatch oneByteDisk bytewiseOs 1 9 1 0 (startRead onePartBatch blank)
      = (⟨⟨[true], 1, [⟨0, .success⟩]⟩, ⟨store (2 ^ 64) blank 4096 [7], 1, 1⟩, 1, 4097, some 1⟩,
        none) := by
    unfold blockLoop
    rw [if_neg (by omega), show startRead onePartBatch blank
      = ⟨⟨[false], 0, []⟩, ⟨blank, 0, 0⟩, 0, 4096, none⟩ from rfl]
    simp only [onePart_fileRead]
    rfl
  have hacts : blockActs onePartBatch oneByteDisk bytewiseOs 1 9 1 0 (startRead onePartBatch blank)
      = [.write 4096 [7], .mark ⟨0, .success⟩] := by
    unfold blockActs
    rw [if_neg (by omega), show startRead onePartBatch blank
      = ⟨⟨[false], 0, []⟩, ⟨blank, 0, 0⟩, 0, 4096, none⟩ from rfl]
    simp only [onePart_fileRead, fileActs, onePart_fdActs]
    rfl
  have hblocks : onePartBatch.range.size / 1 = 1 := rfl
  have htry : tryFile ⟨1, 1, 1, 1⟩ oneByteDisk bytewiseOs 9 onePartBatch blank
      = (⟨⟨[true], 1, [⟨0, .success⟩]⟩, ⟨store (2 ^ 64) blank 4096 [7], 1, 1⟩, 1, 4097, some 1⟩,
        .success) := by
    show readFile onePartBatch oneByteDisk bytewiseOs 1 9 blank = _
    unfold readFile
    rw [if_neg (by decide), if_neg (by decide)]
    dsimp only
    rw [hblocks, hloop]
    rfl
  have htryActs : tryActs ⟨1, 1, 1, 1⟩ oneByteDisk bytewiseOs 9 onePartBatch blank
      = [.write 4096 [7], .mark ⟨0, .success⟩] := by
    show readActs onePartBatch oneByteDisk bytewiseOs 1 9 blank = _
    unfold readActs
    rw [if_neg (by decide), if_neg (by decide)]
    dsimp only
    rw [hblocks, hacts, hloop]
    rfl
  unfold executeActs
  rw [htry, htryActs]
  rfl

/-- One thread, and nothing submitted. -/
def idleMachine : Machine 1 := ⟨Delivery.idle, blank, fun _ => []⟩

/-- The call made for the task. -/
def onePartCall : Event := ⟨⟨1, 0, 0⟩, ⟨1, 0, 0⟩, .success⟩

/-- It has one range, and nothing was submitted before. -/
theorem onePart_careful {s : State 1} (hcom : s.committed = []) :
    CarefulSubmit s onePartSubmission := by
  have honly : ∀ {k : RangeId} {a pos : Nat} {path : String},
      onePartSubmission.Byte k a path pos → k = ⟨1, 0, 0⟩ := by
    intro k a pos path h
    cases h with
    | @mk f j x file range hfile hrange hx =>
        have hf : f < 1 := (List.getElem?_eq_some_iff.mp hfile).1
        obtain rfl : f = 0 := by omega
        obtain rfl : _ = file := Option.some.inj hfile
        have hj : j < 1 := (List.getElem?_eq_some_iff.mp hrange).1
        obtain rfl : j = 0 := by omega
        rfl
  refine ⟨?_, fun k k' a path path' pos pos' h h' => ?_, by simp [hcom]⟩
  · intro file hfile range hrange
    obtain rfl := List.mem_singleton.mp hfile
    obtain rfl := List.mem_singleton.mp hrange
    decide
  · rw [honly h, honly h']

/-- The files of the run. -/
def oneByteFiles : String → List UInt8 := fun _ => [7]

/-- The thread takes the job, with these acts before it. -/
theorem onePart_take {s : Machine 1} (hqueue : s.core.queue = [⟨0, onePartBatch⟩])
    (hthread : s.core.threads 0 = ⟨[], .store⟩) (hacts : s.acts 0 = []) :
    Step ⟨1, 1, 1, 1⟩ oneByteFiles s (.take 0 ⟨0, onePartBatch⟩)
      { s with
        core := { s.core with
          queue := []
          threads := Function.update s.core.threads 0 ⟨[onePartCall], .store⟩ }
        acts := Function.update s.acts 0 [.write 4096 [7], .mark onePartCall] } := by
  have h := @Step.take 1 ⟨1, 1, 1, 1⟩ oneByteFiles s 0 ⟨0, onePartBatch⟩ oneByteDisk
    bytewiseOs 9 (by rw [hqueue]; exact List.mem_singleton.mpr rfl) hthread hacts rfl rfl
  rw [onePart_acts, hqueue, List.erase_cons_head] at h
  exact h

theorem careful_step {s t u : Machine n} {m : Move n}
    (h : (carefulMachine n config files).Leads s t) (hstep : Step config files t m u)
    (hcareful : Careful t m) : (carefulMachine n config files).Leads s u :=
  h.tail ⟨m, hcareful, hstep⟩

theorem idleMachine_reachable : (carefulMachine 1 config files).Reachable idleMachine :=
  .init ⟨idle_init, fun _ => rfl⟩

/-- The byte is submitted, read and reported, and its response popped. -/
theorem onePart_run : ∃ s : Machine 1,
    (carefulMachine 1 ⟨1, 1, 1, 1⟩ oneByteFiles).Leads idleMachine s ∧
    s.core.committed = [onePartSubmission] ∧ s.core.popped = [⟨⟨1, 0, 0, .success⟩, true⟩] ∧
    AtRest s.core ∧ ∀ i, s.acts i = [] := by
  have h₀ : (carefulMachine 1 ⟨1, 1, 1, 1⟩ oneByteFiles).Leads idleMachine idleMachine := .refl
  have h₁ := careful_step h₀ (.core .mint _ .mint (by simp) (by simp)) trivial
  have h₂ := careful_step h₁ (.core (.submit onePartSubmission) _
    (.submit onePartSubmission _ (by decide) rfl) (by simp) (by simp)) (onePart_careful rfl)
  have h₃ := careful_step h₂ (onePart_take rfl rfl rfl) trivial
  have h₄ := careful_step h₃ (.write 0 4096 [7] [.mark onePartCall] rfl rfl) trivial
  have h₅ := careful_step h₄ (.report 0 onePartCall [] [] rfl rfl) trivial
  have h₆ := careful_step h₅ (.core (.sub 0) _ (.sub 0 onePartCall [] rfl) (by simp) (by simp))
    trivial
  have h₇ := careful_step h₆ (.core (.answer 0) _ (.answer 0 onePartCall [] rfl) (by simp)
    (by simp)) trivial
  have h₈ := careful_step h₇ (.core (.push 0) _ (.push 0 onePartCall [] _ rfl) (by simp)
    (by simp)) trivial
  have h₉ := careful_step h₈ (.core .pop _ (.pop _ _ _ _ rfl rfl) (by simp) (by simp)) trivial
  exact ⟨_, h₉, rfl, rfl, ⟨rfl, Fin.forall_fin_one.mpr rfl⟩, Fin.forall_fin_one.mpr rfl⟩

/-! ## §2. What has been popped is in place. -/

/-- A range answered with Success has its bytes in place. -/
theorem answered_in_place (hblock : 1 ≤ config.fsBlockBytesize) {s : Machine n}
    (h : (carefulMachine n config files).Reachable s) {r : Response} (hpushed : r ∈ s.core.pushed)
    (hret : r.ret = .success) {sub : Submission} (hsub : sub ∈ s.core.committed)
    {a pos : Nat} {path : String} (hbyte : sub.Byte r.range a path pos)
    (howns : Owns s.core.committed r.range a) : (files path)[pos]? = some (s.memory a) := by
  have hsound := reachable_sound hblock s h
  have hinv := reachable_inv _ (Reachable.core (System.Reachable.of_restrict h))
  have hsettled := hinv.final.pushed _ hpushed
  -- the byte was read by a task of the range, and that task was reported with Success
  obtain ⟨t, hrange, hreads⟩ := hbyte.read (hsound.noWrap sub hsub)
  have hissued : t ∈ issued s.core := by
    rw [issued, Multiset.mem_coe]
    exact List.mem_flatMap.mpr ⟨sub, hsub, hreads.ticket⟩
  obtain ⟨e, hfin, rfl⟩ := all_finished hinv hsettled.known hsettled.counted_down t hissued hrange
  have hdone := hsettled.ret_eq.mp hret e hfin hrange
  rw [← hrange] at hbyte howns
  obtain ⟨sub', hsub', path', pos', hbyte', hvalue⟩ :=
    hsound.done e (.inl hfin) hdone sub hsub a path pos hreads howns
  obtain rfl : sub' = sub := by
    refine List.inj_on_of_nodup_map hinv.ids.distinct hsub' hsub ?_
    rw [← hbyte'.submission_eq, ← hbyte.submission_eq]
    rfl
  obtain ⟨rfl, rfl⟩ := hbyte'.unique hbyte
  exact hvalue

/-- A popped response was pushed. -/
theorem popped_pushed {s : Machine n} (h : (carefulMachine n config files).Reachable s)
    {p : Popped} (hp : p ∈ s.core.popped) : p.response ∈ s.core.pushed := by
  obtain ⟨-, hflow, -⟩ := reachable_registry _ (Reachable.core (System.Reachable.of_restrict h))
  exact hflow.subset (List.mem_append_left _ (List.mem_map_of_mem hp))

/-- **A POPPED SUCCESS MEANS THE BYTES ARE IN MEMORY**, in every run of
careful callers, with any number of threads: each byte of the range is in
place, unless its address has been given out again since. -/
theorem popped_bytes (hblock : 1 ≤ config.fsBlockBytesize) {s : Machine n}
    (h : (carefulMachine n config files).Reachable s) {p : Popped} (hp : p ∈ s.core.popped)
    (hret : p.response.ret = .success) {sub : Submission} (hsub : sub ∈ s.core.committed)
    {a pos : Nat} {path : String} (hbyte : sub.Byte p.response.range a path pos)
    (howns : Owns s.core.committed p.response.range a) :
    (files path)[pos]? = some (s.memory a) :=
  answered_in_place hblock h (popped_pushed h hp) hret hsub hbyte howns

/-- The byte of the run is in place. -/
theorem popped_bytes_onePart : ∃ s : Machine 1,
    (carefulMachine 1 ⟨1, 1, 1, 1⟩ oneByteFiles).Reachable s ∧ s.memory 4096 = 7 := by
  obtain ⟨s, hleads, hcom, hpop, -⟩ := onePart_run
  have hreach := idleMachine_reachable.leads hleads
  have hbyte : onePartSubmission.Byte ⟨1, 0, 0⟩ 4096 "/data/weights" 0 :=
    @Submission.Byte.mk onePartSubmission 0 0 0 ⟨"/data/weights", _⟩ _ rfl rfl (by decide)
  refine ⟨s, hreach, ?_⟩
  have hpopped : (⟨⟨1, 0, 0, .success⟩, true⟩ : Popped) ∈ s.core.popped := by
    rw [hpop]
    exact List.mem_singleton.mpr rfl
  have hvalue := popped_bytes (by decide) hreach hpopped rfl
    (show onePartSubmission ∈ s.core.committed by rw [hcom]; exact List.mem_singleton.mpr rfl) hbyte
    (by rw [hcom]; exact ⟨[], onePartSubmission, [], rfl, ⟨_, _, hbyte⟩, by simp⟩)
  exact (Option.some.inj hvalue).symm

/-! ## §3. Nothing else is written. -/

/-- What a step of the streamer never takes back. -/
theorem core_grows {s t : State n} {a : Action n} (h : Delivery.Step s a t) :
    (∀ sub ∈ s.committed, sub ∈ t.committed) ∧ ∀ k, HasResponse s k → HasResponse t k := by
  cases h with
  | submit sub mgr hid hadd =>
      exact ⟨fun sub' hsub' => List.mem_append_left _ hsub', fun k hk => hk⟩
  | push i e todo r hthread =>
      refine ⟨fun sub hsub => hsub, ?_⟩
      rintro k ⟨r', hr', hk⟩
      exact ⟨r', List.mem_append_left _ hr', hk⟩
  | _ => exact ⟨fun sub hsub => hsub, fun k hk => hk⟩

theorem step_grows {s t : Machine n} {m : Move n} (h : Step config files s m t)
    (hqueued : Queued s.core) :
    (∀ sub ∈ s.core.committed, sub ∈ t.core.committed) ∧
      ∀ k, HasResponse s.core k → HasResponse t.core k := by
  rcases Step.core_step h hqueued with heq | ⟨a, hcore⟩
  · rw [heq]
    exact ⟨fun sub hsub => hsub, fun k hk => hk⟩
  · exact core_grows hcore

/-- One step writes only for ranges without a response. -/
theorem step_writes {s t : Machine n} {m : Move n} (hsound : Sound files s) (hinv : Inv s.core)
    (h : Step config files s m t) {a : Nat} (hchange : t.memory a ≠ s.memory a) :
    ∃ sub ∈ s.core.committed, ∃ k path pos, sub.Byte k a path pos ∧ ¬ HasResponse s.core k := by
  cases h with
  | core a t hcore htake hstore => exact absurd rfl hchange
  | take => exact absurd rfl hchange
  | report => exact absurd rfl hchange
  | write i address cells rest hacts hpc =>
      rcases @store_cases _ (2 ^ 64) s.memory address cells a with hsame | ⟨j, v, hget, rfl, -⟩
      · exact absurd hsame hchange
      · obtain ⟨k, hnone, -, sub, hsub, path, pos, hbyte, -⟩ :=
          hsound.cell hinv (hacts.trans (List.nil_append _).symm) hget
        exact ⟨sub, hsub, k, path, pos, hbyte, hnone⟩

/-- **NOTHING ELSE IS WRITTEN**: from one state of a careful run to any later
one, an address keeps its byte, unless it belongs to a range that had no
response yet or was submitted since. -/
theorem memory_kept (hblock : 1 ≤ config.fsBlockBytesize) {s t : Machine n}
    (hs : (carefulMachine n config files).Reachable s)
    (hrun : (carefulMachine n config files).Leads s t) {a : Nat}
    (ha : ∀ sub ∈ t.core.committed, ∀ k path pos, sub.Byte k a path pos →
      HasResponse s.core k) : t.memory a = s.memory a := by
  have hall : (∀ k, HasResponse s.core k → HasResponse t.core k) ∧ t.memory a = s.memory a := by
    induction hrun with
    | refl => exact ⟨fun _ hk => hk, rfl⟩
    | @tail u t hleads hstep ih =>
        obtain ⟨m, hcareful, hstep⟩ := hstep
        have hreach := hs.leads hleads
        have hinv := reachable_inv _ (Reachable.core (System.Reachable.of_restrict hreach))
        obtain ⟨hcommitted, hresponses⟩ := step_grows hstep hinv.queued
        obtain ⟨hmono, hsame⟩ := ih (fun sub hsub => ha sub (hcommitted sub hsub))
        refine ⟨fun k hk => hresponses k (hmono k hk), ?_⟩
        by_contra hne
        -- what was written here belongs to a range without a response
        obtain ⟨sub, hsub, k, path, pos, hbyte, hnone⟩ :=
          step_writes (reachable_sound hblock u hreach) hinv hstep (hsame ▸ hne)
        exact hnone (hmono k (ha sub (hcommitted sub hsub) k path pos hbyte))
  exact hall.2

/-- Before and after the run of one byte, the byte next to it is the same. -/
theorem memory_kept_onePart : ∃ s : Machine 1,
    (carefulMachine 1 ⟨1, 1, 1, 1⟩ oneByteFiles).Leads idleMachine s ∧
    s.core.popped = [⟨⟨1, 0, 0, .success⟩, true⟩] ∧ s.memory 4097 = 0 := by
  obtain ⟨s, hleads, hcom, hpop, -⟩ := onePart_run
  refine ⟨s, hleads, hpop, ?_⟩
  refine (memory_kept (by decide) idleMachine_reachable hleads ?_ : s.memory 4097 = _)
  rw [hcom]
  intro sub hsub k path pos hbyte
  obtain rfl := List.mem_singleton.mp hsub
  generalize ha : 4097 = a at hbyte
  cases hbyte with
  | @mk f j x file range hfile hrange hx =>
      have hf : f < 1 := (List.getElem?_eq_some_iff.mp hfile).1
      obtain rfl : f = 0 := by omega
      obtain rfl : _ = file := Option.some.inj hfile
      have hj : j < 1 := (List.getElem?_eq_some_iff.mp hrange).1
      obtain rfl : j = 0 := by omega
      obtain rfl : _ = range := Option.some.inj hrange
      have hx : x < 1 := hx
      obtain rfl : x = 0 := by omega
      exact absurd ha (by decide)

/-! ## §4. The threads come to rest. -/

/-- The moves of the threads. -/
def Move.Work : Move n → Prop
  | .core a => a.Work
  | _ => True

/-- The steps a thread has left in the call it is in. -/
def Pc.left : Pc → Nat
  | .store => 0
  | .sub => 3
  | .answer => 2
  | .push _ => 1

/-- What a thread has left of the jobs it has taken. -/
def left (x : List (Effect UInt8 Event) × Thread) : Nat := 4 * x.1.length + Pc.left x.2.pc

/-- The jobs no thread has taken, and what is left of the others. -/
def toDo (s : Machine n) : Nat × Nat :=
  (s.core.queue.length, ∑ i, left (s.acts i, s.core.threads i))

/-- Fewer jobs, or as many and less of the others. -/
def Less : Nat × Nat → Nat × Nat → Prop := Prod.Lex (· < ·) (· < ·)

theorem less_wf : WellFounded Less := (Prod.lex Nat.lt_wfRel Nat.lt_wfRel).wf

/-- One thread gets on, and the queue stays. -/
theorem toDo_update {s t : Machine n} {i : Fin n} {acts : List (Effect UInt8 Event)} {th : Thread}
    (hqueue : t.core.queue = s.core.queue)
    (hnew : ∀ j, (t.acts j, t.core.threads j)
      = Function.update (fun j => (s.acts j, s.core.threads j)) i (acts, th) j)
    (hless : left (acts, th) < left (s.acts i, s.core.threads i)) : Less (toDo t) (toDo s) := by
  have hsum := sum_update_add (fun j => (s.acts j, s.core.threads j)) left i (acts, th)
  have heq : ∑ j, left (t.acts j, t.core.threads j)
      = ∑ j, left (Function.update (fun j => (s.acts j, s.core.threads j)) i (acts, th) j) :=
    Finset.sum_congr rfl (fun j _ => by rw [hnew])
  rw [toDo, toDo, hqueue, heq]
  exact Prod.Lex.right _ (by omega)

/-- A step of one thread within a call. -/
theorem toDo_thread {s : Machine n} {t : State n} {i : Fin n} {th : Thread}
    (hqueue : t.queue = s.core.queue) (hthreads : t.threads = Function.update s.core.threads i th)
    (hless : Pc.left th.pc < Pc.left (s.core.threads i).pc) :
    Less (toDo { s with core := t }) (toDo s) := by
  refine @toDo_update n s { s with core := t } i (s.acts i) th hqueue (fun j => ?_) ?_
  · show (s.acts j, t.threads j) = _
    rw [hthreads]
    by_cases hj : j = i
    · subst hj
      rw [Function.update_self, Function.update_self]
    · rw [Function.update_of_ne hj, Function.update_of_ne hj]
  · exact Nat.add_lt_add_left hless _

/-- **Every move of a thread gets on.** -/
theorem toDo_decreases {s t : Machine n} {m : Move n} (hm : m.Work)
    (h : Step config files s m t) : Less (toDo t) (toDo s) := by
  cases h with
  | core a t hcore htake hstore =>
      cases hcore with
      | take i job => exact absurd rfl (htake i job)
      | store i => exact absurd rfl (hstore i)
      | sub i e todo hthread =>
          refine toDo_thread (i := i) rfl rfl ?_
          rw [hthread]
          split <;> simp [Pc.left]
      | answer i e todo hthread =>
          refine toDo_thread (i := i) rfl rfl ?_
          rw [hthread]
          simp [Pc.left]
      | push i e todo r hthread =>
          refine toDo_thread (i := i) rfl rfl ?_
          rw [hthread]
          simp [Pc.left]
      | _ => exact hm.elim
  | take i job disk os stopAt hjob hthread hacts hfile hdisk =>
      refine Prod.Lex.left _ _ ?_
      show (s.core.queue.erase job).length < s.core.queue.length
      rw [List.length_erase_of_mem hjob]
      have := List.length_pos_of_mem hjob
      omega
  | write i address cells rest hacts hpc =>
      refine @toDo_update n s _ i rest (s.core.threads i) rfl (fun j => ?_) ?_
      · show (Function.update s.acts i rest j, s.core.threads j) = _
        by_cases hj : j = i
        · subst hj
          rw [Function.update_self, Function.update_self]
        · rw [Function.update_of_ne hj, Function.update_of_ne hj]
      · rw [hacts]
        simp only [left, List.length_cons]
        omega
  | report i e todo rest hacts hthread =>
      refine @toDo_update n s _ i rest ⟨e :: todo, .sub⟩ rfl (fun j => ?_) ?_
      · show (Function.update s.acts i rest j, Function.update s.core.threads i _ j) = _
        by_cases hj : j = i
        · subst hj
          rw [Function.update_self, Function.update_self, Function.update_self]
        · rw [Function.update_of_ne hj, Function.update_of_ne hj, Function.update_of_ne hj]
      · rw [hacts, hthread]
        simp only [left, List.length_cons, Pc.left]
        omega

/-- A thread with anything before it can move. -/
theorem thread_goes_on {s : Machine n} (hties : Tied s) (hbusy : Busy s.core) {i : Fin n}
    (h : s.acts i ≠ [] ∨ (s.core.threads i).todo ≠ []) :
    ∃ m t, m.Work ∧ Step config files s m t := by
  have htied := hties i
  cases hpc : (s.core.threads i).pc with
  | store =>
      rw [ahead, hpc] at htied
      have htied : marks (s.acts i) = (s.core.threads i).todo := htied
      cases hacts : s.acts i with
      | nil =>
          rw [hacts] at htied h
          exact absurd htied.symm (h.resolve_left (fun hne => hne rfl))
      | cons act rest =>
          cases act with
          | write address cells =>
              exact ⟨.write i, _, trivial, .write i address cells rest hacts hpc⟩
          | mark e =>
              rw [hacts] at htied
              have hthread : s.core.threads i = ⟨e :: marks rest, .store⟩ := by
                rw [← hpc, show e :: marks rest = (s.core.threads i).todo from htied]
              exact ⟨.report i, _, trivial, .report i e _ rest hacts hthread⟩
  | sub =>
      obtain ⟨e, todo, htodo⟩ := List.exists_cons_of_ne_nil (hbusy i (by rw [hpc]; simp))
      exact ⟨.core (.sub i), _, trivial,
        .core _ _ (.sub i e todo (by rw [← htodo, ← hpc])) (by simp) (by simp)⟩
  | answer =>
      obtain ⟨e, todo, htodo⟩ := List.exists_cons_of_ne_nil (hbusy i (by rw [hpc]; simp))
      exact ⟨.core (.answer i), _, trivial,
        .core _ _ (.answer i e todo (by rw [← htodo, ← hpc])) (by simp) (by simp)⟩
  | push r =>
      obtain ⟨e, todo, htodo⟩ := List.exists_cons_of_ne_nil (hbusy i (by rw [hpc]; simp))
      exact ⟨.core (.push i), _, trivial,
        .core _ _ (.push i e todo r (by rw [← htodo, ← hpc])) (by simp) (by simp)⟩

/-- **Until everything is reported, some thread can move.** -/
theorem machine_goes_on {s : Machine (n + 1)} (htied : Tied s) (hbusy : Busy s.core)
    (hfiles : ∀ job ∈ s.core.queue, job.batch.isObjectStorage = false) (hrest : ¬ AtRest s.core) :
    ∃ m t, m.Work ∧ Step config files s m t := by
  by_cases hidle : ∀ i, s.acts i = [] ∧ (s.core.threads i).todo = []
  · -- only the queue is left: thread 0 takes its first job
    have hthreads := threads_idle hbusy (fun i => (hidle i).2)
    obtain ⟨job, hjob⟩ : ∃ job, job ∈ s.core.queue := by
      by_contra hnone
      exact hrest ⟨List.eq_nil_iff_forall_not_mem.mpr (fun job hjob => hnone ⟨job, hjob⟩), hthreads⟩
    exact ⟨.take 0 job, _, trivial, .take 0 job ⟨files job.batch.path, true, true⟩ bytewiseOs 0 hjob
      (hthreads 0) (hidle 0).1 (hfiles job hjob) rfl⟩
  · obtain ⟨i, hi⟩ := not_forall.mp hidle
    refine thread_goes_on htied hbusy (i := i) ?_
    by_contra hnone
    rw [not_or, not_not, not_not] at hnone
    exact hi hnone

/-- **THE THREADS COME TO REST**: they never go on for ever, whatever the OS
and the callers do, and where none of them can move, every range of every
submission has exactly one response. -/
theorem machine_rests {s : Machine (n + 1)} (h : (machine (n + 1) config files).Reachable s)
    (hfiles : ∀ job ∈ s.core.queue, job.batch.isObjectStorage = false) :
    WellFounded (fun t s : Machine (n + 1) => ∃ m, m.Work ∧ Step config files s m t) ∧
      ((∀ m t, m.Work → ¬ Step config files s m t) →
        ∀ sub ∈ s.core.committed, ∀ k ∈ sub.ranges,
          s.core.pushed.countP (fun r => decide (r.range = k)) = 1) := by
  refine ⟨Subrelation.wf ?_ (InvImage.wf toDo less_wf), fun hstuck sub hsub k hk => ?_⟩
  · rintro t s ⟨m, hm, hstep⟩
    exact toDo_decreases hm hstep
  · have hinv := reachable_inv _ (Reachable.core h)
    have hrest : AtRest s.core := by
      by_contra hrest
      obtain ⟨m, t, hm, hstep⟩ := machine_goes_on (reachable_tied s h) hinv.busy hfiles hrest
      exact hstuck m t hm hstep
    exact hrest.answered hinv ⟨sub, hsub, hk⟩

/-- The run of one byte has come to rest, with one response. -/
theorem machine_rests_onePart : ∃ s : Machine 1,
    (carefulMachine 1 ⟨1, 1, 1, 1⟩ oneByteFiles).Reachable s ∧
    s.core.pushed.countP (fun r => decide (r.range = ⟨1, 0, 0⟩)) = 1 := by
  obtain ⟨s, hleads, hcom, hpop, hrest⟩ := onePart_run
  have hreach := idleMachine_reachable.leads hleads
  refine ⟨s, hreach, ?_⟩
  have hidle : AtRest s.core ∧ ∀ i, s.acts i = [] := hrest
  refine (machine_rests hreach.of_restrict ?_).2 ?_ onePartSubmission ?_ _ ?_
  · simp [hidle.1.queue_eq]
  · intro m t hm hstep
    cases hstep with
    | core a t hcore htake hstore =>
        cases hcore with
        | take i job => exact htake i job rfl
        | store i => exact hstore i rfl
        | sub i e todo hthread => rw [hidle.1.threads_eq i] at hthread; cases hthread
        | answer i e todo hthread => rw [hidle.1.threads_eq i] at hthread; cases hthread
        | push i e todo r hthread => rw [hidle.1.threads_eq i] at hthread; cases hthread
        | _ => exact hm
    | take i job disk os stopAt hjob => simp [hidle.1.queue_eq] at hjob
    | write i address cells rest hacts => rw [hidle.2 i] at hacts; cases hacts
    | report i e todo rest hacts => rw [hidle.2 i] at hacts; cases hacts
  · rw [hcom]
    exact List.mem_singleton.mpr rfl
  · exact List.mem_singleton.mpr rfl

end ModelStreamer.Filesystem
