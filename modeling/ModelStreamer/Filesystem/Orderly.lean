/-
  ModelStreamer.Filesystem.Orderly
  ────────────────────────────────
  **NO TASK IS REPORTED BEFORE ITS BYTES ARE IN PLACE**, seen act by act.

    • `tryActs_brings` — the writes lay down the file from the start of the
      range on, and a task is reported with Success only after its last byte,
    • `executeActs_orderly` — so every cell is written for a task that is
      reported later, and when a task is reported with Success, its bytes
      are in place, whatever the memory held before.
-/
import ModelStreamer.Filesystem.Acts

namespace ModelStreamer.Filesystem

open ModelStreamer.Lib ModelStreamer.Planning ModelStreamer.Delivery

/-! ## §1. The writes lay down the file. -/

/-- The bytes of the file the batch reads, as far as there are any. -/
def Disk.part (disk : Disk) (batch : Batch) : List UInt8 :=
  window disk.content batch.range.start batch.range.size

/-- A task may be reported with Success once `i` bytes of the batch have
arrived. -/
def Due (batch : Batch) (f : Finish) (i : Nat) : Prop :=
  f.ret = .success ∧
    ∀ task, batch.tasks[f.task]? = some task → task.info.stop ≤ batch.range.start + i

/-- The acts bring the bytes `i` to `j` of the batch, and report what is due. -/
def Brings (batch : Batch) (disk : Disk) (i : Nat) (acts : List (Effect UInt8 Finish)) (j : Nat) :
    Prop := Lays (2 ^ 64) (bufferOf batch) (disk.part batch) (Due batch) i acts j

theorem fdActs_brings (batch : Batch) (disk : Disk) (os : Os) (chunk size data total : Nat)
    (io : Io) :
    batch.range.start ≤ io.position → io.position + (size - total) ≤ batch.range.stop →
      (data + total) % 2 ^ 64 = (bufferOf batch + (io.position - batch.range.start)) % 2 ^ 64 →
      Brings batch disk (io.position - batch.range.start)
        (fdActs disk os chunk size data total io)
        ((fdRead disk os chunk size data total io).1.position - batch.range.start) := by
  induction total, io using fdRead.induct disk os chunk size data with
  | case1 total io hmore io' hread ih =>
      rw [fdActs_interrupted hmore hread, fdRead_interrupted hmore hread]
      obtain ⟨rfl, -⟩ := osRead_interrupted hread
      exact ih
  | case2 total io hmore io' hread =>
      intro _ _ _
      rw [fdActs_failed hmore hread, fdRead_failed hmore hread]
      obtain ⟨rfl, -⟩ := osRead_failed hread
      exact .nil _
  | case3 total io hmore io' hread =>
      intro _ _ _
      rw [fdActs_bytes hmore hread, fdRead_bytes hmore hread, if_pos rfl, if_pos rfl]
      obtain ⟨-, hposition, -⟩ := osRead_bytes hread
      rw [show io'.position = io.position from hposition]
      exact .nil _
  | case4 total io hmore io' count hread hpos ih =>
      intro hstart hstop hdata
      rw [fdActs_bytes hmore hread, fdRead_bytes hmore hread, if_neg hpos, if_neg hpos]
      obtain ⟨-, hposition, hwant, hleft, -⟩ := osRead_bytes hread
      have hlength : (window disk.content io.position count).length = count := by
        rw [window_length]
        omega
      have hnext : io'.position - batch.range.start
          = io.position - batch.range.start
            + (window disk.content io.position count).length := by
        rw [hlength, hposition]
        omega
      refine .write ?_ ?_ ?_
      · unfold wrap
        rw [Nat.mod_mod, hdata]
      · rw [hlength, Disk.part, window_window _ (by rw [BatchRange.size]; omega),
          show batch.range.start + (io.position - batch.range.start) = io.position by omega]
      · rw [← hnext]
        refine ih (by omega) (by omega) ?_
        rw [hnext, hlength]
        omega
  | case5 total io hmore =>
      intro _ _ _
      rw [fdActs, if_neg hmore, fdRead, if_neg hmore]
      exact .nil _

/-- Reports up to an offset that has been reached. -/
theorem newMarks_brings {batch : Batch} (disk : Disk) {run run' : BatchRun} {e i : Nat}
    (h : Upto batch run' (some e)) (he : e ≤ batch.range.start + i) :
    Brings batch disk i (newMarks run run') i := by
  refine Lays.marks (fun f hf => ?_)
  have hf : f ∈ run'.log := List.mem_of_mem_drop hf
  refine ⟨h.success f hf, fun task htask => ?_⟩
  have hdone := (h.going.ran.consistent.logged _).mp (List.mem_map_of_mem hf)
  obtain ⟨e', he', hstop⟩ := (h.edge _ _ htask).mp ((h.front _).mp hdone)
  obtain rfl := Option.some.inj he'
  omega

section Brings

variable {batch : Batch} {disk : Disk} {memory : Nat → UInt8}

theorem Looping.position_eq {p : Progress} (h : Looping batch disk memory p) :
    p.io.position = p.fileOffset := by
  have hstart := h.start_le
  rw [h.arrived.position]
  show batch.range.start + _ = _
  omega

/-- One read of the loop. -/
theorem Looping.brings {p : Progress} (h : Looping batch disk memory p) (os : Os)
    (block : Nat) {bytesize : Nat} (hfits : p.fileOffset + bytesize ≤ batch.range.stop) :
    Brings batch disk (p.io.position - batch.range.start)
      (fileActs disk os block bytesize p.buffer p.io)
      ((fileRead disk os block bytesize p.buffer p.io).1.position - batch.range.start) := by
  have hposition := h.position_eq
  have hstart := h.start_le
  have hbrings := fdActs_brings batch disk os block bytesize p.buffer 0 p.io (by omega) (by omega)
    (by rw [Nat.add_zero, hposition]; exact h.buffer)
  rw [fileRead]
  generalize fdRead disk os block bytesize p.buffer 0 p.io = result at hbrings
  obtain ⟨io, outcome⟩ := result
  cases outcome with
  | none => exact hbrings
  | some total => exact hbrings

theorem blockActs_brings (os : Os) {block : Nat} (hblock : 1 ≤ block) (stopAt : Nat)
    (hsorted : batch.tasks.Pairwise (fun a b => a.info.stop ≤ b.info.stop)) (left : Nat) :
    ∀ (i : Nat) (p : Progress), Looping batch disk memory p →
      p.fileOffset + left * block ≤ batch.range.stop →
      Brings batch disk (p.io.position - batch.range.start)
        (blockActs batch disk os block stopAt left i p)
        ((blockLoop batch disk os block stopAt left i p).1.io.position - batch.range.start) := by
  induction left with
  | zero => exact fun i p h _ => .nil _
  | succ left ih =>
      intro i p h hfits
      rw [Nat.succ_mul] at hfits
      unfold blockLoop blockActs
      by_cases hstop : stopAt ≤ i
      · rw [if_pos hstop, if_pos hstop]
        exact .nil _
      · rw [if_neg hstop, if_neg hstop]
        have hread := h.brings os block (show p.fileOffset + block ≤ batch.range.stop by omega)
        obtain ⟨-, hnext⟩ := h.read os hblock hsorted
          (show p.fileOffset + block ≤ batch.range.stop by omega)
        cases hfile : fileRead disk os block block p.buffer p.io with
        | mk io outcome =>
            rw [hfile] at hread hnext
            cases outcome with
            | some fault =>
                rw [List.append_nil]
                exact hread
            | none =>
                -- the block has arrived, and its reports are due
                have hlooping := hnext rfl
                have hposition := hlooping.position_eq
                have hstart := h.start_le
                refine hread.append ((newMarks_brings disk hlooping.upto ?_).append
                  (ih (i + 1) _ hlooping (by show p.fileOffset + block + _ ≤ _; omega)))
                have hposition : io.position = p.fileOffset + block := hposition
                show p.fileOffset + block ≤ batch.range.start + (io.position - batch.range.start)
                omega

theorem lastActs_brings (os : Os) {block : Nat} (hblock : 1 ≤ block) (stopAt : Nat)
    (hsorted : batch.tasks.Pairwise (fun a b => a.info.stop ≤ b.info.stop)) (look : Nat)
    {p : Progress} (h : Looping batch disk memory p) :
    Brings batch disk (p.io.position - batch.range.start)
      (lastActs batch disk os block stopAt look p)
      ((lastBlock batch disk os block stopAt look p).1.io.position - batch.range.start) := by
  have hstart := h.start_le
  have hle := h.le_stop
  unfold lastBlock lastActs
  by_cases hpartial : p.fileOffset < batch.range.stop ∧ ¬ stopAt ≤ look
  · rw [if_pos hpartial, if_pos hpartial]
    have hto : p.fileOffset + (batch.range.stop - p.fileOffset) = batch.range.stop := by omega
    have hread := h.brings os block (Nat.le_of_eq hto)
    obtain ⟨-, hnext⟩ := h.read os hblock hsorted (Nat.le_of_eq hto)
    rw [hto] at hnext
    cases hfile : fileRead disk os block (batch.range.stop - p.fileOffset) p.buffer p.io with
    | mk io outcome =>
        rw [hfile] at hread hnext
        cases outcome with
        | some fault =>
            rw [List.append_nil]
            exact hread
        | none =>
            have hlooping := hnext rfl
            have hposition : io.position = batch.range.stop := hlooping.position_eq
            refine hread.append (newMarks_brings disk hlooping.upto ?_)
            show batch.range.stop ≤ batch.range.start + (io.position - batch.range.start)
            omega
  · rw [if_neg hpartial, if_neg hpartial]
    exact .nil _

theorem finishActs_brings (stopAt : Nat)
    (hsorted : batch.tasks.Pairwise (fun a b => a.info.stop ≤ b.info.stop)) (look : Nat)
    {p : Progress} (h : Served batch disk memory p)
    (hfull : ¬ stopAt ≤ look →
      Arrived disk (sought batch memory) p.io (bufferOf batch) batch.range.size) :
    Brings batch disk (p.io.position - batch.range.start) (finishActs batch stopAt look p)
      (p.io.position - batch.range.start) := by
  have hsize : batch.range.start + batch.range.size = batch.range.stop := by
    have := batch.range.start_le
    rw [BatchRange.size]
    omega
  unfold finishActs
  by_cases hstop : stopAt ≤ look + 1
  · rw [if_pos hstop]
    exact .nil _
  · rw [if_neg hstop]
    have hposition := (hfull (by omega)).position
    refine newMarks_brings disk (h.upto.finishedUntil hsorted (fun e he => ?_)) ?_
    · obtain ⟨count, -, hle, hreached⟩ := h.arrived
      have := hreached e he
      omega
    · have hposition : p.io.position = batch.range.start + batch.range.size := hposition
      omega

/-- **The acts of the `try`**: from the start of the range on. -/
theorem tryActs_brings (config : Config) (hblock : 1 ≤ config.fsBlockBytesize) (os : Os)
    (stopAt : Nat) (hsorted : batch.tasks.Pairwise (fun a b => a.info.stop ≤ b.info.stop)) :
    ∃ count, Brings batch disk 0 (tryActs config disk os stopAt batch memory) count := by
  have hstart : Looping batch disk memory (startRead batch memory) := looping_start
  unfold tryActs
  by_cases hobject : batch.isObjectStorage = true
  · rw [if_pos hobject]
    exact ⟨0, .nil 0⟩
  · rw [if_neg hobject]
    by_cases hopens : disk.opens = false
    · rw [if_pos hopens]
      exact ⟨0, .nil 0⟩
    · rw [if_neg hopens]
      unfold readActs
      by_cases hempty : batch.tasks.isEmpty = true
      · rw [if_pos hempty]
        exact ⟨0, .nil 0⟩
      · rw [if_neg hempty]
        by_cases hseeks : disk.seeks = false
        · rw [if_pos hseeks]
          exact ⟨0, .nil 0⟩
        · rw [if_neg hseeks]
          simp only
          have hfits : (startRead batch memory).fileOffset
              + batch.range.size / config.fsBlockBytesize * config.fsBlockBytesize
                ≤ batch.range.stop := by
            have h₁ := Nat.div_mul_le_self batch.range.size config.fsBlockBytesize
            have h₂ := batch.range.start_le
            have h₃ : batch.range.size = batch.range.stop - batch.range.start := rfl
            show batch.range.start + _ ≤ _
            omega
          have hloops := blockActs_brings os hblock stopAt hsorted
            (batch.range.size / config.fsBlockBytesize) 0 _ hstart hfits
          rw [show (startRead batch memory).io.position - batch.range.start = 0 from
            Nat.sub_self _] at hloops
          obtain ⟨-, hloop⟩ := blockLoop_served os hblock stopAt hsorted
            (batch.range.size / config.fsBlockBytesize) 0 _ hstart hfits
          generalize blockLoop batch disk os config.fsBlockBytesize stopAt
            (batch.range.size / config.fsBlockBytesize) 0 (startRead batch memory) = looped
            at hloops hloop
          obtain ⟨p, outcome⟩ := looped
          cases outcome with
          | some fault =>
              rw [List.append_nil]
              exact ⟨_, hloops⟩
          | none =>
              have hlasts := lastActs_brings os hblock stopAt hsorted
                (batch.range.size / config.fsBlockBytesize) (hloop rfl)
              obtain ⟨hserved, hlast⟩ := lastBlock_served os hblock stopAt hsorted
                (batch.range.size / config.fsBlockBytesize) (hloop rfl)
              simp only
              generalize lastBlock batch disk os config.fsBlockBytesize stopAt
                (batch.range.size / config.fsBlockBytesize) p = last at hlasts hserved hlast
              obtain ⟨q, outcome⟩ := last
              cases outcome with
              | some fault =>
                  rw [List.append_nil]
                  exact ⟨_, hloops.append hlasts⟩
              | none =>
                  exact ⟨_, hloops.append (hlasts.append
                    (finishActs_brings stopAt hsorted _ hserved (hlast rfl)))⟩

end Brings

/-! ## §2. Orderly acts. -/

/-- Acts whose cells are each written for a task reported later, and whose
Successes come when the bytes are in place, whatever the memory was. -/
structure Orderly (batch : Batch) (content : List UInt8) (acts : List (Effect UInt8 Finish)) :
    Prop where
  writes : ∀ front address cells rest, acts = front ++ .write address cells :: rest →
    ∀ k v, cells[k]? = some v → ∃ f ∈ marks rest, ∃ task y, batch.tasks[f.task]? = some task ∧
      y < task.info.bytesize ∧ (address + k) % 2 ^ 64 = wrap (task.destination + y) ∧
      content[task.info.offset + y]? = some v
  marks : ∀ front f rest, acts = front ++ .mark f :: rest → f.ret = .success →
    ∀ task, batch.tasks[f.task]? = some task → ∀ y, y < task.info.bytesize →
      ∀ memory, content[task.info.offset + y]?
        = some (replay (2 ^ 64) memory front (wrap (task.destination + y)))

/-- Where a task's byte goes, seen from the batch. -/
theorem LaidOut.address {batch : Batch} (h : LaidOut batch) {task : Task}
    (htask : task ∈ batch.tasks) (y : Nat) :
    wrap (task.destination + y)
      = (bufferOf batch + (task.info.offset - batch.range.start + y)) % 2 ^ 64 := by
  obtain ⟨-, -, -, hdestination⟩ := h.task task htask
  rw [← wrap_wrap_add, hdestination, wrap_wrap_add, Nat.add_assoc]
  rfl

/-- A list that ends in marks, cut at a write. -/
theorem cut_at_write {xs front rest : List (Effect UInt8 Finish)} {ms : List Finish} {address : Nat}
    {cells : List UInt8} (h : xs ++ ms.map .mark = front ++ .write address cells :: rest) :
    ∃ rest', xs = front ++ .write address cells :: rest' ∧ rest = rest' ++ ms.map .mark := by
  rcases List.append_eq_append_iff.mp h with ⟨mid, rfl, hmid⟩ | ⟨mid, rfl, hmid⟩
  · -- the write would be a mark
    have hmem : Effect.write address cells ∈ ms.map (Effect.mark (β := UInt8)) := by
      rw [hmid]
      exact List.mem_append_right _ (List.mem_cons_self ..)
    obtain ⟨m, -, hm⟩ := List.mem_map.mp hmem
    cases hm
  · cases mid with
    | nil =>
        have hmem : Effect.write address cells ∈ ms.map (Effect.mark (β := UInt8)) := by
          rw [← show Effect.write address cells :: rest = ms.map .mark from hmid]
          exact List.mem_cons_self ..
        obtain ⟨m, -, hm⟩ := List.mem_map.mp hmem
        cases hm
    | cons act mid =>
        rw [List.cons_append, List.cons.injEq] at hmid
        obtain ⟨rfl, rfl⟩ := hmid
        exact ⟨mid, rfl, rfl⟩

/-- A list that ends in marks, cut at a mark that is none of them. -/
theorem cut_at_mark {xs front rest : List (Effect UInt8 Finish)} {ms : List Finish} {f : Finish}
    (hf : f ∉ ms) (h : xs ++ ms.map .mark = front ++ .mark f :: rest) :
    ∃ rest', xs = front ++ .mark f :: rest' := by
  have hlast : Effect.mark f ∉ ms.map (Effect.mark (β := UInt8)) := by
    intro hmem
    obtain ⟨m, hm, heq⟩ := List.mem_map.mp hmem
    cases heq
    exact hf hm
  rcases List.append_eq_append_iff.mp h with ⟨mid, rfl, hmid⟩ | ⟨mid, rfl, hmid⟩
  · refine absurd ?_ hlast
    rw [hmid]
    exact List.mem_append_right _ (List.mem_cons_self ..)
  · cases mid with
    | nil =>
        refine absurd ?_ hlast
        rw [← show Effect.mark f :: rest = ms.map .mark from hmid]
        exact List.mem_cons_self ..
    | cons act mid =>
        rw [List.cons_append, List.cons.injEq] at hmid
        obtain ⟨rfl, -⟩ := hmid
        exact ⟨mid, rfl⟩

theorem part_get {batch : Batch} {disk : Disk} {i : Nat} {v : UInt8}
    (h : (disk.part batch)[i]? = some v) :
    i < batch.range.size ∧ disk.content[batch.range.start + i]? = some v := by
  have hlt := (List.getElem?_eq_some_iff.mp h).1
  rw [Disk.part, window_get hlt] at h
  rw [Disk.part, window_length] at hlt
  exact ⟨by omega, h⟩

/-- **Every execution of a file's batch is orderly.** -/
theorem executeActs_orderly {config : Config} (hblock : 1 ≤ config.fsBlockBytesize)
    {batch : Batch} (hbatch : Contiguous batch) (disk : Disk) (os : Os) (stopAt : Nat) :
    Orderly batch disk.content (executeActs config disk os stopAt batch) := by
  have hlaid := hbatch.laidOut
  obtain ⟨count, hbrings⟩ := @tryActs_brings batch disk blank config hblock os stopAt hlaid.sorted
  obtain ⟨new, hgrows, hfails⟩ := handleError_grows
    (tryFile config disk os stopAt batch blank).1.run (tryFile config disk os stopAt batch blank).2
  have hacts : executeActs config disk os stopAt batch
      = tryActs config disk os stopAt batch blank ++ new.map .mark := by
    show tryActs config disk os stopAt batch blank
      ++ newMarks (tryFile config disk os stopAt batch blank).1.run
        ((tryFile config disk os stopAt batch blank).1.run.handleError
          (tryFile config disk os stopAt batch blank).2) = _
    rw [newMarks, hgrows, List.drop_left]
  refine ⟨fun front address cells rest h k v hget => ?_,
    fun front f rest h hret task htask y hy memory => ?_⟩
  · -- the byte is one of a task, and no report of that task has come yet
    have hsplit := h
    rw [hacts] at hsplit
    obtain ⟨rest', htry, -⟩ := cut_at_write hsplit
    rw [htry] at hbrings
    obtain ⟨j, hfront, haddress, hpart⟩ := hbrings.write_at
    have hk : k < (window (disk.part batch) j cells.length).length := by
      rw [← hpart]
      exact (List.getElem?_eq_some_iff.mp hget).1
    rw [hpart, window_get hk] at hget
    obtain ⟨hsize, hbyte⟩ := part_get hget
    obtain ⟨task, htask, hle, hlt⟩ := hlaid.covered (batch.range.start + (j + k))
      (Nat.le_add_right _ _) (by rw [BatchRange.size] at hsize; omega)
    obtain ⟨hstart, hstop, -, -⟩ := hlaid.task task htask
    obtain ⟨t, ht⟩ := List.getElem?_of_mem htask
    have hperm := (execute_answers hblock hbatch disk os stopAt blank).1
    rw [(executeFile_over config disk os stopAt batch blank).2, h] at hperm
    obtain ⟨f, hf, rfl⟩ := List.mem_map.mp (hperm.mem_iff.mpr
      (List.mem_range.mpr (List.getElem?_eq_some_iff.mp ht).1))
    rw [marks_append] at hf
    have hlater : f ∈ marks rest := by
      rcases List.mem_append.mp hf with hf | hf
      · obtain ⟨i, -, hi, -, hdue⟩ := hfront.mark_mem hf
        have := hdue task ht
        omega
      · exact hf
    refine ⟨f, hlater, task, batch.range.start + (j + k) - task.info.offset, ht, by omega, ?_, ?_⟩
    · rw [hlaid.address htask,
        show task.info.offset - batch.range.start + (batch.range.start + (j + k) - task.info.offset)
          = j + k by omega, Nat.add_mod, haddress, ← Nat.add_mod, Nat.add_assoc]
    · rw [show task.info.offset + (batch.range.start + (j + k) - task.info.offset)
        = batch.range.start + (j + k) by omega]
      exact hbyte
  · rw [hacts] at h
    obtain ⟨rest', htry⟩ := cut_at_mark (fun hf => hfails f hf hret) h
    rw [htry] at hbrings
    obtain ⟨j, hfront, -, hdue⟩ := hbrings.mark_ok
    have hmem := List.mem_of_getElem? htask
    obtain ⟨hstart, hstop, hend, -⟩ := hlaid.task task hmem
    have hdue := hdue task htask
    have hj : j ≤ (disk.part batch).length := hfront.le_length (Nat.zero_le _)
    have hsize : (disk.part batch).length ≤ batch.range.size := by
      rw [Disk.part, window_length]
      exact Nat.min_le_left _ _
    have hlt := hlaid.size_lt
    have hlength : (window (disk.part batch) 0 j).length = j := by
      rw [window_length]
      omega
    have hindex : task.info.offset - batch.range.start + y < (window (disk.part batch) 0 j).length := by
      rw [hlength]
      omega
    have hinside := @store_inside _ (2 ^ 64) memory (bufferOf batch) (window (disk.part batch) 0 j)
      (task.info.offset - batch.range.start + y) hindex (by rw [hlength]; omega)
    rw [hfront.replay memory, hlaid.address hmem, Nat.sub_zero, Nat.add_zero, hinside,
      window_get hindex, Nat.zero_add, Disk.part, window_get (by
        rw [hlength] at hindex
        exact Nat.lt_of_lt_of_le hindex hj)]
    congr 1
    omega

end ModelStreamer.Filesystem
