/-
  ModelStreamer.Planning.Pieces
  ─────────────────────────────
  **CUTTING RANGES AT SLICE BOUNDARIES.**

  `handleLoop` cuts a range into pieces for consecutive slices.  Its result
  is `numbered k offset rel sizes` for some list of piece sizes that adds up
  to the range (`handleLoop_spec`), provided the slices still have room for
  it (`BatchItr.capacity`).

  `pushTasks` hands the pieces out to the batches.  `Ends` is the invariant
  it keeps on the batches: each is contiguous, the batches after the current
  one are empty, and the current one ends where the next range starts.
-/
import ModelStreamer.Planning.Batches
import Mathlib.Data.List.Basic
import Mathlib.Data.List.Chain
import Mathlib.Algebra.BigOperators.Group.List.Basic

namespace ModelStreamer.Planning

/-! ## §1. The pieces of one range. -/

/-- Infos of consecutive pieces of the given sizes, for batches `k, k+1, …`. -/
def numbered : Nat → Nat → Nat → List Nat → List (Nat × Info)
  | _, _, _, [] => []
  | k, offset, rel, s :: sizes =>
      (k, Info.new offset s rel) :: numbered (k + 1) (wrap (offset + s)) (rel + s) sizes

@[simp] theorem numbered_length (k offset rel : Nat) (sizes : List Nat) :
    (numbered k offset rel sizes).length = sizes.length := by
  induction sizes generalizing k offset rel with
  | nil => rfl
  | cons s sizes ih => simp [numbered, ih]

/-- A key above every other is emplaced at the end. -/
theorem tryEmplace_above {α : Type} {entries : List (Nat × α)} {key : Nat} (value : α)
    (h : ∀ e ∈ entries, e.1 < key) :
    tryEmplace entries key value = entries ++ [(key, value)] := by
  induction entries with
  | nil => rfl
  | cons e entries ih =>
      have he : e.1 < key := h e (by simp)
      rw [tryEmplace, if_neg (by omega), if_neg (by omega),
        ih (fun e' he' => h e' (by simp [he']))]
      rfl

/-! ## §2. Room in the slices. -/

/-- Bytes still free in the slices from the current one on. -/
def BatchItr.capacity (itr : BatchItr) : Nat :=
  itr.currentWorkerBytesize
    + ((itr.fileReadTasks.drop (itr.currentTaskIndex + 1)).map FileReadTask.size).sum

/-- The slice the next piece of `bytesize` bytes goes to. -/
def BatchItr.nextIndex (itr : BatchItr) (bytesize : Nat) : Nat :=
  if itr.currentWorkerBytesize = 0 ∧ bytesize ≠ 0 then itr.currentTaskIndex + 1
  else itr.currentTaskIndex

/-- The current slice exists, and no later slice is empty. -/
structure BatchItr.Good (itr : BatchItr) : Prop where
  index_lt : itr.currentTaskIndex < itr.fileReadTasks.length
  later_pos : ∀ task ∈ itr.fileReadTasks.drop (itr.currentTaskIndex + 1), 0 < task.size

/-- What one `consume` does when the slices have room. -/
structure ConsumeSpec (itr : BatchItr) (bytesize toRead : Nat) (next : BatchItr) : Prop where
  fileReadTasks_eq : next.fileReadTasks = itr.fileReadTasks
  index_eq : next.currentTaskIndex = itr.nextIndex bytesize
  capacity_eq : next.capacity + toRead = itr.capacity
  good : next.Good
  toRead_le : toRead ≤ bytesize
  more : toRead < bytesize → next.currentWorkerBytesize = 0

theorem BatchItr.consume_spec {itr : BatchItr} {bytesize : Nat} (hgood : itr.Good)
    (hroom : bytesize ≤ itr.capacity) :
    ∃ toRead next, itr.consume bytesize = .ok (toRead, next) ∧
      ConsumeSpec itr bytesize toRead next := by
  -- on an exhausted slice `consume` goes to the next one first
  by_cases hfull : itr.currentWorkerBytesize = 0 ∧ bytesize ≠ 0
  · -- the current slice is full: there is a next one, or there would be no room
    have hlt : itr.currentTaskIndex + 1 < itr.fileReadTasks.length := by
      by_contra hge
      rw [BatchItr.capacity, List.drop_eq_nil_of_le (by omega)] at hroom
      simp only [List.map_nil, List.sum_nil] at hroom
      omega
    have hconsume : itr.consume bytesize
        = .ok (min itr.fileReadTasks[itr.currentTaskIndex + 1].size bytesize,
          ⟨itr.fileReadTasks, itr.currentTaskIndex + 1,
            itr.fileReadTasks[itr.currentTaskIndex + 1].size
              - min itr.fileReadTasks[itr.currentTaskIndex + 1].size bytesize⟩) := by
      rw [BatchItr.consume, BatchItr.advance, if_pos hfull, List.getElem?_eq_getElem hlt]
    refine ⟨_, _, hconsume, rfl, ?_, ?_, ?_, Nat.min_le_right _ _, ?_⟩
    · rw [BatchItr.nextIndex, if_pos hfull]
    · rw [BatchItr.capacity, BatchItr.capacity, List.drop_eq_getElem_cons hlt]
      simp only [List.map_cons, List.sum_cons]
      omega
    · refine ⟨hlt, fun task htask => hgood.later_pos task ?_⟩
      rw [List.drop_eq_getElem_cons hlt]
      exact List.mem_cons_of_mem _ htask
    · simp only
      omega
  · have hconsume : itr.consume bytesize
        = .ok (min itr.currentWorkerBytesize bytesize,
          { itr with
            currentWorkerBytesize := itr.currentWorkerBytesize
              - min itr.currentWorkerBytesize bytesize }) := by
      rw [BatchItr.consume, BatchItr.advance, if_neg hfull]
    refine ⟨_, _, hconsume, rfl, ?_, ?_, ⟨hgood.index_lt, hgood.later_pos⟩,
      Nat.min_le_right _ _, ?_⟩
    · rw [BatchItr.nextIndex, if_neg hfull]
    · simp only [BatchItr.capacity]
      omega
    · simp only
      omega

/-- What the loop of `handle_request` does when the slices have room. -/
structure HandleSpec (itr : BatchItr) (bytesize : Nat) (sizes : List Nat)
    (next : BatchItr) : Prop where
  nonempty : sizes ≠ []
  sum_eq : sizes.sum = bytesize
  fileReadTasks_eq : next.fileReadTasks = itr.fileReadTasks
  index_eq : next.currentTaskIndex + 1 = itr.nextIndex bytesize + sizes.length
  capacity_eq : next.capacity + bytesize = itr.capacity
  good : next.Good

/-- **The pieces of a range.** -/
theorem handleLoop_spec (n : Nat) :
    ∀ {itr : BatchItr} {bytesize : Nat} (infos : List (Nat × Info)) (offset rel : Nat),
      itr.fileReadTasks.length ≤ itr.nextIndex bytesize + n → itr.Good →
      bytesize ≤ itr.capacity → (∀ e ∈ infos, e.1 < itr.nextIndex bytesize) →
      ∃ sizes next,
        handleLoop itr infos offset bytesize rel
          = .ok (infos ++ numbered (itr.nextIndex bytesize) offset rel sizes, next) ∧
        HandleSpec itr bytesize sizes next := by
  induction n with
  | zero =>
      -- no slice is left, so the range cannot have room
      intro itr bytesize infos offset rel hlen hgood hroom _
      obtain ⟨toRead, next, -, hspec⟩ := BatchItr.consume_spec hgood hroom
      have h₁ := hspec.good.index_lt
      rw [hspec.fileReadTasks_eq, hspec.index_eq] at h₁
      omega
  | succ n ih =>
      intro itr bytesize infos offset rel hlen hgood hroom hkeys
      obtain ⟨toRead, next, hconsume, hspec⟩ := BatchItr.consume_spec hgood hroom
      have hle := hspec.toRead_le
      have hcap := hspec.capacity_eq
      have hemplace := tryEmplace_above (Info.new offset toRead rel) hkeys
      by_cases hmore : 0 < bytesize - toRead
      · -- the slice is full: the rest of the range goes to the following ones
        have hzero := hspec.more (by omega)
        have hindex : next.nextIndex (bytesize - toRead) = itr.nextIndex bytesize + 1 := by
          rw [BatchItr.nextIndex, if_pos ⟨hzero, by omega⟩, hspec.index_eq]
        obtain ⟨sizes, last, hrun, hrest⟩ :=
          ih (infos ++ [(itr.nextIndex bytesize, Info.new offset toRead rel)])
            (wrap (offset + toRead)) (rel + toRead)
            (by rw [hspec.fileReadTasks_eq, hindex]; omega) hspec.good (by omega)
            (by
              intro e he
              rw [hindex]
              rcases List.mem_append.mp he with he | he
              · have := hkeys e he
                omega
              · rw [List.mem_singleton.mp he]
                simp)
        refine ⟨toRead :: sizes, last, ?_, by simp, ?_, ?_, ?_, ?_, hrest.good⟩
        · rw [handleLoop]
          split
          next e heq => simp [hconsume] at heq
          next toRead' next' heq =>
            rw [hconsume] at heq
            simp only [Except.ok.injEq, Prod.mk.injEq] at heq
            obtain ⟨rfl, rfl⟩ := heq
            rw [dif_pos hmore, hspec.index_eq, hemplace, hrun, hindex]
            simp [numbered]
        · have := hrest.sum_eq
          simp only [List.sum_cons]
          omega
        · rw [hrest.fileReadTasks_eq, hspec.fileReadTasks_eq]
        · have := hrest.index_eq
          rw [hindex] at this
          simp only [List.length_cons]
          omega
        · have := hrest.capacity_eq
          omega
      · refine ⟨[toRead], next, ?_, by simp, ?_, hspec.fileReadTasks_eq, ?_, ?_, hspec.good⟩
        · rw [handleLoop]
          split
          next e heq => simp [hconsume] at heq
          next toRead' next' heq =>
            rw [hconsume] at heq
            simp only [Except.ok.injEq, Prod.mk.injEq] at heq
            obtain ⟨rfl, rfl⟩ := heq
            rw [dif_neg hmore, hspec.index_eq, hemplace]
            rfl
        · simp only [List.sum_singleton]
          omega
        · rw [hspec.index_eq]
          simp
        · omega

/-! ## §3. The batches being filled. -/

/-- `b` starts where `a` ends, in the file and in the destination. -/
def Task.Follows (a b : Task) : Prop :=
  b.info.offset = a.info.stop ∧ b.destination = wrap (a.destination + a.info.bytesize)

/-- The tasks of batch `i`. -/
def batchTasks (vTasks : List (List Task)) (i : Nat) : List Task := vTasks[i]?.getD []

/-- The batches are contiguous, those after `k` are empty, and batch `k`, if
it has tasks, ends at file offset `offset` and address `dst`. -/
structure Ends (vTasks : List (List Task)) (k offset dst : Nat) : Prop where
  chained : ∀ i, (batchTasks vTasks i).IsChain Task.Follows
  later_empty : ∀ i, k < i → batchTasks vTasks i = []
  last_ends : ∀ task ∈ (batchTasks vTasks k).getLast?,
    task.info.stop = wrap offset ∧ wrap (task.destination + task.info.bytesize) = wrap dst

/-- An empty batch ends anywhere. -/
theorem Ends.next {vTasks : List (List Task)} {k offset dst : Nat}
    (h : Ends vTasks k offset dst) (offset' dst' : Nat) :
    Ends vTasks (k + 1) offset' dst' where
  chained := h.chained
  later_empty i hi := h.later_empty i (by omega)
  last_ends task htask := by simp [h.later_empty (k + 1) (by omega)] at htask

theorem batchTasks_modify {vTasks : List (List Task)} {k : Nat} (task : Task) (i : Nat)
    (hk : k < vTasks.length) :
    batchTasks (vTasks.modify k (· ++ [task])) i
      = if i = k then batchTasks vTasks k ++ [task] else batchTasks vTasks i := by
  unfold batchTasks
  rw [List.getElem?_modify]
  by_cases h : k = i
  · subst h
    simp [List.getElem?_eq_getElem hk]
  · rw [if_neg (fun h' => h h'.symm)]
    simp [h]

/-- Appending a task that starts where batch `k` ends. -/
theorem Ends.push {vTasks : List (List Task)} {k offset dst : Nat}
    (h : Ends vTasks k offset dst) (request : Request) (info : Info) (hk : k < vTasks.length)
    (hoff : info.offset = wrap offset) (hdst : wrap (request.dst + info.relativeOffset) = wrap dst)
    (hstop : info.stop = wrap (info.offset + info.bytesize)) :
    Ends (vTasks.modify k (· ++ [⟨request, info⟩])) k (offset + info.bytesize)
      (dst + info.bytesize) where
  chained i := by
    rw [batchTasks_modify _ _ hk]
    split
    next hik =>
      refine List.isChain_append.mpr ⟨h.chained k, by simp, ?_⟩
      intro a ha b hb
      simp only [List.head?_cons, Option.mem_def, Option.some.injEq] at hb
      subst hb
      obtain ⟨hstop', hend⟩ := h.last_ends a ha
      refine ⟨by rw [hoff, hstop'], ?_⟩
      rw [hend]
      exact hdst
    next => exact h.chained i
  later_empty i hi := by
    rw [batchTasks_modify _ _ hk, if_neg (by omega)]
    exact h.later_empty i hi
  last_ends task htask := by
    rw [batchTasks_modify _ _ hk, if_pos rfl, List.getLast?_append] at htask
    simp only [List.getLast?_singleton, Option.some_or, Option.mem_def,
      Option.some.injEq] at htask
    subst htask
    refine ⟨?_, ?_⟩
    · rw [hstop, hoff, wrap_wrap_add]
    · show wrap (wrap (request.dst + info.relativeOffset) + info.bytesize) = _
      rw [hdst, wrap_wrap_add]

/-- The tasks of one request. -/
def tasksOf (request : Request) (infos : List (Nat × Info)) : List Task :=
  infos.map (fun e => ⟨request, e.2⟩)

/-- One more task in some batch is one more task overall. -/
theorem flatten_modify_perm {vTasks : List (List Task)} {k : Nat} (task : Task)
    (hk : k < vTasks.length) :
    (vTasks.modify k (· ++ [task])).flatten.Perm (task :: vTasks.flatten) := by
  induction vTasks generalizing k with
  | nil => simp at hk
  | cons v vTasks ih =>
      cases k with
      | zero =>
          simp only [List.modify_zero_cons, List.flatten_cons, List.append_assoc]
          exact List.perm_middle
      | succ k =>
          simp only [List.modify_succ_cons, List.flatten_cons]
          exact ((ih (by simpa using hk)).append_left v).trans List.perm_middle

/-- **Handing out the pieces of a range** keeps the batches contiguous and
adds exactly its tasks. -/
theorem pushTasks_spec (request : Request) (sizes : List Nat) :
    ∀ {vTasks : List (List Task)} (k offset dst rel : Nat), sizes ≠ [] →
      Ends vTasks k offset dst → k + sizes.length ≤ vTasks.length →
      wrap (request.dst + rel) = wrap dst →
      ∃ vTasks', pushTasks request vTasks (numbered k (wrap offset) rel sizes) = .ok vTasks' ∧
        vTasks'.length = vTasks.length ∧
        Ends vTasks' (k + sizes.length - 1) (offset + sizes.sum) (dst + sizes.sum) ∧
        vTasks'.flatten.Perm
          (vTasks.flatten ++ tasksOf request (numbered k (wrap offset) rel sizes)) := by
  induction sizes with
  | nil =>
      intro vTasks k offset dst rel hne
      exact absurd rfl hne
  | cons s sizes ih =>
      intro vTasks k offset dst rel _ hends hlen hdst
      simp only [List.length_cons] at hlen
      have hk : k < vTasks.length := by omega
      have hpush := hends.push request (Info.new (wrap offset) s rel) hk rfl hdst rfl
      have hperm := flatten_modify_perm (k := k)
        (⟨request, Info.new (wrap offset) s rel⟩ : Task) hk
      rw [numbered, pushTasks, if_pos hk]
      cases sizes with
      | nil =>
          -- the last piece of the request
          refine ⟨_, rfl, by simp, ?_, ?_⟩
          · simpa [Info.new] using hpush
          · exact hperm.trans (List.perm_append_singleton _ _).symm
      | cons s' sizes =>
          -- the next piece opens the slice of the next worker
          obtain ⟨vTasks', hrun, hlen', hends', hperm'⟩ :=
            ih (k + 1) (offset + s) (dst + s) (rel + s)
              (by simp) (hpush.next _ _) (by rw [List.length_modify]; omega)
              (by
                rw [← Nat.add_assoc, ← wrap_wrap_add, hdst, wrap_wrap_add])
          refine ⟨vTasks', ?_, by simpa using hlen', ?_, ?_⟩
          · rw [wrap_wrap_add]
            exact hrun
          · simp only [List.length_cons, List.sum_cons] at hends' ⊢
            have h₁ : k + 1 + (sizes.length + 1) - 1 = k + (sizes.length + 1 + 1) - 1 := by omega
            rw [h₁] at hends'
            simpa [Nat.add_assoc] using hends'
          · refine hperm'.trans ?_
            rw [wrap_wrap_add]
            refine (hperm.append_right _).trans ?_
            exact List.perm_middle.symm
end ModelStreamer.Planning
