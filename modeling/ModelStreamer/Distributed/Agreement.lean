/-
  ModelStreamer.Distributed.Agreement
  ───────────────────────────────────
  **THE SAME PATH ON EVERY RANK** (`DistributedStreamer`).

  `stream_files` decides on each rank whether the stream is distributed, and
  the ranks enter collective operations according to their own decision.
  All they decide from is shared, except the device memory each finds free.

    • `setIsDistributed`, `streamFiles` — the decision, and the collectives
      entered on the way and afterwards,
    • `serve_regular` — one call, from states that agree,
    • `same_path_iff` — after any calls in which the memory check came out
      alike on all ranks, the next call takes one path on all ranks exactly
      when its memory check comes out alike,
    • `paths_split` — two ranks, one of them short of memory.
-/
import ModelStreamer.FileStreamer.Requests
import ModelStreamer.Lib.KeySort
import Mathlib.Data.List.Dedup
import Mathlib.Data.List.Induction
import Mathlib.Data.String.Basic

namespace ModelStreamer.Distributed

open ModelStreamer.Lib ModelStreamer.FileStreamer

/-! ## §1. The decision. -/

/-- What the ranks share: environment variables, and the process group. -/
structure World where
  /-- `RUNAI_STREAMER_DIST` -/
  dist : Option String
  /-- `RUNAI_STREAMER_DIST_GLOBAL` -/
  distGlobal : Option String
  /-- `dist.is_initialized()` -/
  initialized : Bool
  /-- the host of each rank -/
  hostnames : List String
  backend : String
  cudaAvailable : Bool

/-- `dist.get_world_size()`. -/
def World.worldSize (w : World) : Nat := w.hostnames.length

/-- `get_group_size`. -/
def World.getGroupSize (w : World) : Nat := if w.initialized then w.worldSize else 1

/-- The backend's part of `set_is_distributed`. -/
def World.backendSupports (w : World) (enableDist device : String) : Bool :=
  if w.backend = "nccl" ∧ device = "cpu" then false
  else if w.backend = "gloo" ∧ device ≠ "cpu" then false
  else if enableDist = "auto" ∧ w.backend ≠ "nccl" then false
  else true

/-- `set_is_distributed`: the value `self.is_distributed` gets, or the
exception. -/
def setIsDistributed (w : World) (maxChunk : Nat) (isDistributed : Bool) (device : String)
    (freeMemory : Nat) : Except String Bool :=
  if !isDistributed then .ok false
  else
    let enableDist := w.dist.getD "auto"
    if enableDist = "0" then .ok false
    else if enableDist = "1" ∨ enableDist = "auto" then
      if w.initialized ∧ 1 < w.getGroupSize ∧ w.backendSupports enableDist device = true then
        if w.cudaAvailable ∧ w.backend = "nccl" then .ok (decide (¬ freeMemory < 2 * maxChunk))
        else .ok true
      else .ok false
    else .error s!"Invalid value for RUNAI_STREAMER_DIST: {enableDist}"

/-! ## §2. Collectives. -/

/-- A collective operation, with the ranks of its group. -/
inductive Collective where
  | newGroup (ranks : List Nat)
  | allGather (ranks : List Nat)
  | destroyGroup (ranks : List Nat)
  /-- the loop of `get_chunks` -/
  | broadcast (ranks : List Nat)
  deriving DecidableEq, Repr

/-- Who has to enter it: all ranks create a group, whether they are in it or
not. -/
def Collective.participants (worldSize : Nat) : Collective → List Nat
  | .newGroup _ => List.range worldSize
  | .allGather ranks => ranks
  | .destroyGroup ranks => ranks
  | .broadcast ranks => ranks

/-- A rank's `_distributedStreamerParams` and `_distributedStreamer`. -/
structure RankState where
  numProcessesOnNode : Option Nat
  groupsByRanks : List (List Nat)
  isDistributed : Bool
  distributionGroup : Option (List Nat)
  deriving DecidableEq, Repr

def RankState.new : RankState := ⟨none, [], false, none⟩

/-- The ranks of each host, in the order of the host names. -/
def groupsByRanks (hostnames : List String) : List (List Nat) :=
  (sortBy id hostnames.dedup).map
    (fun hostname => (List.range hostnames.length).filter
      (fun r => decide (hostnames[r]? = some hostname)))

/-- `find_local_ranks`. -/
def findLocalRanks (w : World) (rank : Nat) : Nat × List (List Nat) × List Collective :=
  if !w.initialized || decide (w.worldSize = 1) then (1, [[0]], [])
  else
    let all := List.range w.worldSize
    let groups := groupsByRanks w.hostnames
    (((groups.find? (fun ranks => decide (rank ∈ ranks))).map List.length).getD 1, groups,
      [.newGroup all, .allGather all, .destroyGroup all])

/-- `set_params`. -/
def setParams (w : World) (rank : Nat) (st : RankState) : RankState × List Collective :=
  match st.numProcessesOnNode with
  | some _ => (st, [])
  | none =>
      let (number, groups, entered) := findLocalRanks w rank
      ({ st with numProcessesOnNode := some number, groupsByRanks := groups }, entered)

section Calls

variable (int : String → Except String Int)

/-- `create_distribution_group`. -/
def createDistributionGroup (w : World) (rank : Nat) (st : RankState) :
    Except String (Option (List Nat) × List Collective) :=
  match st.distributionGroup with
  | some group => .ok (some group, [])
  | none =>
      match int (w.distGlobal.getD "0") with
      | .error e => .error e
      | .ok value =>
          if value = 1 then
            .ok (some (List.range w.worldSize), [.newGroup (List.range w.worldSize)])
          else
            .ok (st.groupsByRanks.find? (fun ranks => decide (rank ∈ ranks)),
              st.groupsByRanks.map .newGroup)

/-- A call of `stream_files` on every rank, with what each rank brings. -/
structure Call where
  files : List FileChunks
  isDistributed : Bool
  device : Nat → String
  freeMemory : Nat → Nat
  /-- one kind of device -/
  sameKind : ∀ r r', device r = "cpu" ↔ device r' = "cpu"

/-- `stream_files` on a rank: its new state, the collectives it enters, and
its decision. -/
def streamFiles (w : World) (rank : Nat) (call : Call) (st : RankState) :
    RankState × List Collective × Except String Bool :=
  let (st, entered) := setParams w rank st
  match setIsDistributed w (largestRange call.files) call.isDistributed (call.device rank)
    (call.freeMemory rank) with
  | .error e => (st, entered, .error e)
  | .ok false => ({ st with isDistributed := false }, entered, .ok false)
  | .ok true =>
      match createDistributionGroup int w rank st with
      | .error e => ({ st with isDistributed := true }, entered, .error e)
      | .ok (group, created) =>
          ({ st with isDistributed := true, distributionGroup := group }, entered ++ created,
            .ok true)

/-- `stream_files`, and `get_chunks` iterated: its loop is entered where
there are chunks. -/
def serve (w : World) (rank : Nat) (call : Call) (st : RankState) :
    RankState × List Collective × Except String Bool :=
  let (st, entered, decision) := streamFiles int w rank call st
  let broadcasts :=
    match decision, st.distributionGroup with
    | .ok true, some group =>
        if call.files.all (fun file => file.sizes.isEmpty) then [] else [.broadcast group]
    | _, _ => []
  (st, entered ++ broadcasts, decision)

/-- A rank's state after some calls. -/
def after (w : World) (rank : Nat) (calls : List Call) : RankState :=
  calls.foldl (fun st call => (serve int w rank call st).1) RankState.new

/-- Two ranks both have to enter a collective. -/
def joint (w : World) (r r' : Nat) (c : Collective) : Bool :=
  decide (r ∈ c.participants w.worldSize ∧ r' ∈ c.participants w.worldSize)

/-- **One path**: the same decision on all ranks, and of the collectives two
ranks have in common neither skips any. -/
def SamePath (w : World) (states : Nat → RankState) (call : Call) : Prop :=
  ∀ r < w.worldSize, ∀ r' < w.worldSize,
    (serve int w r call (states r)).2.2 = (serve int w r' call (states r')).2.2 ∧
    (serve int w r call (states r)).2.1.filter (joint w r r')
      = (serve int w r' call (states r')).2.1.filter (joint w r r')

end Calls

/-! ## §3. When the ranks agree. -/

/-- The memory check decides. -/
def ChecksMemory (w : World) (call : Call) : Prop :=
  call.isDistributed = true ∧ (w.dist.getD "auto" = "1" ∨ w.dist.getD "auto" = "auto") ∧
    w.initialized = true ∧ 1 < w.worldSize ∧ w.cudaAvailable = true ∧ w.backend = "nccl" ∧
    call.device 0 ≠ "cpu"

/-- **The condition**: where the memory check decides, it comes out alike on
all ranks. -/
def Uniform (w : World) (call : Call) : Prop :=
  ChecksMemory w call →
    (∀ r < w.worldSize, call.freeMemory r < 2 * largestRange call.files) ∨
    (∀ r < w.worldSize, 2 * largestRange call.files ≤ call.freeMemory r)

/-- Where the check decides, the decision is its outcome. -/
theorem decision_of_checks {w : World} {call : Call} (h : ChecksMemory w call) (r : Nat) :
    setIsDistributed w (largestRange call.files) call.isDistributed (call.device r)
      (call.freeMemory r) = .ok (decide (2 * largestRange call.files ≤ call.freeMemory r)) := by
  obtain ⟨hrequested, henv, hinit, hsize, hcuda, hbackend, hdevice⟩ := h
  have hnotcpu : call.device r ≠ "cpu" := fun hcpu => hdevice ((call.sameKind r 0).mp hcpu)
  have hsupports : w.backendSupports (w.dist.getD "auto") (call.device r) = true := by
    unfold World.backendSupports
    rw [hbackend, if_neg (fun h => hnotcpu h.2), if_neg (fun h => by simp at h),
      if_neg (fun h => h.2 rfl)]
  have hzero : w.dist.getD "auto" ≠ "0" := by
    rcases henv with h | h <;> rw [h] <;> decide
  have hgroup : 1 < w.getGroupSize := by
    unfold World.getGroupSize
    rw [if_pos hinit]
    exact hsize
  unfold setIsDistributed
  rw [hrequested]
  simp only [Bool.not_true, Bool.false_eq_true, if_false]
  rw [if_neg hzero, if_pos henv, if_pos ⟨hinit, hgroup, hsupports⟩, if_pos ⟨hcuda, hbackend⟩]
  simp only [Nat.not_lt]

/-- Elsewhere the decision is made from what the ranks share. -/
theorem decision_of_not_checks {w : World} {call : Call} (h : ¬ ChecksMemory w call)
    (r r' : Nat) :
    setIsDistributed w (largestRange call.files) call.isDistributed (call.device r)
        (call.freeMemory r)
      = setIsDistributed w (largestRange call.files) call.isDistributed (call.device r')
        (call.freeMemory r') := by
  have hkind : ∀ enableDist, w.backendSupports enableDist (call.device r)
      = w.backendSupports enableDist (call.device r') := by
    intro enableDist
    unfold World.backendSupports
    simp only [call.sameKind r r', ne_eq]
  unfold setIsDistributed
  simp only [hkind]
  split
  · rfl
  next hrequested =>
    split
    · rfl
    next hzero =>
      split
      next henv =>
        split
        next hall =>
          split
          next hcheck =>
            -- then the check decides after all
            exfalso
            apply h
            refine ⟨by simpa using hrequested, henv, hall.1, ?_, hcheck.1, hcheck.2, ?_⟩
            · have hgroup := hall.2.1
              unfold World.getGroupSize at hgroup
              rw [if_pos hall.1] at hgroup
              exact hgroup
            · intro hcpu
              have hsupports := hall.2.2
              unfold World.backendSupports at hsupports
              rw [if_pos ⟨hcheck.2, (call.sameKind 0 r').mp hcpu⟩] at hsupports
              simp at hsupports
          · rfl
        · rfl
      · rfl

/-- **The decisions agree exactly under the condition.** -/
theorem decisions_agree_iff {w : World} {call : Call} :
    (∀ r < w.worldSize, ∀ r' < w.worldSize,
      setIsDistributed w (largestRange call.files) call.isDistributed (call.device r)
          (call.freeMemory r)
        = setIsDistributed w (largestRange call.files) call.isDistributed (call.device r')
          (call.freeMemory r')) ↔ Uniform w call := by
  constructor
  · intro hagree hchecks
    have hpos : 0 < w.worldSize := by
      have := hchecks.2.2.2.1
      omega
    by_cases hfirst : 2 * largestRange call.files ≤ call.freeMemory 0
    · right
      intro r hr
      have heq := hagree 0 hpos r hr
      rw [decision_of_checks hchecks, decision_of_checks hchecks, Except.ok.injEq,
        decide_eq_decide] at heq
      exact heq.mp hfirst
    · left
      intro r hr
      have heq := hagree 0 hpos r hr
      rw [decision_of_checks hchecks, decision_of_checks hchecks, Except.ok.injEq,
        decide_eq_decide] at heq
      have := mt heq.mpr hfirst
      omega
  · intro huniform r hr r' hr'
    by_cases hchecks : ChecksMemory w call
    · rw [decision_of_checks hchecks, decision_of_checks hchecks]
      rcases huniform hchecks with hall | hall
      · have h₁ := hall r hr
        have h₂ := hall r' hr'
        simp only [Except.ok.injEq, decide_eq_decide]
        omega
      · simp only [hall r hr, hall r' hr']
    · exact decision_of_not_checks hchecks r r'

/-! ## §4. States that agree. -/

variable {int : String → Except String Int} {w : World}

/-- The groups `find_local_ranks` finds, on any rank. -/
def localGroups (w : World) : List (List Nat) :=
  if !w.initialized || decide (w.worldSize = 1) then [[0]] else groupsByRanks w.hostnames

/-- The collectives of `find_local_ranks`, on any rank. -/
def discovery (w : World) : List Collective :=
  if !w.initialized || decide (w.worldSize = 1) then []
  else [.newGroup (List.range w.worldSize), .allGather (List.range w.worldSize),
    .destroyGroup (List.range w.worldSize)]

theorem findLocalRanks_snd (w : World) (rank : Nat) :
    (findLocalRanks w rank).2 = (localGroups w, discovery w) := by
  unfold findLocalRanks localGroups discovery
  split <;> rfl

/-- The distribution group of a rank, once it is created. -/
def groupOf (int : String → Except String Int) (w : World) (rank : Nat) : Option (List Nat) :=
  if int (w.distGlobal.getD "0") = .ok 1 then some (List.range w.worldSize)
  else (localGroups w).find? (fun ranks => decide (rank ∈ ranks))

theorem mem_groupsByRanks {hostnames : List String} {ranks : List Nat}
    (h : ranks ∈ groupsByRanks hostnames) :
    ∃ hostname, ∀ r, r ∈ ranks ↔ hostnames[r]? = some hostname := by
  unfold groupsByRanks at h
  obtain ⟨hostname, -, rfl⟩ := List.mem_map.mp h
  refine ⟨hostname, fun r => ?_⟩
  simp only [List.mem_filter, List.mem_range, decide_eq_true_eq, and_iff_right_iff_imp]
  intro hr
  exact (List.getElem?_eq_some_iff.mp hr).1

theorem exists_group {hostnames : List String} {r : Nat} (hr : r < hostnames.length) :
    ∃ ranks ∈ groupsByRanks hostnames, r ∈ ranks := by
  unfold groupsByRanks
  refine ⟨_, List.mem_map.mpr ⟨hostnames[r], ?_, rfl⟩, ?_⟩
  · exact (mem_sortBy id hostnames.dedup _).mpr (List.mem_dedup.mpr (List.getElem_mem hr))
  · simp [hr]

/-- A rank is in its group. -/
theorem groupOf_some (hinit : w.initialized = true) (hsize : 1 < w.worldSize) {r : Nat}
    (hr : r < w.worldSize) : ∃ ranks, groupOf int w r = some ranks ∧ r ∈ ranks := by
  unfold groupOf
  split
  · exact ⟨_, rfl, List.mem_range.mpr hr⟩
  · have hlocal : localGroups w = groupsByRanks w.hostnames := by
      unfold localGroups
      rw [hinit]
      simp only [Bool.not_true, Bool.false_or, decide_eq_true_eq]
      rw [if_neg (by omega)]
    rw [hlocal]
    obtain ⟨ranks, hranks, hmem⟩ := exists_group hr
    cases hfind : (groupsByRanks w.hostnames).find? (fun ranks => decide (r ∈ ranks)) with
    | none => exact absurd hmem (by simpa using List.find?_eq_none.mp hfind ranks hranks)
    | some found => exact ⟨found, rfl, by simpa using List.find?_some hfind⟩

/-- The ranks of one group have one group. -/
theorem groupOf_shared (hinit : w.initialized = true) (hsize : 1 < w.worldSize) {r r' : Nat}
    {ranks : List Nat} (hgroup : groupOf int w r = some ranks) (hmem : r ∈ ranks)
    (hmem' : r' ∈ ranks) : groupOf int w r' = some ranks := by
  unfold groupOf at hgroup ⊢
  split
  next hglobal =>
    rw [if_pos hglobal] at hgroup
    exact hgroup
  next hlocalEnv =>
    rw [if_neg hlocalEnv] at hgroup
    have hlocal : localGroups w = groupsByRanks w.hostnames := by
      unfold localGroups
      rw [hinit]
      simp only [Bool.not_true, Bool.false_or, decide_eq_true_eq]
      rw [if_neg (by omega)]
    rw [hlocal] at hgroup ⊢
    obtain ⟨hostname, hhost⟩ := mem_groupsByRanks (List.mem_of_find?_eq_some hgroup)
    -- the two ranks are on one host, and a group is all the ranks of a host
    have hsame : w.hostnames[r]? = w.hostnames[r']? := by
      rw [(hhost r).mp hmem, (hhost r').mp hmem']
    rw [← hgroup, ← List.head?_filter, ← List.head?_filter]
    apply congrArg List.head?
    apply List.filter_congr
    intro ranks' hranks'
    obtain ⟨hostname', hhost'⟩ := mem_groupsByRanks hranks'
    rw [decide_eq_decide, hhost' r, hhost' r', hsame]

/-- The state of rank `r`, where the ranks agree. -/
def regular (int : String → Except String Int) (w : World) (known isDistributed created : Bool)
    (r : Nat) : RankState where
  numProcessesOnNode := if known then some (findLocalRanks w r).1 else none
  groupsByRanks := if known then localGroups w else []
  isDistributed := isDistributed
  distributionGroup := if created then groupOf int w r else none

/-- **The ranks agree.** -/
def Agree (int : String → Except String Int) (w : World) (states : Nat → RankState) : Prop :=
  ∃ known isDistributed created : Bool,
    (created = true → w.initialized = true ∧ 1 < w.worldSize) ∧
    ∀ r < w.worldSize, states r = regular int w known isDistributed created r

theorem setParams_regular (known isDistributed created : Bool) (r : Nat) :
    setParams w r (regular int w known isDistributed created r)
      = (regular int w true isDistributed created r, if known then [] else discovery w) := by
  cases known with
  | true => rfl
  | false =>
      unfold setParams regular
      simp only [Bool.false_eq_true, if_false, if_true]
      rw [show findLocalRanks w r = ((findLocalRanks w r).1, localGroups w, discovery w) from
        Prod.ext rfl (findLocalRanks_snd w r)]

/-- Creating the group: what is entered does not depend on the rank. -/
theorem createDistributionGroup_regular {isDistributed created : Bool} {r : Nat}
    (hcreated : created = true → w.initialized = true ∧ 1 < w.worldSize) (hr : r < w.worldSize) :
    createDistributionGroup int w r (regular int w true isDistributed created r)
      = if created then .ok (groupOf int w r, [])
        else match int (w.distGlobal.getD "0") with
          | .error e => .error e
          | .ok value => .ok (groupOf int w r,
              if value = 1 then [.newGroup (List.range w.worldSize)]
              else (localGroups w).map .newGroup) := by
  unfold createDistributionGroup
  cases created with
  | true =>
      obtain ⟨hinit, hsize⟩ := hcreated rfl
      obtain ⟨ranks, hranks, -⟩ := @groupOf_some int w hinit hsize r hr
      simp only [regular, if_true, hranks]
  | false =>
      simp only [regular, Bool.false_eq_true, if_false, if_true]
      cases hint : int (w.distGlobal.getD "0") with
      | error e => rfl
      | ok value =>
          unfold groupOf
          rw [hint]
          by_cases hone : value = 1
          · simp [hone]
          · simp [hone]

/-- A rank that is told to distribute is in a group of several ranks. -/
theorem distributed_world {maxChunk : Nat} {isDistributed : Bool} {device : String}
    {freeMemory : Nat} (h : setIsDistributed w maxChunk isDistributed device freeMemory = .ok true) :
    w.initialized = true ∧ 1 < w.worldSize := by
  unfold setIsDistributed at h
  split at h
  · simp at h
  · simp only at h
    split at h
    · simp at h
    · split at h
      · split at h
        next hall =>
          refine ⟨hall.1, ?_⟩
          have hgroup := hall.2.1
          unfold World.getGroupSize at hgroup
          rw [if_pos hall.1] at hgroup
          exact hgroup
        · simp at h
      · simp at h

/-- The call up to the decision, from a regular state: only the state depends
on the rank. -/
theorem streamFiles_regular {known isDistributed created : Bool} {r : Nat} {call : Call}
    {decision : Except String Bool}
    (hcreated : created = true → w.initialized = true ∧ 1 < w.worldSize) (hr : r < w.worldSize)
    (hdecision : setIsDistributed w (largestRange call.files)
      call.isDistributed (call.device r) (call.freeMemory r) = decision) :
    streamFiles int w r call (regular int w known isDistributed created r)
      = (match decision with
        | .error e => (regular int w true isDistributed created r,
            (if known then [] else discovery w), .error e)
        | .ok false => (regular int w true false created r,
            (if known then [] else discovery w), .ok false)
        | .ok true =>
            if created then
              (regular int w true true true r, (if known then [] else discovery w) ++ [], .ok true)
            else match int (w.distGlobal.getD "0") with
              | .error e => (regular int w true true false r,
                  (if known then [] else discovery w), .error e)
              | .ok value => (regular int w true true true r,
                  (if known then [] else discovery w) ++
                    (if value = 1 then [.newGroup (List.range w.worldSize)]
                      else (localGroups w).map .newGroup), .ok true)) := by
  unfold streamFiles
  rw [setParams_regular]
  simp only [hdecision]
  cases decision with
  | error e => rfl
  | ok decided =>
      cases decided with
      | false => rfl
      | true =>
          simp only [createDistributionGroup_regular hcreated hr]
          cases created with
          | true => rfl
          | false =>
              simp only [Bool.false_eq_true, if_false]
              cases int (w.distGlobal.getD "0") with
              | error e => rfl
              | ok value => rfl

/-- A rank that is not told to distribute broadcasts nothing. -/
theorem serve_quiet {r : Nat} {call : Call} {st st' : RankState} {common : List Collective}
    {outcome : Except String Bool} (hoff : outcome ≠ .ok true)
    (h : streamFiles int w r call st = (st', common, outcome)) :
    serve int w r call st = (st', common ++ [], outcome) := by
  unfold serve
  rw [h]
  cases outcome with
  | error e => rfl
  | ok decided =>
      cases decided with
      | false => rfl
      | true => exact absurd rfl hoff

/-- A rank that is told to distribute broadcasts in its own group, unless there
is nothing to read. -/
theorem serve_loud {r : Nat} {call : Call} {st : RankState} {common : List Collective}
    (hworld : w.initialized = true ∧ 1 < w.worldSize) (hr : r < w.worldSize)
    (h : streamFiles int w r call st = (regular int w true true true r, common, .ok true)) :
    serve int w r call st = (regular int w true true true r, common ++
      (if (!call.files.all (fun file => file.sizes.isEmpty)) then
        (groupOf int w r).toList.map .broadcast else []), .ok true) := by
  obtain ⟨ranks, hranks, -⟩ := @groupOf_some int w hworld.1 hworld.2 r hr
  unfold serve
  rw [h]
  simp only [regular, if_true, hranks, Option.toList_some, List.map_cons, List.map_nil]
  cases call.files.all (fun file => file.sizes.isEmpty) <;> rfl

/-- **One call, from states that agree, with one decision**: the states
agree again, and what a rank enters is common to all up to the broadcasts in
its own group. -/
theorem serve_regular {states : Nat → RankState} (hagree : Agree int w states) {call : Call}
    {decision : Except String Bool}
    (hdecision : ∀ r < w.worldSize, setIsDistributed w (largestRange call.files)
      call.isDistributed (call.device r) (call.freeMemory r) = decision) :
    Agree int w (fun r => (serve int w r call (states r)).1) ∧
    ∃ common outcome, ∃ broadcasts : Bool,
      (broadcasts = true → w.initialized = true ∧ 1 < w.worldSize) ∧
      ∀ r < w.worldSize, (serve int w r call (states r)).2
        = (common ++ (if broadcasts then (groupOf int w r).toList.map .broadcast else []),
            outcome) := by
  obtain ⟨known, isDistributed, created, hcreated, hstates⟩ := hagree
  have hserve := fun r hr => (congrArg (streamFiles int w r call) (hstates r hr)).trans
    (streamFiles_regular hcreated hr (hdecision r hr))
  -- no broadcasts: the state is regular, and all that is entered is common
  have hquiet : ∀ (d c : Bool) (common : List Collective) (outcome : Except String Bool),
      outcome ≠ .ok true → (c = true → w.initialized = true ∧ 1 < w.worldSize) →
      (∀ r < w.worldSize, streamFiles int w r call (states r)
        = (regular int w true d c r, common, outcome)) →
      Agree int w (fun r => (serve int w r call (states r)).1) ∧
      ∃ common outcome, ∃ broadcasts : Bool,
        (broadcasts = true → w.initialized = true ∧ 1 < w.worldSize) ∧
        ∀ r < w.worldSize, (serve int w r call (states r)).2
          = (common ++ (if broadcasts then (groupOf int w r).toList.map .broadcast else []),
              outcome) := by
    intro d c common outcome hoff hc hall
    have heq := fun r hr => serve_quiet hoff (hall r hr)
    refine ⟨⟨true, d, c, hc, fun r hr => congrArg Prod.fst (heq r hr)⟩, common, outcome, false,
      by simp, fun r hr => by rw [heq r hr]; rfl⟩
  cases decision with
  | error e => exact hquiet isDistributed created _ _ (by simp) hcreated hserve
  | ok decided =>
      cases decided with
      | false => exact hquiet false created _ _ (by simp) hcreated hserve
      | true =>
          by_cases hempty : w.worldSize = 0
          · -- no ranks at all
            have hnone : ∀ r, ¬ r < w.worldSize := fun r => by omega
            exact ⟨⟨known, isDistributed, created, hcreated, fun r hr => absurd hr (hnone r)⟩,
              [], .ok true, false, by simp, fun r hr => absurd hr (hnone r)⟩
          · have hworld := distributed_world (hdecision 0 (by omega))
            -- the group exists afterwards, unless its variable does not parse
            have hloud : ∀ common, (∀ r < w.worldSize, streamFiles int w r call (states r)
                = (regular int w true true true r, common, .ok true)) →
                Agree int w (fun r => (serve int w r call (states r)).1) ∧
                ∃ common outcome, ∃ broadcasts : Bool,
                  (broadcasts = true → w.initialized = true ∧ 1 < w.worldSize) ∧
                  ∀ r < w.worldSize, (serve int w r call (states r)).2
                    = (common ++ (if broadcasts then (groupOf int w r).toList.map .broadcast
                        else []), outcome) := by
              intro common hall
              have heq := fun r hr => serve_loud hworld hr (hall r hr)
              exact ⟨⟨true, true, true, fun _ => hworld, fun r hr => congrArg Prod.fst (heq r hr)⟩,
                common, .ok true, !call.files.all (fun file => file.sizes.isEmpty),
                fun _ => hworld, fun r hr => by rw [heq r hr]⟩
            cases created with
            | true => exact hloud _ hserve
            | false =>
                simp only [Bool.false_eq_true, if_false] at hserve
                cases hint : int (w.distGlobal.getD "0") with
                | error e =>
                    rw [hint] at hserve
                    exact hquiet true false _ _ (by simp) (by simp) hserve
                | ok value =>
                    rw [hint] at hserve
                    exact hloud _ hserve

/-! ## §5. One path. -/

/-- The broadcasts two ranks have in common are in their common group. -/
theorem broadcasts_joint (hinit : w.initialized = true) (hsize : 1 < w.worldSize) {r r' : Nat}
    (hr : r < w.worldSize) (hr' : r' < w.worldSize) :
    ((groupOf int w r).toList.map Collective.broadcast).filter (joint w r r')
      = ((groupOf int w r').toList.map Collective.broadcast).filter (joint w r r') := by
  obtain ⟨ranks, hranks, hmem⟩ := @groupOf_some int w hinit hsize r hr
  obtain ⟨ranks', hranks', hmem'⟩ := @groupOf_some int w hinit hsize r' hr'
  by_cases hshared : r' ∈ ranks
  · rw [groupOf_shared hinit hsize hranks hmem hshared, hranks]
  · have hother : r ∉ ranks' := by
      intro hin
      have hsame := groupOf_shared hinit hsize hranks' hmem' hin
      rw [hranks] at hsame
      obtain rfl := Option.some.inj hsame
      exact hshared hmem'
    rw [hranks, hranks']
    simp [joint, Collective.participants, hshared, hother]

/-- States that agree, and one decision: one path. -/
theorem samePath_of_agree {states : Nat → RankState} (hagree : Agree int w states) {call : Call}
    {decision : Except String Bool}
    (hdecision : ∀ r < w.worldSize, setIsDistributed w (largestRange call.files)
      call.isDistributed (call.device r) (call.freeMemory r) = decision) :
    SamePath int w states call := by
  obtain ⟨-, common, outcome, broadcasts, hworld, hserve⟩ := serve_regular hagree hdecision
  intro r hr r' hr'
  rw [hserve r hr, hserve r' hr']
  refine ⟨rfl, ?_⟩
  rw [List.filter_append, List.filter_append]
  apply congrArg
  cases broadcasts with
  | false => rfl
  | true =>
      obtain ⟨hinit, hsize⟩ := hworld rfl
      exact broadcasts_joint hinit hsize hr hr'

theorem after_succ (calls : List Call) (call : Call) (r : Nat) :
    after int w r (calls ++ [call]) = (serve int w r call (after int w r calls)).1 := by
  unfold after
  rw [List.foldl_append]
  rfl

/-- **After calls that meet the condition the ranks agree.** -/
theorem after_agree {calls : List Call} (hall : ∀ call ∈ calls, Uniform w call) :
    Agree int w (fun r => after int w r calls) := by
  induction calls using List.reverseRecOn with
  | nil => exact ⟨false, false, false, by simp, fun r _ => rfl⟩
  | append_singleton calls call ih =>
      have hbefore := ih (fun c hc => hall c (List.mem_append_left _ hc))
      have huniform := hall call (List.mem_append_right _ List.mem_cons_self)
      simp only [after_succ]
      exact (serve_regular hbefore
        (fun r hr => decisions_agree_iff.mpr huniform r hr 0 (by omega))).1

/-- A rank goes on undistributed where `set_is_distributed` says so. -/
theorem serve_undistributed (r : Nat) (call : Call) (st : RankState) :
    (serve int w r call st).2.2 = .ok false ↔ setIsDistributed w (largestRange call.files)
      call.isDistributed (call.device r) (call.freeMemory r) = .ok false := by
  show (streamFiles int w r call st).2.2 = .ok false ↔ _
  unfold streamFiles
  simp only
  split
  next heq => simp [heq]
  next heq => simp [heq]
  next heq =>
    rw [heq]
    split <;> simp

/-- **One path exactly under the condition**: after any calls that met it,
the next call takes one path on all ranks (one decision, and no collective
that one rank enters and another skips) if and only if its memory check, where
it decides, comes out alike on all ranks. -/
theorem same_path_iff (int : String → Except String Int) (w : World) (calls : List Call)
    (hall : ∀ call ∈ calls, Uniform w call) (call : Call) :
    SamePath int w (fun r => after int w r calls) call ↔ Uniform w call := by
  constructor
  · intro hsame
    apply decisions_agree_iff.mp
    by_cases hchecks : ChecksMemory w call
    · intro r hr r' hr'
      have hiff := (hsame r hr r' hr').1
      have h₁ := @serve_undistributed int w r call (after int w r calls)
      have h₂ := @serve_undistributed int w r' call (after int w r' calls)
      rw [hiff, h₂] at h₁
      rw [decision_of_checks hchecks, decision_of_checks hchecks] at h₁ ⊢
      -- two Booleans that are false together
      cases h : decide (2 * largestRange call.files ≤ call.freeMemory r) <;>
        cases h' : decide (2 * largestRange call.files ≤ call.freeMemory r') <;>
        simp [h, h'] at h₁ ⊢
    · exact fun r _ r' _ => decision_of_not_checks hchecks r r'
  · intro huniform
    by_cases hempty : w.worldSize = 0
    · intro r hr
      omega
    · exact samePath_of_agree (after_agree hall)
        (fun r hr => decisions_agree_iff.mpr huniform r hr 0 (by omega))

/-- Two ranks of one host, with NCCL. -/
def twoRanks : World := ⟨none, none, true, ["node", "node"], "nccl", true⟩

/-- One file of one chunk of 100 bytes. -/
def oneChunk (freeMemory : Nat → Nat) : Call :=
  ⟨[.single 0 "a" 0 100], true, fun _ => "cuda", freeMemory, fun _ _ => Iff.rfl⟩

theorem same_path_twice :
    SamePath (fun _ => .ok 0) twoRanks
        (fun r => after (fun _ => .ok 0) twoRanks r [oneChunk (fun _ => 200)])
        (oneChunk (fun r => 500 + r)) ↔
      Uniform twoRanks (oneChunk (fun r => 500 + r)) :=
  same_path_iff (fun _ => .ok 0) twoRanks [oneChunk (fun _ => 200)]
    (by
      intro call hcall _
      obtain rfl := List.mem_singleton.mp hcall
      exact Or.inr (fun _ _ => show 2 * 100 ≤ 200 by decide)) _

/-- **The paths split**: rank 1 has 199 bytes free, a byte too few, and
streams alone, while rank 0 creates the group and waits for its broadcast. -/
theorem paths_split :
    (serve (fun _ => .ok 0) twoRanks 0 (oneChunk (fun r => 200 - r)) RankState.new).2
      = ([.newGroup [0, 1], .allGather [0, 1], .destroyGroup [0, 1], .newGroup [0, 1],
          .broadcast [0, 1]], .ok true) ∧
    (serve (fun _ => .ok 0) twoRanks 1 (oneChunk (fun r => 200 - r)) RankState.new).2
      = ([.newGroup [0, 1], .allGather [0, 1], .destroyGroup [0, 1]], .ok false) ∧
    ¬ SamePath (fun _ => .ok 0) twoRanks (fun r => after (fun _ => .ok 0) twoRanks r [])
      (oneChunk (fun r => 200 - r)) := by
  have h₀ : (serve (fun _ => .ok 0) twoRanks 0 (oneChunk (fun r => 200 - r)) RankState.new).2
      = ([.newGroup [0, 1], .allGather [0, 1], .destroyGroup [0, 1], .newGroup [0, 1],
          .broadcast [0, 1]], .ok true) := by rfl
  have h₁ : (serve (fun _ => .ok 0) twoRanks 1 (oneChunk (fun r => 200 - r)) RankState.new).2
      = ([.newGroup [0, 1], .allGather [0, 1], .destroyGroup [0, 1]], .ok false) := by rfl
  refine ⟨h₀, h₁, fun hsame => ?_⟩
  have hdecision := (hsame 0 (by decide) 1 (by decide)).1
  have hsecond := (congrArg Prod.snd h₀).symm.trans (hdecision.trans (congrArg Prod.snd h₁))
  simp at hsecond

end ModelStreamer.Distributed
