/-
  ModelStreamer.FileStreamer.Lifetime
  ───────────────────────────────────
  **THE BUFFER OUTLIVES ITS SUBMISSION**, where the steps are permitted.

  The invariant counts: what the current submission owes is within what
  every generator that still takes responses will take.

    • `Inv` — the invariant,
    • `Inv.responded_within` — a response taken lowers the bound,
    • `Inv.commit` — a new submission, with nothing owed before it,
    • `Inv.step` — one permitted step,
    • `buffer_outlives_submission` — runs of permitted steps are safe,
    • `abandoned_submission` — without the condition they are not.
-/
import ModelStreamer.FileStreamer.Session

namespace ModelStreamer.FileStreamer.Lifetime

open ModelStreamer.Lib ModelStreamer.FileStreamer

/-! ## §1. The invariant. -/

/-- The ranges the running generator still waits for. -/
def Control.left : Control → Option Nat
  | .ready _ left => some left
  | .draining _ remaining _ => some remaining
  | _ => none

/-- The running generator. -/
def Control.generator : Control → Option Nat
  | .idle => none
  | .ready g _ => some g
  | .draining g _ _ => some g
  | .advancing g => some g

/-- No submission owes more than `n` responses. -/
def Within (native : List Submission) (n : Nat) : Prop := ∀ sub ∈ native, sub.owed ≤ n

/-- A generator, running or not, that still takes `left > 0` responses. -/
def Carries (s : State) (left : Nat) : Prop :=
  0 < left ∧ (Generator.suspended left ∈ s.generators ∨ s.control.left = some left)

/-- **The invariant**: what is owed is owed by the last submission, and every
generator that still takes responses takes them all. -/
structure Inv (s : State) : Prop where
  safe : Safe s
  fresh : ∀ sub ∈ s.native, sub.id < s.nextId
  ended : s.streamer = false → s.native = []
  active : ∀ sub ∈ s.native, 0 < sub.owed →
    ∃ request, s.activeRequest = some request ∧ sub.owed ≤ request.numRanges
  running : ∀ g, s.control.generator = some g → s.generators[g]? = some .running
  bound : ∀ left, Carries s left → Within s.native left
  carried : s.unserved = true ∨ Quiet s.native ∨ ∃ left, Carries s left

theorem mem_set {generators : List Generator} {g left : Nat} {old new : Generator}
    (hold : generators[g]? = some old) (hne : old ≠ .suspended left) :
    .suspended left ∈ generators.set g new ↔
      .suspended left ∈ generators ∨ new = .suspended left := by
  have hg : g < generators.length := (List.getElem?_eq_some_iff.mp hold).1
  constructor
  · intro hmem
    rcases List.mem_or_eq_of_mem_set hmem with hmem | heq
    · exact Or.inl hmem
    · exact Or.inr heq.symm
  · intro hmem
    rcases hmem with hmem | rfl
    · obtain ⟨i, hi⟩ := List.mem_iff_getElem?.mp hmem
      have hig : g ≠ i := by
        intro heq
        subst heq
        rw [hold] at hi
        exact hne (Option.some.inj hi)
      exact List.mem_iff_getElem?.mpr ⟨i, by rw [List.getElem?_set_ne hig, hi]⟩
    · exact List.mem_iff_getElem?.mpr ⟨g, by rw [List.getElem?_set_self hg]⟩

theorem getElem?_put {s : State} {g : Nat} {old new : Generator}
    (hold : s.generators[g]? = some old) : (s.put g new).generators[g]? = some new := by
  have hg : g < s.generators.length := (List.getElem?_eq_some_iff.mp hold).1
  exact List.getElem?_set_self hg

theorem Quiet.within {native : List Submission} {n : Nat} (h : Quiet native) :
    Within native n := by
  intro sub hsub
  rw [h sub hsub]
  exact Nat.zero_le n

theorem quiet_of_within_zero {native : List Submission} (h : Within native 0) : Quiet native :=
  fun sub hsub => Nat.le_zero.mp (h sub hsub)

theorem Inv.within_active {s : State} (h : Inv s) {request : FilesRequest}
    (hactive : s.activeRequest = some request) : Within s.native request.numRanges := by
  intro sub hsub
  by_cases howed : 0 < sub.owed
  · obtain ⟨request', hactive', hle⟩ := h.active sub hsub howed
    rw [hactive] at hactive'
    obtain rfl : request = request' := by simpa using hactive'
    exact hle
  · omega

/-- **Only the Python side moves**: the invariant is about who still takes
responses. -/
theorem Inv.move {s : State} (h : Inv s) {generators : List Generator} {control : Control}
    {unserved : Bool}
    (hrunning : ∀ g, control.generator = some g → generators[g]? = some .running)
    (hbound : ∀ left, 0 < left →
      Generator.suspended left ∈ generators ∨ control.left = some left → Within s.native left)
    (hcarried : unserved = true ∨ Quiet s.native ∨
      ∃ left, 0 < left ∧ (Generator.suspended left ∈ generators ∨ control.left = some left)) :
    Inv { s with generators := generators, control := control, unserved := unserved } where
  safe := h.safe
  fresh := h.fresh
  ended := h.ended
  active := h.active
  running := hrunning
  bound := fun left hcarries => hbound left hcarries.1 hcarries.2
  carried := hcarried

/-- An id is minted for nothing. -/
theorem Inv.renumber {s : State} (h : Inv s) {nextId : Nat} (hle : s.nextId ≤ nextId) :
    Inv { s with nextId := nextId } where
  safe := h.safe
  fresh := fun sub hsub => Nat.lt_of_lt_of_le (h.fresh sub hsub) hle
  ended := h.ended
  active := h.active
  running := h.running
  bound := h.bound
  carried := h.carried

/-! ## §2. Responses. -/

theorem mem_answered {native : List Submission} {id : Nat} {sub : Submission}
    (h : sub ∈ answered native id) :
    ∃ old ∈ native, sub.id = old.id ∧ sub.buffer = old.buffer ∧ sub.accepted = old.accepted ∧
      sub.owed = if old.id = id then old.owed - 1 else old.owed := by
  unfold answered at h
  obtain ⟨old, hold, rfl⟩ := List.mem_map.mp h
  refine ⟨old, hold, ?_⟩
  split <;> exact ⟨rfl, rfl, rfl, rfl⟩

theorem answered_within {native : List Submission} {id n : Nat} (h : Within native n) :
    Within (answered native id) n := by
  intro sub hsub
  obtain ⟨old, hold, -, -, -, howed⟩ := mem_answered hsub
  have := h old hold
  rw [howed]
  split <;> omega

/-- The library's answer keeps the invariant. -/
theorem Inv.responded {s : State} (h : Inv s) (r : NativeResponse) (ofRange : Bool) :
    Inv (s.responded r ofRange) := by
  unfold State.responded
  split
  · constructor
    case safe =>
      intro sub hsub howed
      obtain ⟨old, hold, hid, hbuffer, haccepted, hle⟩ := mem_answered hsub
      have hpos : 0 < old.owed := by
        split at hle <;> omega
      obtain ⟨⟨hlast, hnamed⟩, hat⟩ := h.safe old hold hpos
      refine ⟨⟨fun other hother => ?_, ?_⟩, ?_⟩
      · obtain ⟨other', hother', hsame, -⟩ := mem_answered hother
        rw [hsame, hid]
        exact hlast other' hother'
      · rw [haccepted, hid]
        exact hnamed
      · rw [hbuffer]
        exact hat
    case fresh =>
      intro sub hsub
      obtain ⟨old, hold, hid, -⟩ := mem_answered hsub
      rw [hid]
      exact h.fresh old hold
    case ended =>
      intro hended
      show answered s.native r.submissionId = []
      rw [h.ended hended]
      rfl
    case active =>
      intro sub hsub howed
      obtain ⟨old, hold, -, -, -, hle⟩ := mem_answered hsub
      have hpos : 0 < old.owed ∧ sub.owed ≤ old.owed := by
        split at hle <;> omega
      obtain ⟨request, hactive, hnum⟩ := h.active old hold hpos.1
      exact ⟨request, hactive, Nat.le_trans hpos.2 hnum⟩
    case running => exact h.running
    case bound =>
      intro left hcarries
      exact answered_within (h.bound left hcarries)
    case carried =>
      rcases h.carried with hunserved | hquiet | hcarries
      · exact Or.inl hunserved
      · exact Or.inr (Or.inl (quiet_of_within_zero (answered_within hquiet.within)))
      · exact Or.inr (Or.inr hcarries)
  · exact h

/-- **A response taken lowers the bound**: an answer Python makes a tuple of
is a range's, and only the last submission owes any. -/
theorem Inv.responded_within {s : State} (h : Inv s) {r : NativeResponse} {ofRange : Bool}
    (hcan : s.canRespond r ofRange = true) (hfinished : r.code ≠ .finishedError)
    (htimeout : r.code ≠ .timedOut) {left : Nat} (hwithin : Within s.native left) :
    Within (s.responded r ofRange).native (left - 1) := by
  unfold State.canRespond at hcan
  unfold State.responded
  cases hstreamer : s.streamer with
  | false =>
      -- the handle is gone, and with it every submission
      have hnil := h.ended hstreamer
      split
      · show Within (answered s.native r.submissionId) _
        rw [hnil]
        intro sub hsub
        simp [answered] at hsub
      · rw [hnil]
        intro sub hsub
        simp at hsub
  | true =>
      rw [hstreamer, if_pos rfl] at hcan
      cases ofRange with
      | false => simp [hfinished, htimeout] at hcan
      | true =>
          simp only [if_true, List.any_eq_true, decide_eq_true_eq] at hcan
          obtain ⟨current, hcurrent, hid, hpos⟩ := hcan
          intro sub hsub
          obtain ⟨old, hold, -, -, -, howed⟩ := mem_answered hsub
          have hle := hwithin old hold
          rw [howed]
          split
          · omega
          next hother =>
            -- another submission owes nothing
            by_cases hzero : 0 < old.owed
            · have h₁ := (h.safe old hold hzero).1.1 current hcurrent
              have h₂ := (h.safe current hcurrent hpos).1.1 old hold
              exact absurd ((Nat.le_antisymm h₂ h₁).trans hid) hother
            · omega

/-- The body of the loop, on a response. -/
theorem Inv.handle {s : State} (h : Inv s) {g left : Nat} (hcontrol : s.control = .ready g left)
    (hpos : 0 < left) {r : NativeResponse} {ofRange : Bool} (converted : Bool)
    (hcan : s.canRespond r ofRange = true) :
    Inv ((s.responded r ofRange).handle g left r converted) := by
  set t := s.responded r ofRange with ht
  have hinv : Inv t := h.responded r ofRange
  have hcontrolT : t.control = .ready g left := by
    rw [ht]
    unfold State.responded
    split <;> exact hcontrol
  have hg : t.generators[g]? = some .running := hinv.running g (by rw [hcontrolT]; rfl)
  have hleft : Within t.native left :=
    hinv.bound left ⟨hpos, Or.inr (by rw [hcontrolT]; rfl)⟩
  have hothers : ∀ n, 0 < n → Generator.suspended n ∈ t.generators → Within t.native n :=
    fun n hn hmem => hinv.bound n ⟨hn, Or.inl hmem⟩
  -- the drain takes over `n` ranges, a bound of what is owed
  have hdrain : ∀ n returning, Within t.native n →
      Inv { t with control := .draining g n returning } := by
    intro n returning hn
    apply hinv.move
    · intro g' hg'
      obtain rfl : g = g' := by simpa [Control.generator] using hg'
      exact hg
    · intro m hm hcarries
      rcases hcarries with hmem | hcontrol'
      · exact hothers m hm hmem
      · obtain rfl : n = m := by simpa [Control.left] using hcontrol'
        exact hn
    · by_cases hzero : n = 0
      · subst hzero
        exact Or.inr (Or.inl (quiet_of_within_zero hn))
      · exact Or.inr (Or.inr ⟨n, Nat.pos_of_ne_zero hzero, Or.inr rfl⟩)
  unfold State.handle runaiResponse
  by_cases hfinished : r.code = .finishedError
  · rw [if_pos hfinished]
    exact hdrain left true hleft
  · rw [if_neg hfinished]
    by_cases htimeout : r.code = .timedOut
    · rw [if_pos htimeout]
      exact hdrain left false hleft
    · rw [if_neg htimeout]
      have hless : Within t.native (left - 1) :=
        h.responded_within hcan hfinished htimeout
          (h.bound left ⟨hpos, Or.inr (by rw [hcontrol]; rfl)⟩)
      simp only
      split
      · split
        · -- the chunk is yielded
          apply hinv.move
          · intro g' hg'
            simp [Control.generator] at hg'
          · intro m hm hcarries
            rcases hcarries with hmem | hcontrol'
            · rcases (mem_set hg (by simp)).mp hmem with hmem | heq
              · exact hothers m hm hmem
              · obtain rfl : left - 1 = m := by simpa using heq
                exact hless
            · simp [Control.left] at hcontrol'
          · by_cases hzero : left - 1 = 0
            · rw [hzero] at hless
              exact Or.inr (Or.inl (quiet_of_within_zero hless))
            · refine Or.inr (Or.inr ⟨left - 1, Nat.pos_of_ne_zero hzero, Or.inl ?_⟩)
              exact (mem_set hg (by simp)).mpr (Or.inr rfl)
        · exact hdrain (left - 1) false hless
      · exact hdrain (left - 1) false hless

/-- The end of `request_ready_chunks`, with nothing owed. -/
theorem Inv.drained {s : State} (h : Inv s) {g : Nat} (hg : s.generators[g]? = some .running)
    (hcarried : s.unserved = true ∨ Quiet s.native ∨
      ∃ left, 0 < left ∧ Generator.suspended left ∈ s.generators) (returning : Bool) :
    Inv (s.drained g returning) := by
  unfold State.drained
  split
  · apply h.move
    · intro g' hg'
      obtain rfl : g = g' := by simpa [Control.generator] using hg'
      exact hg
    · intro n hn hcarries
      rcases hcarries with hmem | hcontrol
      · exact h.bound n ⟨hn, Or.inl hmem⟩
      · simp [Control.left] at hcontrol
    · rcases hcarried with hunserved | hquiet | ⟨left, hleft, hmem⟩
      · exact Or.inl hunserved
      · exact Or.inr (Or.inl hquiet)
      · exact Or.inr (Or.inr ⟨left, hleft, Or.inl hmem⟩)
  · apply h.move
    · intro g' hg'
      simp [Control.generator] at hg'
    · intro n hn hcarries
      rcases hcarries with hmem | hcontrol
      · rcases (mem_set hg (by simp)).mp hmem with hmem | heq
        · exact h.bound n ⟨hn, Or.inl hmem⟩
        · simp at heq
      · simp [Control.left] at hcontrol
    · rcases hcarried with hunserved | hquiet | ⟨left, hleft, hmem⟩
      · exact Or.inl hunserved
      · exact Or.inr (Or.inl hquiet)
      · exact Or.inr (Or.inr ⟨left, hleft, Or.inl ((mem_set hg (by simp)).mpr (Or.inl hmem))⟩)

/-- A response in the drain; what ends it early leaves nothing owed. -/
theorem Inv.drain {s : State} (h : Inv s) {g remaining : Nat} {returning : Bool}
    (hcontrol : s.control = .draining g remaining returning) (hpos : 0 < remaining)
    {r : NativeResponse} {ofRange : Bool} (hcan : s.canRespond r ofRange = true)
    (hpermitted : r.code = .finishedError ∨ r.code = .timedOut →
      Quiet (s.responded r ofRange).native) :
    Inv ((s.responded r ofRange).drain g remaining returning r) := by
  set t := s.responded r ofRange with ht
  have hinv : Inv t := h.responded r ofRange
  have hg : t.generators[g]? = some .running := by
    have hrunning := h.running g (by rw [hcontrol]; rfl)
    rw [ht]
    unfold State.responded
    split <;> exact hrunning
  unfold State.drain runaiResponse
  by_cases hfinished : r.code = .finishedError
  · rw [if_pos hfinished]
    exact hinv.drained hg (Or.inr (Or.inl (hpermitted (Or.inl hfinished)))) returning
  · rw [if_neg hfinished]
    by_cases htimeout : r.code = .timedOut
    · rw [if_pos htimeout]
      exact hinv.drained hg (Or.inr (Or.inl (hpermitted (Or.inr htimeout)))) false
    · rw [if_neg htimeout]
      have hless : Within t.native (remaining - 1) :=
        h.responded_within hcan hfinished htimeout
          (h.bound remaining ⟨hpos, Or.inr (by rw [hcontrol]; rfl)⟩)
      apply hinv.move
      · intro g' hg'
        obtain rfl : g = g' := by simpa [Control.generator] using hg'
        exact hg
      · intro n hn hcarries
        rcases hcarries with hmem | hcontrol'
        · exact hinv.bound n ⟨hn, Or.inl hmem⟩
        · obtain rfl : remaining - 1 = n := by simpa [Control.left] using hcontrol'
          exact hless
      · by_cases hzero : remaining - 1 = 0
        · rw [hzero] at hless
          exact Or.inr (Or.inl (quiet_of_within_zero hless))
        · exact Or.inr (Or.inr ⟨remaining - 1, Nat.pos_of_ne_zero hzero, Or.inr rfl⟩)

/-! ## §3. Submissions. -/

theorem pack_numRanges (memoryLimit : Nat) (q : List FileChunksIterator) (request : FilesRequest)
    (memorySize : Nat) (h : request.numRanges = request.flatSizes.length) :
    (pack memoryLimit q request memorySize).2.numRanges
      = (pack memoryLimit q request memorySize).2.flatSizes.length := by
  fun_induction pack memoryLimit q request memorySize with
  | case1 => exact h
  | case2 _ _ _ _ _ _ _ _ ih => exact ih h
  | case3 => exact h
  | case4 request memorySize it rest chunks it' hsome ih =>
      apply ih
      show request.numRanges + chunks.sizes.length
        = ((request.files ++ [chunks]).flatMap FileChunks.sizes).length
      rw [List.flatMap_append, List.length_append, h]
      simp [FilesRequest.flatSizes]

/-- A request's `num_ranges` counts the ranges that are submitted. -/
theorem nextRequest_numRanges {it it' : FilesRequestsIteratorWithBuffer} {request : FilesRequest}
    (h : it.nextRequest = (some request, it')) :
    request.numRanges = request.flatSizes.length := by
  have hpack := pack_numRanges it.filesRequestsIterator.memoryLimit it.filesRequestsIterator.q
    FilesRequest.new 0 rfl
  unfold FilesRequestsIteratorWithBuffer.nextRequest FilesRequestsIterator.nextRequest at h
  split at h
  next heq =>
    split at h
    · simp at h
    next request' _ =>
      split at h
      · simp at h
      · split at heq
        · simp at heq
        · simp only [Prod.mk.injEq] at heq h
          obtain ⟨hrequest, -⟩ := heq
          split at hrequest
          · simp at hrequest
          · obtain rfl := Option.some.inj hrequest
            obtain rfl := Option.some.inj h.1
            exact hpack

theorem Settled.waiting {s : State} (h : Settled s) {left : Nat}
    (hmem : Generator.suspended left ∈ s.generators) : left = 0 := by
  have hwaits := h.2 _ hmem
  unfold Generator.waits at hwaits
  have := of_decide_eq_false hwaits
  omega

theorem Inv.quiet_of_settled {s : State} (h : Inv s) (hleft : s.control.left = none)
    (hsettled : Settled s) : Quiet s.native := by
  rcases h.carried with hunserved | hquiet | ⟨left, hpos, hmem | hcontrol⟩
  · rw [hsettled.1] at hunserved
    simp at hunserved
  · exact hquiet
  · have := hsettled.waiting hmem
    omega
  · rw [hleft] at hcontrol
    simp at hcontrol

/-- With nothing owed, the active request and the iterator may change. -/
theorem Inv.replace {s : State} (h : Inv s) (hquiet : Quiet s.native)
    (requestsIterator : Option (Nat × FilesRequestsIteratorWithBuffer))
    (activeRequest : Option FilesRequest) (nextBuffer : Nat) :
    Inv { s with requestsIterator := requestsIterator, activeRequest := activeRequest,
                 nextBuffer := nextBuffer } where
  safe := by
    intro sub hsub howed
    have := hquiet sub hsub
    omega
  fresh := h.fresh
  ended := h.ended
  active := by
    intro sub hsub howed
    have := hquiet sub hsub
    omega
  running := h.running
  bound := h.bound
  carried := Or.inr (Or.inl hquiet)

/-- **A new submission**, with nothing owed before it. -/
theorem Inv.commit {s : State} (h : Inv s) (hquiet : Quiet s.native)
    (hstreamer : s.streamer = true) {buffer : Nat} {it : FilesRequestsIteratorWithBuffer}
    {request : FilesRequest} (hiterator : s.requestsIterator = some (buffer, it))
    (hactive : s.activeRequest = some request)
    (hcount : request.numRanges = request.flatSizes.length)
    (hwaiting : ∀ left, Generator.suspended left ∈ s.generators → left = 0) (accepted : Bool)
    {control : Control} {unserved : Bool}
    (hrunning : control.generator = none ∨ control.generator = s.control.generator)
    (hleft : ∀ left, control.left = some left → left = request.numRanges)
    (hcarried : unserved = true ∨ control.left = some request.numRanges) :
    Inv (s.commit buffer request accepted control unserved) := by
  have hwithin : Within (s.native ++ [⟨s.nextId, buffer, request.flatSizes.length, accepted⟩])
      request.numRanges := by
    intro sub hsub
    rcases List.mem_append.mp hsub with hold | hnew
    · rw [hquiet sub hold]
      exact Nat.zero_le _
    · obtain rfl := List.mem_singleton.mp hnew
      exact Nat.le_of_eq hcount.symm
  have hfresh : ∀ sub ∈ (s.commit buffer request accepted control unserved).native,
      sub.id < s.nextId + 1 := by
    intro sub hsub
    rcases List.mem_append.mp hsub with hold | hnew
    · exact Nat.lt_succ_of_lt (h.fresh sub hold)
    · rw [List.mem_singleton.mp hnew]
      exact Nat.lt_succ_self s.nextId
  constructor
  case safe =>
    intro sub hsub howed
    rcases List.mem_append.mp hsub with hold | hnew
    · have := hquiet sub hold
      omega
    · obtain rfl := List.mem_singleton.mp hnew
      refine ⟨⟨fun other hother => Nat.le_of_lt_succ (hfresh other hother), ?_⟩, ?_⟩
      · intro haccepted
        exact if_pos haccepted
      · show s.requestsIterator.map Prod.fst = some buffer
        rw [hiterator]
        rfl
  case fresh => exact hfresh
  case ended =>
    intro hended
    have hgone : s.streamer = false := hended
    rw [hstreamer] at hgone
    simp at hgone
  case active =>
    intro sub hsub _
    exact ⟨request, hactive, hwithin sub hsub⟩
  case running =>
    intro g hg
    rcases hrunning with hnone | hsame
    · have hsome : control.generator = some g := hg
      rw [hnone] at hsome
      simp at hsome
    · exact h.running g (by rw [← hsame]; exact hg)
  case bound =>
    intro left hcarries
    rcases hcarries.2 with hmem | hcontrol
    · have := hwaiting left hmem
      have := hcarries.1
      omega
    · rw [hleft left hcontrol]
      exact hwithin
  case carried =>
    rcases hcarried with hunserved | hcontrol
    · exact Or.inl hunserved
    · by_cases hzero : request.numRanges = 0
      · rw [hzero] at hwithin
        exact Or.inr (Or.inl (quiet_of_within_zero hwithin))
      · exact Or.inr (Or.inr ⟨_, Nat.pos_of_ne_zero hzero, Or.inr hcontrol⟩)

/-- **A submission whose dispatch fails** is committed too, with no generator
that takes its responses. -/
theorem Inv.dispatchFailed {s : State} (h : Inv s) (hquiet : Quiet s.native)
    (hstreamer : s.streamer = true) {buffer : Nat} {it : FilesRequestsIteratorWithBuffer}
    {request : FilesRequest} (hiterator : s.requestsIterator = some (buffer, it))
    (hactive : s.activeRequest = some request)
    (hcount : request.numRanges = request.flatSizes.length)
    (hwaiting : ∀ left, Generator.suspended left ∈ s.generators → left = 0)
    (hidle : s.control = .idle) :
    Inv (s.commit buffer request false s.control true) := by
  apply h.commit hquiet hstreamer hiterator hactive hcount hwaiting
  · exact Or.inr rfl
  · intro left hleft
    rw [hidle] at hleft
    simp [Control.left] at hleft
  · exact Or.inl rfl

theorem Inv.refused {s : State} (h : Inv s) (minted : Bool) :
    Inv { s with nextId := if minted then s.nextId + 1 else s.nextId } := by
  apply h.renumber
  split
  · exact Nat.le_succ s.nextId
  · exact Nat.le_refl s.nextId

/-! ## §4. Steps. -/

variable {int : String → Except String Int}

theorem streamer_of_accepted {s : State} (h : s.canSubmit .accepted = true) :
    s.streamer = true := by
  simpa [State.canSubmit] using h

theorem streamer_of_dispatchFailed {s : State} (h : s.canSubmit .dispatchFailed = true) :
    s.streamer = true := by
  simpa [State.canSubmit] using h

/-- `stream_files`, where the submission before it is settled. -/
theorem Inv.streamFiles {s : State} (h : Inv s) (hidle : s.control = .idle)
    {env : Option String} {bufferAddress : Nat} {files : List FileChunks} {outcome : Outcome}
    (hcan : s.canSubmit outcome = true)
    (hsettled : (FilesRequestsIteratorWithBuffer.withMemoryMode int env bufferAddress
      files).isOk = true → Settled s) :
    Inv (s.streamFiles int env bufferAddress files outcome) := by
  unfold State.streamFiles
  split
  · exact h
  next it hcap =>
    have hsettled := hsettled (by rw [hcap]; rfl)
    have hquiet := h.quiet_of_settled (by rw [hidle]; rfl) hsettled
    have hreplaced := h.replace hquiet (some (s.nextBuffer, it.nextRequest.2)) it.nextRequest.1
      (s.nextBuffer + 1)
    cases hnext : it.nextRequest with
    | mk request it' =>
        rw [hnext] at hreplaced
        cases request with
        | none => exact hreplaced
        | some request =>
            have hcount := nextRequest_numRanges hnext
            cases outcome with
            | accepted =>
                apply hreplaced.commit hquiet (streamer_of_accepted hcan) rfl rfl hcount
                · exact fun left hmem => hsettled.waiting hmem
                · exact Or.inl rfl
                · intro left hleft
                  simp [Control.left] at hleft
                · exact Or.inl rfl
            | refused minted => exact hreplaced.refused minted
            | dispatchFailed =>
                exact hreplaced.dispatchFailed hquiet (streamer_of_dispatchFailed hcan) rfl rfl
                  hcount (fun left hmem => hsettled.waiting hmem) hidle

/-- `get_chunks` going on, where the submission before is settled. -/
theorem Inv.advance {s : State} (h : Inv s) {g : Nat} (hcontrol : s.control = .advancing g)
    {outcome : Outcome} (hcan : s.canSubmit outcome = true) (hsettled : Settled s) :
    Inv (s.advance g outcome) := by
  have hquiet := h.quiet_of_settled (by rw [hcontrol]; rfl) hsettled
  have hg := h.running g (by rw [hcontrol]; rfl)
  have hfinish : ∀ t : State, Inv t → t.generators = s.generators → Quiet t.native →
      Inv { t.put g .finished with control := .idle } := by
    intro t ht hsame hquiet
    apply ht.move
    · intro g' hg'
      simp [Control.generator] at hg'
    · intro n _ _
      exact hquiet.within
    · exact Or.inr (Or.inl hquiet)
  unfold State.advance
  split
  · exact hfinish s h rfl hquiet
  next buffer it _ =>
    have hreplaced := h.replace hquiet (some (buffer, it.nextRequest.2)) it.nextRequest.1
      s.nextBuffer
    cases hnext : it.nextRequest with
    | mk request it' =>
        rw [hnext] at hreplaced
        cases request with
        | none => exact hfinish _ hreplaced rfl hquiet
        | some request =>
            have hcount := nextRequest_numRanges hnext
            have hfinished := hfinish _ hreplaced rfl hquiet
            cases outcome with
            | accepted =>
                apply hreplaced.commit hquiet (streamer_of_accepted hcan) rfl rfl hcount
                · exact fun left hmem => hsettled.waiting hmem
                · exact Or.inr (by rw [hcontrol]; rfl)
                · intro left hleft
                  simpa [Control.left] using hleft.symm
                · exact Or.inr rfl
            | refused minted => exact hfinished.refused minted
            | dispatchFailed =>
                apply hfinished.dispatchFailed hquiet (streamer_of_dispatchFailed hcan) rfl rfl
                  hcount
                · intro left hmem
                  rcases (mem_set hg (by simp)).mp hmem with hmem | heq
                  · exact hsettled.waiting hmem
                  · simp at heq
                · rfl

/-- A generator that is not running gets another state, which waits for
nothing; the caller goes on. -/
theorem Inv.put_finished {s : State} (h : Inv s) (hidle : s.control = .idle) {g : Nat}
    (hg : s.generators[g]? = some .created) : Inv (s.put g .finished) := by
  apply h.move
  · intro g' hg'
    rw [hidle] at hg'
    simp [Control.generator] at hg'
  · intro n hn hcarries
    rcases hcarries with hmem | hcontrol
    · rcases (mem_set hg (by simp)).mp hmem with hmem | heq
      · exact h.bound n ⟨hn, Or.inl hmem⟩
      · simp at heq
    · exact h.bound n ⟨hn, Or.inr hcontrol⟩
  · rcases h.carried with hunserved | hquiet | ⟨left, hleft, hmem⟩
    · exact Or.inl hunserved
    · exact Or.inr (Or.inl hquiet)
    · refine Or.inr (Or.inr ⟨left, hleft, ?_⟩)
      rcases hmem with hmem | hcontrol
      · exact Or.inl ((mem_set hg (by simp)).mpr (Or.inl hmem))
      · exact Or.inr hcontrol

/-- A generator at its `yield` is resumed, to go on or to be closed. -/
theorem Inv.resumed {s : State} (h : Inv s) {g left : Nat}
    (hg : s.generators[g]? = some (.suspended left)) (hidle : s.control.left = none)
    {control : Control} (hgenerator : control.generator = some g)
    (hleft : control.left = some left) : Inv { s.put g .running with control := control } := by
  apply h.move
  · intro g' hg'
    rw [hgenerator] at hg'
    obtain rfl : g = g' := Option.some.inj hg'
    exact getElem?_put hg
  · intro n hn hcarries
    rcases hcarries with hmem | hcontrol
    · rcases List.mem_or_eq_of_mem_set hmem with hmem | heq
      · exact h.bound n ⟨hn, Or.inl hmem⟩
      · simp at heq
    · rw [hleft] at hcontrol
      obtain rfl : left = n := Option.some.inj hcontrol
      exact h.bound left ⟨hn, Or.inl (List.mem_of_getElem? hg)⟩
  · rcases h.carried with hunserved | hquiet | ⟨n, hn, hmem | hcontrol⟩
    · exact Or.inl hunserved
    · exact Or.inr (Or.inl hquiet)
    · refine Or.inr (Or.inr ⟨n, hn, ?_⟩)
      by_cases hsame : left = n
      · subst hsame
        exact Or.inr hleft
      · refine Or.inl ((mem_set hg ?_).mpr (Or.inl hmem))
        intro heq
        exact hsame (by simpa using heq)
    · rw [hidle] at hcontrol
      simp at hcontrol

/-- A generator is started on the active request. -/
theorem Inv.started {s : State} (h : Inv s) {g : Nat} {request : FilesRequest}
    (hg : s.generators[g]? = some .created) (hactive : s.activeRequest = some request) :
    Inv { s.put g .running with control := .ready g request.numRanges, unserved := false } := by
  have hwithin := h.within_active hactive
  apply h.move
  · intro g' hg'
    obtain rfl : g = g' := by simpa [Control.generator] using hg'
    exact getElem?_put hg
  · intro n hn hcarries
    rcases hcarries with hmem | hcontrol
    · rcases List.mem_or_eq_of_mem_set hmem with hmem | heq
      · exact h.bound n ⟨hn, Or.inl hmem⟩
      · simp at heq
    · obtain rfl : request.numRanges = n := by simpa [Control.left] using hcontrol
      exact hwithin
  · by_cases hzero : request.numRanges = 0
    · rw [hzero] at hwithin
      exact Or.inr (Or.inl (quiet_of_within_zero hwithin))
    · exact Or.inr (Or.inr ⟨_, Nat.pos_of_ne_zero hzero, Or.inr rfl⟩)

/-- A generator is made; it has not been started. -/
theorem Inv.created {s : State} (h : Inv s) (hidle : s.control = .idle) :
    Inv { s with generators := s.generators ++ [.created] } := by
  apply h.move
  · intro g hg
    rw [hidle] at hg
    simp [Control.generator] at hg
  · intro n hn hcarries
    apply h.bound n ⟨hn, ?_⟩
    rcases hcarries with hmem | hcontrol
    · exact Or.inl (by simpa using hmem)
    · exact Or.inr hcontrol
  · rcases h.carried with hunserved | hquiet | ⟨left, hleft, hmem | hcontrol⟩
    · exact Or.inl hunserved
    · exact Or.inr (Or.inl hquiet)
    · exact Or.inr (Or.inr ⟨left, hleft, Or.inl (List.mem_append_left _ hmem)⟩)
    · exact Or.inr (Or.inr ⟨left, hleft, Or.inr hcontrol⟩)

/-- After `__exit__` nothing is owed. -/
theorem Inv.exited {s : State} (h : Inv s) : Inv { s with streamer := false, native := [] } where
  safe := fun sub hsub => absurd hsub (by simp)
  fresh := fun sub hsub => absurd hsub (by simp)
  ended := fun _ => rfl
  active := fun sub hsub => absurd hsub (by simp)
  running := h.running
  bound := fun _ _ sub hsub => absurd hsub (by simp)
  carried := Or.inr (Or.inl (fun sub hsub => absurd hsub (by simp)))

/-- Where the running generator waits for nothing more, another one carries
what is owed, if anything is. -/
theorem Inv.nothing_left {s : State} (h : Inv s) (hleft : s.control.left = some 0) :
    s.unserved = true ∨ Quiet s.native ∨
      ∃ left, 0 < left ∧ Generator.suspended left ∈ s.generators := by
  rcases h.carried with hunserved | hquiet | ⟨left, hpos, hmem | hcontrol⟩
  · exact Or.inl hunserved
  · exact Or.inr (Or.inl hquiet)
  · exact Or.inr (Or.inr ⟨left, hpos, hmem⟩)
  · rw [hleft] at hcontrol
    obtain rfl : 0 = left := Option.some.inj hcontrol
    omega

/-- The loop of `request_ready_chunks` has come to its end. -/
theorem Inv.readyEnded {s : State} (h : Inv s) {g : Nat} (hcontrol : s.control = .ready g 0) :
    Inv { s with control := .draining g 0 true } := by
  apply h.move
  · intro g' hg'
    obtain rfl : g = g' := by simpa [Control.generator] using hg'
    exact h.running g (by rw [hcontrol]; rfl)
  · intro n hn hcarries
    rcases hcarries with hmem | hcontrol'
    · exact h.bound n ⟨hn, Or.inl hmem⟩
    · obtain rfl : 0 = n := by simpa [Control.left] using hcontrol'
      omega
  · rcases h.nothing_left (by rw [hcontrol]; rfl) with hunserved | hquiet | ⟨left, hleft, hmem⟩
    · exact Or.inl hunserved
    · exact Or.inr (Or.inl hquiet)
    · exact Or.inr (Or.inr ⟨left, hleft, Or.inl hmem⟩)

/-- **One permitted step** keeps the invariant. -/
theorem Inv.step {s t : State} {a : Action} (h : Inv s) (hpermitted : Permitted int s a)
    (hstep : step int s a = some t) : Inv t := by
  cases a with
  | streamFiles env bufferAddress files outcome =>
      rw [Lifetime.step] at hstep
      split at hstep
      next hguard =>
        split at hstep
        next hhomogeneous =>
          obtain rfl := Option.some.inj hstep
          exact h.streamFiles hguard.1 hguard.2 (hpermitted hhomogeneous)
        · obtain rfl := Option.some.inj hstep
          exact h
      · simp at hstep
  | getChunks =>
      rw [Lifetime.step] at hstep
      split at hstep
      next hidle =>
        obtain rfl := Option.some.inj hstep
        exact h.created hidle
      · simp at hstep
  | next g =>
      rw [Lifetime.step] at hstep
      split at hstep
      next hidle =>
        split at hstep
        · simp at hstep
        next hg =>
          split at hstep
          next hstreamer hactive =>
            obtain rfl := Option.some.inj hstep
            exact h.started hg hactive
          · obtain rfl := Option.some.inj hstep
            exact h.put_finished hidle hg
        next hg =>
          obtain rfl := Option.some.inj hstep
          exact h.resumed hg (by rw [hidle]; rfl) rfl rfl
        · simp at hstep
        · obtain rfl := Option.some.inj hstep
          exact h
      · simp at hstep
  | close g =>
      rw [Lifetime.step] at hstep
      split at hstep
      next hidle =>
        split at hstep
        · simp at hstep
        next hg =>
          obtain rfl := Option.some.inj hstep
          exact h.put_finished hidle hg
        next hg =>
          obtain rfl := Option.some.inj hstep
          exact h.resumed hg (by rw [hidle]; rfl) rfl rfl
        · simp at hstep
        · obtain rfl := Option.some.inj hstep
          exact h
      · simp at hstep
  | exit =>
      rw [Lifetime.step] at hstep
      split at hstep
      next hidle =>
        obtain rfl := Option.some.inj hstep
        exact h.exited
      · simp at hstep
  | respond r ofRange converted =>
      rw [Lifetime.step] at hstep
      split at hstep
      next hcan =>
        split at hstep
        next g left hcontrol =>
          obtain rfl := Option.some.inj hstep
          exact h.handle hcontrol (Nat.succ_pos left) converted hcan
        next g remaining returning hcontrol =>
          split at hstep
          · obtain rfl := Option.some.inj hstep
            exact h.drain hcontrol (Nat.succ_pos remaining) hcan
              (hpermitted (by rw [hcontrol]; rfl))
          · simp at hstep
        · simp at hstep
      · simp at hstep
  | run outcome =>
      rw [Lifetime.step] at hstep
      split at hstep
      next g hcontrol =>
        obtain rfl := Option.some.inj hstep
        exact h.readyEnded hcontrol
      next g remaining returning hcontrol =>
        split at hstep
        next hend =>
          obtain rfl := Option.some.inj hstep
          apply h.drained (h.running g (by rw [hcontrol]; rfl))
          rcases hend with rfl | hended
          · exact h.nothing_left (by rw [hcontrol]; rfl)
          · rw [h.ended hended]
            exact Or.inr (Or.inl (fun sub hsub => absurd hsub (by simp)))
        · simp at hstep
      next g hcontrol =>
        split at hstep
        next hcan =>
          obtain rfl := Option.some.inj hstep
          exact h.advance hcontrol hcan (hpermitted (by rw [hcontrol]; rfl))
        · simp at hstep
      · simp at hstep

theorem entered_inv : Inv State.entered where
  safe := fun sub hsub => absurd hsub (by simp [State.entered])
  fresh := fun sub hsub => absurd hsub (by simp [State.entered])
  ended := fun _ => rfl
  active := fun sub hsub => absurd hsub (by simp [State.entered])
  running := fun g hg => by simp [State.entered, Control.generator] at hg
  bound := fun _ _ sub hsub => absurd hsub (by simp [State.entered])
  carried := Or.inr (Or.inl (fun sub hsub => absurd hsub (by simp [State.entered])))

theorem reachable_inv {s : State}
    (h : ((streamer int).restrict (Permitted int)).Reachable s) : Inv s :=
  System.Reachable.invariant (fun _ hinit => hinit ▸ entered_inv)
    (fun _ _ _ _ hinv hstep => hinv.step hstep.1 hstep.2) s h

/-! ## §5. Whole runs. -/

theorem responded_requestsIterator (s : State) (r : NativeResponse) (ofRange : Bool) :
    (s.responded r ofRange).requestsIterator = s.requestsIterator := by
  unfold State.responded
  split <;> rfl

theorem handle_requestsIterator (s : State) (g left : Nat) (r : NativeResponse)
    (converted : Bool) : (s.handle g left r converted).requestsIterator = s.requestsIterator := by
  unfold State.handle
  repeat' split
  all_goals rfl

theorem drained_requestsIterator (s : State) (g : Nat) (returning : Bool) :
    (s.drained g returning).requestsIterator = s.requestsIterator := by
  unfold State.drained
  split <;> rfl

theorem drain_requestsIterator (s : State) (g remaining : Nat) (returning : Bool)
    (r : NativeResponse) :
    (s.drain g remaining returning r).requestsIterator = s.requestsIterator := by
  unfold State.drain
  split
  · exact drained_requestsIterator s g false
  · exact drained_requestsIterator s g returning
  · rfl

/-- `next_request` keeps the buffer. -/
theorem advance_buffer (s : State) (g : Nat) (outcome : Outcome) :
    (s.advance g outcome).requestsIterator.map Prod.fst = s.requestsIterator.map Prod.fst := by
  unfold State.advance
  split
  · rfl
  next buffer it hiterator =>
    rw [hiterator]
    simp only
    split
    · rfl
    · cases outcome <;> rfl

/-- **Only `stream_files` replaces the buffer.** -/
theorem step_buffer {s t : State} {a : Action} (hstep : step int s a = some t) :
    (∃ env bufferAddress files outcome, a = .streamFiles env bufferAddress files outcome) ∨
    t.requestsIterator.map Prod.fst = s.requestsIterator.map Prod.fst := by
  cases a with
  | streamFiles env bufferAddress files outcome =>
      exact Or.inl ⟨env, bufferAddress, files, outcome, rfl⟩
  | getChunks =>
      right
      rw [step] at hstep
      split at hstep
      · obtain rfl := Option.some.inj hstep
        rfl
      · simp at hstep
  | next g =>
      right
      rw [step] at hstep
      repeat' split at hstep
      all_goals first
        | (obtain rfl := Option.some.inj hstep; rfl)
        | simp at hstep
  | close g =>
      right
      rw [step] at hstep
      repeat' split at hstep
      all_goals first
        | (obtain rfl := Option.some.inj hstep; rfl)
        | simp at hstep
  | exit =>
      right
      rw [step] at hstep
      split at hstep
      · obtain rfl := Option.some.inj hstep
        rfl
      · simp at hstep
  | respond r ofRange converted =>
      right
      rw [step] at hstep
      split at hstep
      · split at hstep
        · obtain rfl := Option.some.inj hstep
          rw [handle_requestsIterator, responded_requestsIterator]
        · split at hstep
          · obtain rfl := Option.some.inj hstep
            rw [drain_requestsIterator, responded_requestsIterator]
          · simp at hstep
        · simp at hstep
      · simp at hstep
  | run outcome =>
      right
      rw [step] at hstep
      split at hstep
      · obtain rfl := Option.some.inj hstep
        rfl
      · split at hstep
        · obtain rfl := Option.some.inj hstep
          rw [drained_requestsIterator]
        · simp at hstep
      · split at hstep
        · obtain rfl := Option.some.inj hstep
          exact advance_buffer s _ outcome
        · simp at hstep
      · simp at hstep

/-- **The buffer outlives its submission**: in every run of permitted steps
only the last submission owes responses, and it writes into the buffer at
hand, also where its dispatch has failed; a step that replaces the buffer
finds nothing owed, and a result of a range is one of the last submission. -/
theorem buffer_outlives_submission (int : String → Except String Int) {s : State}
    (h : ((streamer int).restrict (Permitted int)).Reachable s) :
    Safe s ∧ ∀ a t, Permitted int s a → step int s a = some t →
      (t.requestsIterator.map Prod.fst ≠ s.requestsIterator.map Prod.fst → Quiet s.native) ∧
      ∀ r converted, a = .respond r true converted →
        ∃ sub ∈ s.native, sub.id = r.submissionId ∧ Latest s sub := by
  have hinv := reachable_inv h
  refine ⟨hinv.safe, fun a t hpermitted hstep => ⟨fun hchanged => ?_, fun r converted ha => ?_⟩⟩
  · rcases step_buffer hstep with ⟨env, bufferAddress, files, outcome, rfl⟩ | hsame
    · rw [step] at hstep
      split at hstep
      next hguard =>
        split at hstep
        next hhomogeneous =>
          obtain rfl := Option.some.inj hstep
          cases hcap : FilesRequestsIteratorWithBuffer.withMemoryMode int env bufferAddress
            files with
          | error e =>
              -- the memory limit was refused: nothing is replaced
              rw [State.streamFiles, hcap] at hchanged
              exact absurd rfl hchanged
          | ok it =>
              apply hinv.quiet_of_settled (by rw [hguard.1]; rfl)
              exact hpermitted hhomogeneous (by rw [hcap]; rfl)
        · obtain rfl := Option.some.inj hstep
          exact absurd rfl hchanged
      · simp at hstep
    · exact absurd hsame hchanged
  · subst ha
    rw [step] at hstep
    split at hstep
    next hcan =>
      unfold State.canRespond at hcan
      split at hcan
      · simp only [if_true, List.any_eq_true, decide_eq_true_eq] at hcan
        obtain ⟨sub, hsub, hid, howed⟩ := hcan
        exact ⟨sub, hsub, hid, (hinv.safe sub hsub howed).1⟩
      · simp at hcan
    · simp at hstep

/-- `stream_files` for `twoFiles`, under a limit of three bytes. -/
def streamTwoFiles : Action := .streamFiles (some "3") 100 twoFiles .accepted

/-- The answer for range 0 of file `file` of submission `id`. -/
def answerTo (id file : Nat) : Action := .respond ⟨.success, id, file, 0, fun _ => 7⟩ true true

/-- Two files streamed in vain, the dispatch having failed: a generator drains
them.  Then streamed again, the first chunk taken, the generator closed and
another stream begun. -/
def closedEarly : List Action :=
  [.streamFiles (some "3") 100 twoFiles .dispatchFailed, .getChunks, .next 0, answerTo 1 1,
    answerTo 1 0, .run .accepted, streamTwoFiles, .getChunks, .next 1, answerTo 2 1, .close 1,
    answerTo 2 0, .run .accepted, streamTwoFiles]

/-- What `buffer_outlives_submission` says of the state a run ends in. -/
theorem buffer_outlives_closed_early :
    ∃ s, System.follow (step (fun _ => .ok 3)) (Permitted (fun _ => .ok 3)) State.entered
        closedEarly = some s ∧
      s.native.map Submission.owed = [0, 0, 2] ∧ Safe s := by
  have hsome : (System.follow (step (fun _ => .ok 3)) (Permitted (fun _ => .ok 3)) State.entered
      closedEarly).isSome = true := by decide +kernel
  obtain ⟨s, hs⟩ := Option.isSome_iff_exists.mp hsome
  have howed : (System.follow (step (fun _ => .ok 3)) (Permitted (fun _ => .ok 3)) State.entered
      closedEarly).map (fun s => s.native.map Submission.owed) = some [0, 0, 2] := by decide +kernel
  rw [hs] at howed
  refine ⟨s, hs, Option.some.inj howed, ?_⟩
  have hstart : ((streamer (fun _ => .ok 3)).restrict (Permitted (fun _ => .ok 3))).Reachable
      State.entered := .init rfl
  exact (buffer_outlives_submission (fun _ => .ok 3)
    (System.Reachable.follow (fun _ _ _ h => h) hstart hs)).1

/-- **An abandoned submission**: `stream_files` called twice, with no
generator in between.  The first submission owes both its ranges and writes
into a buffer that is gone. -/
theorem abandoned_submission :
    ∃ s, (streamer (fun _ => .ok 3)).Reachable s ∧
      s.native = [⟨1, 0, 2, true⟩, ⟨2, 1, 2, true⟩] ∧
      s.requestsIterator.map Prod.fst = some 1 ∧ ¬ Safe s := by
  set ends := System.follow (step (fun _ => .ok 3)) (fun _ _ => True) State.entered
    [streamTwoFiles, streamTwoFiles] with hends
  have hsome : ends.isSome = true := by decide +kernel
  obtain ⟨s, hs⟩ := Option.isSome_iff_exists.mp hsome
  have hstate : ends.map (fun s => (s.native, s.requestsIterator.map Prod.fst))
      = some ([⟨1, 0, 2, true⟩, ⟨2, 1, 2, true⟩], some 1) := by decide +kernel
  rw [hs] at hstate
  obtain ⟨hnative, hbuffer⟩ := Prod.mk.injEq .. ▸ Option.some.inj hstate
  refine ⟨s, ?_, hnative, hbuffer, fun hsafe => ?_⟩
  · have hstart : ((streamer (fun _ => .ok 3)).restrict (fun _ _ => True)).Reachable
        State.entered := .init rfl
    exact (System.Reachable.follow (fun _ _ _ h => h) hstart (hends ▸ hs)).of_restrict
  · have hfirst := (hsafe ⟨1, 0, 2, true⟩ (by rw [hnative]; simp) (by decide)).2
    rw [hbuffer] at hfirst
    simp at hfirst

end ModelStreamer.FileStreamer.Lifetime
