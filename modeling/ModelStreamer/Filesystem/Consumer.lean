/-
  ModelStreamer.Filesystem.Consumer
  ─────────────────────────────────
  **A PYTHON CONSUMER OVER THE THREADS**: what `FileStreamer` yields, when
  the native library is the machine of this directory.

  `FileStreamer.Stream` takes the library for a list of responses that keeps
  a contract.  Here the responses are those a run of the machine gives, each
  with the memory at that moment, and the requests are submitted one after
  the other into one buffer.

    • `Consumer` — the machine, and what the calls returned,
    • `Serving` — the invariant; every run is one of a careful caller, as a
      request waits until the one before it is complete,
    • `serving_contract` — the machine keeps the contract,
    • `streamed_bytes` — so the chunks yielded are the files' bytes.
-/
import ModelStreamer.Filesystem.Bytes
import ModelStreamer.FileStreamer.Slots
import ModelStreamer.FileStreamer.Stream
import ModelStreamer.Planning.Refused

namespace ModelStreamer.Filesystem

open ModelStreamer.Lib ModelStreamer.Planning ModelStreamer.Delivery ModelStreamer.FileStreamer

/-! ## §1. The consumer. -/

/-- The machine, and what `runai_request` and `runai_response` returned. -/
structure Consumer (n : Nat) where
  machine : Machine n
  ids : List Nat
  script : List NativeResponse

/-- A response as it reaches Python. -/
def returned (r : Response) (memory : Nat → UInt8) : NativeResponse :=
  ⟨r.ret, r.submissionId, r.fileIndex, r.index, memory⟩

/-- The requests and the iterator each leaves, as `Requests` lists them. -/
abbrev ServedRequests := List (FilesRequest × FilesRequestsIteratorWithBuffer)

/-- Every request submitted so far has as many successes as ranges: the loop
of `request_ready_chunks` has come to its end. -/
def Consumer.Complete {n : Nat} (served : ServedRequests) (s : Consumer n) : Prop :=
  ∀ (i id : Nat) entry, s.ids[i]? = some id → served[i]? = some entry →
    entry.1.numRanges ≤ s.script.countP (succeeds id)

/-- A move of the library on its own. -/
def Move.Inner {n : Nat} : Move n → Prop
  | .core (.submit _) | .core .pop | .core (.bare _) => False
  | _ => True

/-- The steps of the library and its consumer. -/
inductive ConsumerStep {n : Nat} (config : Config) (files : String → List UInt8)
    (served : ServedRequests) : Consumer n → Move n → Consumer n → Prop
  | inner {s : Consumer n} (m : Move n) (t : Machine n) (hstep : Step config files s.machine m t)
      (hinner : m.Inner) : ConsumerStep config files served s m { s with machine := t }
  /-- `submit_active_request`, when the request before it is done with. -/
  | request {s : Consumer n} (sub : Submission) (t : Machine n) entry
      (hstep : Step config files s.machine (.core (.submit sub)) t)
      (hentry : served[s.ids.length]? = some entry)
      (hnative : nativeRequest entry.1 = .ok sub.request) (hcomplete : s.Complete served) :
      ConsumerStep config files served s (.core (.submit sub))
        { s with machine := t, ids := s.ids ++ [sub.id] }
  /-- `runai_response`. -/
  | response {s : Consumer n} (p : Popped) (t : Machine n)
      (hstep : Step config files s.machine (.core .pop) t)
      (hpopped : t.core.popped = s.machine.core.popped ++ [p]) :
      ConsumerStep config files served s (.core .pop)
        { s with machine := t, script := s.script ++ [returned p.response t.memory] }
  /-- The same, where the accounting threw: a code, and nothing written. -/
  | failed {s : Consumer n} (code : ResponseCode) (t : Machine n)
      (hstep : Step config files s.machine (.core .pop) t)
      (hpopped : t.core.popped = s.machine.core.popped) (hcode : code ≠ .success) :
      ConsumerStep config files served s (.core .pop)
        { s with machine := t, script := s.script ++ [⟨code, 0, 0, 0, t.memory⟩] }
  /-- The same, where there is no range: teardown or timeout. -/
  | bare {s : Consumer n} (code : ResponseCode) (t : Machine n)
      (hstep : Step config files s.machine (.core (.bare code)) t) :
      ConsumerStep config files served s (.core (.bare code))
        { s with machine := t, script := s.script ++ [returned (.ofCode code) t.memory] }

/-- Nothing submitted, nothing returned. -/
structure ConsumerInit {n : Nat} (s : Consumer n) : Prop where
  machine : Init s.machine
  ids_eq : s.ids = []
  script_eq : s.script = []

/-- The library and its consumer, for these requests. -/
def consumer (n : Nat) (config : Config) (files : String → List UInt8) (served : ServedRequests) :
    System (Consumer n) (Move n) := ⟨ConsumerInit, ConsumerStep config files served⟩

/-! ## §2. The bytes of a request. -/

/-- The range a response answers for. -/
def rangeOf (r : NativeResponse) : RangeId := ⟨r.submissionId, r.fileIndex, r.rangeIndex⟩

section Placed

variable {address : Nat} {request : FilesRequest} {sub : Submission}

/-- A byte of a submission is one of a slot. -/
theorem byte_slot (hbuilt : Built address request) (hnative : nativeRequest request = .ok sub.request)
    (hmemory : address + totalSize request.files ≤ 2 ^ 64) {k : RangeId} {a pos : Nat}
    {path : String} (h : sub.Byte k a path pos) :
    ∃ offset size dst, Slot address request.files k.fileIndex k.index path offset size dst ∧
      dst ≤ a ∧ a < dst + size := by
  cases h with
  | @mk f j x file range hfile hrange hx =>
      have hslot := slot_of_native hbuilt hnative hfile hrange
      obtain ⟨-, hin⟩ := hslot.inside
      refine ⟨_, _, _, hslot, ?_⟩
      rw [wrap_of_lt (by omega)]
      exact ⟨Nat.le_add_right _ _, Nat.add_lt_add_left hx _⟩

/-- **The ranges of one request lie apart.** -/
theorem bytes_apart (hbuilt : Built address request)
    (hnative : nativeRequest request = .ok sub.request)
    (hmemory : address + totalSize request.files ≤ 2 ^ 64) {k k' : RangeId} {a pos pos' : Nat}
    {path path' : String} (h : sub.Byte k a path pos) (h' : sub.Byte k' a path' pos') :
    k = k' := by
  obtain ⟨_, _, _, hslot, ha⟩ := byte_slot hbuilt hnative hmemory h
  obtain ⟨_, _, _, hslot', ha'⟩ := byte_slot hbuilt hnative hmemory h'
  obtain ⟨hfile, hindex⟩ := hslot.apart hslot' ha ha'
  obtain ⟨submission, fileIndex, index⟩ := k
  obtain ⟨submission', fileIndex', index'⟩ := k'
  rw [RangeId.mk.injEq]
  exact ⟨h.submission_eq.trans h'.submission_eq.symm, hfile, hindex⟩

/-- A range of a request has the bytes its slot says. -/
theorem slot_byte (hbuilt : Built address request) (hnative : nativeRequest request = .ok sub.request)
    (hmemory : address + totalSize request.files ≤ 2 ^ 64) {f j offset size dst x : Nat}
    {path : String} (h : Slot address request.files f j path offset size dst) (hx : x < size) :
    sub.Byte ⟨sub.id, f, j⟩ (dst + x) path (offset + x) := by
  obtain ⟨file, range, hfile, rfl, hrange, rfl, rfl, rfl⟩ := native_of_slot hbuilt hnative h
  obtain ⟨-, hin⟩ := h.inside
  have hbyte : sub.Byte _ _ _ _ := .mk hfile hrange hx
  rwa [wrap_of_lt (by omega)] at hbyte

/-- As many ranges as `num_ranges` says. -/
theorem native_totalRanges (hbuilt : Built address request)
    (hnative : nativeRequest request = .ok sub.request) :
    totalRanges sub.request = request.numRanges := by
  have hcount : ∀ (cursor : Nat) (files : List FileChunks),
      totalRanges (nativeFiles cursor files)
        = (files.map (fun file => file.sizes.length)).sum := by
    intro cursor files
    induction files generalizing cursor with
    | nil => rfl
    | cons file files ih =>
        have hrest := ih (cursor + file.totalSize)
        unfold totalRanges at hrest ⊢
        unfold nativeFiles
        rw [List.map_cons, List.sum_cons, hrest, List.map_cons, List.sum_cons]
        simp [running_length]
  rw [(nativeRequest_eq hbuilt.dsts hnative).1, hcount, hbuilt.count]

end Placed

/-! ## §3. What steps keep. -/

theorem inner_keeps {n : Nat} {config : Config} {files : String → List UInt8} {s t : Machine n}
    {m : Move n} (h : Step config files s m t) (hinner : m.Inner) :
    t.core.committed = s.core.committed ∧ t.core.popped = s.core.popped := by
  cases h with
  | core a t hstep htake hstore =>
      cases hstep with
      | submit => exact hinner.elim
      | pop => exact hinner.elim
      | popFailed => exact hinner.elim
      | bare => exact hinner.elim
      | _ => exact ⟨rfl, rfl⟩
  | _ => exact ⟨rfl, rfl⟩

theorem pop_keeps {n : Nat} {config : Config} {files : String → List UInt8} {s t : Machine n}
    (h : Step config files s (.core .pop) t) : t.core.committed = s.core.committed := by
  cases h with
  | core a t hstep htake hstore =>
      cases hstep with
      | _ => rfl

theorem bare_keeps {n : Nat} {config : Config} {files : String → List UInt8} {s t : Machine n}
    {code : ResponseCode} (h : Step config files s (.core (.bare code)) t) :
    t.core.committed = s.core.committed ∧ t.core.popped = s.core.popped ∧ code ≠ .success := by
  cases h with
  | core a t hstep htake hstore =>
      cases hstep with
      | bare code done mgr hcode haccount =>
          refine ⟨rfl, rfl, ?_⟩
          rcases hcode with ⟨rfl, -⟩ | ⟨rfl, -⟩ <;> decide

theorem submit_keeps {n : Nat} {config : Config} {files : String → List UInt8} {s t : Machine n}
    {sub : Submission} (h : Step config files s (.core (.submit sub)) t) :
    t.core.committed = s.core.committed ++ [sub] ∧ t.core.popped = s.core.popped := by
  cases h with
  | core a t hstep htake hstore =>
      cases hstep with
      | submit => exact ⟨rfl, rfl⟩

/-! ## §4. The invariant. -/

/-- The ranges popped with Success. -/
def succeeded {n : Nat} (s : State n) : List RangeId :=
  (s.popped.filter (fun p => decide (p.response.ret = .success))).map (fun p => p.response.range)

/-- What the files hold; behind the end of a file, anything. -/
def contentOf (files : String → List UInt8) (beyond : UInt8) (path : String) (pos : Nat) : UInt8 :=
  ((files path)[pos]?).getD beyond

/-- **The invariant**: the caller is careful, the submissions are the
requests so far, all but the last of them have been answered, and what was
returned with Success was delivered. -/
structure Serving {n : Nat} (config : Config) (files : String → List UInt8) (beyond : UInt8)
    (served : ServedRequests) (s : Consumer n) : Prop where
  careful : (carefulMachine n config files).Reachable s.machine
  ids_eq : s.ids = s.machine.core.committed.map Submission.id
  sent : ∀ (i : Nat) (sub : Submission), s.machine.core.committed[i]? = some sub →
    ∃ entry, served[i]? = some entry ∧ nativeRequest entry.1 = .ok sub.request
  taken : (s.script.filter (fun r => decide (r.code = .success))).map rangeOf
    = succeeded s.machine.core
  settled : ∀ front sub back, s.machine.core.committed = front ++ sub :: back → back ≠ [] →
    ∀ k ∈ sub.ranges, ∃ p ∈ s.machine.core.popped, p.response.range = k
  delivered : ∀ r ∈ s.script, r.code = .success → ∀ (i : Nat) (sub : Submission) entry,
    s.machine.core.committed[i]? = some sub → sub.id = r.submissionId →
      served[i]? = some entry → Delivered (contentOf files beyond) entry.1 r

section Invariant

variable {n : Nat} {config : Config} {files : String → List UInt8} {beyond : UInt8}
  {served : ServedRequests} {s t : Consumer n} {address : Nat}

theorem Serving.inv (h : Serving config files beyond served s) : Inv s.machine.core :=
  reachable_inv _ (Reachable.core (System.Reachable.of_restrict h.careful))

theorem careful_reaches {m u : Machine n} {a : Move n}
    (h : (carefulMachine n config files).Reachable m) (hstep : Step config files m a u)
    (hcareful : Careful m a) : (carefulMachine n config files).Reachable u :=
  h.step (a := a) ⟨hcareful, hstep⟩

/-- No range is popped twice. -/
theorem popped_nodup {m : Machine n} (h : (carefulMachine n config files).Reachable m) :
    (m.core.popped.map (fun p => p.response.range)).Nodup := by
  obtain ⟨hinv, hflow, -⟩ := reachable_registry _ (Reachable.core (System.Reachable.of_restrict h))
  have hsub := (List.sublist_append_left _ _).trans hflow
  have hnodup := (pushed_nodup hinv).sublist (hsub.map Response.range)
  rwa [List.map_map] at hnodup

/-- What was popped is a range of a submission. -/
theorem popped_known {m : Machine n} (h : (carefulMachine n config files).Reachable m) {p : Popped}
    (hp : p ∈ m.core.popped) :
    ∃ sub ∈ m.core.committed, p.response.range ∈ sub.ranges ∧
      p.response.submissionId = sub.id := by
  have hinv := reachable_inv _ (Reachable.core (System.Reachable.of_restrict h))
  exact known_submission (hinv.final.pushed _ (popped_pushed h hp)).known

theorem succeeded_nodup {m : Machine n} (h : (carefulMachine n config files).Reachable m) :
    (succeeded m.core).Nodup :=
  (popped_nodup h).sublist (List.filter_sublist.map _)

/-- The successes of a submission, among the ranges popped. -/
theorem Serving.count (h : Serving config files beyond served s) (id : Nat) :
    s.script.countP (succeeds id)
      = (succeeded s.machine.core).countP (fun k => decide (k.submission = id)) := by
  rw [← h.taken, List.countP_map, List.countP_filter]
  apply List.countP_congr
  intro r _
  show decide (r.code = .success ∧ r.submissionId = id) = true
    ↔ (decide (r.submissionId = id) && decide (r.code = .success)) = true
  rw [decide_eq_true_eq, Bool.and_eq_true, decide_eq_true_eq, decide_eq_true_eq]
  exact and_comm

/-- **A complete request has been answered in full**: its successes are
distinct ranges of it, and as many as there are. -/
theorem Serving.complete (h : Serving config files beyond served s)
    (hbuilt : ∀ entry ∈ served, Built address entry.1) (hcomplete : s.Complete served)
    {sub : Submission} (hsub : sub ∈ s.machine.core.committed) {k : RangeId} (hk : k ∈ sub.ranges) :
    ∃ p ∈ s.machine.core.popped, p.response.range = k := by
  obtain ⟨i, hi⟩ := List.getElem?_of_mem hsub
  obtain ⟨entry, hentry, hnative⟩ := h.sent i sub hi
  have hid : s.ids[i]? = some sub.id := by
    rw [h.ids_eq, List.getElem?_map, hi]
    rfl
  have hall := hcomplete i sub.id entry hid hentry
  rw [h.count, List.countP_eq_length_filter,
    ← native_totalRanges (hbuilt entry (List.mem_of_getElem? hentry)) hnative, ← ranges_length]
    at hall
  have hsubset : (succeeded s.machine.core).filter (fun k => decide (k.submission = sub.id))
      ⊆ sub.ranges := by
    intro k hk
    obtain ⟨hk, hsame⟩ := List.mem_filter.mp hk
    obtain ⟨p, hp, rfl⟩ := List.mem_map.mp hk
    obtain ⟨sub', hsub', hmem, hid'⟩ := popped_known h.careful (List.mem_of_mem_filter hp)
    rw [decide_eq_true_eq] at hsame
    rwa [← h.inv.ids.eq_of_id hsub' hsub (hid'.symm.trans hsame)]
  have hperm := (((succeeded_nodup h.careful).filter _).subperm hsubset).perm_of_length_le hall
  obtain ⟨p, hp, rfl⟩ := List.mem_map.mp (List.mem_of_mem_filter (hperm.mem_iff.mpr hk))
  exact ⟨p, List.mem_of_mem_filter hp, rfl⟩

/-- A move of the library on its own. -/
theorem Serving.inner (h : Serving config files beyond served s) {m : Move n} {u : Machine n}
    (hstep : Step config files s.machine m u) (hinner : m.Inner) :
    Serving config files beyond served { s with machine := u } := by
  obtain ⟨hcommitted, hpopped⟩ := inner_keeps hstep hinner
  have hcareful : Careful s.machine m := by
    cases m with
    | core a =>
        cases a with
        | submit sub => exact hinner.elim
        | _ => trivial
    | _ => trivial
  refine ⟨careful_reaches h.careful hstep hcareful, ?_, ?_, ?_, ?_, ?_⟩
  · rw [hcommitted]
    exact h.ids_eq
  · rw [hcommitted]
    exact h.sent
  · rw [succeeded, hpopped]
    exact h.taken
  · rw [hcommitted, hpopped]
    exact h.settled
  · rw [hcommitted]
    exact h.delivered

/-- **A request is submitted carefully**: its ranges lie apart, and all that
was given the buffer before has been answered. -/
theorem Serving.careful_submit (h : Serving config files beyond served s)
    (hbuilt : ∀ entry ∈ served, Built address entry.1)
    (hmemory : ∀ entry ∈ served, address + totalSize entry.1.files ≤ 2 ^ 64)
    (hcomplete : s.Complete served) {sub : Submission} {entry}
    (hentry : entry ∈ served) (hnative : nativeRequest entry.1 = .ok sub.request) :
    CarefulSubmit s.machine.core sub := by
  constructor
  case noWrap => exact plan_noWrap sub.workers_pos sub.planned
  case apart =>
    intro k k' a path path' pos pos' hbyte hbyte'
    exact bytes_apart (hbuilt entry hentry) hnative (hmemory entry hentry) hbyte hbyte'
  case free =>
    intro old hold k k' a path path' pos pos' hbyte _
    obtain ⟨p, hp, hrange⟩ := h.complete hbuilt hcomplete hold hbyte.known
    exact ⟨p.response, popped_pushed h.careful hp, hrange⟩

/-- The next request is submitted. -/
theorem Serving.request (h : Serving config files beyond served s)
    (hbuilt : ∀ entry ∈ served, Built address entry.1)
    (hmemory : ∀ entry ∈ served, address + totalSize entry.1.files ≤ 2 ^ 64)
    {sub : Submission} {u : Machine n} {entry}
    (hstep : Step config files s.machine (.core (.submit sub)) u)
    (hentry : served[s.ids.length]? = some entry)
    (hnative : nativeRequest entry.1 = .ok sub.request) (hcomplete : s.Complete served) :
    Serving config files beyond served { s with machine := u, ids := s.ids ++ [sub.id] } := by
  obtain ⟨hcommitted, hpopped⟩ := submit_keeps hstep
  have hcareful := h.careful_submit hbuilt hmemory hcomplete (List.mem_of_getElem? hentry) hnative
  have hreach : (carefulMachine n config files).Reachable u :=
    careful_reaches h.careful hstep hcareful
  have hlen : s.ids.length = s.machine.core.committed.length := by rw [h.ids_eq, List.length_map]
  have hlast : ∀ {i : Nat} {sub' : Submission},
      (s.machine.core.committed ++ [sub])[i]? = some sub' →
        s.machine.core.committed[i]? = some sub' ∨
          i = s.machine.core.committed.length ∧ sub' = sub := by
    intro i sub' hi
    rcases Nat.lt_or_ge i s.machine.core.committed.length with hlt | hge
    · rw [List.getElem?_append_left hlt] at hi
      exact .inl hi
    · rw [List.getElem?_append_right hge] at hi
      obtain ⟨hzero, hsub⟩ := List.getElem?_eq_some_iff.mp hi
      rw [List.length_singleton] at hzero
      exact .inr ⟨by omega, by rw [← hsub]; simp⟩
  refine ⟨hreach, ?_, ?_, ?_, ?_, ?_⟩
  · show s.ids ++ [sub.id] = u.core.committed.map Submission.id
    rw [hcommitted, List.map_append, h.ids_eq]
    rfl
  · intro i sub' hi
    rcases hlast (hcommitted ▸ hi) with hi | ⟨rfl, rfl⟩
    · exact h.sent i sub' hi
    · exact ⟨entry, hlen ▸ hentry, hnative⟩
  · rw [succeeded, hpopped]
    exact h.taken
  · intro front sub' back heq hback k hk
    rw [hpopped]
    refine h.complete hbuilt hcomplete ?_ hk
    -- it is not the last one
    obtain ⟨back, last, rfl⟩ := (List.eq_nil_or_concat back).resolve_left hback
    rw [show _ = s.machine.core.committed ++ [sub] from hcommitted, List.concat_eq_append,
      ← List.cons_append, ← List.append_assoc] at heq
    rw [(List.append_inj' heq rfl).1]
    exact List.mem_append_right _ List.mem_cons_self
  · intro r hr hcode i sub' entry' hi hid hentry'
    rcases hlast (hcommitted ▸ hi) with hi | ⟨-, rfl⟩
    · exact h.delivered r hr hcode i sub' entry' hi hid hentry'
    · -- nothing has been returned for the new id
      have hmem : rangeOf r ∈ succeeded s.machine.core := by
        rw [← h.taken]
        exact List.mem_map_of_mem (List.mem_filter.mpr ⟨hr, by rw [decide_eq_true_eq]; exact hcode⟩)
      obtain ⟨p, hp, hrange⟩ := List.mem_map.mp hmem
      obtain ⟨old, hold, -, hid'⟩ := popped_known h.careful (List.mem_of_mem_filter hp)
      have hinv := reachable_inv _ (Reachable.core (System.Reachable.of_restrict hreach))
      have hsame : old.id = sub'.id := by
        rw [← hid', hid]
        exact congrArg RangeId.submission hrange
      have hnodup := hinv.ids.distinct
      rw [hcommitted, List.map_append, List.nodup_append] at hnodup
      exact absurd hsame (hnodup.2.2 _ (List.mem_map_of_mem hold) _ (by simp))

/-- **A response is popped**: if it is a success, its bytes are there. -/
theorem Serving.response (h : Serving config files beyond served s)
    (hblock : 1 ≤ config.fsBlockBytesize) (hbuilt : ∀ entry ∈ served, Built address entry.1)
    (hmemory : ∀ entry ∈ served, address + totalSize entry.1.files ≤ 2 ^ 64) {p : Popped}
    {u : Machine n} (hstep : Step config files s.machine (.core .pop) u)
    (hpopped : u.core.popped = s.machine.core.popped ++ [p]) :
    Serving config files beyond served
      { s with machine := u, script := s.script ++ [returned p.response u.memory] } := by
  have hcommitted := pop_keeps hstep
  have hreach : (carefulMachine n config files).Reachable u :=
    careful_reaches h.careful hstep trivial
  refine ⟨hreach, ?_, ?_, ?_, ?_, ?_⟩
  · rw [hcommitted]
    exact h.ids_eq
  · rw [hcommitted]
    exact h.sent
  · rw [List.filter_append, List.map_append, h.taken, succeeded, succeeded, hpopped,
      List.filter_append, List.map_append]
    congr 1
    rw [List.filter_singleton, List.filter_singleton]
    show _ = List.map _ (bif decide (p.response.ret = .success) then _ else _)
    cases hret : decide (p.response.ret = .success) with
    | true => simp [returned, of_decide_eq_true hret, rangeOf, Response.range]
    | false => simp [returned, of_decide_eq_false hret]
  · rw [hcommitted]
    intro front sub back heq hback k hk
    obtain ⟨p', hp', hrange⟩ := h.settled front sub back heq hback k hk
    exact ⟨p', hpopped ▸ List.mem_append_left _ hp', hrange⟩
  · rw [hcommitted]
    intro r hr hcode i sub entry hi hid hentry
    rcases List.mem_append.mp hr with hr | hr
    · exact h.delivered r hr hcode i sub entry hi hid hentry
    obtain rfl := List.mem_singleton.mp hr
    obtain ⟨entry', hentry', hnative⟩ := h.sent i sub hi
    obtain rfl := Option.some.inj (hentry.symm.trans hentry')
    have hmem := List.mem_of_getElem? hentry
    have hsub := List.mem_of_getElem? hi
    have hp : p ∈ u.core.popped := hpopped ▸ List.mem_append_right _ List.mem_cons_self
    -- the submission is the last one, since this range had not been popped
    obtain ⟨sub', hsub', hk, hid'⟩ := popped_known hreach hp
    rw [hcommitted] at hsub'
    obtain rfl := h.inv.ids.eq_of_id hsub hsub' (hid.trans hid')
    obtain ⟨front, back, heq⟩ := List.append_of_mem hsub
    have hback : back = [] := by
      by_contra hne
      obtain ⟨p', hp', hrange⟩ := h.settled front sub back heq hne _ hk
      have hnodup := popped_nodup hreach
      rw [hpopped, List.map_append, List.nodup_append] at hnodup
      exact hnodup.2.2 _ (List.mem_map_of_mem hp') _ (by simp) hrange
    subst hback
    intro file flat dst offset size hfile hflat hdst hoffset hsize x hx
    have hslot := Slot.flat (hbuilt entry hmem) hfile hoffset hsize hflat hdst
    have hbyte := slot_byte (hbuilt entry hmem) hnative (hmemory entry hmem) hslot hx
    rw [show (⟨sub.id, _, _⟩ : RangeId) = p.response.range by rw [← hid']; rfl] at hbyte
    have hvalue := answered_in_place hblock hreach (popped_pushed hreach hp) hcode
      (hcommitted ▸ hsub) hbyte
      ⟨front, sub, [], by rw [hcommitted, heq], ⟨_, _, hbyte⟩, by simp⟩
    show u.memory (dst + x) = ((files file.path)[offset + x]?).getD beyond
    rw [hvalue]
    rfl

/-- A code without a range is returned. -/
theorem Serving.code (h : Serving config files beyond served s) {a : Action n}
    (ha : ∀ sub, a ≠ .submit sub) {u : Machine n}
    (hstep : Step config files s.machine (.core a) u)
    (hcommitted : u.core.committed = s.machine.core.committed)
    (hpopped : u.core.popped = s.machine.core.popped) {r : NativeResponse}
    (hr : r.code ≠ .success) :
    Serving config files beyond served { s with machine := u, script := s.script ++ [r] } := by
  have hcareful : Careful s.machine (.core a) := by
    cases a with
    | submit sub => exact absurd rfl (ha sub)
    | _ => trivial
  refine ⟨careful_reaches h.careful hstep hcareful, ?_, ?_, ?_, ?_, ?_⟩
  · rw [hcommitted]
    exact h.ids_eq
  · rw [hcommitted]
    exact h.sent
  · rw [List.filter_append, List.filter_singleton, decide_eq_false hr, succeeded, hpopped]
    simpa [succeeded] using h.taken
  · rw [hcommitted, hpopped]
    exact h.settled
  · rw [hcommitted]
    intro r' hr' hcode
    rcases List.mem_append.mp hr' with hr' | hr'
    · exact h.delivered r' hr' hcode
    · rw [List.mem_singleton.mp hr'] at hcode
      exact absurd hcode hr

/-- **Every step keeps the invariant.** -/
theorem Serving.step (h : Serving config files beyond served s)
    (hblock : 1 ≤ config.fsBlockBytesize) (hbuilt : ∀ entry ∈ served, Built address entry.1)
    (hmemory : ∀ entry ∈ served, address + totalSize entry.1.files ≤ 2 ^ 64) {m : Move n}
    (hstep : ConsumerStep config files served s m t) : Serving config files beyond served t := by
  cases hstep with
  | inner m u hstep hinner => exact h.inner hstep hinner
  | request sub u entry hstep hentry hnative hcomplete =>
      exact h.request hbuilt hmemory hstep hentry hnative hcomplete
  | response p u hstep hpopped => exact h.response hblock hbuilt hmemory hstep hpopped
  | failed code u hstep hpopped hcode =>
      exact h.code (by simp) hstep (pop_keeps hstep) hpopped hcode
  | bare code u hstep =>
      obtain ⟨hcommitted, hpopped, hcode⟩ := bare_keeps hstep
      exact h.code (by simp) hstep hcommitted hpopped hcode

theorem serving_init (h : ConsumerInit s) : Serving config files beyond served s := by
  have hinit := h.machine.core
  refine ⟨.init h.machine, ?_, ?_, ?_, ?_, ?_⟩
  · rw [h.ids_eq, hinit.committed_eq]
    rfl
  · simp [hinit.committed_eq]
  · rw [h.script_eq, succeeded, hinit.popped_eq]
    rfl
  · simp [hinit.committed_eq]
  · simp [h.script_eq]

/-- **The invariant holds in every run.** -/
theorem reachable_serving (hblock : 1 ≤ config.fsBlockBytesize)
    (hbuilt : ∀ entry ∈ served, Built address entry.1)
    (hmemory : ∀ entry ∈ served, address + totalSize entry.1.files ≤ 2 ^ 64)
    (h : (consumer n config files served).Reachable s) :
    Serving config files beyond served s := by
  induction h with
  | init hinit => exact serving_init hinit
  | step _ hstep ih => exact ih.step hblock hbuilt hmemory hstep

end Invariant

/-! ## §5. What Python yields. -/

/-- What the `k`-th call of `runai_request` returned; those not made yet stand
for calls that fail. -/
def submitted (ids : List Nat) (k : Nat) : Except String Nat :=
  match ids[k]? with
  | some id => .ok id
  | none => .error "Could not submit request to libstreamer"

section Stream

variable {n : Nat} {config : Config} {files : String → List UInt8} {served : ServedRequests}
  {s : Consumer n} {address : Nat}

/-- **The machine keeps the contract** `FileStreamer` relies on. -/
theorem serving_contract {beyond : UInt8} (h : Serving config files beyond served s) :
    NativeContract (contentOf files beyond) (submitted s.ids) served s.script := by
  intro k entry id hentry hsubmit
  have hid : s.ids[k]? = some id := by
    unfold submitted at hsubmit
    split at hsubmit
    next hget => rw [hget, Except.ok.inj hsubmit]
    next => simp at hsubmit
  rw [h.ids_eq, List.getElem?_map, Option.map_eq_some_iff] at hid
  obtain ⟨sub, hsub, rfl⟩ := hid
  constructor
  · have hnodup := succeeded_nodup h.careful
    rw [← h.taken] at hnodup
    have hfilter : s.script.filter (succeeds sub.id)
        = (s.script.filter (fun r => decide (r.code = .success))).filter
            (fun r => decide (r.submissionId = sub.id)) := by
      rw [List.filter_filter]
      apply List.filter_congr
      intro r _
      show decide (r.code = .success ∧ r.submissionId = sub.id) = _
      rw [Bool.decide_and, Bool.and_comm]
    rw [hfilter]
    refine List.pairwise_map.mpr ?_
    refine List.Pairwise.imp_of_mem ?_ ((List.pairwise_map.mp hnodup).filter _)
    intro r r' hr hr' hne hposition
    have hsame : r.submissionId = r'.submissionId :=
      (of_decide_eq_true (List.mem_filter.mp hr).2).trans
        (of_decide_eq_true (List.mem_filter.mp hr').2).symm
    obtain ⟨hfile, hindex⟩ := Prod.mk.inj hposition
    exact hne (RangeId.mk.injEq .. ▸ ⟨hsame, hfile, hindex⟩)
  · intro r hr hsucceeds
    obtain ⟨hcode, hsame⟩ := of_decide_eq_true
      (show decide (r.code = .success ∧ r.submissionId = sub.id) = true from hsucceeds)
    exact h.delivered r hr hcode k sub entry hsub hsame.symm hentry

/-- The chunk a range stands for, cut out of its file. -/
def fileChunk (files : String → List UInt8) (range : FileStreamer.Range) : Chunk :=
  ⟨range.file, range.index, ((files range.path).drop range.offset).take range.size⟩

/-- The range lies in its file. -/
def InFile (files : String → List UInt8) (range : FileStreamer.Range) : Prop :=
  range.size = 0 ∨ range.offset + range.size ≤ (files range.path).length

/-- Two ranges of one file and number are one range. -/
theorem originalRanges_unique {sources : List FileChunks} (hids : (sources.map FileChunks.id).Nodup)
    {range range' : FileStreamer.Range} (h : range ∈ originalRanges sources)
    (h' : range' ∈ originalRanges sources) (hfile : range.file = range'.file)
    (hindex : range.index = range'.index) : range = range' := by
  have hof : ∀ {range : FileStreamer.Range}, range ∈ originalRanges sources →
      ∃ file ∈ sources, file.id = range.file ∧ (file.rangesFrom 0)[range.index]? = some range := by
    intro range hrange
    obtain ⟨file, hmem, hrange⟩ := List.mem_flatMap.mp hrange
    obtain ⟨i, hi⟩ := List.getElem?_of_mem hrange
    have hget := hi
    rw [FileChunks.rangesFrom, number, List.getElem?_map, Option.map_eq_some_iff] at hget
    obtain ⟨pair, hpair, rfl⟩ := hget
    rw [List.getElem?_zipIdx, Option.map_eq_some_iff] at hpair
    obtain ⟨value, -, rfl⟩ := hpair
    exact ⟨file, hmem, rfl, by simpa using hi⟩
  obtain ⟨file, hmem, hid, hget⟩ := hof h
  obtain ⟨file', hmem', hid', hget'⟩ := hof h'
  obtain rfl : file = file' :=
    List.inj_on_of_nodup_map hids hmem hmem' (hid.trans (hfile.trans hid'.symm))
  rw [hindex, hget'] at hget
  exact (Option.some.inj hget).symm

/-- **Whatever stands behind the end of the files**, the same was yielded: so
the ranges lie in them, and the chunks are cut out of them. -/
theorem chunks_of_files {ranges : List FileStreamer.Range} {chunks : List Chunk}
    (hunique : ∀ range ∈ ranges, ∀ range' ∈ ranges, range.file = range'.file →
      range.index = range'.index → range = range')
    (h : ∀ beyond, chunks.Perm (ranges.map (Range.chunk (contentOf files beyond)))) :
    chunks.Perm (ranges.map (fileChunk files)) ∧ ∀ range ∈ ranges, InFile files range := by
  have hin : ∀ range ∈ ranges, InFile files range := by
    intro range hrange
    have hmem : Range.chunk (contentOf files 0) range ∈ ranges.map
        (Range.chunk (contentOf files 1)) :=
      ((h 0).symm.trans (h 1)).mem_iff.mp (List.mem_map_of_mem hrange)
    obtain ⟨range', hrange', heq⟩ := List.mem_map.mp hmem
    rw [Range.chunk, Range.chunk, Chunk.mk.injEq] at heq
    obtain ⟨hfile, hindex, hbytes⟩ := heq
    obtain rfl := hunique range' hrange' range hrange hfile hindex
    by_cases hsize : range'.size = 0
    · exact .inl hsize
    -- the last byte is the same with either
    have hlast := congrArg (fun bytes => bytes[range'.size - 1]?) hbytes
    simp only [List.getElem?_map] at hlast
    rw [List.getElem?_range (by omega), Option.map_some, Option.map_some, Option.some.injEq]
      at hlast
    refine .inr ?_
    by_contra hout
    have hnone : (files range'.path)[range'.offset + (range'.size - 1)]? = none :=
      List.getElem?_eq_none (by omega)
    unfold contentOf at hlast
    rw [hnone] at hlast
    exact absurd hlast (by decide)
  refine ⟨?_, hin⟩
  rw [List.map_congr_left (fun range hrange => ?_)]
  · exact h 0
  · rw [fileChunk, Range.chunk, Chunk.mk.injEq]
    refine ⟨rfl, rfl, ?_⟩
    apply List.ext_getElem?
    intro i
    rw [List.getElem?_take, List.getElem?_drop, List.getElem?_map]
    split
    next hi =>
      rw [List.getElem?_range hi, Option.map_some]
      rcases hin range hrange with hzero | hle
      · omega
      · have hlt : range.offset + i < (files range.path).length := by omega
        rw [contentOf, List.getElem?_eq_getElem hlt]
        rfl
    next hi =>
      rw [List.getElem?_eq_none (by rw [List.length_range]; omega)]
      rfl

/-- The chunks of a run that returns, if the library kept the contract. -/
theorem chunks_of_run {submit : Nat → Except String Nat} {script : List NativeResponse}
    {responseStr : ResponseCode → String} {int : String → Except String Int} {env : Option String}
    {sources : List FileChunks} (hids : (sources.map FileChunks.id).Nodup)
    (hcontract : ∀ beyond it served,
      FilesRequestsIteratorWithBuffer.withMemoryMode int env address sources = .ok it →
        Requests it served → NativeContract (contentOf files beyond) submit served script)
    {chunks : List Chunk} {rest : List NativeResponse}
    (hrun : run responseStr submit sources
      (FilesRequestsIteratorWithBuffer.withMemoryMode int env address sources) script
        = (chunks, some .returned, rest)) :
    ∃ used, script = used ++ rest ∧
      ((∀ r ∈ used, r.code ≠ .finishedError) →
        chunks.Perm ((originalRanges sources).map (fileChunk files)) ∧
          ∀ range ∈ originalRanges sources, InFile files range) := by
  obtain ⟨used, hused, -⟩ := run_returned int env address hids (hcontract 0) hrun
  refine ⟨used, hused, fun hopen => ?_⟩
  refine chunks_of_files (fun range hrange range' hrange' => originalRanges_unique hids hrange hrange')
    (fun beyond => ?_)
  obtain ⟨used', hused', hwhole, -⟩ := run_returned int env address hids (hcontract beyond) hrun
  obtain rfl := List.append_cancel_right (hused.symm.trans hused')
  exact hwhole hopen

/-- **The machine keeps the contract** in every iteration over it. -/
theorem machine_contract {int : String → Except String Int} {env : Option String}
    {sources : List FileChunks} (hids : (sources.map FileChunks.id).Nodup)
    {it : FilesRequestsIteratorWithBuffer}
    (hcap : FilesRequestsIteratorWithBuffer.withMemoryMode int env address sources = .ok it)
    (hserved : Requests it served) (hmemory : it.bufferAddress + it.bufferSize ≤ 2 ^ 64)
    (hblock : 1 ≤ config.fsBlockBytesize) (h : (consumer n config files served).Reachable s) :
    ∀ beyond it' served',
      FilesRequestsIteratorWithBuffer.withMemoryMode int env address sources = .ok it' →
        Requests it' served' →
          NativeContract (contentOf files beyond) (submitted s.ids) served' s.script := by
  have hbuilt := requests_built hserved
  obtain ⟨hcoherent, -⟩ := withMemoryMode_coherent hids hcap
  have hplaced := (partitions_of_coherent hcoherent).placed served hserved
  have hfits : ∀ entry ∈ served, it.bufferAddress + totalSize entry.1.files ≤ 2 ^ 64 := by
    intro entry hentry
    have htotal := (hplaced entry hentry).total
    rw [FilesRequest.flatSizes, flatSizes_sum] at htotal
    omega
  intro beyond it' served' hcap' hserved'
  obtain rfl := Except.ok.inj (hcap.symm.trans hcap')
  obtain rfl := hserved.unique hserved'
  exact serving_contract (reachable_serving hblock hbuilt hfits h)

/-- **THE FILES' BYTES ARE WHAT IS YIELDED**: `FileStreamer` iterated over the
machine, with any number of threads, and whatever the OS does.  Where the
iteration returns and no FinishedError was among the responses, its chunks
are those of the files, each once, and every range lies in its file. -/
theorem streamed_bytes (responseStr : ResponseCode → String) (int : String → Except String Int)
    (env : Option String) (sources : List FileChunks) (hids : (sources.map FileChunks.id).Nodup)
    {it : FilesRequestsIteratorWithBuffer}
    (hcap : FilesRequestsIteratorWithBuffer.withMemoryMode int env address sources = .ok it)
    (hserved : Requests it served) (hmemory : it.bufferAddress + it.bufferSize ≤ 2 ^ 64)
    (hblock : 1 ≤ config.fsBlockBytesize) (h : (consumer n config files served).Reachable s)
    {chunks : List Chunk} {rest : List NativeResponse}
    (hrun : run responseStr (submitted s.ids) sources (.ok it) s.script
      = (chunks, some .returned, rest)) :
    ∃ used, s.script = used ++ rest ∧
      ((∀ r ∈ used, r.code ≠ .finishedError) →
        chunks.Perm ((originalRanges sources).map (fileChunk files)) ∧
          ∀ range ∈ originalRanges sources, InFile files range) := by
  rw [← hcap] at hrun
  exact chunks_of_run hids (machine_contract hids hcap hserved hmemory hblock h) hrun

end Stream

/-! ## §6. One byte. -/

/-- The file of one byte, as Python names it. -/
def oneSource : List FileChunks := [.contiguous 0 "/data/weights" 0 [1]]

/-- Its iterator. -/
def oneIterator : FilesRequestsIteratorWithBuffer := .new 4096 1 oneSource

/-- Its one request. -/
def oneEntry : FilesRequest × FilesRequestsIteratorWithBuffer :=
  (⟨oneSource, [0], 1, [4096]⟩, oneIterator.nextRequest.2)

theorem oneIterator_requests : Requests oneIterator [oneEntry] := by
  refine .next (Prod.ext ?_ rfl) (.done ?_)
  · decide +kernel
  · decide +kernel

/-- The bytes are streamed: the run of one byte, seen from Python. -/
theorem oneSource_run : ∃ s : Consumer 1,
    (consumer 1 ⟨1, 1, 1, 1⟩ oneByteFiles [oneEntry]).Reachable s ∧ s.ids = [1] ∧
    s.script = [⟨.success, 1, 0, 0, store (2 ^ 64) blank 4096 [7]⟩] := by
  have h₀ : (consumer 1 ⟨1, 1, 1, 1⟩ oneByteFiles [oneEntry]).Reachable ⟨idleMachine, [], []⟩ :=
    .init ⟨⟨idle_init, fun _ => rfl⟩, rfl, rfl⟩
  have h₁ := h₀.step (.inner _ _ (.core .mint _ .mint (by simp) (by simp)) trivial)
  have h₂ := h₁.step (.request onePartSubmission _ oneEntry (.core (.submit onePartSubmission) _
    (.submit onePartSubmission _ (by decide) rfl) (by simp) (by simp)) rfl (by rfl) (by
      intro i id entry hid
      simp at hid))
  have h₃ := h₂.step (.inner _ _ (onePart_take rfl rfl rfl) trivial)
  have h₄ := h₃.step (.inner _ _ (.write 0 4096 [7] [.mark onePartCall] rfl rfl) trivial)
  have h₅ := h₄.step (.inner _ _ (.report 0 onePartCall [] [] rfl rfl) trivial)
  have h₆ := h₅.step (.inner _ _ (.core (.sub 0) _ (.sub 0 onePartCall [] rfl) (by simp)
    (by simp)) trivial)
  have h₇ := h₆.step (.inner _ _ (.core (.answer 0) _ (.answer 0 onePartCall [] rfl) (by simp)
    (by simp)) trivial)
  have h₈ := h₇.step (.inner _ _ (.core (.push 0) _ (.push 0 onePartCall [] _ rfl) (by simp)
    (by simp)) trivial)
  have h₉ := h₈.step (.response _ _ (.core .pop _ (.pop _ _ _ _ rfl rfl) (by simp) (by simp)) rfl)
  exact ⟨_, h₉, rfl, rfl⟩

/-- Python's iteration over that run. -/
theorem oneSource_returned {s : Consumer 1} (hids : s.ids = [1])
    (hscript : s.script = [⟨.success, 1, 0, 0, store (2 ^ 64) blank 4096 [7]⟩]) :
    run (fun _ => "error") (submitted s.ids) oneSource (.ok oneIterator) s.script
      = ([⟨0, 0, [7]⟩], some .returned,
        (run (fun _ => "error") (submitted s.ids) oneSource (.ok oneIterator) s.script).2.2) := by
  rw [hids, hscript]
  refine Prod.ext ?_ (Prod.ext ?_ rfl)
  · decide +kernel
  · decide +kernel

/-- No response of it is a FinishedError. -/
theorem oneSource_open {s : Consumer 1} {used rest : List NativeResponse}
    (hscript : s.script = [⟨.success, 1, 0, 0, store (2 ^ 64) blank 4096 [7]⟩])
    (hused : s.script = used ++ rest) : ∀ r ∈ used, r.code ≠ .finishedError := by
  intro r hr
  have hmem : r ∈ s.script := by
    rw [hused]
    exact List.mem_append_left _ hr
  rw [hscript, List.mem_singleton] at hmem
  rw [hmem]
  decide

theorem streamed_bytes_onePart : ∃ s : Consumer 1,
    (consumer 1 ⟨1, 1, 1, 1⟩ oneByteFiles [oneEntry]).Reachable s ∧ s.ids = [1] ∧
    ∀ range ∈ originalRanges oneSource, InFile oneByteFiles range := by
  obtain ⟨s, hreach, hids, hscript⟩ := oneSource_run
  obtain ⟨used, hused, hall⟩ := streamed_bytes (fun _ => "error") (fun _ => .ok 1) none oneSource
    (by decide) (show _ = Except.ok oneIterator from rfl) oneIterator_requests (by decide) (by decide)
    hreach (oneSource_returned hids hscript)
  exact ⟨s, hreach, hids, (hall (oneSource_open hscript hused)).2⟩

end ModelStreamer.Filesystem
