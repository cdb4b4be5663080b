/-
  ModelStreamer.Distributed.Coalescing
  ────────────────────────────────────
  **ONE READ FOR WHAT LIES TOGETHER.**

  A rank's chunks of a path go a long way before they are read: they are
  sorted (`partition_by_chunks`), cut into requests and laid out in a buffer
  (`FilesRequestsIteratorWithBuffer`), and merged (`Assigner::coalesce`).
  The merging sees neighbours only, so it is the order that decides how many
  reads come out.

    • `chainOrdered_of_sorted` — chunks that do not overlap, in the order of
      offset and size, are in the best order there is,
    • `coalescing_optimal` — so each file of each native request becomes the
      fewest runs possible, one for each chain of chunks.
-/
import ModelStreamer.Distributed.Partition
import ModelStreamer.FileStreamer.Native
import ModelStreamer.Planning.Merged

namespace ModelStreamer.Distributed

open ModelStreamer.Lib ModelStreamer.FileStreamer ModelStreamer.Planning

/-! ## §1. The best order. -/

/-- One ends where the other starts. -/
def Ends (a b : Nat × Nat) : Prop := a.1 + a.2 = b.1

instance : DecidableRel Ends := fun a b => by
  unfold Ends
  infer_instance

/-- They do not overlap, and an empty one is not strictly inside the
other. -/
def Apart (a b : Nat × Nat) : Prop := a.1 + a.2 ≤ b.1 ∨ b.1 + b.2 ≤ a.1

theorem Apart.symm {a b : Nat × Nat} (h : Apart a b) : Apart b a := Or.symm h

/-- The order of `pathOrder`. -/
def Before (a b : Nat × Nat) : Prop := a.1 < b.1 ∨ a.1 = b.1 ∧ a.2 ≤ b.2

/-- **Sorted by offset and size, what lies together is together.** -/
theorem chainOrdered_of_sorted {pairs : List (Nat × Nat)} (hsorted : pairs.Pairwise Before)
    (hapart : pairs.Pairwise Apart) : ChainOrdered Ends pairs := by
  have hat : ∀ (R : Nat × Nat → Nat × Nat → Prop), pairs.Pairwise R → ∀ (i j : Nat) (a b : Nat × Nat),
      i < j → pairs[i]? = some a → pairs[j]? = some b → R a b := by
    intro R hR i j a b hij hi hj
    obtain ⟨hilt, rfl⟩ := List.getElem?_eq_some_iff.mp hi
    obtain ⟨hjlt, rfl⟩ := List.getElem?_eq_some_iff.mp hj
    exact List.pairwise_iff_getElem.mp hR i j hilt hjlt hij
  intro i j a b hij hi hj hab m him hmj
  have hbefore := hat _ hsorted i j a b hij hi hj
  have hdisjoint := hat _ hapart i j a b hij hi hj
  unfold Before at hbefore
  unfold Apart at hdisjoint
  -- either way the first ends where the second starts
  have hends : a.1 + a.2 = b.1 := by
    rcases hab with hab | hab | rfl
    · exact hab
    · unfold Ends at hab
      omega
    · omega
  have hjlt := (List.getElem?_eq_some_iff.mp hj).1
  -- what is behind the first, up to the second, starts there
  have hstarts : ∀ (k : Nat) (c : Nat × Nat), i < k → k ≤ j → pairs[k]? = some c → c.1 = b.1 := by
    intro k c hik hkj hk
    have h₁ := hat _ hsorted i k a c hik hi hk
    have h₂ := hat _ hapart i k a c hik hi hk
    unfold Before at h₁
    unfold Apart at h₂
    rcases Nat.lt_or_eq_of_le hkj with hlt | rfl
    · have h₃ := hat _ hsorted k j c b hlt hk hj
      unfold Before at h₃
      omega
    · rw [hk] at hj
      rw [Option.some.inj hj]
  -- and what is before the second, from the first on, ends there
  have hstops : ∀ (k : Nat) (c : Nat × Nat), i ≤ k → k < j → pairs[k]? = some c →
      c.1 + c.2 = b.1 := by
    intro k c hik hkj hk
    rcases Nat.lt_or_eq_of_le hik with hlt | rfl
    · have h₁ := hstarts k c hlt (by omega) hk
      have h₂ := hat _ hsorted k j c b hkj hk hj
      have h₃ := hat _ hapart k j c b hkj hk hj
      unfold Before at h₂
      unfold Apart at h₃
      omega
    · rw [hk] at hi
      rw [Option.some.inj hi]
      exact hends
  have hm := List.getElem?_eq_getElem (show m < pairs.length by omega)
  have hm' := List.getElem?_eq_getElem (show m + 1 < pairs.length by omega)
  refine ⟨_, _, hm, hm', ?_⟩
  unfold Ends
  rw [hstops m _ him hmj hm, hstarts (m + 1) _ (by omega) (by omega) hm']

/-! ## §2. The chunks of a share. -/

/-- Offset and size of a work unit. -/
def WorkUnit.pair (u : WorkUnit) : Nat × Nat := (u.offset, u.size)

theorem pathOrder_sorted (units : List WorkUnit) :
    ((pathOrder units).map WorkUnit.pair).Pairwise Before := by
  rw [List.pairwise_map]
  refine (sortBy_pairwise (fun u : WorkUnit => toLex (u.offset, u.size)) units).imp ?_
  intro u v huv
  rw [Prod.Lex.toLex_le_toLex] at huv
  exact huv

theorem regroup_pairs (id : Nat) (path : String) (units : List WorkUnit) :
    (regroup id path units).1.pairs = units.map WorkUnit.pair := by
  unfold regroup FileChunks.pairs
  simp only
  rw [List.zip_map']
  rfl

/-- What the partition makes sure of, for the chunks of a path on a rank. -/
structure Laid (pairs : List (Nat × Nat)) : Prop where
  sorted : pairs.Pairwise Before
  apart : pairs.Pairwise Apart
  words : ∀ pair ∈ pairs, pair.1 + pair.2 < 2 ^ 64

theorem Laid.sublist {pairs pairs' : List (Nat × Nat)} (h : Laid pairs)
    (hsub : pairs'.Sublist pairs) : Laid pairs' :=
  ⟨h.sorted.sublist hsub, h.apart.sublist hsub, fun pair hpair => h.words pair (hsub.subset hpair)⟩

/-- No two chunks of a path overlap. -/
def NoOverlap (units : List WorkUnit) : Prop :=
  units.Pairwise (fun u v => u.path = v.path → Apart u.pair v.pair)

theorem NoOverlap.perm {units units' : List WorkUnit} (h : NoOverlap units)
    (hperm : units.Perm units') : NoOverlap units' :=
  (hperm.pairwise_iff (fun {_ _} hab hpath => (hab hpath.symm).symm)).mp h

theorem shareOf_laid {idGenerator : Nat} {groups : List (String × List WorkUnit)}
    (hkey : ∀ g ∈ groups, ∀ u ∈ g.2, u.path = g.1) (hapart : NoOverlap (grouped groups))
    (hwords : ∀ u ∈ grouped groups, u.offset + u.size < 2 ^ 64) :
    ∀ e ∈ shareOf idGenerator groups, Laid e.1.pairs := by
  intro e he
  unfold shareOf at he
  obtain ⟨⟨⟨path, units⟩, id⟩, hg, rfl⟩ := List.mem_map.mp he
  have hgroup : (path, units) ∈ groups := by
    have hmem := List.mem_map_of_mem (f := Prod.fst) hg
    rw [List.zipIdx_map_fst] at hmem
    exact hmem
  have hsub : units.Sublist (grouped groups) := by
    exact List.sublist_flatten_of_mem (List.mem_map_of_mem (f := Prod.snd) hgroup)
  simp only
  rw [regroup_pairs]
  refine ⟨pathOrder_sorted units, ?_, ?_⟩
  · have hunits : NoOverlap (pathOrder units) :=
      NoOverlap.perm (hapart.sublist hsub) (pathOrder_perm units).symm
    rw [List.pairwise_map]
    refine hunits.imp_of_mem ?_
    intro u v hu hv huv
    have hup := hkey _ hgroup u ((pathOrder_perm units).subset hu)
    have hvp := hkey _ hgroup v ((pathOrder_perm units).subset hv)
    exact huv (hup.trans hvp.symm)
  · intro pair hpair
    obtain ⟨u, hu, rfl⟩ := List.mem_map.mp hpair
    exact hwords u (hsub.subset ((pathOrder_perm units).subset hu))

theorem rebuild_laid {idGenerator : Nat} {hands : List (List WorkUnit)}
    (hapart : NoOverlap hands.flatten) (hwords : ∀ u ∈ hands.flatten, u.offset + u.size < 2 ^ 64) :
    ∀ share ∈ rebuild idGenerator hands, ∀ e ∈ share, Laid e.1.pairs := by
  induction hands generalizing idGenerator with
  | nil => simp [rebuild]
  | cons units rest ih =>
      rw [List.flatten_cons] at hapart hwords
      unfold rebuild
      intro share hshare
      rcases List.mem_cons.mp hshare with rfl | hshare
      · have hperm := groupBy_perm WorkUnit.path units
        refine shareOf_laid (fun g hg => groupBy_key hg) ?_ ?_
        · exact NoOverlap.perm (List.pairwise_append.mp hapart).1 hperm.symm
        · intro u hu
          exact hwords u (List.mem_append_left _ (hperm.subset hu))
      · exact ih (List.pairwise_append.mp hapart).2.1
          (fun u hu => hwords u (List.mem_append_right _ hu)) share hshare

/-- **The chunks of each path of each rank are laid out.** -/
theorem partitionByChunks_laid {requests : List FileChunks} {n : Int} {shares : List Share}
    (h : partitionByChunks requests n = .ok shares) (hapart : NoOverlap (allUnits requests))
    (hwords : ∀ u ∈ allUnits requests, u.offset + u.size < 2 ^ 64) :
    ∀ share ∈ shares, ∀ e ∈ share, Laid e.1.pairs := by
  unfold partitionByChunks at h
  split at h
  · simp at h
  · next hn =>
      split at h
      · rw [← Except.ok.inj h]
        intro share hshare e he
        rw [(List.mem_replicate.mp hshare).2] at he
        simp at he
      · simp only at h
        rw [← Except.ok.inj h]
        have hperm := (dealAll_perm WorkUnit.size (show 0 < n.toNat by omega)
          (sortBy (fun u => OrderDual.toDual u.size) (allUnits requests))).trans (sortBy_perm _ _)
        exact rebuild_laid (hapart.perm hperm.symm) (fun u hu => hwords u (hperm.subset hu))

/-! ## §3. The files of a request. -/

/-- What the loop of `next_request` takes from the queue are slices of its
files. -/
theorem pack_slices (memoryLimit : Nat) (q : List FileChunksIterator) (request : FilesRequest)
    (memorySize : Nat) :
    (∀ file ∈ (pack memoryLimit q request memorySize).2.files, file ∈ request.files ∨
      ∃ e ∈ q, ∃ start stop, file = e.file.slice start stop) ∧
    ∀ e' ∈ (pack memoryLimit q request memorySize).1, ∃ e ∈ q, e'.file = e.file := by
  induction q, request, memorySize using pack.induct memoryLimit with
  | case1 request memorySize =>
      rw [pack]
      exact ⟨fun file hfile => Or.inl hfile, by simp⟩
  | case2 request memorySize it rest chunks it' hnone hend ih =>
      rw [pack_cons, if_pos hnone, if_pos hend]
      refine ⟨fun file hfile => ?_, fun e' he' => ?_⟩
      · rcases ih.1 file hfile with hold | ⟨e, he, hslice⟩
        · exact Or.inl hold
        · exact Or.inr ⟨e, List.mem_cons_of_mem _ he, hslice⟩
      · obtain ⟨e, he, hsame⟩ := ih.2 e' he'
        exact ⟨e, List.mem_cons_of_mem _ he, hsame⟩
  | case3 request memorySize it rest chunks it' hnone hend =>
      rw [pack_cons, if_pos hnone, if_neg hend]
      refine ⟨fun file hfile => Or.inl hfile, fun e' he' => ?_⟩
      rcases List.mem_cons.mp he' with rfl | he'
      · exact ⟨it, List.mem_cons_self, rfl⟩
      · exact ⟨e', List.mem_cons_of_mem _ he', rfl⟩
  | case4 request memorySize it rest chunks it' hsome ih =>
      rw [pack_cons, if_neg hsome]
      -- the queue that is left has the files of the queue before
      have hleft : ∀ e ∈ (if it'.isFinished = true then rest else it' :: rest),
          ∃ e₀ ∈ it :: rest, e.file = e₀.file := by
        intro e he
        split at he
        · exact ⟨e, List.mem_cons_of_mem _ he, rfl⟩
        · rcases List.mem_cons.mp he with rfl | he
          · exact ⟨it, List.mem_cons_self, rfl⟩
          · exact ⟨e, List.mem_cons_of_mem _ he, rfl⟩
      refine ⟨fun file hfile => ?_, fun e' he' => ?_⟩
      · rcases ih.1 file hfile with hold | ⟨e, he, start, stop, rfl⟩
        · rcases List.mem_append.mp hold with hold | hnew
          · exact Or.inl hold
          · refine Or.inr ⟨it, List.mem_cons_self, _, _, List.mem_singleton.mp hnew⟩
        · obtain ⟨e₀, he₀, hsame⟩ := hleft e he
          exact Or.inr ⟨e₀, he₀, start, stop, by rw [hsame]⟩
      · obtain ⟨e, he, hsame⟩ := ih.2 e' he'
        obtain ⟨e₀, he₀, hsame₀⟩ := hleft e he
        exact ⟨e₀, he₀, hsame.trans hsame₀⟩

theorem nextRequest_packed {it it' : FilesRequestsIterator} {request : FilesRequest}
    (h : it.nextRequest = (some request, it')) :
    request = (pack it.memoryLimit it.q FilesRequest.new 0).2 ∧
      it'.q = (pack it.memoryLimit it.q FilesRequest.new 0).1 := by
  unfold FilesRequestsIterator.nextRequest at h
  split at h
  · simp at h
  · simp only at h
    obtain ⟨hrequest, rfl⟩ := Prod.mk.inj h
    split at hrequest
    · simp at hrequest
    · exact ⟨(Option.some.inj hrequest).symm, rfl⟩

/-- One call of `next_request`. -/
theorem nextRequest_slices {it it' : FilesRequestsIteratorWithBuffer} {request : FilesRequest}
    (h : it.nextRequest = (some request, it')) :
    request.rangeDsts = running it.bufferAddress request.flatSizes ∧
    it'.bufferAddress = it.bufferAddress ∧
    (∀ file ∈ request.files, ∃ e ∈ it.filesRequestsIterator.q, ∃ start stop,
      file = e.file.slice start stop) ∧
    ∀ e' ∈ it'.filesRequestsIterator.q, ∃ e ∈ it.filesRequestsIterator.q, e'.file = e.file := by
  obtain ⟨hslices, hqueue⟩ := pack_slices it.filesRequestsIterator.memoryLimit
    it.filesRequestsIterator.q FilesRequest.new 0
  unfold FilesRequestsIteratorWithBuffer.nextRequest at h
  rcases hinner : it.filesRequestsIterator.nextRequest with ⟨_ | packed, iterator⟩
  · rw [hinner] at h
    simp at h
  · rw [hinner] at h
    simp only at h
    split at h
    · simp at h
    · obtain ⟨hpacked, hq⟩ := nextRequest_packed hinner
      obtain ⟨hrequest, rfl⟩ := Prod.mk.inj h
      obtain rfl := Option.some.inj hrequest
      refine ⟨rfl, rfl, fun file hfile => ?_, fun e' he' => ?_⟩
      · rw [show _ = packed.files from rfl, hpacked] at hfile
        rcases hslices file hfile with hnew | hslice
        · simp [FilesRequest.new] at hnew
        · exact hslice
      · rw [show _ = iterator.q from rfl, hq] at he'
        exact hqueue e' he'

/-- **Every request**: slices of the files, laid out back to back. -/
theorem requests_slices {it : FilesRequestsIteratorWithBuffer}
    {served : List (FilesRequest × FilesRequestsIteratorWithBuffer)} (h : Requests it served) :
    ∀ s ∈ served, s.1.rangeDsts = running it.bufferAddress s.1.flatSizes ∧
      ∀ file ∈ s.1.files, ∃ e ∈ it.filesRequestsIterator.q, ∃ start stop,
        file = e.file.slice start stop := by
  induction h with
  | done _ => simp
  | @next it request it' served hnext _ ih =>
      obtain ⟨hdsts, haddress, hslices, hqueue⟩ := nextRequest_slices hnext
      intro s hs
      rcases List.mem_cons.mp hs with rfl | hs
      · exact ⟨hdsts, hslices⟩
      · obtain ⟨hdsts', hslices'⟩ := ih s hs
        rw [haddress] at hdsts'
        refine ⟨hdsts', fun file hfile => ?_⟩
        obtain ⟨e, he, start, stop, rfl⟩ := hslices' file hfile
        obtain ⟨e₀, he₀, hsame⟩ := hqueue e he
        exact ⟨e₀, he₀, start, stop, by rw [hsame]⟩

theorem slice_pairs_sublist (file : FileChunks) (start stop : Nat) :
    (file.slice start stop).pairs.Sublist file.pairs := by
  rw [slice_pairs]
  exact (List.take_sublist _ _).trans (List.drop_sublist _ _)

/-! ## §4. The runs. -/

/-- Offset and size of a native range. -/
def rangePair (range : ReadRange) : Nat × Nat := (range.offset, range.size)

theorem zipWith_readRange_pairs {pairs : List (Nat × Nat)} {dsts : List Nat}
    (hlen : pairs.length = dsts.length) (hwords : ∀ pair ∈ pairs, pair.1 + pair.2 < 2 ^ 64) :
    (List.zipWith readRange pairs dsts).map rangePair = pairs := by
  induction pairs generalizing dsts with
  | nil => rfl
  | cons pair pairs ih =>
      cases dsts with
      | nil => simp at hlen
      | cons dst dsts =>
          have hpair := hwords pair List.mem_cons_self
          rw [List.zipWith_cons_cons, List.map_cons, ih (by simpa using hlen)
            (fun p hp => hwords p (List.mem_cons_of_mem _ hp))]
          unfold rangePair readRange
          simp only
          rw [wrap_of_lt (by omega), wrap_of_lt (by omega)]

/-- **Back to back in the buffer**, neighbours are adjacent in both as soon
as they are in the file. -/
theorem laid_neighbours {pairs : List (Nat × Nat)} {cursor : Nat}
    (hwords : ∀ pair ∈ pairs, pair.1 + pair.2 < 2 ^ 64)
    (hdsts : ∀ dst ∈ running cursor (pairs.map Prod.snd), dst < 2 ^ 64) :
    (List.zipWith readRange pairs (running cursor (pairs.map Prod.snd))).IsChain
      (fun a b => BothAdjacent a b ↔ Ends (rangePair a) (rangePair b)) := by
  induction pairs generalizing cursor with
  | nil => exact List.IsChain.nil
  | cons a pairs ih =>
      have htail := @ih (cursor + a.2) (fun p hp => hwords p (List.mem_cons_of_mem _ hp))
        (fun dst hdst => hdsts dst (List.mem_cons_of_mem _ hdst))
      cases pairs with
      | nil => exact List.IsChain.singleton _
      | cons b pairs =>
          have ha := hwords a List.mem_cons_self
          have hb := hwords b (List.mem_cons_of_mem _ List.mem_cons_self)
          have hcursor : cursor < 2 ^ 64 := hdsts _ List.mem_cons_self
          have hnext : cursor + a.2 < 2 ^ 64 :=
            hdsts _ (List.mem_cons_of_mem _ List.mem_cons_self)
          refine List.isChain_cons_cons.mpr ⟨?_, htail⟩
          unfold BothAdjacent Ends rangePair readRange
          simp only
          rw [wrap_of_lt (show a.1 < 2 ^ 64 by omega), wrap_of_lt (show a.2 < 2 ^ 64 by omega),
            wrap_of_lt ha, wrap_of_lt (show b.1 < 2 ^ 64 by omega), wrap_of_lt hcursor,
            wrap_of_lt hnext]
          simp

/-- In any order, and wherever they go, ranges merge only where one ends
where the other starts. -/
theorem runs_any_order {ranges : List ReadRange}
    (hwords : ∀ range ∈ ranges, range.offset + range.size < 2 ^ 64) :
    (runs Ends (ranges.map rangePair)).length ≤ (runs BothAdjacent ranges).length := by
  rw [runs_map]
  have hsame : runs (fun a b => Ends (rangePair a) (rangePair b)) ranges
      = runs (fun a b => wrap (a.offset + a.size) = b.offset) ranges := by
    apply runs_congr
    apply List.Pairwise.isChain
    apply List.pairwise_of_forall_mem_list
    intro a ha b _
    unfold Ends rangePair
    simp only
    rw [wrap_of_lt (hwords a ha)]
  rw [hsame]
  exact runs_mono (fun a b hab => hab.1) ranges

/-- **As few runs as can be**: the transfers made of a file's ranges. -/
structure Optimal (ranges : List ReadRange) (transfers : List ContiguousTransfer) : Prop where
  /-- two ranges are in one run exactly when a chain of ranges connects
  them, each ending where the next starts -/
  chains : ∀ i j, i < ranges.length → j < ranges.length →
    ((∃ t ∈ transfers, (t.rangeSpan.start ≤ i ∧ i < t.rangeSpan.stop) ∧
        t.rangeSpan.start ≤ j ∧ j < t.rangeSpan.stop) ↔
      Chained Ends (ranges.map rangePair) i j)
  /-- in no order do these ranges make fewer runs, wherever they go -/
  fewest : ∀ request ts total f (file : FileRanges), coalesce request = .ok (ts, total) →
    request[f]? = some file → (file.ranges.map rangePair).Perm (ranges.map rangePair) →
    transfers.length ≤ (transfersOf f ts).length

/-- A file whose ranges are laid out. -/
theorem optimal_of_laid {pairs : List (Nat × Nat)} (h : Laid pairs) {cursor : Nat}
    (hdsts : ∀ dst ∈ running cursor (pairs.map Prod.snd), dst < 2 ^ 64)
    {transfers : List ContiguousTransfer}
    (hruns : transfers.map ContiguousTransfer.rangeSpan = runs BothAdjacent
      (List.zipWith readRange pairs (running cursor (pairs.map Prod.snd)))) :
    Optimal (List.zipWith readRange pairs (running cursor (pairs.map Prod.snd))) transfers := by
  have hlen : pairs.length = (running cursor (pairs.map Prod.snd)).length := by
    rw [running_length, List.length_map]
  have hpairs := zipWith_readRange_pairs hlen h.words
  set ranges := List.zipWith readRange pairs (running cursor (pairs.map Prod.snd)) with hranges
  have hcount : ranges.length = pairs.length := by
    rw [← List.length_map (f := rangePair), hpairs]
  have hspans : transfers.map ContiguousTransfer.rangeSpan = runs Ends pairs := by
    rw [hruns, runs_congr (laid_neighbours h.words hdsts), ← runs_map, hpairs]
  have hordered := chainOrdered_of_sorted h.sorted h.apart
  refine ⟨fun i j hi hj => ?_, fun request ts total f file hcoalesce hfile hperm => ?_⟩
  · rw [hpairs, ← hordered.same_run_iff (hcount ▸ hi) (hcount ▸ hj), ← hspans]
    simp only [List.mem_map, exists_exists_and_eq_and]
  · have hother := congrArg List.length (coalesce_runs hcoalesce hfile)
    rw [List.length_map] at hother
    rw [hother]
    have hwords : ∀ range ∈ file.ranges, range.offset + range.size < 2 ^ 64 := by
      intro range hrange
      have hmem := hperm.subset (List.mem_map_of_mem (f := rangePair) hrange)
      rw [hpairs] at hmem
      exact h.words _ hmem
    have hfewest := hordered.fewest (hpairs ▸ hperm)
    rw [← hspans, List.length_map] at hfewest
    exact hfewest.trans (runs_any_order hwords)

/-! ## §5. From the files to the transfers. -/

theorem pairs_snd (file : FileChunks) : file.pairs.map Prod.snd = file.sizes := by
  unfold FileChunks.pairs
  exact List.map_snd_zip (Nat.le_of_eq file.parallel.symm)

theorem nativeFiles_bytes (cursor : Nat) (files : List FileChunks)
    (hwords : ∀ file ∈ files, ∀ size ∈ file.sizes, size < 2 ^ 64) :
    requestBytes (nativeFiles cursor files) = (files.flatMap FileChunks.sizes).sum := by
  induction files generalizing cursor with
  | nil => rfl
  | cons file files ih =>
      have hzip : ∀ (pairs : List (Nat × Nat)) (dsts : List Nat), pairs.length = dsts.length →
          (∀ pair ∈ pairs, pair.2 < 2 ^ 64) →
          rangeBytes (List.zipWith readRange pairs dsts) = (pairs.map Prod.snd).sum := by
        intro pairs
        induction pairs with
        | nil => exact fun _ _ _ => rfl
        | cons pair pairs ih =>
            intro dsts hlen hsmall
            cases dsts with
            | nil => simp at hlen
            | cons dst dsts =>
                rw [List.zipWith_cons_cons, rangeBytes_cons, ih dsts (by simpa using hlen)
                  (fun p hp => hsmall p (List.mem_cons_of_mem _ hp)), List.map_cons, List.sum_cons]
                unfold readRange
                simp only
                rw [wrap_of_lt (hsmall pair List.mem_cons_self)]
      have hfile : ∀ pair ∈ file.pairs, pair.2 < 2 ^ 64 := by
        intro pair hpair
        have hmem := List.mem_map_of_mem (f := Prod.snd) hpair
        rw [pairs_snd] at hmem
        exact hwords file List.mem_cons_self _ hmem
      unfold nativeFiles
      rw [requestBytes_cons, ih _ (fun f hf => hwords f (List.mem_cons_of_mem _ hf)),
        hzip _ _ (by rw [running_length, pairs_length]) hfile, pairs_snd, List.flatMap_cons,
        List.sum_append]

theorem partitionByChunks_ids {requests : List FileChunks} {n : Int} {shares : List Share}
    (h : partitionByChunks requests n = .ok shares) {share : Share} (hshare : share ∈ shares) :
    ((share.map Prod.fst).map FileChunks.id).Nodup := by
  have hn : 0 < n := by
    by_contra hle
    unfold partitionByChunks at h
    rw [if_pos (by omega)] at h
    simp at h
  obtain ⟨k, rfl⟩ := Int.eq_ofNat_of_zero_le hn.le
  obtain ⟨shares', hok, hspec⟩ := partitionByChunks_spec requests (show 1 ≤ k by omega)
  rw [hok] at h
  obtain rfl := Except.ok.inj h
  rw [List.map_map]
  exact hspec.ids.sublist ((List.sublist_flatten_of_mem hshare).map _)

/-- **Coalescing is optimal across the layers**: for every set of chunks
that do not overlap, every number of ranks and every memory limit, each file
of each native request becomes the fewest runs possible. -/
theorem coalescing_optimal (requests : List FileChunks) (n : Int) (shares : List Share)
    (hshares : partitionByChunks requests n = .ok shares)
    (hapart : NoOverlap (allUnits requests))
    (hwords : ∀ u ∈ allUnits requests, u.offset + u.size < 2 ^ 64)
    (share : Share) (hshare : share ∈ shares)
    (bufferAddress : Nat) (mode : MemoryCapMode) (limit : Option Int)
    (it : FilesRequestsIteratorWithBuffer)
    (hit : FilesRequestsIteratorWithBuffer.withMemoryCap bufferAddress mode (share.map Prod.fst)
      limit = .ok it)
    (hbuffer : it.bufferAddress + it.bufferSize < 2 ^ 64)
    (served : List (FilesRequest × FilesRequestsIteratorWithBuffer)) (hserved : Requests it served)
    (s : FilesRequest × FilesRequestsIteratorWithBuffer) (hs : s ∈ served)
    (files : List FileRanges) (hnative : nativeRequest s.1 = .ok files) :
    ∃ ts total, coalesce files = .ok (ts, total) ∧ ∀ f (file : FileRanges), files[f]? = some file →
      Optimal file.ranges (transfersOf f ts) := by
  have hlaid := partitionByChunks_laid hshares hapart hwords share hshare
  obtain ⟨size, rfl, hlargest⟩ := withMemoryCap_new hit
  have hplaced := (partitions_of_coherent
    (new_coherent bufferAddress size (partitionByChunks_ids hshares hshare) hlargest)).placed
    served hserved s hs
  obtain ⟨hdsts, hslices⟩ := requests_slices hserved s hs
  obtain ⟨rfl, hsmall⟩ := nativeRequest_eq hdsts hnative
  -- the files of the request are laid out as their shares are
  have hfiles : ∀ file ∈ s.1.files, Laid file.pairs := by
    intro file hfile
    obtain ⟨e, he, start, stop, rfl⟩ := hslices file hfile
    obtain ⟨chunks, hchunks, rfl⟩ := List.mem_map.mp he
    obtain ⟨entry, hentry, rfl⟩ := List.mem_map.mp hchunks
    exact (hlaid entry hentry).sublist (slice_pairs_sublist _ _ _)
  have hbytes := nativeFiles_bytes bufferAddress s.1.files (fun file hfile size hsize => by
    rw [← pairs_snd] at hsize
    obtain ⟨pair, hpair, rfl⟩ := List.mem_map.mp hsize
    have := (hfiles file hfile).words pair hpair
    omega)
  have htotal : requestBytes (nativeFiles bufferAddress s.1.files) < 2 ^ 64 := by
    rw [hbytes]
    have hle : (s.1.files.flatMap FileChunks.sizes).sum ≤ size := hplaced.total
    have hlt : bufferAddress + size < 2 ^ 64 := hbuffer
    omega
  obtain ⟨ts, hcoalesce, -⟩ := coalesce_spec htotal
  refine ⟨ts, _, hcoalesce, fun f file hfile => ?_⟩
  have hruns := coalesce_runs hcoalesce hfile
  obtain ⟨chunks, start, hget, hranges, hmem⟩ := nativeFiles_get hfile
  rw [hranges, ← pairs_snd] at hruns ⊢
  refine optimal_of_laid (hfiles chunks (List.mem_of_getElem? hget)) (fun dst hdst => ?_) hruns
  rw [pairs_snd] at hdst
  apply hsmall
  rw [hdsts]
  exact hmem dst hdst

/-- Five chunks of two paths, one of them empty, in no order. -/
def scattered : List FileChunks :=
  [⟨3, "a", [8, 0, 4], [2, 4, 0], rfl⟩, ⟨5, "b", [6], [1], rfl⟩, ⟨9, "a", [4], [4], rfl⟩]

/-- The share of a single rank. -/
def gathered : Share :=
  [(⟨0, "a", [0, 4, 4, 8], [4, 0, 4, 2], rfl⟩, [(3, 1, 4), (3, 2, 0), (9, 0, 4), (3, 0, 2)]),
    (⟨1, "b", [6], [1], rfl⟩, [(5, 0, 1)])]

/-- Its first request, for a buffer of ten bytes. -/
def firstRequest : FilesRequest :=
  ⟨[⟨0, "a", [0, 4, 4, 8], [4, 0, 4, 2], rfl⟩], [0], 4, [100, 104, 104, 108]⟩

theorem coalescing_optimal_scattered : ∃ files ts total,
    nativeRequest firstRequest = .ok files ∧ coalesce files = .ok (ts, total) ∧
    ∀ f (file : FileRanges), files[f]? = some file → Optimal file.ranges (transfersOf f ts) := by
  have hshares : partitionByChunks scattered 1 = .ok [gathered] := by rfl
  set it := FilesRequestsIteratorWithBuffer.new 100 10 (gathered.map Prod.fst) with hit
  have hcap : FilesRequestsIteratorWithBuffer.withMemoryCap 100 .limited (gathered.map Prod.fst)
      (some 10) = .ok it := by rfl
  have hcoherent : Coherent it :=
    new_coherent 100 10 (partitionByChunks_ids hshares List.mem_cons_self) (by decide)
  have hfirst : it.nextRequest.1 = some firstRequest := by decide +kernel
  obtain ⟨served, hserved⟩ := requests_exist hcoherent
  cases hserved with
  | done hnone =>
      rw [hfirst] at hnone
      simp at hnone
  | @next _ request it' served hnext hrest =>
      rw [hnext] at hfirst
      obtain rfl := Option.some.inj hfirst
      have hnative : nativeRequest firstRequest
          = .ok (nativeFiles 100 firstRequest.files) := by rfl
      obtain ⟨ts, total, hcoalesce, hoptimal⟩ := coalescing_optimal scattered 1 [gathered] hshares
        (by unfold NoOverlap Apart; decide) (by decide) gathered List.mem_cons_self 100 .limited
        (some 10) it hcap (by decide) _ (Requests.next hnext hrest) _ List.mem_cons_self _ hnative
      exact ⟨_, ts, total, hnative, hcoalesce, hoptimal⟩

end ModelStreamer.Distributed
