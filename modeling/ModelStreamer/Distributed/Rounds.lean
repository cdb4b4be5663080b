/-
  ModelStreamer.Distributed.Rounds
  ────────────────────────────────
  **THE ROUNDS OF A DISTRIBUTED STREAM.**

  Every rank follows the script: where it is in its loops tells which calls
  it has completed and what it has yielded.

    • `Along`, `along_act` — a rank on the script, and its next step,
    • `broadcast_agreement` — all ranks enter matching collectives, yield the
      same chunks, every chunk once, and stop in the same round, in every
      interleaving; no rank raises, and none gets stuck.
-/
import ModelStreamer.Distributed.Script

namespace ModelStreamer.Distributed

open ModelStreamer.Lib ModelStreamer.FileStreamer

namespace Session

variable {S : Session} {requests : List FileChunks}

/-! ## §1. One rank. -/

theorem isOwn_iff {r : S.Rank} {b : Nat} (hb : b < S.globalRanks.length) :
    (S.streamer r).isOwn b = true ↔ (⟨b, hb⟩ : S.Rank) = r := by
  unfold Streamer.isOwn streamer
  rw [decide_eq_true_iff, List.getD_eq_getElem?_getD, List.getElem?_eq_getElem hb]
  constructor
  · intro hsame
    exact Fin.ext ((List.Nodup.getElem_inj_iff S.distinct).mp hsame)
  · rintro rfl
    rfl

theorem globalRank_getD {r : S.Rank} {b : Nat} (hb : b < S.globalRanks.length) :
    (S.streamer r).localGroupGlobalRanks.getD b 0 = S.globalRanks[b] := by
  show S.globalRanks.getD b 0 = _
  rw [List.getD_eq_getElem?_getD, List.getElem?_eq_getElem hb]
  rfl

/-- A rank after `k` fillings of its buffer. -/
structure Holds (S : Session) (r : S.Rank) (k : Nat) (v : Vars) : Prop where
  rounds : v.rounds = k
  batch : v.batch = S.batchAt r k
  table : v.receivedMetadata.length = S.maxChunksPerBatch + 1
  bytesize : S.bufferBytesize ≤ v.receivedBuffer.length

/-- What it knows of the turn it is in: the table of the rank whose turn it
is. -/
def Knows (S : Session) (r q : S.Rank) (k : Nat) (v : Vars) : Prop :=
  q = r ∨ v.receivedMetadata = (S.batchAt q (k + 1)).batchMetadata

/-- And its data. -/
def HasData (S : Session) (r q : S.Rank) (k : Nat) (v : Vars) : Prop :=
  q = r ∨ v.receivedMetadata = (S.batchAt q (k + 1)).batchMetadata ∧
    v.receivedBuffer.take (S.batchAt q (k + 1)).currentDataSize
      = (S.batchAt q (k + 1)).dataBuffer.take (S.batchAt q (k + 1)).currentDataSize

/-- The two counters after `b` turns of round `k`. -/
def Counted (S : Session) (k b : Nat) (v : Vars) : Prop :=
  v.chunksToRead + S.sentBefore k b = S.left k ∧ v.totalBroadcastChunks = S.sentBefore k b

/-- **A rank on the script**, by where it is. -/
def Along (S : Session) (rounds : Nat) (r : S.Rank) (calls : List (Nat × Tensor))
    (out : List Output) (v : Vars) : Prop :=
  match v.pc with
  | .loop => ∃ k, k ≤ rounds ∧ S.Holds r k v ∧ calls = S.upTo S.turnCalls k 0 ∧
      out = S.upTo S.turnOutputs k 0 ∧ v.chunksToRead = S.left k
  | .turn b => ∃ k, k < rounds ∧ b ≤ S.globalRanks.length ∧ S.Holds r (k + 1) v ∧
      calls = S.upTo S.turnCalls k b ∧ out = S.upTo S.turnOutputs k b ∧ S.Counted k b v
  | .data b => ∃ k, ∃ hb : b < S.globalRanks.length, k < rounds ∧ S.Holds r (k + 1) v ∧
      calls = S.upTo S.turnCalls k b ++ [S.header ⟨b, hb⟩ k] ∧ out = S.upTo S.turnOutputs k b ∧
      S.Counted k (b + 1) v ∧ 0 < S.count ⟨b, hb⟩ k ∧ S.Knows r ⟨b, hb⟩ k v
  | .yielding b j => ∃ k, ∃ hb : b < S.globalRanks.length, k < rounds ∧ S.Holds r (k + 1) v ∧
      calls = S.upTo S.turnCalls k (b + 1) ∧
      out = S.upTo S.turnOutputs k b ++ (S.turnOutputs ⟨b, hb⟩ k).take j ∧
      S.Counted k (b + 1) v ∧ 0 < S.count ⟨b, hb⟩ k ∧ j ≤ S.count ⟨b, hb⟩ k ∧
      S.HasData r ⟨b, hb⟩ k v
  | .finished => v.rounds = rounds ∧ calls = S.upTo S.turnCalls rounds 0 ∧
      out = S.upTo S.turnOutputs rounds 0
  | .raised _ => False

/-- The steps of a rank that are still to come, at most. -/
def todo (S : Session) (rounds : Nat) (v : Vars) : Nat :=
  let turns b := (S.globalRanks.length - b) * (S.maxChunksPerBatch + 3)
  let before := (rounds - v.rounds) * (turns 0 + 4)
  match v.pc with
  | .loop => before + 1
  | .turn b => before + turns b + 2
  | .data b => before + turns (b + 1) + S.maxChunksPerBatch + 4
  | .yielding b j => before + turns (b + 1) + (S.maxChunksPerBatch - j) + 3
  | .finished => 0
  | .raised _ => 0

/-- What the script allows a rank to do next. -/
def Allows (S : Session) (rounds : Nat) (r : S.Rank) (calls : List (Nat × Tensor))
    (out : List Output) (v : Vars) : Act Nat Tensor Output Vars → Prop
  | .silent next => S.Along rounds r calls out next ∧ S.todo rounds next < S.todo rounds v
  | .emit output next =>
      S.Along rounds r calls (out ++ [output]) next ∧ S.todo rounds next < S.todo rounds v
  | .call source tensor resume => ∃ sent, calls ++ [(source, sent)] <+: S.upTo S.turnCalls rounds 0 ∧
      sent.shape = tensor.shape ∧ (S.globalRanks.get r = source → tensor = sent) ∧
      (∃ q : S.Rank, S.globalRanks.get q = source) ∧
      S.Along rounds r (calls ++ [(source, sent)]) out (resume sent) ∧
      S.todo rounds (resume sent) < S.todo rounds v
  | .halt => calls = S.upTo S.turnCalls rounds 0 ∧ out = S.upTo S.turnOutputs rounds 0

/-! ## §2. A rank's next step. -/

section Steps

variable {rounds : Nat} {r : S.Rank} {calls : List (Nat × Tensor)} {out : List Output} {v : Vars}

theorem along_loop (h : S.Serves requests)
    (hrounds : S.left rounds = 0 ∧ ∀ k, k < rounds → 0 < S.left k) (hpc : v.pc = .loop)
    (halong : S.Along rounds r calls out v) :
    S.Allows rounds r calls out v (act (S.streamer r) v) := by
  unfold Along at halong
  rw [hpc] at halong
  obtain ⟨k, hk, hholds, hcalls, hout, hchunks⟩ := halong
  unfold act
  rw [hpc]
  simp only
  split
  · next hpos =>
      -- there are rounds to go, since chunks are left
      have hlt : k < rounds := by
        rcases Nat.lt_or_eq_of_le hk with hlt | rfl
        · exact hlt
        · rw [hchunks, hrounds.1] at hpos
          omega
      obtain ⟨-, placed, hok, -⟩ := batchAt_succ h r k
      rw [hholds.batch, hok]
      refine ⟨?_, ?_⟩
      · refine ⟨k, hlt, Nat.zero_le _, ⟨?_, rfl, hholds.table, hholds.bytesize⟩, hcalls, hout, ?_⟩
        · show v.rounds + 1 = _
          rw [hholds.rounds]
        · refine ⟨?_, rfl⟩
          show v.chunksToRead + ((0 : Nat) : Int) = _
          rw [hchunks]
          simp
      · unfold todo
        simp only [hpc, hholds.rounds]
        obtain ⟨d, hd⟩ : ∃ d, rounds - k = d + 1 := ⟨rounds - k - 1, by omega⟩
        have hd' : rounds - (k + 1) = d := by omega
        rw [hd, hd', Nat.add_mul]
        omega
  · next hzero =>
      -- no chunks are left, so all rounds are done
      have hend : k = rounds := by
        by_contra hne
        have := hrounds.2 k (by omega)
        omega
      subst hend
      refine ⟨⟨hholds.rounds, hcalls, hout⟩, ?_⟩
      unfold todo
      simp only [hpc]
      omega

theorem along_finished (hpc : v.pc = .finished) (halong : S.Along rounds r calls out v) :
    S.Allows rounds r calls out v (act (S.streamer r) v) := by
  unfold Along at halong
  rw [hpc] at halong
  unfold act
  rw [hpc]
  exact halong.2

/-- One turn is worth more than what is in it. -/
theorem turns_succ {b : Nat} (hb : b < S.globalRanks.length) :
    (S.globalRanks.length - b) * (S.maxChunksPerBatch + 3)
      = (S.globalRanks.length - (b + 1)) * (S.maxChunksPerBatch + 3)
        + (S.maxChunksPerBatch + 3) := by
  rw [← Nat.succ_mul]
  congr 1
  omega

/-- Behind the last turn. -/
theorem along_turned (h : S.Serves requests) (hrounds : ∀ k, k < rounds → 0 < S.left k)
    (hpc : v.pc = .turn S.globalRanks.length) (halong : S.Along rounds r calls out v) :
    S.Allows rounds r calls out v (act (S.streamer r) v) := by
  unfold Along at halong
  rw [hpc] at halong
  obtain ⟨k, hk, -, hholds, hcalls, hout, hchunks, htotal⟩ := halong
  have hleft := left_succ h k
  have hsent := sent_pos h (hrounds k hk)
  unfold act
  rw [hpc]
  show Allows _ _ _ _ _ _ (if S.globalRanks.length < S.globalRanks.length then _ else _)
  rw [if_neg (Nat.lt_irrefl _), if_neg (by omega)]
  refine ⟨⟨k + 1, hk, ⟨hholds.rounds, hholds.batch, hholds.table, hholds.bytesize⟩, ?_, ?_, ?_⟩, ?_⟩
  · rw [hcalls, upTo_round]
  · rw [hout, upTo_round]
  · show v.chunksToRead = _
    omega
  · unfold todo
    simp only [hpc]
    omega

/-- Behind the table of a turn. -/
theorem along_header {k b : Nat} (hk : k < rounds) (hb : b < S.globalRanks.length)
    {next : Vars} (hholds : S.Holds r (k + 1) next) (hcounted : S.Counted k (b + 1) next)
    (hknows : S.Knows r ⟨b, hb⟩ k next)
    (hpc : next.pc = if 0 < S.count ⟨b, hb⟩ k then .data b else .turn (b + 1)) :
    S.Along rounds r (S.upTo S.turnCalls k b ++ [S.header ⟨b, hb⟩ k]) (S.upTo S.turnOutputs k b)
      next := by
  unfold Along
  rw [hpc]
  by_cases hpos : 0 < S.count ⟨b, hb⟩ k
  · rw [if_pos hpos]
    exact ⟨k, hb, hk, hholds, rfl, rfl, hcounted, hpos, hknows⟩
  · rw [if_neg hpos]
    refine ⟨k, hk, hb, hholds, ?_, ?_, hcounted⟩
    · rw [upTo_turn _ hb]
      unfold turnCalls
      rw [if_neg hpos]
    · rw [upTo_turn _ hb]
      unfold turnOutputs
      rw [Nat.eq_zero_of_not_pos hpos, List.range_zero, List.map_nil, List.append_nil]

theorem todo_header {k b : Nat} (hb : b < S.globalRanks.length) (hpc : v.pc = .turn b)
    {next : Vars} (hrounds : next.rounds = v.rounds)
    (hnext : next.pc = if 0 < S.count ⟨b, hb⟩ k then .data b else .turn (b + 1)) :
    S.todo rounds next < S.todo rounds v := by
  have hturn := turns_succ hb
  unfold todo
  rw [hnext, hpc, hrounds]
  by_cases hpos : 0 < S.count ⟨b, hb⟩ k
  · rw [if_pos hpos]
    simp only
    omega
  · rw [if_neg hpos]
    simp only
    omega

/-- **The table of a turn.** -/
theorem along_turn (h : S.Serves requests) {b : Nat} (hb : b < S.globalRanks.length)
    (hpc : v.pc = .turn b) (halong : S.Along rounds r calls out v) :
    S.Allows rounds r calls out v (act (S.streamer r) v) := by
  unfold Along at halong
  rw [hpc] at halong
  obtain ⟨k, hk, -, hholds, rfl, rfl, hchunks, htotal⟩ := halong
  have hscript : S.upTo S.turnCalls k b ++ [S.header ⟨b, hb⟩ k] <+: S.upTo S.turnCalls rounds 0 := by
    refine List.IsPrefix.trans ?_ (turn_before _ hk hb)
    apply (List.prefix_append_right_inj _).mpr
    unfold turnCalls
    exact List.cons_prefix_cons.mpr ⟨rfl, List.nil_prefix⟩
  have hsent := sentBefore_turn (k := k) hb
  unfold act
  rw [hpc]
  show Allows _ _ _ _ _ _ (if b < S.globalRanks.length then _ else _)
  rw [if_pos hb]
  simp only
  rw [globalRank_getD hb]
  by_cases hown : (⟨b, hb⟩ : S.Rank) = r
  case pos =>
    rw [if_pos ((isOwn_iff hb).mpr hown)]
    have hcount : v.batch.chunkCountInBatch = S.count ⟨b, hb⟩ k := by
      rw [hholds.batch, hown]
      rfl
    have hpc' : (sentMetadata v b).pc = if 0 < S.count ⟨b, hb⟩ k then .data b else .turn (b + 1) := by
      unfold sentMetadata
      rw [hcount]
    refine ⟨_, hscript, ?_, ?_, ⟨⟨b, hb⟩, rfl⟩, ?_, ?_⟩
    · rw [hholds.batch, hown]
    · intro _
      rw [hholds.batch, hown]
    · have hholds' : S.Holds r (k + 1) (sentMetadata v b) :=
        ⟨hholds.rounds, hholds.batch, hholds.table, hholds.bytesize⟩
      apply along_header hk hb hholds' ?_ (Or.inl hown) hpc'
      refine ⟨?_, ?_⟩
      · show v.chunksToRead - (v.batch.chunkCountInBatch : Int) + _ = _
        rw [hcount]
        omega
      · show v.totalBroadcastChunks + v.batch.chunkCountInBatch = _
        rw [hcount]
        omega
    · exact todo_header hb hpc rfl hpc'
  case neg =>
    rw [if_neg (fun hisOwn => hown ((isOwn_iff hb).mp hisOwn))]
    have hcount := header_count h ⟨b, hb⟩ k
    set table := (S.batchAt ⟨b, hb⟩ (k + 1)).batchMetadata with htable
    set q : S.Rank := ⟨b, hb⟩ with hq
    -- what is received is the table
    set next := gotMetadata v b (.int64 table) with hnext
    have hfields : next.rounds = v.rounds ∧ next.batch = v.batch ∧ next.receivedMetadata = table ∧
        next.receivedBuffer = v.receivedBuffer ∧
        next.chunksToRead = v.chunksToRead - S.count q k ∧
        next.totalBroadcastChunks = v.totalBroadcastChunks + S.count q k ∧
        next.pc = if 0 < S.count q k then .data b else .turn (b + 1) := by
      rw [hnext]
      unfold gotMetadata
      have hreceived : Vars.receivedCount { v with receivedMetadata := table } = S.count q k := hcount
      simp only [hreceived]
      split
      · next hzero =>
          rw [hzero]
          exact ⟨rfl, rfl, rfl, rfl, by simp, rfl, rfl⟩
      · next hpos =>
          exact ⟨rfl, rfl, rfl, rfl, rfl, rfl, (if_pos (Nat.pos_of_ne_zero hpos)).symm⟩
    obtain ⟨hround, hbatch, hmeta, hbuffer, hleft, hcounter, hpc'⟩ := hfields
    refine ⟨_, hscript, ?_, ?_, ⟨q, rfl⟩, ?_, ?_⟩
    · show (Dtype.int64, table.length * 4) = (Dtype.int64, v.receivedMetadata.length * 4)
      rw [hholds.table, table_length h]
    · intro hname
      exact absurd (Fin.ext ((List.Nodup.getElem_inj_iff S.distinct).mp hname)).symm hown
    · apply along_header hk hb ?_ ?_ (Or.inr hmeta) hpc'
      · refine ⟨?_, ?_, ?_, ?_⟩
        · rw [hround, hholds.rounds]
        · rw [hbatch, hholds.batch]
        · rw [hmeta]
          exact table_length h q k
        · rw [hbuffer]
          exact hholds.bytesize
      · refine ⟨?_, ?_⟩
        · rw [hleft]
          omega
        · rw [hcounter]
          omega
    · exact todo_header hb hpc hround hpc'

/-- **The data of a turn.** -/
theorem along_data (h : S.Serves requests) {b : Nat} (hpc : v.pc = .data b)
    (halong : S.Along rounds r calls out v) :
    S.Allows rounds r calls out v (act (S.streamer r) v) := by
  unfold Along at halong
  rw [hpc] at halong
  obtain ⟨k, hb, hk, hholds, rfl, rfl, hcounted, hpos, hknows⟩ := halong
  set q : S.Rank := ⟨b, hb⟩ with hq
  -- after the payload the turn has made all its calls
  have hcalls : S.upTo S.turnCalls k b ++ [S.header q k] ++ [S.payload q k]
      = S.upTo S.turnCalls k (b + 1) := by
    rw [upTo_turn _ hb, List.append_assoc]
    unfold turnCalls
    rw [if_pos hpos]
    rfl
  have hscript : S.upTo S.turnCalls k b ++ [S.header q k] ++ [S.payload q k]
      <+: S.upTo S.turnCalls rounds 0 := by
    rw [hcalls]
    exact upTo_before _ hk
  -- both sides go on at the first chunk to yield
  have hnext : ∀ next : Vars, next.pc = .yielding b 0 → S.Holds r (k + 1) next →
      S.Counted k (b + 1) next → S.HasData r q k next →
      S.Along rounds r (S.upTo S.turnCalls k b ++ [S.header q k] ++ [S.payload q k])
        (S.upTo S.turnOutputs k b) next ∧ S.todo rounds next < S.todo rounds v := by
    intro next hpc' hholds' hcounted' hdata
    refine ⟨?_, ?_⟩
    · unfold Along
      rw [hpc']
      refine ⟨k, hb, hk, hholds', hcalls, ?_, hcounted', hpos, Nat.zero_le _, hdata⟩
      rw [List.take_zero, List.append_nil]
    · unfold todo
      simp only [hpc', hpc, hholds'.rounds, hholds.rounds]
      omega
  unfold act
  rw [hpc]
  simp only
  rw [globalRank_getD hb]
  by_cases hown : q = r
  case pos =>
    rw [if_pos ((isOwn_iff hb).mpr hown)]
    obtain ⟨halong', htodo⟩ := hnext { v with pc := .yielding b 0 } rfl
      ⟨hholds.rounds, hholds.batch, hholds.table, hholds.bytesize⟩ hcounted (Or.inl hown)
    have hsame : Tensor.uint8 (v.batch.dataBuffer.take v.batch.currentDataSize)
        = (S.payload q k).2 := by
      rw [hholds.batch, hown]
      rfl
    exact ⟨(S.payload q k).2, hscript, by rw [hsame], fun _ => hsame, ⟨q, rfl⟩, halong', htodo⟩
  case neg =>
    rw [if_neg (fun hisOwn => hown ((isOwn_iff hb).mp hisOwn))]
    -- the header has come already, so the sizes agree
    have htable : v.receivedMetadata = (S.batchAt q (k + 1)).batchMetadata :=
      hknows.resolve_left hown
    have htotal : v.totalDataSize = (S.batchAt q (k + 1)).currentDataSize := by
      unfold Vars.totalDataSize Vars.receivedCount
      rw [htable, header_count h q k]
      exact last_row h hpos
    have hlen := payload_length h q k
    have hle := payload_le h q k
    have hbytesize := hholds.bytesize
    obtain ⟨halong', htodo⟩ := hnext (gotData v b (S.payload q k).2) rfl
      ⟨hholds.rounds, hholds.batch, hholds.table, by
        show S.bufferBytesize ≤ (_ ++ _ : List UInt8).length
        rw [List.length_append, List.length_drop]
        omega⟩ hcounted
      (Or.inr ⟨htable, by
        show List.take _ (_ ++ _) = _
        exact List.take_left' hlen⟩)
    refine ⟨(S.payload q k).2, hscript, ?_, ?_, ⟨q, rfl⟩, halong', htodo⟩
    · show (Dtype.uint8, List.length _) = (Dtype.uint8, List.length _)
      rw [hlen, List.length_take, htotal, Nat.min_eq_left (hle.trans hbytesize)]
    · -- two ranks of one name are one rank
      intro hname
      exact absurd (Fin.ext ((List.Nodup.getElem_inj_iff S.distinct).mp hname)).symm hown

/-- **The chunks of a turn.** -/
theorem along_yielding (h : S.Serves requests) {b j : Nat} (hpc : v.pc = .yielding b j)
    (halong : S.Along rounds r calls out v) :
    S.Allows rounds r calls out v (act (S.streamer r) v) := by
  unfold Along at halong
  rw [hpc] at halong
  obtain ⟨k, hb, hk, hholds, rfl, rfl, hcounted, hpos, hj, hdata⟩ := halong
  set q : S.Rank := ⟨b, hb⟩ with hq
  have hmax := count_le h q k
  -- one more chunk, and the end of the turn
  have hyield : ∀ output, j < S.count q k → (S.turnOutputs q k)[j]? = some output →
      S.Allows rounds r (S.upTo S.turnCalls k (b + 1))
        (S.upTo S.turnOutputs k b ++ (S.turnOutputs q k).take j) v
        (.emit output { v with pc := .yielding b (j + 1) }) := by
    intro output hlt hget
    refine ⟨⟨k, hb, hk, ⟨hholds.rounds, hholds.batch, hholds.table, hholds.bytesize⟩, rfl, ?_,
      hcounted, hpos, hlt, hdata⟩, ?_⟩
    · rw [List.take_add_one, hget, List.append_assoc]
      rfl
    · unfold todo
      simp only [hpc]
      omega
  have hend : ¬ j < S.count q k → S.Allows rounds r (S.upTo S.turnCalls k (b + 1))
      (S.upTo S.turnOutputs k b ++ (S.turnOutputs q k).take j) v
      (.silent { v with pc := .turn (b + 1) }) := by
    intro hge
    refine ⟨⟨k, hk, hb, ⟨hholds.rounds, hholds.batch, hholds.table, hholds.bytesize⟩, rfl, ?_,
      hcounted⟩, ?_⟩
    · rw [upTo_turn _ hb, List.take_of_length_le (by rw [turnOutputs_length]; omega)]
    · unfold todo
      simp only [hpc]
      omega
  unfold act
  rw [hpc]
  simp only
  by_cases hown : q = r
  case pos =>
    rw [if_pos ((isOwn_iff hb).mpr hown)]
    have hcount : v.batch.chunkCountInBatch = S.count q k := by
      rw [hholds.batch, hown]
      rfl
    rw [hcount]
    split
    · next hlt =>
        apply hyield _ hlt
        rw [hholds.batch, ← hown]
        exact yieldOf_received h hlt rfl
    · next hge => exact hend hge
  case neg =>
    rw [if_neg (fun hisOwn => hown ((isOwn_iff hb).mp hisOwn))]
    obtain ⟨htable, hbuffer⟩ := hdata.resolve_left hown
    have hcount : v.receivedCount = S.count q k := by
      unfold Vars.receivedCount
      rw [htable]
      exact header_count h q k
    have htotal : v.totalDataSize = (S.batchAt q (k + 1)).currentDataSize := by
      unfold Vars.totalDataSize
      rw [hcount, htable]
      exact last_row h hpos
    rw [hcount]
    split
    · next hlt =>
        apply hyield _ hlt
        rw [htable, htotal]
        apply yieldOf_received h hlt
        rw [List.take_take, Nat.min_self]
        exact hbuffer
    · next hge => exact hend hge

/-- **Step lemma**: a rank on the script stays on it. -/
theorem along_act (h : S.Serves requests)
    (hrounds : S.left rounds = 0 ∧ ∀ k, k < rounds → 0 < S.left k)
    (halong : S.Along rounds r calls out v) :
    S.Allows rounds r calls out v (act (S.streamer r) v) := by
  cases hpc : v.pc with
  | loop => exact along_loop h hrounds hpc halong
  | turn b =>
      rcases Nat.lt_or_ge b S.globalRanks.length with hlt | hge
      · exact along_turn h hlt hpc halong
      · have hle : b ≤ S.globalRanks.length := by
          unfold Along at halong
          rw [hpc] at halong
          obtain ⟨-, -, hb, -⟩ := halong
          exact hb
        obtain rfl : b = S.globalRanks.length := by omega
        exact along_turned h hrounds.2 hpc halong
  | data b => exact along_data h hpc halong
  | yielding b j => exact along_yielding h hpc halong
  | finished => exact along_finished hpc halong
  | raised e =>
      unfold Along at halong
      rw [hpc] at halong
      exact halong.elim

end Steps

/-! ## §3. All ranks. -/

theorem along_start (h : S.Serves requests) (rounds : Nat) (r : S.Rank) :
    S.Along rounds r [] [] (S.start r) := by
  refine ⟨0, Nat.zero_le _, ⟨rfl, rfl, List.length_replicate, buffer_length _ _ _⟩, ?_, ?_, ?_⟩
  · rfl
  · rfl
  · rw [left_zero h]
    rfl

theorem along_within {rounds : Nat} {r : S.Rank} {calls : List (Nat × Tensor)} {out : List Output}
    {v : Vars} (h : S.Along rounds r calls out v) :
    calls <+: S.upTo S.turnCalls rounds 0 ∧ out <+: S.upTo S.turnOutputs rounds 0 ∧
      v.rounds ≤ rounds := by
  unfold Along at h
  split at h
  · obtain ⟨k, hk, hholds, rfl, rfl, -⟩ := h
    rw [hholds.rounds]
    rcases Nat.lt_or_eq_of_le hk with hlt | rfl
    · exact ⟨upTo_before _ hlt, upTo_before _ hlt, hk⟩
    · exact ⟨List.prefix_refl _, List.prefix_refl _, hk⟩
  · obtain ⟨k, hk, -, hholds, rfl, rfl, -⟩ := h
    rw [hholds.rounds]
    exact ⟨upTo_before _ hk, upTo_before _ hk, hk⟩
  · obtain ⟨k, hb, hk, hholds, rfl, rfl, -⟩ := h
    rw [hholds.rounds]
    refine ⟨?_, upTo_before _ hk, hk⟩
    refine List.IsPrefix.trans ?_ (turn_before _ hk hb)
    apply (List.prefix_append_right_inj _).mpr
    unfold turnCalls
    exact List.cons_prefix_cons.mpr ⟨rfl, List.nil_prefix⟩
  · obtain ⟨k, hb, hk, hholds, rfl, rfl, -⟩ := h
    rw [hholds.rounds]
    refine ⟨upTo_before _ hk, ?_, hk⟩
    refine List.IsPrefix.trans ?_ (turn_before _ hk hb)
    apply (List.prefix_append_right_inj _).mpr
    exact List.take_prefix _ _
  · obtain ⟨hrounds, rfl, rfl⟩ := h
    exact ⟨List.prefix_refl _, List.prefix_refl _, hrounds.le⟩
  · exact h.elim

section Ranks

variable {rounds : Nat}

/-- **Each rank follows the script.** -/
theorem ranks_follow (h : S.Serves requests)
    (hrounds : S.left rounds = 0 ∧ ∀ k, k < rounds → 0 < S.left k) :
    S.ranks.Follows (S.upTo S.turnCalls rounds 0) (S.upTo S.turnOutputs rounds 0)
      (S.Along rounds) := by
  have hact : ∀ r calls out v next, S.Along rounds r calls out v →
      S.ranks.act r v = next → S.Allows rounds r calls out v next := by
    rintro r calls out v _ halong rfl
    exact along_act h hrounds halong
  constructor
  case start => exact fun r => along_start h rounds r
  case within =>
    intro r calls out v halong
    obtain ⟨hcalls, hout, -⟩ := along_within halong
    exact ⟨hcalls, hout⟩
  case silent => exact fun r calls out v next halong hnext => (hact r calls out v _ halong hnext).1
  case emit =>
    exact fun r calls out v output next halong hnext => (hact r calls out v _ halong hnext).1
  case call =>
    intro r calls out v source tensor resume halong hnext
    obtain ⟨sent, hscript, hshape, hown, hsource, halong', -⟩ := hact r calls out v _ halong hnext
    exact ⟨sent, hscript, hshape, hown, hsource, halong'⟩
  case halt => exact fun r calls out v halong hnext => hact r calls out v _ halong hnext

theorem ranks_descend (h : S.Serves requests)
    (hrounds : S.left rounds = 0 ∧ ∀ k, k < rounds → 0 < S.left k) :
    Lib.Collective.Descends S.ranks (S.upTo S.turnCalls rounds 0) (S.Along rounds)
      (fun _ => S.todo rounds) := by
  have hact : ∀ r calls out v next, S.Along rounds r calls out v →
      S.ranks.act r v = next → S.Allows rounds r calls out v next := by
    rintro r calls out v _ halong rfl
    exact along_act h hrounds halong
  constructor
  case silent => exact fun r calls out v next halong hnext => (hact r calls out v _ halong hnext).2
  case emit =>
    exact fun r calls out v output next halong hnext => (hact r calls out v _ halong hnext).2
  case call =>
    intro r calls out v source tensor resume sent halong hnext hscript
    obtain ⟨sent', hscript', -, -, -, -, htodo⟩ := hact r calls out v _ halong hnext
    have hsame := Lib.Collective.prefix_last hscript
    rw [Lib.Collective.prefix_last hscript'] at hsame
    obtain rfl : sent' = sent := by simpa using hsame
    exact htodo

end Ranks

/-- **What the ranks agree on**: a script of collectives, a sequence of
chunks, and a number of rounds. -/
structure Agrees (S : Session) (requests : List FileChunks) (script : List (Nat × Tensor))
    (outputs : List Output) (rounds : Nat) : Prop where
  /-- the chunks are those the ranks read, with their bytes -/
  read : outputs.Perm S.readOutputs
  /-- that is, all chunks of the files -/
  all : (outputs.map Output.key).Perm ((allUnits requests).map unitKey)
  /-- sources and lengths match, in every interleaving -/
  entered : ∀ s, S.ranks.system.Reachable s → ∀ r, ∃ calls, calls <+: script ∧
    S.ranks.Tallies r (s r).entered calls
  yielded : ∀ s, S.ranks.system.Reachable s → ∀ r, (s r).emitted <+: outputs
  /-- no rank raises -/
  quiet : ∀ s, S.ranks.system.Reachable s → ∀ r e, (s r).state.pc ≠ .raised e
  /-- a rank that is done has seen all of it, in all the rounds -/
  finished : ∀ s, S.ranks.system.Reachable s → ∀ r, (s r).state.pc = .finished →
    S.ranks.Tallies r (s r).entered script ∧ (s r).emitted = outputs ∧
      (s r).state.rounds = rounds
  within : ∀ s, S.ranks.system.Reachable s → ∀ r, (s r).state.rounds ≤ rounds
  /-- no deadlock, even where a collective ends only when all have entered it -/
  advance : ∀ s, S.ranks.system.Reachable s → (∃ r, (s r).state.pc ≠ .finished) →
    ∃ r t, (S.ranks.system.restrict Lib.Collective.Rendezvous).step s r t
  /-- and no endless run -/
  bounded : ∀ s, S.ranks.system.init s → ∃ bound, ∀ count t,
    S.ranks.system.Steps (fun _ => True) count s t → count ≤ bound

theorem act_halt {r : S.Rank} {v : Vars} (h : S.ranks.act r v = .halt) :
    v.pc = .finished ∨ ∃ e, v.pc = .raised e := by
  change act (S.streamer r) v = .halt at h
  unfold act at h
  split at h
  · split at h
    · split at h <;> simp at h
    · simp at h
  · split at h
    · simp only at h
      split at h <;> simp at h
    · split at h <;> simp at h
  · simp only at h
    split at h <;> simp at h
  · split at h
    · split at h <;> simp at h
    · split at h <;> simp at h
  · next hpc => exact Or.inl hpc
  · next e hpc => exact Or.inr ⟨e, hpc⟩

theorem Serves.agrees (h : S.Serves requests) :
    ∃ script outputs rounds, S.Agrees requests script outputs rounds := by
  obtain ⟨rounds, hrounds⟩ := exists_rounds h
  have hfollow := ranks_follow h hrounds
  have hperm := outputs_perm h hrounds.1
  -- in every reachable state each rank is somewhere on the script
  have halong : ∀ s, S.ranks.system.Reachable s → ∀ r, ∃ calls,
      S.Along rounds r calls (s r).emitted (s r).state := by
    intro s hs r
    obtain ⟨calls, hon⟩ := hfollow.onScript_reachable s hs r
    exact ⟨_, hon.along⟩
  have hquiet : ∀ s, S.ranks.system.Reachable s → ∀ r e, (s r).state.pc ≠ .raised e := by
    intro s hs r e hpc
    obtain ⟨calls, hr⟩ := halong s hs r
    unfold Along at hr
    rw [hpc] at hr
    exact hr
  refine ⟨S.upTo S.turnCalls rounds 0, S.upTo S.turnOutputs rounds 0, rounds, ?_⟩
  constructor
  case read => exact hperm
  case all => exact (hperm.map _).trans (read_all h)
  case entered => exact fun s hs r => hfollow.entered hs r
  case yielded => exact fun s hs r => hfollow.emitted hs r
  case quiet => exact hquiet
  case finished =>
    intro s hs r hpc
    have hhalt : S.ranks.act r (s r).state = .halt := by
      show act _ _ = _
      unfold act
      rw [hpc]
    obtain ⟨htallies, hout⟩ := hfollow.halted hs hhalt
    obtain ⟨calls, hr⟩ := halong s hs r
    unfold Along at hr
    rw [hpc] at hr
    exact ⟨htallies, hout, hr.1⟩
  case within =>
    intro s hs r
    obtain ⟨calls, hr⟩ := halong s hs r
    exact (along_within hr).2.2
  case advance =>
    rintro s hs ⟨r, hr⟩
    refine hfollow.advance hs ⟨r, fun hhalt => ?_⟩
    rcases act_halt hhalt with hpc | ⟨e, hpc⟩
    · exact hr hpc
    · exact hquiet s hs r e hpc
  case bounded =>
    intro s hs
    exact ⟨_, fun count t hsteps => hfollow.bounded (ranks_descend h hrounds) hs hsteps⟩

end Session

/-! ## §4. The stream. -/

theorem partition_spec {policy : Option String} {requests : List FileChunks} {n : Nat}
    {shares : List Share} (hn : 1 ≤ n)
    (hids : policy = some "files" → (requests.map FileChunks.id).Nodup)
    (h : partition policy requests n = .ok shares) : Partitioned requests n shares := by
  unfold partition at h
  simp only at h
  split at h
  · next hfiles =>
      have hpolicy : policy = some "files" := by
        cases policy with
        | none => exact absurd hfiles (by decide)
        | some p => exact congrArg some hfiles
      obtain ⟨shares', hok, hspec⟩ := partitionByFiles_spec requests hn (hids hpolicy)
      rw [hok] at h
      exact Except.ok.inj h ▸ hspec
  · split at h
    · obtain ⟨shares', hok, hspec⟩ := partitionByChunks_spec requests hn
      rw [hok] at h
      exact Except.ok.inj h ▸ hspec
    · simp at h

/-- **The broadcast protocol**: for every group of ranks, every partition of
the files, every order in which the local streams yield, every buffer that
holds the largest chunk, every alignment and every number of chunks in a
batch. -/
theorem broadcast_agreement (S : Session) (requests : List FileChunks) (policy : Option String)
    (hranks : 1 ≤ S.globalRanks.length)
    (hids : policy = some "files" → (requests.map FileChunks.id).Nodup)
    (hpartition : partition policy requests S.globalRanks.length = .ok S.shares)
    (hroom : 1 ≤ S.maxChunksPerBatch) (hlargest : largestRange requests ≤ S.bufferBytesize)
    (hyields : ∀ r : S.Rank,
      ((S.stream r).map (fun c => (c.fileId, c.chunkIndex, c.bytes.length))).Perm
        (shareChunks (S.shares.getD r []))) :
    ∃ script outputs rounds, S.Agrees requests script outputs rounds :=
  Session.Serves.agrees ⟨partition_spec hranks hids hpartition, hroom, hlargest, hyields⟩

/-- Five chunks and four ranks, two chunks at most in a batch, and buffers
that start anywhere. -/
def fourRanks : Session :=
  let shares := ((partitionByChunks threeFiles 4).toOption).getD []
  { globalRanks := [4, 5, 6, 9]
    distinct := by decide
    shares := shares
    maxChunksPerBatch := 2
    bufferBytesize := 5
    alignment := 4
    dataBufferRaw := fun r => ⟨17 * r, fun k => k.toUInt8⟩
    receivedBufferRaw := fun r => ⟨31 * r, fun _ => 3⟩
    stream := fun r => (shareChunks (shares.getD r [])).reverse.map
      (fun c => ⟨c.1, c.2.1, List.replicate c.2.2 7⟩) }

theorem broadcast_agreement_four :
    ∃ script outputs rounds, fourRanks.Agrees threeFiles script outputs rounds := by
  refine broadcast_agreement fourRanks threeFiles none (by decide) (fun h => by simp at h) ?_
    (by decide) (by decide) (fun r => ?_)
  · obtain ⟨shares, hok, -⟩ := partitionByChunks_spec threeFiles (show 1 ≤ 4 by omega)
    show partition none threeFiles ((4 : Nat) : Int)
      = .ok (((partitionByChunks threeFiles ((4 : Nat) : Int)).toOption).getD [])
    rw [hok]
    exact hok
  · have hkeys : (fourRanks.stream r).map (fun c => (c.fileId, c.chunkIndex, c.bytes.length))
        = (shareChunks (fourRanks.shares.getD r [])).reverse := by
      show ((shareChunks _).reverse.map _).map _ = _
      rw [List.map_map]
      conv_rhs => rw [← List.map_id (List.reverse _)]
      apply List.map_congr_left
      intro c _
      show (c.1, c.2.1, (List.replicate c.2.2 (7 : UInt8)).length) = c
      rw [List.length_replicate]
    rw [hkeys]
    exact List.reverse_perm _

end ModelStreamer.Distributed
