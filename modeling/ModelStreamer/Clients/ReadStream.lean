/-
  ModelStreamer.Clients.ReadStream
  ────────────────────────────────
  **ONE READ OF AN OBJECT IN GCS** (`write_stream_to_buffer` in
  `gcs/client/client.cc`).

  The stream of a range is read into the destination, again and again until
  a read fails.  Every read starts at the front of the destination: the
  second one, which is there to find the end, overwrites it with whatever
  the stream has in excess.

    • `readLoop_received` — what is counted are the bytes of the whole
      buffers the stream fills,
    • `readLoop_outside` — nothing is written outside the destination,
    • `Overruns` — the lengths beyond the destination that are counted right,
    • `stream_exact` — a success is exact for all streams but those that
      end cleanly after such a length,
    • `overrun_overwritten` — such a stream, of three bytes for two.
-/
import ModelStreamer.Common.Word
import ModelStreamer.Lib.Memory
import Mathlib.Algebra.Order.Ring.Nat

namespace ModelStreamer.Clients

open ModelStreamer.Lib

/-! ## §1. Streams. -/

/-- What comes after the last byte of a stream. -/
inductive Ending where
  | eof
  | failure
  deriving DecidableEq, Repr

/-- `ObjectReadStream`, a `std::istream`: what it has still to deliver, its
state, and the length of its last read. -/
structure ObjectReadStream where
  pending : List UInt8
  ending : Ending
  eofbit : Bool
  failbit : Bool
  badbit : Bool
  gcount : Nat

/-- A stream that has just been opened. -/
def ObjectReadStream.opened (content : List UInt8) (ending : Ending) : ObjectReadStream :=
  ⟨content, ending, false, false, false, 0⟩

/-- `good`. -/
def ObjectReadStream.good (s : ObjectReadStream) : Bool := !s.eofbit && !s.failbit && !s.badbit

/-- `fail`, which is what a stream is tested for. -/
def ObjectReadStream.fail (s : ObjectReadStream) : Bool := s.failbit || s.badbit

/-- `std::istream::read`, of `count` bytes to `dest`.  A stream with too few
delivers these, and has ended or failed. -/
def ObjectReadStream.read (s : ObjectReadStream) (memory : Nat → UInt8) (dest count : Nat) :
    ObjectReadStream × (Nat → UInt8) :=
  if s.good then
    if count ≤ s.pending.length then
      ({ s with pending := s.pending.drop count, gcount := count },
        store (2 ^ 64) memory dest (s.pending.take count))
    else
      let ended := { s with pending := [], gcount := s.pending.length }
      let memory := store (2 ^ 64) memory dest s.pending
      match s.ending with
      | .eof => ({ ended with eofbit := true, failbit := true }, memory)
      | .failure => ({ ended with badbit := true }, memory)
  -- a stream that is not good only fails again
  else ({ s with failbit := true, gcount := 0 }, memory)

section Read

variable {s : ObjectReadStream} (memory : Nat → UInt8) (dest : Nat) {count : Nat}

theorem read_full (hgood : s.good = true) (h : count ≤ s.pending.length) :
    s.read memory dest count
      = ({ s with pending := s.pending.drop count, gcount := count },
        store (2 ^ 64) memory dest (s.pending.take count)) := by
  unfold ObjectReadStream.read
  rw [if_pos hgood, if_pos h]

/-- The last read: it fails, and says how the stream ended. -/
theorem read_short (hgood : s.good = true) (h : s.pending.length < count) :
    (s.read memory dest count).1.fail = true ∧
      (s.read memory dest count).1.badbit = decide (s.ending = .failure) ∧
      (s.read memory dest count).2 = store (2 ^ 64) memory dest s.pending := by
  have hbits : s.eofbit = false ∧ s.failbit = false ∧ s.badbit = false := by
    simpa [ObjectReadStream.good, and_assoc] using hgood
  unfold ObjectReadStream.read
  rw [if_pos hgood, if_neg (by omega)]
  cases hending : s.ending with
  | eof => exact ⟨rfl, hbits.2.2, rfl⟩
  | failure => exact ⟨Bool.or_true _, rfl, rfl⟩

/-- A read that succeeds is a full one. -/
theorem read_succeeds (h : (s.read memory dest count).1.fail = false) :
    s.good = true ∧ count ≤ s.pending.length := by
  have hgood : s.good = true := by
    by_contra hnot
    unfold ObjectReadStream.read at h
    rw [if_neg hnot] at h
    simp [ObjectReadStream.fail] at h
  refine ⟨hgood, ?_⟩
  by_contra hshort
  rw [(read_short memory dest hgood (by omega)).1] at h
  exact absurd h (by simp)

end Read

/-! ## §2. The loop. -/

/-- The `while` loop of `write_stream_to_buffer`: the stream and the memory
after it, and `bytes_received`.  Every read starts at `dest`. -/
def readLoop (dest : Nat) {bytesize : Nat} (hpos : 0 < bytesize) (s : ObjectReadStream)
    (memory : Nat → UInt8) (received : Nat) : ObjectReadStream × (Nat → UInt8) × Nat :=
  if _ : (s.read memory dest bytesize).1.fail = true then
    ((s.read memory dest bytesize).1, (s.read memory dest bytesize).2, received)
  else
    readLoop dest hpos (s.read memory dest bytesize).1 (s.read memory dest bytesize).2
      (wrap (received + (s.read memory dest bytesize).1.gcount))
termination_by s.pending.length
decreasing_by
  rename_i h
  obtain ⟨hgood, hfull⟩ := read_succeeds memory dest (by simpa using h)
  rw [read_full memory dest hgood hfull]
  show (s.pending.drop bytesize).length < s.pending.length
  rw [List.length_drop]
  omega

/-- `write_stream_to_buffer`: what it returns, and the memory after it.
`Close` only ends the download; that it failed the reads have seen. -/
def writeStreamToBuffer (stream : ObjectReadStream) (dest : Nat) {bytesize : Nat}
    (hpos : 0 < bytesize) (memory : Nat → UInt8) : ResponseCode × (Nat → UInt8) :=
  let (stream, memory, received) := readLoop dest hpos stream memory 0
  if received ≠ bytesize then (.fileAccessError, memory)
  else if stream.badbit then (.fileAccessError, memory)
  else (.success, memory)

section Loop

variable (dest : Nat) {bytesize : Nat} (hpos : 0 < bytesize) {s : ObjectReadStream}
  (memory : Nat → UInt8) (received : Nat)

theorem readLoop_full (hgood : s.good = true) (h : bytesize ≤ s.pending.length) :
    readLoop dest hpos s memory received
      = readLoop dest hpos { s with pending := s.pending.drop bytesize, gcount := bytesize }
          (store (2 ^ 64) memory dest (s.pending.take bytesize)) (wrap (received + bytesize)) := by
  have hbits : s.failbit = false ∧ s.badbit = false := by
    have hall : s.eofbit = false ∧ s.failbit = false ∧ s.badbit = false := by
      simpa [ObjectReadStream.good, and_assoc] using hgood
    exact hall.2
  have hfail : (s.read memory dest bytesize).1.fail = false := by
    rw [read_full memory dest hgood h]
    show (s.failbit || s.badbit) = false
    rw [hbits.1, hbits.2]
    rfl
  rw [readLoop, dif_neg (by rw [hfail]; simp), read_full memory dest hgood h]

theorem readLoop_short (hgood : s.good = true) (h : s.pending.length < bytesize) :
    (readLoop dest hpos s memory received).1.badbit = decide (s.ending = .failure) ∧
      (readLoop dest hpos s memory received).2
        = (store (2 ^ 64) memory dest s.pending, received) := by
  obtain ⟨hfail, hbad, hmemory⟩ := read_short memory dest hgood h
  rw [readLoop, dif_pos hfail]
  exact ⟨hbad, by rw [hmemory]⟩

/-- **What the loop counts**: the bytes of the whole buffers the stream
fills; and it ends with the stream's failure, if there is one. -/
theorem readLoop_received (hgood : s.good = true) (hword : received < 2 ^ 64) :
    (readLoop dest hpos s memory received).1.badbit = decide (s.ending = .failure) ∧
      (readLoop dest hpos s memory received).2.2
        = wrap (received + s.pending.length / bytesize * bytesize) := by
  induction hlen : s.pending.length using Nat.strong_induction_on generalizing s memory received with
  | _ len ih =>
      by_cases hfull : bytesize ≤ len
      · have hdrop : (s.pending.drop bytesize).length = len - bytesize := by
          rw [List.length_drop, hlen]
        -- one buffer, and then what is left of the stream
        have hdiv : len / bytesize = (len - bytesize) / bytesize + 1 :=
          Nat.div_eq_sub_div hpos hfull
        obtain ⟨hbad, hreceived⟩ := ih (len - bytesize) (by omega)
          (s := { s with pending := s.pending.drop bytesize, gcount := bytesize })
          (store (2 ^ 64) memory dest (s.pending.take bytesize)) (wrap (received + bytesize))
          hgood (wrap_lt _) hdrop
        rw [readLoop_full dest hpos memory received hgood (by omega)]
        refine ⟨hbad, ?_⟩
        rw [hreceived, wrap_wrap_add, hdiv, Nat.add_mul, Nat.one_mul, Nat.add_assoc,
          Nat.add_comm bytesize]
      · obtain ⟨hbad, hrest⟩ := readLoop_short dest hpos memory received hgood
          (by omega)
        refine ⟨hbad, ?_⟩
        rw [hrest, Nat.div_eq_of_lt (by omega), Nat.zero_mul, Nat.add_zero, wrap_of_lt hword]

/-- **Nothing is written outside the destination.** -/
theorem readLoop_outside (hgood : s.good = true) {a : Nat}
    (ha : ∀ k, k < bytesize → (dest + k) % 2 ^ 64 ≠ a) :
    (readLoop dest hpos s memory received).2.1 a = memory a := by
  induction hlen : s.pending.length using Nat.strong_induction_on generalizing s memory received with
  | _ len ih =>
      by_cases hfull : bytesize ≤ len
      · have hdrop : (s.pending.drop bytesize).length = len - bytesize := by
          rw [List.length_drop, hlen]
        have hrest := ih (len - bytesize) (by omega)
          (s := { s with pending := s.pending.drop bytesize, gcount := bytesize })
          (store (2 ^ 64) memory dest (s.pending.take bytesize)) (wrap (received + bytesize))
          hgood hdrop
        rw [readLoop_full dest hpos memory received hgood (by omega), hrest]
        apply store_outside
        intro k hk
        rw [List.length_take] at hk
        exact ha k (by omega)
      · rw [(readLoop_short dest hpos memory received hgood (by omega)).2]
        apply store_outside
        intro k hk
        exact ha k (by omega)

/-- A stream of the right length ends up in the destination. -/
theorem readLoop_exact (hgood : s.good = true) (hlen : s.pending.length = bytesize) :
    (readLoop dest hpos s memory received).2.1 = store (2 ^ 64) memory dest s.pending := by
  have hrest : (s.pending.drop bytesize).length < bytesize := by
    rw [List.length_drop]
    omega
  have hshort := (readLoop_short dest hpos
    (s := { s with pending := s.pending.drop bytesize, gcount := bytesize })
    (store (2 ^ 64) memory dest (s.pending.take bytesize)) (wrap (received + bytesize))
    hgood hrest).2
  rw [readLoop_full dest hpos memory received hgood (by omega), hshort]
  show store (2 ^ 64) (store (2 ^ 64) memory dest (s.pending.take bytesize)) dest
    (s.pending.drop bytesize) = _
  -- the second read stores nothing
  rw [List.drop_of_length_le (by omega), List.take_of_length_le (by omega)]
  rfl

end Loop

/-! ## §3. Exact reads. -/

/-- **An exact read** of `bytesize` bytes to `dest`: a success means that the
stream delivered so many, and that they are in place; and nothing is written
elsewhere. -/
structure ExactRead (content : List UInt8) (dest bytesize : Nat) (before : Nat → UInt8)
    (result : ResponseCode × (Nat → UInt8)) : Prop where
  delivered : result.1 = .success → content.length = bytesize
  arrived : result.1 = .success → ∀ k, k < bytesize →
    some (result.2 ((dest + k) % 2 ^ 64)) = content[k]?
  outside : ∀ a, (∀ k, k < bytesize → (dest + k) % 2 ^ 64 ≠ a) → result.2 a = before a

/-- The length lies in `[bytesize, 2 * bytesize)`, or that far beyond a whole
number of words that `bytesize` divides. -/
def CountedRight (bytesize length : Nat) : Prop :=
  ∃ words, bytesize ∣ words * 2 ^ 64 ∧ words * 2 ^ 64 + bytesize ≤ length ∧
    length < words * 2 ^ 64 + 2 * bytesize

/-- **Longer than the destination, and counted right**. -/
def Overruns (bytesize length : Nat) : Prop := CountedRight bytesize length ∧ length ≠ bytesize

/-- When the whole buffers come to the bytes asked for. -/
theorem countedRight_iff {bytesize : Nat} (hpos : 0 < bytesize) (hword : bytesize < 2 ^ 64)
    (length : Nat) :
    wrap (length / bytesize * bytesize) = bytesize ↔ CountedRight bytesize length := by
  have hlow := Nat.div_mul_le_self length bytesize
  have hhigh := Nat.lt_div_mul_add (a := length) hpos
  constructor
  · intro hcount
    have hsplit := Nat.div_add_mod (length / bytesize * bytesize) (2 ^ 64)
    rw [show length / bytesize * bytesize % 2 ^ 64 = bytesize from hcount] at hsplit
    refine ⟨length / bytesize * bytesize / 2 ^ 64, ?_, by omega, by omega⟩
    have hdvd := Nat.dvd_sub (Nat.dvd_mul_left bytesize (length / bytesize)) (Nat.dvd_refl bytesize)
    rw [show length / bytesize * bytesize - bytesize
      = length / bytesize * bytesize / 2 ^ 64 * 2 ^ 64 by omega] at hdvd
    exact hdvd
  · rintro ⟨words, ⟨k, hk⟩, hle, hlt⟩
    have hbuffers : length / bytesize = k + 1 := by
      refine Nat.div_eq_of_lt_le ?_ ?_
      · rw [Nat.succ_mul, Nat.mul_comm]
        omega
      · rw [Nat.succ_mul, Nat.succ_mul, Nat.mul_comm]
        omega
    rw [hbuffers, Nat.succ_mul, Nat.mul_comm k, ← hk, wrap, Nat.mul_add_mod_self_right]
    exact Nat.mod_eq_of_lt hword

section Exact

variable (dest : Nat) {bytesize : Nat} (hpos : 0 < bytesize) (content : List UInt8) (ending : Ending)
  (memory : Nat → UInt8)

/-- When it returns `Success`, and the memory after it. -/
theorem writeStream_spec :
    ((writeStreamToBuffer (.opened content ending) dest hpos memory).1 = .success ↔
      ending = .eof ∧ wrap (content.length / bytesize * bytesize) = bytesize) ∧
    (writeStreamToBuffer (.opened content ending) dest hpos memory).2
      = (readLoop dest hpos (.opened content ending) memory 0).2.1 := by
  obtain ⟨hbad, hreceived⟩ := readLoop_received dest hpos
    (s := .opened content ending) memory 0 rfl (by omega)
  rw [Nat.zero_add] at hreceived
  unfold writeStreamToBuffer
  rcases hloop : readLoop dest hpos (.opened content ending) memory 0 with ⟨stream, after, received⟩
  rw [hloop] at hbad hreceived
  obtain rfl : received = wrap (content.length / bytesize * bytesize) := hreceived
  dsimp only at hbad ⊢
  by_cases hcount : wrap (content.length / bytesize * bytesize) = bytesize
  · rw [if_neg (by simpa using hcount), hbad]
    cases ending with
    | eof => exact ⟨⟨fun _ => ⟨rfl, hcount⟩, fun _ => rfl⟩, rfl⟩
    | failure => exact ⟨⟨fun h => by simp [ObjectReadStream.opened] at h, fun h => by simp at h⟩, rfl⟩
  · rw [if_pos (by simpa using hcount)]
    exact ⟨⟨fun h => by simp at h, fun h => absurd h.2 hcount⟩, rfl⟩

/-- **A success is exact** for every stream but those that end cleanly, after
a length that overruns the destination and is counted right. -/
theorem stream_exact (hword : bytesize < 2 ^ 64) :
    ExactRead content dest bytesize memory
        (writeStreamToBuffer (.opened content ending) dest hpos memory) ↔
      (ending = .eof → ¬ Overruns bytesize content.length) := by
  obtain ⟨hsuccess, hmemory⟩ := writeStream_spec dest hpos content ending memory
  have hcounted := countedRight_iff hpos hword content.length
  constructor
  · intro h hclean hoverruns
    have hcount := hcounted.mpr hoverruns.1
    exact hoverruns.2 (h.delivered (hsuccess.mpr ⟨hclean, hcount⟩))
  · intro h
    have hlen : (writeStreamToBuffer (.opened content ending) dest hpos memory).1 = .success →
        content.length = bytesize := by
      intro hok
      obtain ⟨hclean, hcount⟩ := hsuccess.mp hok
      by_contra hne
      exact h hclean ⟨hcounted.mp hcount, hne⟩
    refine ⟨hlen, fun hok k hk => ?_, fun a ha => ?_⟩
    · have hfull := hlen hok
      rw [hmemory, readLoop_exact dest hpos memory 0 rfl hfull]
      exact store_inside (by show k < content.length; omega) (by show content.length ≤ _; omega)
    · rw [hmemory]
      exact readLoop_outside dest hpos memory 0 rfl ha

end Exact

/-- Three bytes asked for and delivered. -/
theorem stream_exact_three :
    ExactRead [7, 8, 9] 4096 3 (fun _ => 0)
      (writeStreamToBuffer (.opened [7, 8, 9] .eof) 4096 (Nat.succ_pos 2) (fun _ => 0)) :=
  (stream_exact 4096 (Nat.succ_pos 2) [7, 8, 9] .eof (fun _ => 0) (by omega)).mpr
    (fun _ hoverruns => hoverruns.2 rfl)

/-- Two bytes are asked for, and the bytes 1, 2, 3 delivered. -/
def overrun : ResponseCode × (Nat → UInt8) :=
  writeStreamToBuffer (.opened [1, 2, 3] .eof) 4096 Nat.two_pos (fun _ => 0)

/-- **Overwritten, and reported a success**: the third byte is read over the
first one. -/
theorem overrun_overwritten :
    overrun.1 = .success ∧ overrun.2 4096 = 3 ∧ overrun.2 4097 = 2 ∧
      ¬ ExactRead [1, 2, 3] 4096 2 (fun _ => 0) overrun := by
  obtain ⟨hsuccess, hmemory⟩ := writeStream_spec 4096 Nat.two_pos [1, 2, 3] .eof (fun _ => 0)
  have hok : overrun.1 = .success := hsuccess.mpr ⟨rfl, by decide⟩
  -- the first read fills the destination, the second one finds one more byte
  have hafter : overrun.2 = store (2 ^ 64) (store (2 ^ 64) (fun _ => 0) 4096 [1, 2]) 4096 [3] := by
    refine hmemory.trans ?_
    rw [readLoop_full 4096 Nat.two_pos _ _ rfl (by decide)]
    exact congrArg Prod.fst (readLoop_short 4096 Nat.two_pos _ _ rfl (by decide)).2
  refine ⟨hok, ?_, ?_, fun h => ?_⟩
  · rw [hafter]
    decide
  · rw [hafter]
    decide
  · exact absurd (h.delivered hok) (by decide)

end ModelStreamer.Clients
