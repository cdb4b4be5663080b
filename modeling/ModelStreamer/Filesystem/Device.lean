/-
  ModelStreamer.Filesystem.Device
  ───────────────────────────────
  **READING A FILE** (`utils/fd/fd.cc`, `impl/file/file.cc`).

  The OS transfers as many bytes of a read as it likes, at least one before
  the end of the file; it may interrupt the call, or fail it.  `Fd::read` asks
  again until it has everything or the file ends.

    • `Os` — what each call of `read` comes to; it is not interrupted forever,
      so `fdRead` is total,
    • `fdRead_spec`, `fileRead_spec` — whatever happened, a front part of the
      bytes asked for has arrived at the front of the buffer, and nothing else
      was written; all of it, when `File::read` returns,
    • `fileRead_ok` — it returns when no call fails and the file is long
      enough.
-/
import ModelStreamer.Common.Word
import ModelStreamer.Delivery.Execution
import ModelStreamer.Lib.Memory
import Mathlib.Order.Nat

namespace ModelStreamer.Filesystem

open ModelStreamer.Lib ModelStreamer.Delivery

/-! ## §1. The OS. -/

/-- What one call of `read` comes to. -/
inductive OsRead where
  /-- `-1`, with `EINTR`. -/
  | interrupted
  /-- `-1`, with any other `errno`. -/
  | failed
  /-- Bytes, but not more than `more + 1`. -/
  | transfers (more : Nat)
  deriving DecidableEq, Repr

/-- What the calls of `read` come to, in turn. -/
structure Os where
  next : Nat → OsRead
  lively : ∀ i, ∃ j, i ≤ j ∧ next j ≠ .interrupted

/-- The calls of `read` from the `i`-th on that are interrupted first. -/
def Os.interrupts (os : Os) (i : Nat) : Nat := Nat.find (os.lively i) - i

theorem Os.interrupts_lt (os : Os) {i : Nat} (h : os.next i = .interrupted) :
    os.interrupts (i + 1) < os.interrupts i := by
  obtain ⟨hle, hnext⟩ := Nat.find_spec (os.lively i)
  -- the call that is not interrupted comes later
  have hlater : i + 1 ≤ Nat.find (os.lively i) := by
    by_contra hlt
    rw [show Nat.find (os.lively i) = i by omega] at hnext
    exact hnext h
  have hmin : Nat.find (os.lively (i + 1)) ≤ Nat.find (os.lively i) :=
    Nat.find_min' (os.lively (i + 1)) ⟨hlater, hnext⟩
  unfold Os.interrupts
  omega

/-- A file on disk: its bytes, and whether it can be opened and positioned. -/
structure Disk where
  content : List UInt8
  opens : Bool
  seeks : Bool

/-- The memory, where the descriptor stands, and the calls of `read` so
far. -/
structure Io where
  memory : Nat → UInt8
  position : Nat
  calls : Nat

/-- What `read` returns. -/
inductive Count where
  | interrupted
  | failed
  | bytes (count : Nat)
  deriving DecidableEq, Repr

/-- `Fd::_os_read`. -/
def osRead (disk : Disk) (os : Os) (io : Io) (data want : Nat) : Io × Count :=
  match os.next io.calls with
  | .interrupted => ({ io with calls := io.calls + 1 }, .interrupted)
  | .failed => ({ io with calls := io.calls + 1 }, .failed)
  | .transfers more =>
      let bytes := window disk.content io.position (min want (more + 1))
      (⟨store (2 ^ 64) io.memory data bytes, io.position + bytes.length, io.calls + 1⟩,
        .bytes bytes.length)

theorem osRead_interrupted {disk : Disk} {os : Os} {io io' : Io} {data want : Nat}
    (h : osRead disk os io data want = (io', .interrupted)) :
    io' = { io with calls := io.calls + 1 } ∧ os.next io.calls = .interrupted := by
  unfold osRead at h
  split at h
  next hnext =>
    obtain ⟨rfl, -⟩ := Prod.mk.inj h
    exact ⟨rfl, hnext⟩
  · exact absurd (Prod.mk.inj h).2 (by simp)
  · exact absurd (Prod.mk.inj h).2 (by simp)

theorem osRead_failed {disk : Disk} {os : Os} {io io' : Io} {data want : Nat}
    (h : osRead disk os io data want = (io', .failed)) :
    io' = { io with calls := io.calls + 1 } ∧ os.next io.calls = .failed := by
  unfold osRead at h
  split at h
  · exact absurd (Prod.mk.inj h).2 (by simp)
  next hnext =>
    obtain ⟨rfl, -⟩ := Prod.mk.inj h
    exact ⟨rfl, hnext⟩
  · exact absurd (Prod.mk.inj h).2 (by simp)

/-- **One transfer**: not more than asked for or left in the file, and
nothing only at the end of the file. -/
theorem osRead_bytes {disk : Disk} {os : Os} {io io' : Io} {data want count : Nat}
    (h : osRead disk os io data want = (io', .bytes count)) :
    io'.memory = store (2 ^ 64) io.memory data (window disk.content io.position count) ∧
      io'.position = io.position + count ∧ count ≤ want ∧
      count ≤ disk.content.length - io.position ∧
      (count = 0 → want = 0 ∨ disk.content.length ≤ io.position) := by
  unfold osRead at h
  split at h
  · exact absurd (Prod.mk.inj h).2 (by simp)
  · exact absurd (Prod.mk.inj h).2 (by simp)
  next more hnext =>
    obtain ⟨rfl, hcount⟩ := Prod.mk.inj h
    have hcount : (window disk.content io.position (min want (more + 1))).length = count :=
      Count.bytes.inj hcount
    have hlength := window_length disk.content io.position (min want (more + 1))
    have hsame : window disk.content io.position (min want (more + 1))
        = window disk.content io.position count := by
      unfold window at hcount ⊢
      rw [← hcount, List.length_take]
      exact List.take_eq_take_min
    refine ⟨by rw [hsame], by rw [hcount], by omega, by omega, fun hzero => by omega⟩

/-! ## §2. `Fd::read`. -/

set_option linter.unusedVariables false in
/-- The `while` of `Fd::read`, in mode `Eof`; an exception is `none`. -/
def fdRead (disk : Disk) (os : Os) (chunk size data total : Nat) (io : Io) : Io × Option Nat :=
  if total < size then
    match h : osRead disk os io (wrap (data + total)) (min chunk (size - total)) with
    | (io', .interrupted) => fdRead disk os chunk size data total io'
    | (io', .failed) => (io', none)
    | (io', .bytes count) =>
        if count = 0 then (io', some total)   -- the end of the file
        else fdRead disk os chunk size data (total + count) io'
  else (io, some total)
termination_by (size - total, os.interrupts io.calls)
decreasing_by
  · obtain ⟨rfl, hnext⟩ := osRead_interrupted h
    exact Prod.Lex.right _ (os.interrupts_lt hnext)
  · have := (osRead_bytes h).2.2.1
    exact Prod.Lex.left _ _ (by omega)

section FdRead

variable {disk : Disk} {os : Os} {chunk size data total : Nat} {io io' : Io}

/-- An interrupted call is made again. -/
theorem fdRead_interrupted (hmore : total < size)
    (hread : osRead disk os io (wrap (data + total)) (min chunk (size - total))
      = (io', .interrupted)) :
    fdRead disk os chunk size data total io = fdRead disk os chunk size data total io' := by
  rw [fdRead, if_pos hmore]
  split
  next io₁ heq =>
    rw [hread] at heq
    obtain ⟨rfl, -⟩ := Prod.mk.inj heq
    rfl
  next io₁ heq => rw [hread] at heq; exact absurd (Prod.mk.inj heq).2 (by simp)
  next io₁ count₁ heq => rw [hread] at heq; exact absurd (Prod.mk.inj heq).2 (by simp)

theorem fdRead_failed (hmore : total < size)
    (hread : osRead disk os io (wrap (data + total)) (min chunk (size - total))
      = (io', .failed)) :
    fdRead disk os chunk size data total io = (io', none) := by
  rw [fdRead, if_pos hmore]
  split
  next io₁ heq => rw [hread] at heq; exact absurd (Prod.mk.inj heq).2 (by simp)
  next io₁ heq =>
    rw [hread] at heq
    obtain ⟨rfl, -⟩ := Prod.mk.inj heq
    rfl
  next io₁ count₁ heq => rw [hread] at heq; exact absurd (Prod.mk.inj heq).2 (by simp)

theorem fdRead_bytes {count : Nat} (hmore : total < size)
    (hread : osRead disk os io (wrap (data + total)) (min chunk (size - total))
      = (io', .bytes count)) :
    fdRead disk os chunk size data total io
      = if count = 0 then (io', some total)
        else fdRead disk os chunk size data (total + count) io' := by
  rw [fdRead, if_pos hmore]
  split
  next io₁ heq => rw [hread] at heq; exact absurd (Prod.mk.inj heq).2 (by simp)
  next io₁ heq => rw [hread] at heq; exact absurd (Prod.mk.inj heq).2 (by simp)
  next io₁ count₁ heq =>
    rw [hread] at heq
    obtain ⟨rfl, hcount⟩ := Prod.mk.inj heq
    rw [Count.bytes.inj hcount]

end FdRead

/-- What `fdRead` leaves: `count` more bytes of the file have arrived. -/
structure Arrived (disk : Disk) (io io' : Io) (address count : Nat) : Prop where
  memory : io'.memory = store (2 ^ 64) io.memory address (window disk.content io.position count)
  position : io'.position = io.position + count
  count_le : count ≤ disk.content.length - io.position

theorem Arrived.none {disk : Disk} {io io' : Io} {address : Nat} (hmemory : io'.memory = io.memory)
    (hposition : io'.position = io.position) : Arrived disk io io' address 0 := by
  refine ⟨?_, hposition, Nat.zero_le _⟩
  rw [window_zero, hmemory]
  rfl

theorem Arrived.congr {disk : Disk} {io io' : Io} {address address' count : Nat}
    (h : Arrived disk io io' address count) (heq : address % 2 ^ 64 = address' % 2 ^ 64) :
    Arrived disk io io' address' count :=
  ⟨by rw [h.memory, store_congr _ heq], h.position, h.count_le⟩

/-- What arrives in two parts has arrived. -/
theorem Arrived.trans {disk : Disk} {io io' io'' : Io} {address a b : Nat}
    (h : Arrived disk io io' address a) (h' : Arrived disk io' io'' (address + a) b) :
    Arrived disk io io'' address (a + b) := by
  have ha := h.count_le
  have hb := h'.count_le
  have hlength : (window disk.content io.position a).length = a := by
    rw [window_length]
    omega
  refine ⟨?_, ?_, ?_⟩
  · have happend := @store_append _ (2 ^ 64) io.memory address
      (window disk.content io.position a) (window disk.content (io.position + a) b)
    rw [hlength, window_append] at happend
    rw [h'.memory, h.memory, h.position, happend]
  · rw [h'.position, h.position, Nat.add_assoc]
  · rw [h.position] at hb
    omega

/-- **`Fd::read`**: a front part of what was asked for has arrived, and when
it returns, all of it or all that is left of the file. -/
theorem fdRead_spec (disk : Disk) (os : Os) {chunk size : Nat} (data : Nat) (hchunk : 1 ≤ chunk)
    (total : Nat) (io : Io) (htotal : total ≤ size) :
    ∃ count, Arrived disk io (fdRead disk os chunk size data total io).1 (data + total) count ∧
      total + count ≤ size ∧
      (∀ result, (fdRead disk os chunk size data total io).2 = some result →
        result = total + count ∧
          (result = size ∨ count = disk.content.length - io.position)) ∧
      ((∀ i, os.next i ≠ .failed) → (fdRead disk os chunk size data total io).2 ≠ none) := by
  induction total, io using fdRead.induct disk os chunk size data with
  | case1 total io hmore io' hread ih =>
      rw [fdRead_interrupted hmore hread]
      obtain ⟨rfl, -⟩ := osRead_interrupted hread
      obtain ⟨count, harrived, hle, hresult, hfails⟩ := ih htotal
      exact ⟨count, ⟨harrived.memory, harrived.position, harrived.count_le⟩, hle, hresult, hfails⟩
  | case2 total io hmore io' hread =>
      rw [fdRead_failed hmore hread]
      obtain ⟨rfl, hnext⟩ := osRead_failed hread
      exact ⟨0, .none rfl rfl, htotal, by simp, fun hall => absurd hnext (hall _)⟩
  | case3 total io hmore io' hread =>
      -- the end of the file
      rw [fdRead_bytes hmore hread, if_pos rfl]
      obtain ⟨hmemory, hposition, hwant, hleft, hend⟩ := osRead_bytes hread
      refine ⟨0, .none (by rw [hmemory, window_zero]; rfl) (by rw [hposition]; rfl), htotal,
        fun result hresult => ?_, by simp⟩
      obtain rfl := Option.some.inj hresult
      exact ⟨rfl, .inr (by omega)⟩
  | case4 total io hmore io' count hread hpos ih =>
      rw [fdRead_bytes hmore hread, if_neg hpos]
      obtain ⟨hmemory, hposition, hwant, hleft, -⟩ := osRead_bytes hread
      obtain ⟨rest, harrived, hle, hresult, hfails⟩ := ih (by omega)
      have hfirst : Arrived disk io io' (data + total) count := by
        refine Arrived.congr ⟨hmemory, hposition, hleft⟩ ?_
        unfold wrap
        rw [Nat.mod_mod]
      rw [← Nat.add_assoc] at harrived
      refine ⟨count + rest, hfirst.trans harrived, by omega, fun result h => ?_, hfails⟩
      obtain ⟨hresult, hor⟩ := hresult result h
      refine ⟨by omega, hor.imp id (fun hrest => ?_)⟩
      rw [hposition] at hrest
      omega
  | case5 total io hmore =>
      rw [fdRead, if_neg hmore]
      refine ⟨0, .none rfl rfl, htotal, fun result hresult => ?_, by simp⟩
      obtain rfl := Option.some.inj hresult
      exact ⟨rfl, .inl (by omega)⟩

/-! ## §3. `File::read`. -/

/-- `File::read`, and what it throws. -/
def fileRead (disk : Disk) (os : Os) (chunk bytesize buffer : Nat) (io : Io) :
    Io × Option Fault :=
  match fdRead disk os chunk bytesize buffer 0 io with
  | (io, none) => (io, some .access)
  | (io, some result) => (io, if result ≠ bytesize then some .eof else none)

/-- **`File::read`**: everything asked for has arrived, or it throws. -/
theorem fileRead_spec (disk : Disk) (os : Os) {chunk : Nat} (hchunk : 1 ≤ chunk)
    (bytesize buffer : Nat) (io : Io) :
    ∃ count, Arrived disk io (fileRead disk os chunk bytesize buffer io).1 buffer count ∧
      count ≤ bytesize ∧
      ((fileRead disk os chunk bytesize buffer io).2 = none → count = bytesize) := by
  obtain ⟨count, harrived, hle, hresult, -⟩ :=
    fdRead_spec disk os buffer hchunk 0 io (Nat.zero_le bytesize)
  unfold fileRead
  cases hread : fdRead disk os chunk bytesize buffer 0 io with
  | mk io' outcome =>
      rw [hread] at harrived hresult
      cases outcome with
      | none => exact ⟨count, harrived, by omega, by simp⟩
      | some result =>
          obtain ⟨hcount, -⟩ := hresult result rfl
          refine ⟨count, harrived, by omega, fun hnone => ?_⟩
          by_contra hne
          simp only [ne_eq, ite_eq_right_iff, reduceCtorEq, imp_false, not_not] at hnone
          omega

/-- **`File::read` returns** when no call fails and the file is long enough. -/
theorem fileRead_ok (disk : Disk) {os : Os} {chunk bytesize : Nat} (hchunk : 1 ≤ chunk)
    (buffer : Nat) {io : Io} (hos : ∀ i, os.next i ≠ .failed)
    (hlong : io.position + bytesize ≤ disk.content.length) :
    (fileRead disk os chunk bytesize buffer io).2 = none := by
  obtain ⟨count, -, hle, hresult, hfails⟩ :=
    fdRead_spec disk os buffer hchunk 0 io (Nat.zero_le bytesize)
  unfold fileRead
  cases hread : fdRead disk os chunk bytesize buffer 0 io with
  | mk io' outcome =>
      rw [hread] at hresult hfails
      cases outcome with
      | none => exact absurd rfl (hfails hos)
      | some result =>
          obtain ⟨hcount, hor⟩ := hresult result rfl
          have hfull : result = bytesize := by omega
          simp [hfull]

end ModelStreamer.Filesystem
