/-
  ModelStreamer.ObjectStorage.Client
  ──────────────────────────────────
  **THE S3 CLIENT AND THE POOL OF CLIENTS** (`s3/client/client.cc`,
  `common/client_mgr/client_mgr.h`).

  The pool is one per process; every streamer pops clients from it and pushes
  them back, and each one's teardown stops ALL clients and then clears the
  pool.  A client's stop flag is never reset.

    • `ClientMgr` — `pop`, `push`, `stop`, `clear`, each under the mutex; the
      client `pop` makes is made between two locks,
    • `stopped_iff` — a client is stopped exactly when the pool was stopped
      since the client came into it,
    • `reused_unstopped` — where no stop comes between a client's creation and
      its use, no streamer gets a stopped client; and elsewhere one does,
    • `stopped_client_reused` — a stop, and a clear that does nothing.
-/
import Mathlib.Data.List.Sort
import ModelStreamer.Common.SharedQueue
import ModelStreamer.Lib.TransitionSystem
import ModelStreamer.ObjectStorage.Worker

namespace ModelStreamer.ObjectStorage

open ModelStreamer.Lib

/-! ## §1. The S3 client. -/

/-- What a client was built for. -/
structure Credentials where
  key : Option String
  secret : Option String
  token : Option String
  region : Option String
  endpoint : Option String
  deriving DecidableEq, Repr

/-- `S3Client`, apart from the SDK behind it. -/
structure S3Client where
  credentials : Credentials
  stop : Bool
  responder : Option (SharedQueue Completion)

/-- The constructor. -/
def S3Client.new (credentials : Credentials) : S3Client := ⟨credentials, false, none⟩

/-- `verify_credentials_member`. -/
def verifyCredentialsMember : Option String → Option String → Bool
  | some member, some value => decide (member = value)
  | some _, none => false
  | none, some _ => false
  | none, none => true

/-- `verify_credentials`. -/
def S3Client.verifyCredentials (c : S3Client) (other : Credentials) : Bool :=
  verifyCredentialsMember c.credentials.key other.key &&
    verifyCredentialsMember c.credentials.secret other.secret &&
    verifyCredentialsMember c.credentials.token other.token &&
    verifyCredentialsMember c.credentials.region other.region &&
    verifyCredentialsMember c.credentials.endpoint other.endpoint

/-- The beginning of `async_read`: one more response is expected. -/
def S3Client.expect (c : S3Client) : S3Client :=
  { c with
    responder := some (match c.responder with
      | none => .new .finishOnDrain 1
      | some responder => responder.increment 1) }

/-- What `async_read` returns, after `GetObjectAsync`. -/
def S3Client.readCode (c : S3Client) : ResponseCode :=
  if c.stop then .finishedError else .success

/-- The two halves of `stop`. -/
def S3Client.raiseStop (c : S3Client) : S3Client := { c with stop := true }

def S3Client.stopResponder (c : S3Client) : S3Client :=
  { c with responder := c.responder.map SharedQueue.stop }

/-! ## §2. The pool. -/

/-- `ClientMgr`: its clients by address, and the addresses of those not in
use, in order. -/
structure ClientMgr (T : Type) where
  clients : List (Nat × T)
  unused : List Nat

section ClientMgr

variable {T Config : Type} (verify : T → Config → Bool)

/-- The `while` loop of `pop`: the client to reuse, what is left of the
unused ones, and of all clients. -/
def takeUnused (config : Config) :
    List Nat → List (Nat × T) → Option Nat × List Nat × List (Nat × T)
  | [], clients => (none, [], clients)
  | ptr :: unused, clients =>
      if (find clients ptr).any (fun client => verify client config) then
        (some ptr, unused, clients)
      else
        -- release the stale client
        takeUnused config unused (remove clients ptr)

/-- `pop`, up to where it makes a client. -/
def ClientMgr.reuse (mgr : ClientMgr T) (config : Config) : Option Nat × ClientMgr T :=
  let (ptr, unused, clients) := takeUnused verify config mgr.unused mgr.clients
  (ptr, ⟨clients, unused⟩)

/-- The end of `pop`: the new client comes into the pool. -/
def ClientMgr.add (mgr : ClientMgr T) (ptr : Nat) (client : T) : ClientMgr T :=
  { mgr with clients := (ptr, client) :: mgr.clients }

/-- `push`, into a set. -/
def ClientMgr.push (mgr : ClientMgr T) (ptr : Nat) : ClientMgr T :=
  if ptr ∈ mgr.unused then mgr
  else { mgr with unused := mgr.unused.orderedInsert (· ≤ ·) ptr }

/-- `clear`: nothing happens while a client is in use. -/
def ClientMgr.clear (mgr : ClientMgr T) : ClientMgr T :=
  if mgr.unused.length ≠ mgr.clients.length then mgr else ⟨[], []⟩

/-- `stop`. -/
def ClientMgr.stop (stop : T → T) (mgr : ClientMgr T) : ClientMgr T :=
  { mgr with clients := mgr.clients.map (fun e => (e.1, stop e.2)) }

variable {verify}

/-- The client `pop` would reuse: the first unused one whose credentials
match. -/
def ClientMgr.candidate (verify : T → Config → Bool) (mgr : ClientMgr T) (config : Config) :
    Option Nat :=
  mgr.unused.find? (fun ptr => (find mgr.clients ptr).any (fun client => verify client config))

/-- **The loop of `pop`** finds the candidate, and keeps every client whose
credentials match. -/
theorem takeUnused_spec (config : Config) (unused : List Nat) (clients : List (Nat × T)) :
    (takeUnused verify config unused clients).1
        = unused.find? (fun ptr => (find clients ptr).any (fun client => verify client config)) ∧
    (∀ ptr client, find (takeUnused verify config unused clients).2.2 ptr = some client →
      find clients ptr = some client) ∧
    ∀ ptr, (find clients ptr).any (fun client => verify client config) = true →
      find (takeUnused verify config unused clients).2.2 ptr = find clients ptr := by
  induction unused generalizing clients with
  | nil => exact ⟨rfl, fun _ _ h => h, fun _ _ => rfl⟩
  | cons first unused ih =>
      unfold takeUnused
      rw [List.find?_cons]
      by_cases hfirst : (find clients first).any (fun client => verify client config) = true
      · rw [if_pos hfirst, hfirst]
        exact ⟨rfl, fun _ _ h => h, fun _ _ => rfl⟩
      · have hstale : (find clients first).any (fun client => verify client config) = false := by
          simpa using hfirst
        rw [if_neg hfirst, hstale]
        obtain ⟨hfound, hsub, hkept⟩ := ih (remove clients first)
        -- the stale client was no candidate, and the others stay
        have hsame : ∀ ptr,
            (find (remove clients first) ptr).any (fun client => verify client config)
              = (find clients ptr).any (fun client => verify client config) := by
          intro ptr
          rw [find_remove]
          by_cases hptr : ptr = first
          · subst hptr
            rw [if_pos rfl, hstale]
            rfl
          · rw [if_neg hptr]
        refine ⟨?_, ?_, ?_⟩
        · rw [hfound]
          simp only [hsame]
        · intro ptr client hclient
          have hremoved := hsub ptr client hclient
          rw [find_remove] at hremoved
          split at hremoved
          · simp at hremoved
          · exact hremoved
        · intro ptr hmatch
          rw [hkept ptr (by rw [hsame]; exact hmatch), find_remove, if_neg]
          rintro rfl
          exact hfirst hmatch

end ClientMgr

/-! ## §3. Streamers sharing the pool. -/

/-- What a streamer got. -/
inductive Outcome where
  /-- A client from `pop`, and whether it was stopped then. -/
  | popped (ptr : Nat) (stopped : Bool)
  /-- The code of `async_read`. -/
  | read (ptr : Nat) (code : ResponseCode)
  deriving DecidableEq, Repr

/-- The client works. -/
def Outcome.works : Outcome → Bool
  | .popped _ stopped => !stopped
  | .read _ code => decide (code = .success)

/-- The pool, and who uses it.  `creating` are the calls of `pop` between
their two locks.  History: `stops` counts the calls of `stop`, `born` is that
count when a client came into the pool, and `outcomes` is what was got. -/
structure Shared where
  mgr : ClientMgr S3Client
  creating : List Credentials
  inUse : List Nat
  stops : Nat
  born : Nat → Nat
  outcomes : List Outcome

/-- A fresh process. -/
def Shared.new : Shared := ⟨⟨[], []⟩, [], [], 0, fun _ => 0, []⟩

inductive PoolAction where
  /-- `pop`, up to where it makes a client. -/
  | pop (config : Credentials)
  /-- The rest of such a `pop`: the constructor's client, at an address no
  client has, or its exception. -/
  | create (config : Credentials) (ptr : Nat)
  | createFailed (config : Credentials)
  | push (ptr : Nat)
  | stop
  | clear
  /-- `async_read` on a client in use. -/
  | read (ptr : Nat)
  deriving DecidableEq, Repr

/-- `S3Client::stop`. -/
def S3Client.stopAll (c : S3Client) : S3Client := c.raiseStop.stopResponder

/-- The flag of the client at an address. -/
def ClientMgr.stopped (mgr : ClientMgr S3Client) (ptr : Nat) : Bool :=
  ((find mgr.clients ptr).map S3Client.stop).getD false

def poolStep (s : Shared) : PoolAction → Option Shared
  | .pop config =>
      match s.mgr.reuse S3Client.verifyCredentials config with
      | (some ptr, mgr) =>
          some { s with
            mgr := mgr
            inUse := ptr :: s.inUse
            outcomes := s.outcomes ++ [.popped ptr (mgr.stopped ptr)] }
      | (none, mgr) => some { s with mgr := mgr, creating := config :: s.creating }
  | .create config ptr =>
      if config ∈ s.creating ∧ find s.mgr.clients ptr = none then
        let mgr := s.mgr.add ptr (.new config)
        some { s with
          mgr := mgr
          creating := s.creating.erase config
          inUse := ptr :: s.inUse
          born := Function.update s.born ptr s.stops
          outcomes := s.outcomes ++ [.popped ptr (mgr.stopped ptr)] }
      else none
  | .createFailed config =>
      if config ∈ s.creating then some { s with creating := s.creating.erase config } else none
  | .push ptr =>
      if ptr ∈ s.inUse then
        some { s with mgr := s.mgr.push ptr, inUse := s.inUse.erase ptr }
      else none
  | .stop => some { s with mgr := s.mgr.stop S3Client.stopAll, stops := s.stops + 1 }
  | .clear => some { s with mgr := s.mgr.clear }
  | .read ptr =>
      if ptr ∈ s.inUse then
        (find s.mgr.clients ptr).map (fun client =>
          { s with
            mgr := { s.mgr with clients := replace s.mgr.clients ptr client.expect }
            outcomes := s.outcomes ++ [.read ptr client.readCode] })
      else none

/-- The streamers of one process. -/
def pool : System Shared PoolAction where
  init s := s = Shared.new
  step s a t := poolStep s a = some t

/-- **The condition**: no stop since the creation of the client that `pop`
reuses, or that is read from. -/
def Fresh (s : Shared) : PoolAction → Prop
  | .pop config =>
      ∀ ptr, s.mgr.candidate S3Client.verifyCredentials config = some ptr → s.born ptr = s.stops
  | .read ptr => s.born ptr = s.stops
  | _ => True

instance (s : Shared) (a : PoolAction) : Decidable (Fresh s a) :=
  match a with
  | .pop config =>
      match h : s.mgr.candidate S3Client.verifyCredentials config with
      | none => isTrue (fun ptr hptr => by rw [h] at hptr; simp at hptr)
      | some ptr =>
          decidable_of_iff (s.born ptr = s.stops)
            ⟨fun heq p hp => by rw [h] at hp; rw [← Option.some.inj hp]; exact heq,
              fun hall => hall ptr h⟩
  | .read ptr => inferInstanceAs (Decidable (s.born ptr = s.stops))
  | .create _ _ => isTrue trivial
  | .createFailed _ => isTrue trivial
  | .push _ => isTrue trivial
  | .stop => isTrue trivial
  | .clear => isTrue trivial

/-! ## §4. Stopped clients. -/

/-- **A client is stopped exactly when the pool was stopped since it came
in.** -/
structure Flags (s : Shared) : Prop where
  born_le : ∀ ptr client, find s.mgr.clients ptr = some client → s.born ptr ≤ s.stops
  stopped_iff : ∀ ptr client, find s.mgr.clients ptr = some client →
    (client.stop = true ↔ s.born ptr ≠ s.stops)

/-- A client is still usable when no stop has come since. -/
theorem Flags.usable_iff {s : Shared} (h : Flags s) {ptr : Nat} {client : S3Client}
    (hclient : find s.mgr.clients ptr = some client) :
    client.stop = false ↔ s.born ptr = s.stops := by
  rw [← Bool.not_eq_true, h.stopped_iff ptr client hclient, not_not]

/-- Clients leave the pool, or change in something else than their flag. -/
theorem Flags.keep {s t : Shared} (h : Flags s) (hborn : t.born = s.born)
    (hstops : t.stops = s.stops)
    (hclients : ∀ ptr client, find t.mgr.clients ptr = some client →
      ∃ old, find s.mgr.clients ptr = some old ∧ client.stop = old.stop) : Flags t where
  born_le := by
    intro ptr client hclient
    obtain ⟨old, hold, -⟩ := hclients ptr client hclient
    rw [hborn, hstops]
    exact h.born_le ptr old hold
  stopped_iff := by
    intro ptr client hclient
    obtain ⟨old, hold, hstop⟩ := hclients ptr client hclient
    rw [hborn, hstops, hstop]
    exact h.stopped_iff ptr old hold

/-- A stop reaches every client there is. -/
theorem Flags.stop {s : Shared} (h : Flags s) :
    Flags { s with mgr := s.mgr.stop S3Client.stopAll, stops := s.stops + 1 } where
  born_le := by
    intro ptr client hclient
    rw [show (ClientMgr.stop S3Client.stopAll s.mgr).clients
      = s.mgr.clients.map (fun e => (e.1, e.2.stopAll)) from rfl, find_mapValues] at hclient
    obtain ⟨old, hold, -⟩ := Option.map_eq_some_iff.mp hclient
    have := h.born_le ptr old hold
    show s.born ptr ≤ s.stops + 1
    omega
  stopped_iff := by
    intro ptr client hclient
    rw [show (ClientMgr.stop S3Client.stopAll s.mgr).clients
      = s.mgr.clients.map (fun e => (e.1, e.2.stopAll)) from rfl, find_mapValues] at hclient
    obtain ⟨old, hold, rfl⟩ := Option.map_eq_some_iff.mp hclient
    have := h.born_le ptr old hold
    show true = true ↔ s.born ptr ≠ s.stops + 1
    constructor
    · intro _
      omega
    · exact fun _ => rfl

/-- A new client has not been stopped. -/
theorem Flags.create {s t : Shared} (h : Flags s) {config : Credentials} {ptr : Nat}
    (hborn : t.born = Function.update s.born ptr s.stops) (hstops : t.stops = s.stops)
    (hclients : t.mgr.clients = (ptr, .new config) :: s.mgr.clients) : Flags t where
  born_le := by
    intro p client hclient
    rw [hclients, find_cons] at hclient
    rw [hborn, hstops]
    by_cases hp : ptr = p
    · subst hp
      rw [Function.update_self]
    · rw [if_neg hp] at hclient
      rw [Function.update_of_ne (Ne.symm hp)]
      exact h.born_le p client hclient
  stopped_iff := by
    intro p client hclient
    rw [hclients, find_cons] at hclient
    rw [hborn, hstops]
    by_cases hp : ptr = p
    · subst hp
      rw [if_pos rfl] at hclient
      obtain rfl := Option.some.inj hclient
      rw [Function.update_self]
      simp [S3Client.new]
    · rw [if_neg hp] at hclient
      rw [Function.update_of_ne (Ne.symm hp)]
      exact h.stopped_iff p client hclient

/-- **One step**: the flags stay right, and what a streamer gets works
exactly under the condition. -/
theorem Flags.step {s t : Shared} {a : PoolAction} (h : Flags s) (hstep : poolStep s a = some t) :
    Flags t ∧ (t.outcomes = s.outcomes ∨
      ∃ o, t.outcomes = s.outcomes ++ [o] ∧ (o.works = true ↔ Fresh s a)) := by
  cases a with
  | pop config =>
      have hspec := @takeUnused_spec _ _ S3Client.verifyCredentials config s.mgr.unused
        s.mgr.clients
      rw [poolStep] at hstep
      unfold ClientMgr.reuse at hstep
      rcases htake : takeUnused S3Client.verifyCredentials config s.mgr.unused s.mgr.clients with
        ⟨found, unused, clients⟩
      rw [htake] at hspec hstep
      obtain ⟨hfound, hsub, hkept⟩ := hspec
      cases found with
      | none =>
          simp only [Option.some.injEq] at hstep
          subst hstep
          exact ⟨h.keep rfl rfl (fun ptr client hclient => ⟨client, hsub ptr client hclient, rfl⟩),
            Or.inl rfl⟩
      | some ptr =>
          simp only [Option.some.injEq] at hstep
          subst hstep
          refine ⟨h.keep rfl rfl (fun ptr client hclient => ⟨client, hsub ptr client hclient, rfl⟩),
            Or.inr ⟨_, rfl, ?_⟩⟩
          -- the client found is in the pool, with the flag it had
          have hmatch := List.find?_some hfound.symm
          obtain ⟨client, hclient, -⟩ := (Option.any_eq_true _ _).mp hmatch
          have hkeptPtr := hkept ptr hmatch
          have hcandidate : s.mgr.candidate S3Client.verifyCredentials config = some ptr :=
            hfound.symm
          unfold Outcome.works ClientMgr.stopped
          simp only [hkeptPtr, hclient, Option.map_some, Option.getD_some, Bool.not_eq_true']
          show client.stop = false ↔ ∀ p,
            s.mgr.candidate S3Client.verifyCredentials config = some p → s.born p = s.stops
          rw [hcandidate, h.usable_iff hclient]
          constructor
          · intro hfresh p hp
            obtain rfl := Option.some.inj hp
            exact hfresh
          · intro hall
            exact hall ptr rfl
  | create config ptr =>
      rw [poolStep] at hstep
      split at hstep
      · simp only [Option.some.injEq] at hstep
        subst hstep
        refine ⟨h.create rfl rfl rfl, Or.inr ⟨_, rfl, ?_⟩⟩
        unfold Outcome.works ClientMgr.stopped ClientMgr.add
        simp only [find_cons, if_true, Option.map_some, Option.getD_some]
        exact ⟨fun _ => trivial, fun _ => rfl⟩
      · simp at hstep
  | createFailed config =>
      rw [poolStep] at hstep
      split at hstep
      · simp only [Option.some.injEq] at hstep
        subst hstep
        exact ⟨h.keep rfl rfl (fun ptr client hclient => ⟨client, hclient, rfl⟩), Or.inl rfl⟩
      · simp at hstep
  | push ptr =>
      rw [poolStep] at hstep
      split at hstep
      · simp only [Option.some.injEq] at hstep
        subst hstep
        refine ⟨h.keep rfl rfl (fun p client hclient => ⟨client, ?_, rfl⟩), Or.inl rfl⟩
        rw [show (s.mgr.push ptr).clients = s.mgr.clients by
          unfold ClientMgr.push; split <;> rfl] at hclient
        exact hclient
      · simp at hstep
  | stop =>
      rw [poolStep] at hstep
      simp only [Option.some.injEq] at hstep
      subst hstep
      exact ⟨h.stop, Or.inl rfl⟩
  | clear =>
      rw [poolStep] at hstep
      simp only [Option.some.injEq] at hstep
      subst hstep
      refine ⟨h.keep rfl rfl (fun ptr client hclient => ?_), Or.inl rfl⟩
      unfold ClientMgr.clear at hclient
      split at hclient
      · exact ⟨client, hclient, rfl⟩
      · simp [find] at hclient
  | read ptr =>
      rw [poolStep] at hstep
      split at hstep
      · obtain ⟨client, hclient, rfl⟩ := Option.map_eq_some_iff.mp hstep
        refine ⟨h.keep rfl rfl (fun p c hc => ?_), Or.inr ⟨_, rfl, ?_⟩⟩
        · rw [find_replace] at hc
          by_cases hp : p = ptr
          · subst hp
            rw [if_pos rfl, hclient] at hc
            obtain rfl := Option.some.inj hc
            exact ⟨client, hclient, rfl⟩
          · rw [if_neg hp] at hc
            exact ⟨c, hc, rfl⟩
        · unfold Outcome.works S3Client.readCode
          show _ ↔ s.born ptr = s.stops
          rw [← h.usable_iff hclient]
          cases client.stop with
          | true => simp
          | false => simp
      · simp at hstep

theorem new_flags : Flags Shared.new where
  born_le := fun ptr client hclient => by simp [Shared.new, find] at hclient
  stopped_iff := fun ptr client hclient => by simp [Shared.new, find] at hclient

theorem reachable_flags {s : Shared} (h : pool.Reachable s) : Flags s :=
  System.Reachable.invariant (fun _ hinit => hinit ▸ new_flags)
    (fun _ _ _ _ hflags hstep => (hflags.step hstep).1) s h

/-! ## §5. Whole runs. -/

/-- **Stopped clients are handed out exactly where a stop came since their
creation.**  In every run whose steps all meet the condition every `pop`
returns a client that is not stopped and every read is accepted; and in any
run a `pop` or a read has a working client if and only if it meets the
condition. -/
theorem reused_unstopped (s : Shared) :
    ((pool.restrict Fresh).Reachable s → ∀ o ∈ s.outcomes, o.works = true) ∧
    (pool.Reachable s → ∀ a t, poolStep s a = some t →
      t.outcomes = s.outcomes ∨
        ∃ o, t.outcomes = s.outcomes ++ [o] ∧ (o.works = true ↔ Fresh s a)) := by
  constructor
  · intro hreach
    induction hreach with
    | init hinit =>
        obtain rfl : _ = Shared.new := hinit
        simp [Shared.new]
    | @step s t a hbefore hstep ih =>
        rcases ((reachable_flags hbefore.of_restrict).step hstep.2).2 with hsame | ⟨o, ho, hiff⟩
        · rw [hsame]
          exact ih
        · rw [ho]
          intro o' ho'
          rcases List.mem_append.mp ho' with hold | hnew
          · exact ih o' hold
          · obtain rfl := List.mem_singleton.mp hnew
            exact hiff.mpr hstep.1
  · intro hreach a t hstep
    exact ((reachable_flags hreach).step hstep).2

/-- Credentials that are all left to the environment. -/
def ambient : Credentials := ⟨none, none, none, none, none⟩

/-- **A teardown between two streamers**: the client of the first one is
stopped and dropped, and the second one is handed a new one, and that again. -/
theorem reused_unstopped_dropped :
    ∃ s, (pool.restrict Fresh).Reachable s ∧
      s.outcomes = [.popped 1 false, .read 1 .success, .popped 2 false, .read 2 .success,
        .popped 2 false, .read 2 .success] ∧
      ∀ o ∈ s.outcomes, o.works = true := by
  set ends := System.follow poolStep Fresh Shared.new
    [.pop ambient, .create ambient 1, .read 1, .stop, .push 1, .clear, .pop ambient,
      .create ambient 2, .read 2, .push 2, .pop ambient, .read 2] with hends
  have hsome : ends.isSome = true := by decide +kernel
  obtain ⟨s, hs⟩ := Option.isSome_iff_exists.mp hsome
  have houtcomes : ends.map Shared.outcomes
      = some [.popped 1 false, .read 1 .success, .popped 2 false, .read 2 .success,
          .popped 2 false, .read 2 .success] := by
    decide +kernel
  rw [hs] at houtcomes
  have hreach : (pool.restrict Fresh).Reachable s :=
    .follow (fun _ _ _ h => h) (.init rfl) (hends ▸ hs)
  exact ⟨s, hreach, Option.some.inj houtcomes, (reused_unstopped s).1 hreach⟩

/-- **A stopped client is handed out again**: two streamers have a client
each; the first tears down (stop, push, and a clear that does nothing because
the second client is in use); the next `pop` returns the first client,
stopped, and a read on it is refused. -/
theorem stopped_client_reused :
    ∃ s, pool.Reachable s ∧
      s.outcomes = [.popped 1 false, .popped 2 false, .popped 1 true, .read 1 .finishedError] ∧
      ∃ o ∈ s.outcomes, o.works = false := by
  set ends := System.follow poolStep (fun _ _ => True) Shared.new
    [.pop ambient, .create ambient 1, .pop ambient, .create ambient 2, .stop, .push 1, .clear,
      .pop ambient, .read 1] with hends
  have hsome : ends.isSome = true := by decide +kernel
  obtain ⟨s, hs⟩ := Option.isSome_iff_exists.mp hsome
  have houtcomes : ends.map Shared.outcomes
      = some [.popped 1 false, .popped 2 false, .popped 1 true, .read 1 .finishedError] := by
    decide +kernel
  rw [hs] at houtcomes
  have houtcomes := Option.some.inj houtcomes
  have hstart : (pool.restrict (fun _ _ => True)).Reachable Shared.new := .init rfl
  refine ⟨s, (System.Reachable.follow (fun _ _ _ h => h) hstart (hends ▸ hs)).of_restrict,
    houtcomes, ?_⟩
  rw [houtcomes]
  exact ⟨.popped 1 true, by simp, rfl⟩

end ModelStreamer.ObjectStorage
