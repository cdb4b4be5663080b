/-
  ModelStreamer.FileStreamer.ObjectStore
  ──────────────────────────────────────
  **CREDENTIALS OF A `FileStreamer`** (`handle_object_store`, with
  `get_credentials` of the S3 package), over every order of calls.

  Two things happen at the first S3 path: the credentials are resolved, and
  they are set in the library.  The first goes by whether there is a boto3
  session, the second by the native handle, because a handle's credentials
  can be set only once and a listing outside of a context has a handle of its
  own.

    • `resolvedBy` — which credentials a call resolves, by what came before,
    • `registerOf` — what a handle's register is to hold, by the log,
    • `handleObjectStore_spec`, `Inv.step` — they are kept,
    • `credentials_applied` — the library never refuses the credentials, and
      every native call is made with the first ones that have a value.
-/
import ModelStreamer.Clients.SetOnce

namespace ModelStreamer.FileStreamer.ObjectStore

open ModelStreamer.Lib ModelStreamer.FileStreamer ModelStreamer.Clients

/-! ## §1. Resolving. -/

/-- What decides in `get_credentials`: the environment's two switches, and
what a boto3 session makes of the credentials when it does not raise. -/
structure Resolver where
  unsigned : Bool
  noBoto3Session : Bool
  boto3 : Option S3Credentials → Option S3Credentials

/-- `get_credentials`: whether there is a session, and the credentials. -/
def Resolver.getCredentials (r : Resolver) (credentials : Option S3Credentials) :
    Option (Bool × S3Credentials) :=
  if r.unsigned then some (false, credentials.getD .unset)
  else if r.noBoto3Session then some (false, credentials.getD .unset)
  else (r.boto3 credentials).map (fun c => (true, c))

/-- `_has_credentials`. -/
def hasCredentials : Option S3Credentials → Bool
  | none => false
  | some c =>
      c.accessKeyId.isSome || c.secretAccessKey.isSome || c.sessionToken.isSome ||
        c.regionName.isSome || c.endpoint.isSome

/-- `is_s3_path`. -/
def isS3Path (path : String) : Bool := "s3://".toList.isPrefixOf path.toList

/-! ## §2. States. -/

/-- What happened: a context was entered, a session was made, credentials
were resolved for a handle, they were set, or the library was called with
some paths, and the handle's register then. -/
inductive Event where
  | entered
  | session (c : S3Credentials)
  | resolved (handle : Nat) (credentials : Option S3Credentials) (c : S3Credentials)
  | set (handle : Nat) (ret : ResponseCode)
  | called (handle : Nat) (paths : List String) (register : Option (SortedMap String String))

/-- The attributes of a `FileStreamer`, and the native streamers by their
handles. -/
structure State where
  streamer : Option Nat
  s3Session : Bool
  s3Credentials : Option S3Credentials
  credentialedStreamer : Option Nat
  nextHandle : Nat
  registers : Nat → Option (SortedMap String String)
  log : List Event

/-- After `__init__`. -/
def State.new : State := ⟨none, false, none, none, 0, fun _ => none, []⟩

def State.record (s : State) (event : Event) : State := { s with log := s.log ++ [event] }

/-- The two attributes that a resolution sets. -/
def State.hold (s : State) (session : Bool) (c : S3Credentials) : State :=
  let s := { s with s3Session := session, s3Credentials := some c }
  if session then s.record (.session c) else s

/-- The first half of `handle_object_store`, unless it raises. -/
def State.resolve (s : State) (r : Resolver) (credentials : Option S3Credentials) :
    Option State :=
  if s.s3Session then some s
  else (r.getCredentials credentials).map (fun (session, c) => s.hold session c)

/-- The second half, for a handle; and whether it raises. -/
def State.apply (s : State) (handle : Nat) : State × Bool :=
  if hasCredentials s.s3Credentials ∧ s.credentialedStreamer ≠ some handle then
    let (ret, register) := setCredentials (s.registers handle) (fromPython s.s3Credentials)
    let s := { s with registers := Function.update s.registers handle register }
    let s := s.record (.set handle ret)
    if ret ≠ .success then (s, true) else ({ s with credentialedStreamer := some handle }, false)
  else (s, false)

section Calls

-- whether the S3 package is there
variable (s3CredentialsModule : Bool)

/-- `handle_object_store`, and whether it raises. -/
def State.handleObjectStore (s : State) (r : Resolver) (path : String) (streamer : Option Nat)
    (credentials : Option S3Credentials) : State × Bool :=
  if s3CredentialsModule && isS3Path path then
    match s.resolve r credentials with
    | none => (s, true)
    | some s =>
        match streamer with
        | none => (s, false)
        | some handle =>
            (s.record (.resolved handle credentials (s.s3Credentials.getD .unset))).apply handle
  else (s, false)

/-- The loop of `stream_files`. -/
def State.handlePaths (r : Resolver) (streamer : Option Nat)
    (credentials : Option S3Credentials) : State → List String → State × Bool
  | s, [] => (s, false)
  | s, path :: paths =>
      match s.handleObjectStore s3CredentialsModule r path streamer credentials with
      | (s, true) => (s, true)
      | (s, false) => State.handlePaths r streamer credentials s paths

/-- The call of the library at the end. -/
def State.call (s : State) (streamer : Option Nat) (paths : List String) : State :=
  match streamer with
  | none => s
  | some handle => s.record (.called handle paths (s.registers handle))

inductive Action where
  /-- `__enter__`; `started` is whether `runai_start` succeeds. -/
  | enter (started : Bool)
  | exit
  /-- `requested` is whether there is something to request. -/
  | streamFiles (r : Resolver) (paths : List String) (credentials : Option S3Credentials)
      (requested : Bool)
  | listFiles (r : Resolver) (path : String) (started : Bool)

/-- The next handle. -/
def State.start (s : State) : State := { s with nextHandle := s.nextHandle + 1 }

/-- `__enter__`. -/
def State.enter (s : State) : State :=
  let s := { s.start with
    streamer := some s.nextHandle, s3Session := false, s3Credentials := none,
    credentialedStreamer := none }
  s.record .entered

/-- `__exit__`; the native streamer is gone. -/
def State.exit (s : State) : State :=
  match s.streamer with
  | none => s
  | some _ => { s with streamer := none, credentialedStreamer := none }

/-- `stream_files`, up to the request. -/
def State.streamFiles (s : State) (r : Resolver) (paths : List String)
    (credentials : Option S3Credentials) (requested : Bool) : State :=
  if homogeneousPaths paths then
    match s.handlePaths s3CredentialsModule r s.streamer credentials paths with
    | (s', true) => s'
    | (s', false) => if requested then s'.call s.streamer paths else s'
  else s

/-- The `try` of `list_files`, with this handle. -/
def State.listWith (s : State) (r : Resolver) (path : String) (handle : Nat) : State :=
  match s.handleObjectStore s3CredentialsModule r path (some handle) none with
  | (s', true) => s'
  | (s', false) => s'.call (some handle) [path]

/-- `list_files`: with the handle there is, or with one just for it. -/
def State.listFiles (s : State) (r : Resolver) (path : String) (started : Bool) : State :=
  match s.streamer with
  | some handle => s.listWith s3CredentialsModule r path handle
  | none =>
      if started then s.start.listWith s3CredentialsModule r path s.nextHandle else s

def next (s : State) : Action → State
  | .enter started => if started then s.enter else s
  | .exit => s.exit
  | .streamFiles r paths credentials requested =>
      s.streamFiles s3CredentialsModule r paths credentials requested
  | .listFiles r path started => s.listFiles s3CredentialsModule r path started

/-- One `FileStreamer`. -/
def fileStreamer : System State Action where
  init s := s = .new
  step s a s' := s' = next s3CredentialsModule s a

end Calls

/-! ## §3. What the log says. -/

/-- The session that is held after a log. -/
def heldSession : List Event → Option S3Credentials :=
  List.foldl (fun held event =>
    match event with
    | .entered => none
    | .session c => some c
    | _ => held) none

/-- The credentials a call resolves: those of the session, or what it was
given. -/
def resolvedBy (log : List Event) (credentials : Option S3Credentials) : S3Credentials :=
  (heldSession log).getD (credentials.getD .unset)

/-- The credentials resolved for a handle, in order. -/
def resolvedFor (handle : Nat) (log : List Event) : List S3Credentials :=
  log.filterMap (fun event =>
    match event with
    | .resolved h _ c => if h = handle then some c else none
    | _ => none)

/-- **What a register is to hold**: the first credentials with a value. -/
def registerOf (handle : Nat) (log : List Event) : Option (SortedMap String String) :=
  ((resolvedFor handle log).find? (fun c => hasCredentials (some c))).map
    (fun c => fromPython (some c))

/-- What an event has to be like behind a log. -/
def Faithful (log : List Event) : Event → Prop
  | .resolved _ credentials c => c = resolvedBy log credentials
  | .set _ ret => ret = .success
  | .called handle _ register => register = registerOf handle log
  | _ => True

/-- Every event is. -/
def AllFaithful (log : List Event) : Prop :=
  ∀ before event after, log = before ++ event :: after → Faithful before event

theorem AllFaithful.snoc {log : List Event} {event : Event} (h : AllFaithful log)
    (hevent : Faithful log event) : AllFaithful (log ++ [event]) := by
  intro before e after heq
  rcases List.eq_nil_or_concat after with rfl | ⟨front, last, rfl⟩
  · obtain ⟨rfl, hlast⟩ := List.append_inj' heq rfl
    obtain rfl : event = e := by simpa using hlast
    exact hevent
  · rw [List.concat_eq_append, ← List.cons_append, ← List.append_assoc] at heq
    obtain ⟨hlog, -⟩ := List.append_inj' heq rfl
    exact h before e front hlog

theorem heldSession_snoc (log : List Event) (event : Event) :
    heldSession (log ++ [event]) = match event with
      | .entered => none
      | .session c => some c
      | _ => heldSession log := by
  unfold heldSession
  rw [List.foldl_append]
  rfl

theorem resolvedFor_snoc (handle : Nat) (log : List Event) (event : Event) :
    resolvedFor handle (log ++ [event]) = resolvedFor handle log ++ resolvedFor handle [event] := by
  unfold resolvedFor
  rw [List.filterMap_append]

/-- Only what is resolved for a handle matters to it. -/
theorem registerOf_snoc {handle : Nat} {log : List Event} {event : Event}
    (h : resolvedFor handle [event] = []) :
    registerOf handle (log ++ [event]) = registerOf handle log := by
  unfold registerOf
  rw [resolvedFor_snoc, h, List.append_nil]

theorem registerOf_resolved (handle h : Nat) (log : List Event)
    (credentials : Option S3Credentials) (c : S3Credentials) :
    registerOf handle (log ++ [.resolved h credentials c])
      = (registerOf handle log).or
          (if h = handle ∧ hasCredentials (some c) = true then some (fromPython (some c)) else none) := by
  have hlast : resolvedFor handle [.resolved h credentials c] = if h = handle then [c] else [] := by
    unfold resolvedFor
    by_cases hh : h = handle
    · simp [hh]
    · simp [hh]
  unfold registerOf
  rw [resolvedFor_snoc, hlast, List.find?_append]
  cases hfirst : (resolvedFor handle log).find? (fun c => hasCredentials (some c)) with
  | some first => rfl
  | none =>
      by_cases hh : h = handle
      · by_cases hc : hasCredentials (some c) = true
        · simp [hh, hc]
        · simp [hh, hc]
      · simp [hh]

/-! ## §4. The invariant. -/

/-- **Between two calls**: the log is faithful, the registers hold what it
says, and the handle in use has been credentialed when its register is set. -/
structure Inv (s : State) : Prop where
  faithful : AllFaithful s.log
  registers : ∀ handle, s.registers handle = registerOf handle s.log
  session : heldSession s.log = if s.s3Session then s.s3Credentials else none
  held : s.s3Session = true → s.s3Credentials ≠ none
  credentialed : ∀ handle, s.credentialedStreamer = some handle → s.registers handle ≠ none
  current : ∀ handle, s.streamer = some handle → s.registers handle ≠ none →
    s.credentialedStreamer = some handle
  fresh : ∀ handle, s.nextHandle ≤ handle → s.registers handle = none
  streamer_lt : ∀ handle, s.streamer = some handle → handle < s.nextHandle

/-- While a call works with a handle: that one is in the place of the current
one. -/
structure InvWith (s : State) (handle : Nat) : Prop extends Inv s where
  only : ∀ h, s.streamer = some h → h = handle
  ready : s.registers handle ≠ none → s.credentialedStreamer = some handle
  lt : handle < s.nextHandle

section Inv

variable {s : State}

theorem Inv.new : Inv .new where
  faithful := by
    intro before event after heq
    exact absurd heq (by simp [State.new])
  registers := fun handle => rfl
  session := rfl
  held := fun h => by simp [State.new] at h
  credentialed := fun handle h => by simp [State.new] at h
  current := fun handle h => by simp [State.new] at h
  fresh := fun handle _ => rfl
  streamer_lt := fun handle h => by simp [State.new] at h

/-- An event that changes nothing else. -/
theorem Inv.record (h : Inv s) {event : Event} (hevent : Faithful s.log event)
    (hresolved : ∀ handle, resolvedFor handle [event] = [])
    (hheld : heldSession (s.log ++ [event]) = heldSession s.log) : Inv (s.record event) where
  faithful := h.faithful.snoc hevent
  registers := fun handle => by
    show s.registers handle = registerOf handle (s.log ++ [event])
    rw [registerOf_snoc (hresolved handle), h.registers]
  session := by
    show heldSession (s.log ++ [event]) = _
    rw [hheld, h.session]
    rfl
  held := h.held
  credentialed := h.credentialed
  current := h.current
  fresh := h.fresh
  streamer_lt := h.streamer_lt

/-- What `resolve` leaves in place. -/
structure Keeps (s s' : State) : Prop where
  streamer : s'.streamer = s.streamer
  nextHandle : s'.nextHandle = s.nextHandle
  registers : s'.registers = s.registers
  credentialedStreamer : s'.credentialedStreamer = s.credentialedStreamer

theorem hold_keeps (s : State) (session : Bool) (c : S3Credentials) :
    Keeps s (s.hold session c) := by
  cases session with
  | false => exact ⟨rfl, rfl, rfl, rfl⟩
  | true => exact ⟨rfl, rfl, rfl, rfl⟩

theorem resolve_keeps {s s' : State} {r : Resolver} {credentials : Option S3Credentials}
    (h : s.resolve r credentials = some s') : Keeps s s' := by
  unfold State.resolve at h
  split at h
  · rw [← Option.some.inj h]
    exact ⟨rfl, rfl, rfl, rfl⟩
  · obtain ⟨⟨session, c⟩, -, rfl⟩ := Option.map_eq_some_iff.mp h
    exact hold_keeps s session c

/-- Without a session the credentials are those that were given. -/
theorem getCredentials_given {r : Resolver} {credentials : Option S3Credentials}
    {c : S3Credentials} (h : r.getCredentials credentials = some (false, c)) :
    c = credentials.getD .unset := by
  unfold Resolver.getCredentials at h
  split at h
  · simpa using h.symm
  split at h
  · simpa using h.symm
  · simp at h

/-- Holding what was resolved, when there was no session before. -/
theorem Inv.hold (h : Inv s) (hsession : ¬ s.s3Session = true) {session : Bool}
    {c : S3Credentials} {credentials : Option S3Credentials}
    (hgiven : session = false → c = credentials.getD .unset) :
    Inv (s.hold session c) ∧
      (s.hold session c).s3Credentials = some (resolvedBy (s.hold session c).log credentials) := by
  cases session with
  | true =>
      constructor
      · exact {
          faithful := h.faithful.snoc trivial
          registers := fun handle => by
            show s.registers handle = registerOf handle (s.log ++ [_])
            rw [registerOf_snoc rfl, h.registers]
          session := by
            show heldSession (s.log ++ [_]) = _
            rw [heldSession_snoc]
            rfl
          held := fun _ hnone => Option.some_ne_none c hnone
          credentialed := h.credentialed
          current := h.current
          fresh := h.fresh
          streamer_lt := h.streamer_lt }
      · show some c = some (resolvedBy (s.log ++ [_]) credentials)
        unfold resolvedBy
        rw [heldSession_snoc]
        rfl
  | false =>
      have hnone := h.session
      rw [if_neg hsession] at hnone
      constructor
      · exact {
          faithful := h.faithful
          registers := h.registers
          session := hnone
          held := fun hfalse => Bool.noConfusion hfalse
          credentialed := h.credentialed
          current := h.current
          fresh := h.fresh
          streamer_lt := h.streamer_lt }
      · show some c = some (resolvedBy s.log credentials)
        unfold resolvedBy
        rw [hnone, hgiven rfl]
        rfl

/-- **Resolving** ends with the credentials of the session, or with those
that were given. -/
theorem Inv.resolve (h : Inv s) {r : Resolver} {credentials : Option S3Credentials} {s' : State}
    (hresolve : s.resolve r credentials = some s') :
    Inv s' ∧ s'.s3Credentials = some (resolvedBy s'.log credentials) := by
  unfold State.resolve at hresolve
  split at hresolve
  next hsession =>
    rw [← Option.some.inj hresolve]
    have hheld := h.session
    rw [if_pos hsession] at hheld
    obtain ⟨c, hc⟩ := Option.ne_none_iff_exists'.mp (h.held hsession)
    unfold resolvedBy
    rw [hheld, hc]
    exact ⟨h, rfl⟩
  next hsession =>
    obtain ⟨⟨session, c⟩, hget, rfl⟩ := Option.map_eq_some_iff.mp hresolve
    exact h.hold hsession (fun hfalse => getCredentials_given (hfalse ▸ hget))

end Inv

section Apply

variable {s s' : State} {handle : Nat} {m : Bool} {r : Resolver}
  {credentials : Option S3Credentials}

theorem InvWith.keeps (h : InvWith s handle) (hinv : Inv s') (hkeeps : Keeps s s') :
    InvWith s' handle where
  toInv := hinv
  only := fun h' hstreamer => h.only h' (hkeeps.streamer.symm.trans hstreamer)
  ready := by
    rw [hkeeps.registers, hkeeps.credentialedStreamer]
    exact h.ready
  lt := by
    rw [hkeeps.nextHandle]
    exact h.lt

/-- What was resolved for a handle whose register needs nothing. -/
theorem InvWith.idle (h : InvWith s handle) {c : S3Credentials}
    (hc : c = resolvedBy s.log credentials)
    (hidle : s.registers handle ≠ none ∨ hasCredentials (some c) = false) :
    InvWith (s.record (.resolved handle credentials c)) handle where
  faithful := h.faithful.snoc hc
  registers := by
    intro other
    show s.registers other = registerOf other (s.log ++ [_])
    rw [registerOf_resolved, ← h.registers]
    by_cases hsame : handle = other ∧ hasCredentials (some c) = true
    · obtain ⟨rfl, hhas⟩ := hsame
      rcases hidle with hset | hnot
      · obtain ⟨stored, hstored⟩ := Option.ne_none_iff_exists'.mp hset
        rw [hstored]
        rfl
      · rw [hhas] at hnot
        exact Bool.noConfusion hnot
    · rw [if_neg hsame, Option.or_none]
  session := by
    show heldSession (s.log ++ [_]) = _
    rw [heldSession_snoc]
    exact h.session
  held := h.held
  credentialed := h.credentialed
  current := h.current
  fresh := h.fresh
  streamer_lt := h.streamer_lt
  only := h.only
  ready := h.ready
  lt := h.lt

/-- The state after credentials are resolved and set for a handle. -/
def State.credentialed (s : State) (handle : Nat) (credentials : Option S3Credentials)
    (c : S3Credentials) : State :=
  { s with
    registers := Function.update s.registers handle (some (fromPython (some c)))
    credentialedStreamer := some handle
    log := s.log ++ [.resolved handle credentials c] ++ [.set handle .success] }

/-- What was resolved is set in an empty register. -/
theorem InvWith.set (h : InvWith s handle) {c : S3Credentials}
    (hc : c = resolvedBy s.log credentials) (hempty : s.registers handle = none)
    (hhas : hasCredentials (some c) = true) :
    InvWith (s.credentialed handle credentials c) handle where
  faithful := by
    have hfaithful : Faithful s.log (.resolved handle credentials c) := hc
    exact (h.faithful.snoc hfaithful).snoc rfl
  registers := by
    intro other
    show Function.update s.registers handle _ other = registerOf other (s.log ++ [_] ++ [_])
    rw [registerOf_snoc rfl, registerOf_resolved, ← h.registers]
    by_cases hother : handle = other
    · subst hother
      rw [Function.update_self, hempty, if_pos ⟨rfl, hhas⟩]
      rfl
    · rw [Function.update_of_ne (Ne.symm hother), if_neg (fun hsame => hother hsame.1),
        Option.or_none]
  session := by
    show heldSession (s.log ++ [_] ++ [_]) = _
    rw [heldSession_snoc, heldSession_snoc]
    exact h.session
  held := h.held
  credentialed := by
    intro other hother
    obtain rfl : handle = other := Option.some.inj hother
    show Function.update s.registers handle _ handle ≠ none
    rw [Function.update_self]
    exact Option.some_ne_none _
  current := by
    intro other hstreamer _
    rw [h.only other hstreamer]
    rfl
  fresh := by
    intro other hother
    have hlt : handle < s.nextHandle := h.lt
    have hle : s.nextHandle ≤ other := hother
    show Function.update s.registers handle _ other = none
    rw [Function.update_of_ne (by omega)]
    exact h.fresh other hle
  streamer_lt := h.streamer_lt
  only := h.only
  ready := fun _ => rfl
  lt := h.lt

/-- **The library does not refuse**: what is applied after a resolution was
either set before or is set now. -/
theorem InvWith.apply (h : InvWith s handle)
    (hc : s.s3Credentials = some (resolvedBy s.log credentials)) :
    InvWith ((s.record (.resolved handle credentials (s.s3Credentials.getD .unset))).apply
      handle).1 handle := by
  obtain ⟨c, hsome, hresolved⟩ : ∃ c, s.s3Credentials = some c ∧ c = resolvedBy s.log credentials :=
    ⟨_, hc, rfl⟩
  have hgetD : s.s3Credentials.getD .unset = c := by
    rw [hsome]
    rfl
  rw [hgetD]
  unfold State.apply
  split
  next hset =>
    -- the handle in use is credentialed when its register is set
    have hhas : hasCredentials (some c) = true := hsome ▸ hset.1
    have hempty : s.registers handle = none := by
      by_contra hfull
      exact hset.2 (h.ready hfull)
    have hregister : setCredentials ((s.record (.resolved handle credentials c)).registers handle)
        (fromPython (s.record (.resolved handle credentials c)).s3Credentials)
          = (.success, some (fromPython (some c))) := by
      show setCredentials (s.registers handle) (fromPython s.s3Credentials) = _
      rw [hempty, hsome]
      rfl
    rw [hregister]
    exact h.set hresolved hempty hhas
  next hidle =>
    apply h.idle hresolved
    by_cases hhas : hasCredentials (some c) = true
    · have hheld : s.credentialedStreamer = some handle := by
        by_contra hother
        exact hidle ⟨hsome.symm ▸ hhas, hother⟩
      exact Or.inl (h.credentialed handle hheld)
    · exact Or.inr (Bool.eq_false_iff.mpr hhas)

/-- **`handle_object_store`** for a handle. -/
theorem handleObjectStore_spec (h : InvWith s handle) (path : String) :
    InvWith (s.handleObjectStore m r path (some handle) credentials).1 handle := by
  unfold State.handleObjectStore
  split
  · split
    · exact h
    next s' hresolve =>
      obtain ⟨hinv, hc⟩ := h.toInv.resolve hresolve
      exact (h.keeps hinv (resolve_keeps hresolve)).apply hc
  · exact h

/-- Without a handle the credentials are resolved only. -/
theorem handleObjectStore_resolves (h : Inv s) (path : String) :
    Inv (s.handleObjectStore m r path none credentials).1 := by
  unfold State.handleObjectStore
  split
  · split
    · exact h
    next s' hresolve => exact (h.resolve hresolve).1
  · exact h

/-- What one path keeps, the loop keeps. -/
theorem handlePaths_keeps {P : State → Prop} {streamer : Option Nat}
    (hstep : ∀ s path, P s → P (s.handleObjectStore m r path streamer credentials).1)
    (paths : List String) (hs : P s) :
    P (s.handlePaths m r streamer credentials paths).1 := by
  induction paths generalizing s with
  | nil => exact hs
  | cons path paths ih =>
      have hnext := hstep s path hs
      unfold State.handlePaths
      split
      next s' hraised =>
        rw [hraised] at hnext
        exact hnext
      next s' hgoes =>
        rw [hgoes] at hnext
        exact ih hnext

/-- The library is called with the register as it should be. -/
theorem InvWith.call (h : InvWith s handle) (paths : List String) :
    InvWith (s.call (some handle) paths) handle := by
  have hregister : Faithful s.log (.called handle paths (s.registers handle)) := h.registers handle
  refine h.keeps (h.toInv.record hregister (fun _ => rfl) ?_) ⟨rfl, rfl, rfl, rfl⟩
  rw [heldSession_snoc]

theorem InvWith.listWith (h : InvWith s handle) (r : Resolver) (path : String) :
    InvWith (s.listWith m r path handle) handle := by
  have hpath : InvWith (s.handleObjectStore m r path (some handle) none).1 handle :=
    handleObjectStore_spec h path
  unfold State.listWith
  split
  next s' hraised =>
    rw [hraised] at hpath
    exact hpath
  next s' hgoes =>
    rw [hgoes] at hpath
    exact hpath.call [path]

end Apply

/-! ## §5. Every call. -/

section Step

variable {s : State} {m : Bool} {r : Resolver}

/-- The handle of the context is ready. -/
theorem Inv.withStreamer (h : Inv s) {handle : Nat} (hstreamer : s.streamer = some handle) :
    InvWith s handle where
  toInv := h
  only := fun _ hother => Option.some.inj (hother.symm.trans hstreamer)
  ready := h.current handle hstreamer
  lt := h.streamer_lt handle hstreamer

/-- So is a new one, when there is no other. -/
theorem Inv.withStarted (h : Inv s) (hstreamer : s.streamer = none) :
    InvWith s.start s.nextHandle where
  faithful := h.faithful
  registers := h.registers
  session := h.session
  held := h.held
  credentialed := h.credentialed
  current := h.current
  fresh := fun handle hle => h.fresh handle (Nat.le_of_succ_le hle)
  streamer_lt := fun handle hhandle => Nat.lt_succ_of_lt (h.streamer_lt handle hhandle)
  only := by
    intro handle hhandle
    exact absurd (hstreamer.symm.trans hhandle) (Option.some_ne_none handle).symm
  ready := fun hfull => absurd (h.fresh s.nextHandle (Nat.le_refl _)) hfull
  lt := Nat.lt_succ_self s.nextHandle

theorem Inv.enter (h : Inv s) : Inv s.enter where
  faithful := h.faithful.snoc trivial
  registers := by
    intro handle
    show s.registers handle = registerOf handle (s.log ++ [_])
    rw [registerOf_snoc rfl, h.registers]
  session := by
    show heldSession (s.log ++ [_]) = _
    rw [heldSession_snoc]
    rfl
  held := fun hfalse => Bool.noConfusion hfalse
  credentialed := fun handle hnone => absurd hnone (Option.some_ne_none handle).symm
  current := by
    intro handle hhandle hfull
    obtain rfl : s.nextHandle = handle := Option.some.inj hhandle
    exact absurd (h.fresh s.nextHandle (Nat.le_refl _)) hfull
  fresh := fun handle hle => h.fresh handle (Nat.le_of_succ_le hle)
  streamer_lt := by
    intro handle hhandle
    obtain rfl : s.nextHandle = handle := Option.some.inj hhandle
    exact Nat.lt_succ_self s.nextHandle

theorem Inv.exit (h : Inv s) : Inv s.exit := by
  unfold State.exit
  split
  · exact h
  · exact {
      faithful := h.faithful
      registers := h.registers
      session := h.session
      held := h.held
      credentialed := fun handle hnone => absurd hnone (Option.some_ne_none handle).symm
      current := fun handle hnone => absurd hnone (Option.some_ne_none handle).symm
      fresh := h.fresh
      streamer_lt := fun handle hnone => absurd hnone (Option.some_ne_none handle).symm }

theorem Inv.streamFiles (h : Inv s) (r : Resolver) (paths : List String)
    (credentials : Option S3Credentials) (requested : Bool) :
    Inv (s.streamFiles m r paths credentials requested) := by
  unfold State.streamFiles
  split
  · cases hstreamer : s.streamer with
    | none =>
        have hpaths : Inv (s.handlePaths m r none credentials paths).1 :=
          handlePaths_keeps (P := Inv) (fun _ path hs => handleObjectStore_resolves hs path) paths h
        split
        next s' hraised =>
          rw [hraised] at hpaths
          exact hpaths
        next s' hgoes =>
          rw [hgoes] at hpaths
          split
          · exact hpaths
          · exact hpaths
    | some handle =>
        have hpaths : InvWith (s.handlePaths m r (some handle) credentials paths).1 handle :=
          handlePaths_keeps (P := (InvWith · handle))
            (fun _ path hs => handleObjectStore_spec hs path) paths (h.withStreamer hstreamer)
        split
        next s' hraised =>
          rw [hraised] at hpaths
          exact hpaths.toInv
        next s' hgoes =>
          rw [hgoes] at hpaths
          split
          · exact (hpaths.call paths).toInv
          · exact hpaths.toInv
  · exact h

theorem Inv.listFiles (h : Inv s) (r : Resolver) (path : String) (started : Bool) :
    Inv (s.listFiles m r path started) := by
  unfold State.listFiles
  split
  next handle hstreamer => exact ((h.withStreamer hstreamer).listWith r path).toInv
  next hstreamer =>
    split
    · exact ((h.withStarted hstreamer).listWith r path).toInv
    · exact h

/-- **Every call keeps the invariant.** -/
theorem Inv.step (h : Inv s) (a : Action) : Inv (next m s a) := by
  cases a with
  | enter started =>
      show Inv (if started then s.enter else s)
      split
      · exact h.enter
      · exact h
  | exit => exact h.exit
  | streamFiles r paths credentials requested => exact h.streamFiles r paths credentials requested
  | listFiles r path started => exact h.listFiles r path started

theorem reachable_inv : ∀ s, (fileStreamer m).Reachable s → Inv s := by
  apply System.Reachable.invariant
  · rintro s rfl
    exact Inv.new
  · rintro s a s' _ hs rfl
    exact hs.step a

end Step

/-! ## §6. Credentials are applied. -/

/-- **The credentials are applied**, whatever the order of contexts, listings
and requests.  The library refuses none that are set.  What a call resolves
are the credentials of the session that is held since the context was
entered, and without one those the call was given.  And the library is called
with the first credentials that were resolved for the handle and have a
value, or with an empty register when none had. -/
theorem credentials_applied {m : Bool} {s : State} (h : (fileStreamer m).Reachable s) :
    (∀ handle ret, .set handle ret ∈ s.log → ret = .success) ∧
    (∀ before after handle credentials c,
      s.log = before ++ .resolved handle credentials c :: after →
        c = resolvedBy before credentials) ∧
    (∀ before after handle paths register,
      s.log = before ++ .called handle paths register :: after →
        register = registerOf handle before) := by
  have hfaithful := (reachable_inv s h).faithful
  constructor
  · intro handle ret hmem
    obtain ⟨before, after, hlog⟩ := List.append_of_mem hmem
    exact hfaithful before _ after hlog
  constructor
  · intro before after handle credentials c hlog
    exact hfaithful before _ after hlog
  · intro before after handle paths register hlog
    exact hfaithful before _ after hlog

/-- No boto3 session. -/
def plainResolver : Resolver := ⟨false, true, fun _ => none⟩

/-- A request with credentials in a context, and a listing after it. -/
def afterListing : State :=
  [.enter true, .streamFiles plainResolver ["s3://b/x"] (some someKey) true, .exit,
    .listFiles plainResolver "s3://b/" true].foldl (next true) .new

theorem foldl_reachable {m : Bool} {s : State} (h : (fileStreamer m).Reachable s)
    (actions : List Action) : (fileStreamer m).Reachable (actions.foldl (next m) s) := by
  induction actions generalizing s with
  | nil => exact h
  | cons a actions ih => exact ih (h.step rfl)

theorem afterListing_log : afterListing.log =
    [.entered, .resolved 0 (some someKey) someKey, .set 0 .success,
      .called 0 ["s3://b/x"] (some (fromPython (some someKey))), .resolved 1 none .unset,
      .called 1 ["s3://b/"] none] := by
  rfl

/-- The listing has a handle and a register of its own. -/
theorem credentials_applied_afterListing :
    some (fromPython (some someKey))
        = registerOf 0 [.entered, .resolved 0 (some someKey) someKey, .set 0 .success] ∧
      none = registerOf 1 [.entered, .resolved 0 (some someKey) someKey, .set 0 .success,
        .called 0 ["s3://b/x"] (some (fromPython (some someKey))), .resolved 1 none .unset] := by
  obtain ⟨-, -, hcalled⟩ := credentials_applied (foldl_reachable (m := true) (.init rfl)
    [.enter true, .streamFiles plainResolver ["s3://b/x"] (some someKey) true, .exit,
      .listFiles plainResolver "s3://b/" true])
  exact ⟨hcalled [_, _, _] [_, _] 0 _ _ afterListing_log,
    hcalled [_, _, _, _, _] [] 1 _ _ afterListing_log⟩

end ModelStreamer.FileStreamer.ObjectStore
