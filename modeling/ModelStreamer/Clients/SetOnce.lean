/-
  ModelStreamer.Clients.SetOnce
  ─────────────────────────────
  **CREDENTIALS THAT ARE SET ONCE** (`Streamer::CredentialsState`).

  Any number of threads set credentials of one streamer, while its workers
  and listings build clients from what is set then; both go through a mutex,
  so the calls have an order, in which a build stands where its `get` does.  A
  client comes from the pool: it is a new one, or one that verifies against
  the configuration.

    • `Told` — a log that a run of the register writes,
    • `Told.stored` — once something is stored it stays, and decides what
      later calls return and later clients have,
    • `set_once` — so an accepted call is binding for all clients after it.

  The user layer of the register is `FileStreamer.Credentials`.
-/
import ModelStreamer.Clients.Ownership
import ModelStreamer.Clients.Parameters

namespace ModelStreamer.Clients

open ModelStreamer.Lib ModelStreamer.ObjectStorage ModelStreamer.FileStreamer

/-! ## §1. The register. -/

/-- `CredentialsState::set`: what it returns, and what is stored then. -/
def setCredentials (stored : Option (SortedMap String String))
    (credentials : SortedMap String String) : ResponseCode × Option (SortedMap String String) :=
  match stored with
  | none => (.success, some credentials)
  | some value =>
      if value ≠ credentials then (.credentialsAlreadySet, some value) else (.success, some value)

/-- `S3Client`s in the pool. -/
def makeS3 (_ : Unit) (config : ObjectClientConfig) : Option S3Client :=
  some (S3Client.new (s3Credentials config))

def verifyS3 (_ : Unit) (client : S3Client) (config : ObjectClientConfig) : Option Bool :=
  some (client.verifyCredentials (s3Credentials config))

/-- What happened: a call of `runai_set_credentials` from Python, or a client
somebody got. -/
inductive Event where
  | set (c : Option S3Credentials) (ret : ResponseCode)
  | client (env : Environment) (client : S3Client)

/-- A streamer's credentials, and what happened. -/
structure CredentialsState where
  credentials : Option (SortedMap String String)
  log : List Event

inductive Act where
  | set (c : Option S3Credentials)
  | build (env : Environment) (client : S3Client)

/-- One call under the mutex. -/
inductive CredentialsStep : CredentialsState → Act → CredentialsState → Prop
  | set (s : CredentialsState) (c : Option S3Credentials) :
      CredentialsStep s (.set c)
        { credentials := (setCredentials s.credentials (fromPython c)).2
          log := s.log ++ [.set c (setCredentials s.credentials (fromPython c)).1] }
  /-- `get`, and a client for what it returns, whenever that is made: a build
  has the place of its `get`. -/
  | build {s : CredentialsState} {env : Environment} {config : ObjectClientConfig}
      {client : S3Client} (hconfig : toConfig env (s.credentials.getD .empty) = some config)
      (hclient : Provenance makeS3 verifyS3 config client) :
      CredentialsStep s (.build env client) { s with log := s.log ++ [.client env client] }

/-- The calls on one streamer, in the order of the mutex. -/
def credentialsState : System CredentialsState Act where
  init s := s = ⟨none, []⟩
  step := CredentialsStep

/-! ## §2. What a client has. -/

/-- Values as the library receives them. -/
def S3Credentials.received (c : S3Credentials) : S3Credentials :=
  ⟨c.accessKeyId.map FileStreamer.received, c.secretAccessKey.map FileStreamer.received,
    c.sessionToken.map FileStreamer.received, c.regionName.map FileStreamer.received,
    c.endpoint.map FileStreamer.received⟩

/-- Nothing passed is everything unset. -/
def asReceived (c : Option S3Credentials) : S3Credentials := (c.getD .unset).received

theorem field_received (c : S3Credentials) (key : String) :
    c.received.field key = (c.field key).map FileStreamer.received := by
  unfold S3Credentials.field S3Credentials.fields S3Credentials.received
  simp only [lookup_cons_eq, List.lookup_nil]
  split
  · rfl
  split
  · rfl
  split
  · rfl
  split
  · rfl
  split <;> rfl

/-- **The same map** is the same values. -/
theorem fromPython_eq_iff (c c' : Option S3Credentials) :
    fromPython c = fromPython c' ↔ asReceived c = asReceived c' := by
  have hget : ∀ c key, (fromPython c).get key = (asReceived c).field key := fun c key =>
    (nativeCredentials_get c key).trans (field_received _ key).symm
  constructor
  · intro h
    have hfield : ∀ key, (asReceived c).field key = (asReceived c').field key := fun key => by
      rw [← hget, ← hget, h]
    have hkey := hfield "access_key_id"
    have hsecret := hfield "secret_access_key"
    have htoken := hfield "session_token"
    have hregion := hfield "region"
    have hendpoint := hfield "endpoint"
    generalize asReceived c = a at hkey hsecret htoken hregion hendpoint
    generalize asReceived c' = b at hkey hsecret htoken hregion hendpoint
    obtain ⟨key, secret, token, region, endpoint⟩ := a
    obtain ⟨key', secret', token', region', endpoint'⟩ := b
    obtain rfl : key = key' := hkey
    obtain rfl : secret = secret' := hsecret
    obtain rfl : token = token' := htoken
    obtain rfl : region = region' := hregion
    obtain rfl : endpoint = endpoint' := hendpoint
    rfl
  · intro h
    apply SortedMap.ext_get
    intro key
    rw [hget, hget, h]

/-- A client of the pool has what its configuration says. -/
theorem provenance_credentials {config : ObjectClientConfig} {client : S3Client}
    (h : Provenance makeS3 verifyS3 config client) : client.credentials = s3Credentials config := by
  rcases h with ⟨_, hmake⟩ | ⟨_, hverify⟩
  · rw [← Option.some.inj hmake]
    rfl
  · have hsame := (s3_verifies_iff client.credentials (s3Credentials config)).mp
      (Option.some.inj hverify)
    exact hsame

/-! ## §3. The log. -/

/-- A client has the members for these parameters. -/
def HasMembers (m : SortedMap String String) (env : Environment) (client : S3Client) : Prop :=
  ∃ config, toConfig env m = some config ∧ client.credentials = s3Credentials config

/-- **A log of the register**, from what is stored before to what is stored
after. -/
def Told : Option (SortedMap String String) → List Event → Option (SortedMap String String) → Prop
  | start, [], final => start = final
  | start, .set c ret :: log, final =>
      (setCredentials start (fromPython c)).1 = ret ∧
        Told (setCredentials start (fromPython c)).2 log final
  | start, .client env client :: log, final =>
      HasMembers (start.getD .empty) env client ∧ Told start log final

section Told

variable {start middle final : Option (SortedMap String String)} {log rest : List Event}
  {m : SortedMap String String}

theorem told_append : Told start (log ++ rest) final ↔
    ∃ middle, Told start log middle ∧ Told middle rest final := by
  induction log generalizing start with
  | nil => exact ⟨fun h => ⟨start, rfl, h⟩, fun ⟨_, heq, h⟩ => heq ▸ h⟩
  | cons event log ih =>
      cases event with
      | set c ret =>
          show _ ∧ Told _ (log ++ rest) final ↔ _
          rw [ih]
          exact ⟨fun ⟨hret, middle, hlog, hrest⟩ => ⟨middle, ⟨hret, hlog⟩, hrest⟩,
            fun ⟨middle, ⟨hret, hlog⟩, hrest⟩ => ⟨hret, middle, hlog, hrest⟩⟩
      | client env client =>
          show _ ∧ Told _ (log ++ rest) final ↔ _
          rw [ih]
          exact ⟨fun ⟨hhas, middle, hlog, hrest⟩ => ⟨middle, ⟨hhas, hlog⟩, hrest⟩,
            fun ⟨middle, ⟨hhas, hlog⟩, hrest⟩ => ⟨hhas, middle, hlog, hrest⟩⟩

/-- What an event is like while `m` is stored. -/
def UnderStored (m : SortedMap String String) : Event → Prop
  | .set c ret =>
      (ret = .success ↔ fromPython c = m) ∧ (ret = .success ∨ ret = .credentialsAlreadySet)
  | .client env client => HasMembers m env client

theorem setCredentials_stored (m credentials : SortedMap String String) :
    (setCredentials (some m) credentials).2 = some m ∧
      ((setCredentials (some m) credentials).1 = .success ↔ credentials = m) ∧
      ((setCredentials (some m) credentials).1 = .success ∨
        (setCredentials (some m) credentials).1 = .credentialsAlreadySet) := by
  unfold setCredentials
  dsimp only
  by_cases heq : m = credentials
  · rw [if_neg (not_not.mpr heq)]
    exact ⟨rfl, ⟨fun _ => heq.symm, fun _ => rfl⟩, Or.inl rfl⟩
  · rw [if_pos heq]
    exact ⟨rfl, ⟨fun h => by simp at h, fun h => absurd h.symm heq⟩, Or.inr rfl⟩

/-- **What is stored stays**, and decides what comes. -/
theorem Told.stored (h : Told (some m) log final) :
    final = some m ∧ ∀ event ∈ log, UnderStored m event := by
  induction log with
  | nil => exact ⟨h.symm, by simp⟩
  | cons event log ih =>
      rw [List.forall_mem_cons]
      cases event with
      | set c ret =>
          obtain ⟨hkept, hsuccess, hcodes⟩ := setCredentials_stored m (fromPython c)
          obtain ⟨rfl, hrest⟩ := h
          rw [hkept] at hrest
          obtain ⟨hfinal, hall⟩ := ih hrest
          exact ⟨hfinal, ⟨hsuccess, hcodes⟩, hall⟩
      | client env client =>
          obtain ⟨hhas, hrest⟩ := h
          obtain ⟨hfinal, hall⟩ := ih hrest
          exact ⟨hfinal, hhas, hall⟩

/-- From an empty register on: the clients built before anything was stored
are those of no credentials. -/
theorem Told.fresh (h : Told none log final) :
    (final = none ∧ ∀ event ∈ log, ∃ env client, event = .client env client ∧
      HasMembers .empty env client) ∨
    ∃ m, final = some m ∧ ∀ event ∈ log, UnderStored m event ∨
      ∃ env client, event = .client env client ∧ HasMembers .empty env client := by
  induction log with
  | nil => exact Or.inl ⟨h.symm, by simp⟩
  | cons event log ih =>
      cases event with
      | set c ret =>
          -- the first call is accepted, and all that follows is under it
          obtain ⟨hret, hrest⟩ := h
          obtain ⟨hfinal, hall⟩ := Told.stored (m := fromPython c) hrest
          refine Or.inr ⟨fromPython c, hfinal, ?_⟩
          rw [List.forall_mem_cons]
          have haccepted : ret = .success := hret.symm
          exact ⟨Or.inl ⟨⟨fun _ => rfl, fun _ => haccepted⟩, Or.inl haccepted⟩,
            fun event hevent => Or.inl (hall event hevent)⟩
      | client env client =>
          obtain ⟨hhas, hrest⟩ := h
          rcases ih hrest with ⟨hfinal, hall⟩ | ⟨m, hfinal, hall⟩
          · refine Or.inl ⟨hfinal, ?_⟩
            rw [List.forall_mem_cons]
            exact ⟨⟨env, client, rfl, hhas⟩, hall⟩
          · refine Or.inr ⟨m, hfinal, ?_⟩
            rw [List.forall_mem_cons]
            exact ⟨Or.inr ⟨env, client, rfl, hhas⟩, hall⟩

end Told

/-- One step writes on. -/
theorem told_step {s s' : CredentialsState} {a : Act} (hs : Told none s.log s.credentials)
    (h : CredentialsStep s a s') : Told none s'.log s'.credentials := by
  cases h with
  | set c => exact told_append.mpr ⟨s.credentials, hs, rfl, rfl⟩
  | build hconfig hclient =>
      exact told_append.mpr ⟨s.credentials, hs,
        ⟨_, hconfig, provenance_credentials hclient⟩, rfl⟩

/-- **Every run writes a log of the register.** -/
theorem reachable_told :
    ∀ s, credentialsState.Reachable s → Told none s.log s.credentials := by
  apply System.Reachable.invariant
  · rintro s rfl
    rfl
  · intro s a s' _ hs hstep
    exact told_step hs hstep

/-! ## §4. Set once. -/

theorem hasMembers_iff {c : Option S3Credentials} {env : Environment} {client : S3Client} :
    HasMembers (fromPython c) env client ↔ s3Members env c = some client.credentials := by
  rw [← s3Members_config]
  constructor
  · rintro ⟨config, hconfig, hclient⟩
    rw [hconfig, hclient]
    rfl
  · intro h
    obtain ⟨config, hconfig, hclient⟩ := Option.map_eq_some_iff.mp h
    exact ⟨config, hconfig, hclient.symm⟩

/-- **An accepted call is binding.**  Every client that is built after a call
was accepted has exactly the values of that call, whoever built it and from
whatever pool; a client built before has them too, or was built as if nothing
was set; and another call, before it or after it, is accepted if and only if
the library receives the same values from it. -/
theorem set_once {s : CredentialsState} (h : credentialsState.Reachable s)
    {before after : List Event} {c : Option S3Credentials}
    (hlog : s.log = before ++ .set c .success :: after) :
    (∀ env client, .client env client ∈ after → s3Members env c = some client.credentials) ∧
    (∀ env client, .client env client ∈ before →
      s3Members env c = some client.credentials ∨ s3Members env none = some client.credentials) ∧
    (∀ c' ret, .set c' ret ∈ before ++ after →
      (ret = .success ↔ asReceived c' = asReceived c) ∧
        (ret = .success ∨ ret = .credentialsAlreadySet)) := by
  have htold := reachable_told s h
  rw [hlog] at htold
  obtain ⟨middle, hbefore, hret, hafter⟩ := told_append.mp htold
  -- what is stored after the accepted call is its map
  have hstored : (setCredentials middle (fromPython c)).2 = some (fromPython c) ∧
      (middle = none ∨ middle = some (fromPython c)) := by
    cases middle with
    | none => exact ⟨rfl, Or.inl rfl⟩
    | some m =>
        obtain ⟨hkept, hsuccess, -⟩ := setCredentials_stored m (fromPython c)
        rw [hsuccess.mp hret] at hkept ⊢
        exact ⟨hkept, Or.inr rfl⟩
  rw [hstored.1] at hafter
  have hunder := (Told.stored hafter).2
  have hearlier : ∀ event ∈ before, UnderStored (fromPython c) event ∨
      ∃ env client, event = .client env client ∧ HasMembers .empty env client := by
    intro event hevent
    rcases Told.fresh hbefore with ⟨-, hall⟩ | ⟨m, hm, hall⟩
    · exact Or.inr (hall event hevent)
    · rcases hstored.2 with hnone | hsome
      · rw [hm] at hnone
        exact absurd hnone (by simp)
      · obtain rfl : m = fromPython c := Option.some.inj (hm.symm.trans hsome)
        exact hall event hevent
  refine ⟨fun env client hmem => hasMembers_iff.mp (hunder _ hmem), fun env client hmem => ?_,
    fun c' ret hmem => ?_⟩
  · rcases hearlier _ hmem with hstays | ⟨env', client', heq, hhas⟩
    · exact Or.inl (hasMembers_iff.mp hstays)
    · obtain ⟨rfl, rfl⟩ := Event.client.inj heq
      exact Or.inr (hasMembers_iff.mp hhas)
  · rw [← fromPython_eq_iff]
    rcases List.mem_append.mp hmem with hmem | hmem
    · rcases hearlier _ hmem with hstays | ⟨env', client', heq, -⟩
      · exact hstays
      · exact absurd heq (by simp)
    · exact hunder _ hmem

/-- An access key, and a region that differs. -/
def someKey : S3Credentials := ⟨some "k", some "s", none, none, none⟩

def otherRegion : S3Credentials := { someKey with regionName := some "r" }

/-- The client for it. -/
def someClient : S3Client := S3Client.new ⟨some "k", some "s", none, none, none⟩

/-- A call, a client and another call. -/
def threeEvents : List Event :=
  [.set (some someKey) .success, .client (fun _ => none) someClient,
    .set (some otherRegion) .credentialsAlreadySet]

theorem someKey_members : s3Members (fun _ => none) (some someKey) = some someClient.credentials := by
  decide +kernel

theorem otherRegion_differs : fromPython (some someKey) ≠ fromPython (some otherRegion) := by
  decide +kernel

theorem threeEvents_reachable :
    credentialsState.Reachable ⟨some (fromPython (some someKey)), threeEvents⟩ := by
  have hfirst : credentialsState.Reachable
      ⟨some (fromPython (some someKey)), [.set (some someKey) .success]⟩ :=
    .step (.init rfl) (CredentialsStep.set ⟨none, []⟩ (some someKey))
  obtain ⟨config, hconfig, hclient⟩ := hasMembers_iff.mpr someKey_members
  have hbuilt : Provenance makeS3 verifyS3 config someClient := by
    refine Or.inl ⟨(), ?_⟩
    unfold makeS3
    rw [← hclient]
    rfl
  have hsecond := hfirst.step (CredentialsStep.build hconfig hbuilt)
  have hthird := hsecond.step (CredentialsStep.set _ (some otherRegion))
  have hrejected : setCredentials (some (fromPython (some someKey))) (fromPython (some otherRegion))
      = (.credentialsAlreadySet, some (fromPython (some someKey))) := by
    unfold setCredentials
    dsimp only
    rw [if_pos otherRegion_differs]
  simp only [hrejected] at hthird
  exact hthird

/-- A client after the call has its values, and other values are rejected. -/
theorem set_once_threeEvents :
    s3Members (fun _ => none) (some someKey) = some someClient.credentials ∧
      (ResponseCode.credentialsAlreadySet = .success ↔
        asReceived (some otherRegion) = asReceived (some someKey)) := by
  have hlog : threeEvents = [] ++ .set (some someKey) .success ::
      [.client (fun _ => none) someClient, .set (some otherRegion) .credentialsAlreadySet] := rfl
  obtain ⟨hafter, -, hcalls⟩ := set_once threeEvents_reachable hlog
  exact ⟨hafter _ _ List.mem_cons_self,
    (hcalls _ _ (List.mem_cons_of_mem _ List.mem_cons_self)).1⟩

end ModelStreamer.Clients
