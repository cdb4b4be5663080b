/-
  ModelStreamer.Clients.Credentials
  ─────────────────────────────────
  **CREDENTIALS: BUILDING A CLIENT AND VERIFYING IT** (`s3/client/client.cc`,
  `azure/client/client.cc`, `azure/client_configuration`).

  A client is reused when the configuration of the next request verifies
  against it.  S3 verifies by reading the configuration with the constructor
  itself.  Azure reads it twice over: its constructor passes over null and
  empty values, its verification does not, and throws on a null one.

    • `s3_verifies_iff` — S3 verifies exactly what has the same credentials,
    • `construct_get`, `override_get` — what the two readings of Azure make
      of a parameter: the last value that is not empty, and the last value,
    • `azure_verifies_iff` — they agree exactly when every last value is one
      the constructor takes,
    • `credentials_consistent` — so a client verifies against its own
      configuration, and never against different credentials.
-/
import ModelStreamer.ObjectStorage.Client
import Mathlib.Data.List.Induction

namespace ModelStreamer.Clients

open ModelStreamer.ObjectStorage

/-! ## §1. Configurations. -/

/-- `ObjectConfigParam_t`; the value may be a null pointer. -/
structure ObjectConfigParam where
  key : String
  value : Option String
  deriving DecidableEq, Repr

/-- `ObjectClientConfig_t`, apart from the chunk size. -/
structure ObjectClientConfig where
  endpointUrl : Option String
  initialParams : List ObjectConfigParam
  deriving DecidableEq, Repr

/-! ## §2. S3. -/

/-- One iteration of the loop of `S3ClientBase::S3ClientBase`; `convert`
makes a null value an unset one. -/
def readS3Param (c : Credentials) (p : ObjectConfigParam) : Credentials :=
  if p.key = "access_key_id" then { c with key := p.value }
  else if p.key = "secret_access_key" then { c with secret := p.value }
  else if p.key = "session_token" then { c with token := p.value }
  else if p.key = "region" then { c with region := p.value }
  else c

/-- The members after `S3ClientBase::S3ClientBase`. -/
def s3Credentials (config : ObjectClientConfig) : Credentials :=
  config.initialParams.foldl readS3Param ⟨none, none, none, none, config.endpointUrl⟩

/-- What they come to: `_client_credentials`, or else the default chain of
the SDK, and the overrides of region and endpoint. -/
structure S3Effective where
  credentials : Option (String × String × String)
  region : Option String
  endpoint : Option String
  deriving DecidableEq, Repr

def s3Effective (c : Credentials) : S3Effective where
  credentials :=
    match c.key, c.secret with
    | some key, some secret => some (key, secret, c.token.getD "")
    | _, _ => none
  region := c.region
  endpoint := c.endpoint

theorem verifyCredentialsMember_iff (a b : Option String) :
    verifyCredentialsMember a b = true ↔ a = b := by
  cases a with
  | none => cases b <;> simp [verifyCredentialsMember]
  | some a => cases b <;> simp [verifyCredentialsMember]

/-- **S3 verifies exactly what has the same members.** -/
theorem s3_verifies_iff (c other : Credentials) :
    (S3Client.new c).verifyCredentials other = true ↔ c = other := by
  unfold S3Client.verifyCredentials S3Client.new
  simp only [Bool.and_eq_true, verifyCredentialsMember_iff]
  constructor
  · rintro ⟨⟨⟨⟨hkey, hsecret⟩, htoken⟩, hregion⟩, hendpoint⟩
    obtain ⟨key, secret, token, region, endpoint⟩ := c
    simp only at hkey hsecret htoken hregion hendpoint
    rw [hkey, hsecret, htoken, hregion, hendpoint]
  · rintro rfl
    exact ⟨⟨⟨⟨rfl, rfl⟩, rfl⟩, rfl⟩, rfl⟩

/-! ## §3. Azure. -/

/-- The environment of the process. -/
abbrev Environment := String → Option String

/-- `isspace`. -/
def isSpace (c : Char) : Bool := decide (c = ' ' ∨ 9 ≤ c.toNat ∧ c.toNat ≤ 13)

/-- `std::stoul`, of all of the string; a number with a minus sign wraps. -/
def stoul (s : String) : Option Nat :=
  let (minus, digits) := match s.toList.dropWhile isSpace with
    | '+' :: rest => (false, rest)
    | '-' :: rest => (true, rest)
    | rest => (false, rest)
  if digits.isEmpty then none
  else if digits.all Char.isDigit then
    let n := digits.foldl (fun n c => 10 * n + (c.toNat - '0'.toNat)) 0
    if n < 2 ^ 64 then some (if minus then (2 ^ 64 - n) % 2 ^ 64 else n) else none
  else none

/-- `getenv<unsigned long>`; `none` when it throws. -/
def Environment.number (env : Environment) (name : String) (default : Nat) : Option Nat :=
  match env name with
  | none => some default
  | some s => stoul s

/-- An empty string counts as none. -/
def nonEmpty : Option String → Option String
  | none => none
  | some s => if s = "" then none else some s

/-- The credentials of an `AzureClient`; those of a `ClientConfiguration`
are the same. -/
structure AzureClient where
  accountName : Option String
  accountKey : Option String
  sasToken : Option String
  endpointSuffix : String
  deriving DecidableEq, Repr

/-- `ClientConfiguration::ClientConfiguration`; `none` when a number it reads
is none, or the number of processors is divided by zero. -/
def clientConfiguration (env : Environment) : Option AzureClient :=
  (env.number "RUNAI_STREAMER_CONCURRENCY" 8).bind (fun workerConcurrency =>
    (env.number "RUNAI_STREAMER_PROCESS_GROUP_SIZE" 1).bind (fun processGroupSize =>
      -- both are `unsigned`, and so is their product
      if workerConcurrency % 2 ^ 32 * (processGroupSize % 2 ^ 32) % 2 ^ 32 = 0 then none
      else
        some ⟨nonEmpty (env "AZURE_STORAGE_ACCOUNT_NAME"),
          nonEmpty (env "AZURE_STORAGE_ACCOUNT_KEY"), nonEmpty (env "AZURE_STORAGE_SAS_TOKEN"),
          (nonEmpty (env "AZURE_STORAGE_ENDPOINT_SUFFIX")).getD "blob.core.windows.net"⟩))

/-- The keys both readings know. -/
inductive AzureKey where
  | accountName
  | accountKey
  | sasToken
  | endpointSuffix
  deriving DecidableEq, Repr

def azureKey (key : String) : Option AzureKey :=
  if key = "account_name" then some .accountName
  else if key = "account_key" then some .accountKey
  else if key = "sas_token" then some .sasToken
  else if key = "endpoint_suffix" then some .endpointSuffix
  else none

def AzureClient.set (c : AzureClient) (value : String) : AzureKey → AzureClient
  | .accountName => { c with accountName := some value }
  | .accountKey => { c with accountKey := some value }
  | .sasToken => { c with sasToken := some value }
  | .endpointSuffix => { c with endpointSuffix := value }

def AzureClient.get (c : AzureClient) : AzureKey → Option String
  | .accountName => c.accountName
  | .accountKey => c.accountKey
  | .sasToken => c.sasToken
  | .endpointSuffix => some c.endpointSuffix

/-- One iteration of the constructor's loop. -/
def constructParam (c : AzureClient) (p : ObjectConfigParam) : AzureClient :=
  match nonEmpty p.value with
  -- null or empty: the parameter is passed over, whatever its key
  | none => c
  | some value =>
      match azureKey p.key with
      | none => c
      | some k => c.set value k

/-- One iteration of the loop of `verify_credentials`; a string made of a
null pointer throws. -/
def overrideParam (c : AzureClient) (p : ObjectConfigParam) : Option AzureClient :=
  match azureKey p.key with
  | none => some c
  -- no test of the value here, so that an empty one counts
  | some k => p.value.map (fun value => c.set value k)

/-- What the credentials come to. -/
inductive AzureCredential where
  | sas (token : String)
  | sharedKey (key : String)
  | defaultCredential
  deriving DecidableEq, Repr

structure AzureEffective where
  accountName : String
  endpointSuffix : String
  credential : AzureCredential
  deriving DecidableEq, Repr

/-- A leading `?` of a token is dropped. -/
def sasQuery (token : String) : String :=
  match token.toList with
  | '?' :: rest => String.ofList rest
  | _ => token

/-- The end of the constructor; there is none without an account name. -/
def AzureClient.effective (c : AzureClient) : Option AzureEffective :=
  c.accountName.map (fun name => ⟨name, c.endpointSuffix,
    match c.sasToken, c.accountKey with
    | some token, _ => .sas (sasQuery token)
    | none, some key => .sharedKey key
    | none, none => .defaultCredential⟩)

section Azure

-- what the SDK makes a client of; where it does not, the constructor throws
variable (accepts : Environment → AzureEffective → Bool)

/-- `AzureClient::AzureClient`; `none` when it throws. -/
def AzureClient.new (env : Environment) (config : ObjectClientConfig) : Option AzureClient :=
  (clientConfiguration env).bind (fun c =>
    let c := config.initialParams.foldl constructParam c
    if c.effective.any (accepts env) then some c else none)

/-- `AzureClient::verify_credentials`; `none` when it throws. -/
def AzureClient.verifyCredentials (c : AzureClient) (env : Environment)
    (config : ObjectClientConfig) : Option Bool :=
  (clientConfiguration env).bind (fun other =>
    (config.initialParams.foldlM overrideParam other).map (fun other =>
      decide (c.accountName = other.accountName) && decide (c.accountKey = other.accountKey) &&
        decide (c.sasToken = other.sasToken) && decide (c.endpointSuffix = other.endpointSuffix)))

/-! ## §4. The two readings. -/

/-- The value of the last parameter with a key. -/
def lastValue (k : AzureKey) (params : List ObjectConfigParam) : Option (Option String) :=
  params.foldl (fun last p => if azureKey p.key = some k then some p.value else last) none

theorem lastValue_snoc (k : AzureKey) (params : List ObjectConfigParam) (p : ObjectConfigParam) :
    lastValue k (params ++ [p])
      = if azureKey p.key = some k then some p.value else lastValue k params := by
  unfold lastValue
  rw [List.foldl_append]
  rfl

theorem lastValue_mem {k : AzureKey} {params : List ObjectConfigParam} {value : Option String}
    (h : lastValue k params = some value) :
    ∃ p ∈ params, azureKey p.key = some k ∧ p.value = value := by
  induction params using List.reverseRecOn with
  | nil => simp [lastValue] at h
  | append_singleton params p ih =>
      rw [lastValue_snoc] at h
      by_cases hkey : azureKey p.key = some k
      · rw [if_pos hkey] at h
        exact ⟨p, by simp, hkey, Option.some.inj h⟩
      · rw [if_neg hkey] at h
        obtain ⟨q, hq, hspec⟩ := ih h
        exact ⟨q, List.mem_append_left _ hq, hspec⟩

@[simp] theorem get_set (c : AzureClient) (value : String) (k k' : AzureKey) :
    (c.set value k).get k' = if k = k' then some value else c.get k' := by
  cases k <;> cases k' <;> rfl

theorem eq_of_get {c c' : AzureClient} (h : ∀ k, c.get k = c'.get k) : c = c' := by
  obtain ⟨name, key, token, suffix⟩ := c
  obtain ⟨name', key', token', suffix'⟩ := c'
  have hname : name = name' := h .accountName
  have hkey : key = key' := h .accountKey
  have htoken : token = token' := h .sasToken
  have hsuffix : suffix = suffix' := Option.some.inj (h .endpointSuffix)
  rw [hname, hkey, htoken, hsuffix]

/-- **The verification** takes the last value of each key. -/
theorem override_get {params : List ObjectConfigParam} {c c' : AzureClient}
    (h : params.foldlM overrideParam c = some c') (k : AzureKey) :
    c'.get k = (lastValue k params).getD (c.get k) := by
  induction params using List.reverseRecOn generalizing c' with
  | nil =>
      obtain rfl : c = c' := by simpa using h
      rfl
  | append_singleton params p ih =>
      rw [List.foldlM_append] at h
      obtain ⟨before, hbefore, hlast⟩ := Option.bind_eq_some_iff.mp h
      have hlast : overrideParam before p = some c' := by simpa using hlast
      have hget := ih hbefore
      unfold overrideParam at hlast
      rw [lastValue_snoc]
      cases hkey : azureKey p.key with
      | none =>
          rw [hkey] at hlast
          obtain rfl := Option.some.inj hlast
          rw [if_neg (by simp)]
          exact hget
      | some j =>
          rw [hkey] at hlast
          obtain ⟨value, hvalue, rfl⟩ := Option.map_eq_some_iff.mp hlast
          rw [get_set]
          by_cases hjk : j = k
          · rw [if_pos hjk, if_pos (by rw [hjk]), hvalue]
            rfl
          · rw [if_neg hjk, if_neg (by simpa using hjk)]
            exact hget

/-- It throws on a null value, and only then. -/
theorem override_isSome (params : List ObjectConfigParam) (c : AzureClient) :
    (params.foldlM overrideParam c).isSome ↔
      ∀ p ∈ params, azureKey p.key ≠ none → p.value ≠ none := by
  induction params generalizing c with
  | nil => simp
  | cons p params ih =>
      rw [List.foldlM_cons, List.forall_mem_cons]
      cases hkey : azureKey p.key with
      | none =>
          have hstep : overrideParam c p = some c := by
            unfold overrideParam
            rw [hkey]
          rw [hstep]
          exact (ih c).trans ⟨fun h => ⟨fun hne => absurd rfl hne, h⟩, fun h => h.2⟩
      | some k =>
          have hstep : overrideParam c p = p.value.map (fun value => c.set value k) := by
            unfold overrideParam
            rw [hkey]
          rw [hstep]
          cases hvalue : p.value with
          | none => exact ⟨fun h => by simp at h, fun h => absurd rfl (h.1 (by simp))⟩
          | some value =>
              exact (ih (c.set value k)).trans
                ⟨fun h => ⟨fun _ => by simp, h⟩, fun h => h.2⟩

theorem nonEmpty_ne (value : Option String) : nonEmpty value ≠ some "" := by
  cases value with
  | none => simp [nonEmpty]
  | some s =>
      unfold nonEmpty
      dsimp only
      split
      · simp
      next hne => simpa using hne

theorem nonEmpty_eq {value : Option String} (h : value ≠ some "") : nonEmpty value = value := by
  cases value with
  | none => rfl
  | some s => exact if_neg (fun heq => h (by rw [heq]))

theorem nonEmpty_some {value : Option String} {v : String} (h : nonEmpty value = some v) :
    value = some v ∧ v ≠ "" := by
  cases value with
  | none => simp [nonEmpty] at h
  | some s =>
      unfold nonEmpty at h
      dsimp only at h
      split at h
      · simp at h
      next hne =>
          obtain rfl := Option.some.inj h
          exact ⟨rfl, hne⟩

theorem constructParam_passes {c : AzureClient} {p : ObjectConfigParam}
    (h : nonEmpty p.value = none ∨ azureKey p.key = none) : constructParam c p = c := by
  unfold constructParam
  rcases h with h | h
  · rw [h]
  · rw [h]
    cases nonEmpty p.value <;> rfl

theorem constructParam_takes {c : AzureClient} {p : ObjectConfigParam} {value : String}
    {k : AzureKey} (hvalue : nonEmpty p.value = some value) (hkey : azureKey p.key = some k) :
    constructParam c p = c.set value k := by
  unfold constructParam
  rw [hvalue, hkey]

/-- **The constructor** takes no empty value, and the last one if it is not
empty. -/
theorem construct_get (params : List ObjectConfigParam) {c : AzureClient}
    (hinit : ∀ k, c.get k ≠ some "") (k : AzureKey) :
    (params.foldl constructParam c).get k ≠ some "" ∧
      (lastValue k params = none → (params.foldl constructParam c).get k = c.get k) ∧
      ∀ value, lastValue k params = some (some value) → value ≠ "" →
        (params.foldl constructParam c).get k = some value := by
  induction params using List.reverseRecOn with
  | nil => exact ⟨hinit k, fun _ => rfl, fun value h => by simp [lastValue] at h⟩
  | append_singleton params p ih =>
      obtain ⟨hne, hnone, hsome⟩ := ih
      rw [List.foldl_append, lastValue_snoc]
      show (constructParam (params.foldl constructParam c) p).get k ≠ some "" ∧ _
      cases hkey : azureKey p.key with
      | none =>
          have hstep : constructParam (params.foldl constructParam c) p
              = params.foldl constructParam c := constructParam_passes (.inr hkey)
          rw [List.foldl_cons, List.foldl_nil, hstep, if_neg (by simp)]
          exact ⟨hne, hnone, hsome⟩
      | some j =>
          cases hvalue : nonEmpty p.value with
          | none =>
              -- the parameter is passed over, so its value is null or empty
              have hstep : constructParam (params.foldl constructParam c) p
                  = params.foldl constructParam c := constructParam_passes (.inl hvalue)
              rw [List.foldl_cons, List.foldl_nil, hstep]
              refine ⟨hne, fun h => ?_, fun value h hv => ?_⟩
              · split at h
                · simp at h
                · exact hnone h
              · split at h
                · have hp : p.value = some value := Option.some.inj h
                  rw [nonEmpty_eq (by rw [hp]; simpa using hv), hp] at hvalue
                  simp at hvalue
                · exact hsome value h hv
          | some v =>
              obtain ⟨hp, hv⟩ := nonEmpty_some hvalue
              have hstep : constructParam (params.foldl constructParam c) p
                  = (params.foldl constructParam c).set v j := constructParam_takes hvalue hkey
              rw [List.foldl_cons, List.foldl_nil, hstep, get_set]
              by_cases hjk : j = k
              · rw [if_pos hjk, if_pos (by rw [hjk]), hp]
                exact ⟨by simpa using hv, fun h => by simp at h,
                  fun value h _ => Option.some.inj h⟩
              · rw [if_neg hjk, if_neg (by simpa using hjk)]
                exact ⟨hne, hnone, hsome⟩

/-- **What both readings agree on**: no known key has a null value, and none
has an empty one last. -/
def Settled (params : List ObjectConfigParam) : Prop :=
  (∀ p ∈ params, azureKey p.key ≠ none → p.value ≠ none) ∧
    ∀ k, lastValue k params ≠ some (some "")

/-- Where they agree. -/
theorem readings_agree {params : List ObjectConfigParam} {c c' : AzureClient}
    (hinit : ∀ k, c.get k ≠ some "") (h : params.foldlM overrideParam c = some c') :
    params.foldl constructParam c = c' ↔ ∀ k, lastValue k params ≠ some (some "") := by
  have hnulls := (override_isSome params c).mp (by rw [h]; rfl)
  constructor
  · intro heq k hlast
    have hget := override_get h k
    rw [hlast, ← heq] at hget
    exact (construct_get params hinit k).1 hget
  · intro hlasts
    apply eq_of_get
    intro k
    obtain ⟨-, hnone, hsome⟩ := construct_get params hinit k
    rw [override_get h k]
    cases hlast : lastValue k params with
    | none => exact hnone hlast
    | some value =>
        cases value with
        | none =>
            obtain ⟨p, hp, hkey, hvalue⟩ := lastValue_mem hlast
            exact absurd hvalue (hnulls p hp (by rw [hkey]; simp))
        | some value =>
            exact hsome value hlast (fun hv => hlasts k (by rw [hlast, hv]))

theorem clientConfiguration_get {env : Environment} {c : AzureClient}
    (h : clientConfiguration env = some c) (k : AzureKey) : c.get k ≠ some "" := by
  unfold clientConfiguration at h
  obtain ⟨workerConcurrency, -, h⟩ := Option.bind_eq_some_iff.mp h
  obtain ⟨processGroupSize, -, h⟩ := Option.bind_eq_some_iff.mp h
  split at h
  · simp at h
  · rw [← Option.some.inj h]
    cases k with
    | accountName => exact nonEmpty_ne _
    | accountKey => exact nonEmpty_ne _
    | sasToken => exact nonEmpty_ne _
    | endpointSuffix =>
        show some ((nonEmpty (env "AZURE_STORAGE_ENDPOINT_SUFFIX")).getD "blob.core.windows.net")
          ≠ some ""
        have hne := nonEmpty_ne (env "AZURE_STORAGE_ENDPOINT_SUFFIX")
        cases hsuffix : nonEmpty (env "AZURE_STORAGE_ENDPOINT_SUFFIX") with
        | none => decide
        | some suffix =>
            rw [hsuffix] at hne
            exact hne

/-! ## §5. Verifying. -/

theorem verifyCredentials_iff (c : AzureClient) (env : Environment)
    (config : ObjectClientConfig) :
    c.verifyCredentials env config = some true ↔
      ∃ other, clientConfiguration env = some other ∧
        config.initialParams.foldlM overrideParam other = some c := by
  unfold AzureClient.verifyCredentials
  rw [Option.bind_eq_some_iff]
  constructor
  · rintro ⟨other, henv, h⟩
    obtain ⟨c', hfold, heq⟩ := Option.map_eq_some_iff.mp h
    refine ⟨other, henv, ?_⟩
    simp only [Bool.and_eq_true, decide_eq_true_eq] at heq
    obtain ⟨⟨⟨hname, hkey⟩, htoken⟩, hsuffix⟩ := heq
    rw [hfold]
    congr 1
    obtain ⟨name, key, token, suffix⟩ := c
    simp only at hname hkey htoken hsuffix
    rw [hname, hkey, htoken, hsuffix]
  · rintro ⟨other, henv, hfold⟩
    exact ⟨other, henv, by rw [hfold]; simp⟩

theorem new_eq {env : Environment} {config : ObjectClientConfig} {c : AzureClient}
    (h : AzureClient.new accepts env config = some c) :
    ∃ other, clientConfiguration env = some other ∧
      config.initialParams.foldl constructParam other = c := by
  unfold AzureClient.new at h
  obtain ⟨other, henv, h⟩ := Option.bind_eq_some_iff.mp h
  refine ⟨other, henv, ?_⟩
  dsimp only at h
  split at h
  · exact Option.some.inj h
  · simp at h

/-- No member of a client is empty. -/
theorem new_get {env : Environment} {config : ObjectClientConfig} {c : AzureClient}
    (h : AzureClient.new accepts env config = some c) (k : AzureKey) : c.get k ≠ some "" := by
  obtain ⟨other, henv, rfl⟩ := new_eq accepts h
  exact (construct_get config.initialParams (clientConfiguration_get henv) k).1

/-- **When a client verifies against its own configuration.** -/
theorem azure_verifies_iff {env : Environment} {config : ObjectClientConfig} {c : AzureClient}
    (h : AzureClient.new accepts env config = some c) :
    c.verifyCredentials env config = some true ↔ Settled config.initialParams := by
  obtain ⟨other, henv, rfl⟩ := new_eq accepts h
  have hinit := clientConfiguration_get henv
  rw [verifyCredentials_iff]
  constructor
  · rintro ⟨other', henv', hfold⟩
    obtain rfl : other = other' := Option.some.inj (henv.symm.trans henv')
    exact ⟨(override_isSome _ other).mp (by rw [hfold]; rfl), (readings_agree hinit hfold).mp rfl⟩
  · rintro ⟨hnulls, hlasts⟩
    obtain ⟨c', hfold⟩ := Option.isSome_iff_exists.mp
      ((override_isSome config.initialParams other).mpr hnulls)
    refine ⟨other, henv, ?_⟩
    rw [hfold, (readings_agree hinit hfold).mpr hlasts]

/-- **A client that verifies against a configuration** is the one the
constructor makes of it: its own members are not empty, so neither is any
last value. -/
theorem azure_verifies_same {env : Environment} {config config' : ObjectClientConfig}
    {env' : Environment} {c c' : AzureClient} (h : AzureClient.new accepts env config = some c)
    (h' : AzureClient.new accepts env' config' = some c')
    (hverify : c.verifyCredentials env' config' = some true) : c = c' := by
  obtain ⟨other, henv, hfold⟩ := (verifyCredentials_iff c env' config').mp hverify
  obtain ⟨other', henv', rfl⟩ := new_eq accepts h'
  obtain rfl : other = other' := Option.some.inj (henv.symm.trans henv')
  refine ((readings_agree (clientConfiguration_get henv) hfold).mpr (fun k hlast => ?_)).symm
  have hget := override_get hfold k
  rw [hlast] at hget
  exact new_get accepts h k hget

end Azure

/-! ## §6. Consistency. -/

/-- **S3**: a client verifies against its own configuration, and against none
with other credentials. -/
structure S3Consistent (config : ObjectClientConfig) : Prop where
  verifies : (S3Client.new (s3Credentials config)).verifyCredentials (s3Credentials config) = true
  separates : ∀ config', s3Effective (s3Credentials config) ≠ s3Effective (s3Credentials config') →
    (S3Client.new (s3Credentials config)).verifyCredentials (s3Credentials config') ≠ true ∧
      (S3Client.new (s3Credentials config')).verifyCredentials (s3Credentials config) ≠ true

/-- **Azure**: a client verifies against no configuration with other
credentials, in whatever environment the other client is built. -/
def AzureSeparates (accepts : Environment → AzureEffective → Bool) (env : Environment)
    (config : ObjectClientConfig) (c : AzureClient) : Prop :=
  ∀ env' config' c', AzureClient.new accepts env' config' = some c' → c.effective ≠ c'.effective →
    c.verifyCredentials env' config' ≠ some true ∧ c'.verifyCredentials env config ≠ some true

theorem s3_consistent (config : ObjectClientConfig) : S3Consistent config where
  verifies := (s3_verifies_iff _ _).mpr rfl
  separates := by
    intro config' hne
    constructor
    · intro h
      exact hne (by rw [(s3_verifies_iff _ _).mp h])
    · intro h
      exact hne (by rw [(s3_verifies_iff _ _).mp h])

theorem azure_separates {accepts : Environment → AzureEffective → Bool} {env : Environment}
    {config : ObjectClientConfig} {c : AzureClient}
    (h : AzureClient.new accepts env config = some c) : AzureSeparates accepts env config c := by
  intro env' config' c' h' hne
  constructor
  · intro hverify
    exact hne (by rw [azure_verifies_same accepts h h' hverify])
  · intro hverify
    exact hne (by rw [azure_verifies_same accepts h' h hverify])

/-- **Building and verifying.**  The S3 clients are consistent; an Azure
client never verifies against other credentials, and verifies against its own
configuration exactly when no known key of it has a null value, or an empty
one last. -/
theorem credentials_consistent (config : ObjectClientConfig) :
    S3Consistent config ∧
      ∀ (accepts : Environment → AzureEffective → Bool) (env : Environment) (c : AzureClient),
        AzureClient.new accepts env config = some c →
          AzureSeparates accepts env config c ∧
            (c.verifyCredentials env config = some true ↔ Settled config.initialParams) :=
  ⟨s3_consistent config, fun accepts _ _ h => ⟨azure_separates h, azure_verifies_iff accepts h⟩⟩

/-- The witness: a name and a key, in an empty environment. -/
theorem credentials_consistent_key :
    AzureClient.verifyCredentials ⟨some "acct", some "key", none, "blob.core.windows.net"⟩
      (fun _ => none) ⟨none, [⟨"account_name", some "acct"⟩, ⟨"account_key", some "key"⟩]⟩
        = some true := by
  have hnew : AzureClient.new (fun _ _ => true) (fun _ => none)
      ⟨none, [⟨"account_name", some "acct"⟩, ⟨"account_key", some "key"⟩]⟩
        = some ⟨some "acct", some "key", none, "blob.core.windows.net"⟩ := by
    decide
  refine ((credentials_consistent _).2 _ _ _ hnew).2.mpr ⟨by decide, fun k => ?_⟩
  cases k <;> decide

/-- Of an account name and an empty account key. -/
def emptyKeyConfig : ObjectClientConfig :=
  ⟨none, [⟨"account_name", some "acct"⟩, ⟨"account_key", some ""⟩]⟩

/-- **An empty value is no value to the constructor**, and an empty one to
the verification: the client is not used again. -/
theorem empty_key_not_verified :
    AzureClient.new (fun _ _ => true) (fun _ => none) emptyKeyConfig
        = some ⟨some "acct", none, none, "blob.core.windows.net"⟩ ∧
      AzureClient.verifyCredentials ⟨some "acct", none, none, "blob.core.windows.net"⟩
        (fun _ => none) emptyKeyConfig = some false := by
  decide

end ModelStreamer.Clients
