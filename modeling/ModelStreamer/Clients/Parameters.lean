/-
  ModelStreamer.Clients.Parameters
  ────────────────────────────────
  **CREDENTIALS ON THEIR WAY TO A CLIENT** (`_credentials_param_arrays` of
  `libstreamer.py`, `common/s3_credentials`, `S3ClientWrapper::Params`).

  Python has an object with five fields that may be unset.  It becomes two
  arrays of C strings, a map by key on the other side, and at last the
  parameters of a client; the endpoint travels on its own, and the
  environment may stand in for it.

    • `nativeCredentials_get` — the map holds what the object has,
    • `s3Credentials_member` — the constructor of a client reads the map,
    • `s3Members_config` — so a client has just the fields of the object.
-/
import Mathlib.Data.String.Basic
import ModelStreamer.Clients.Credentials
import ModelStreamer.FileStreamer.SourceTypes
import ModelStreamer.Lib.SortedMap

namespace ModelStreamer.Clients

open ModelStreamer.Lib ModelStreamer.ObjectStorage ModelStreamer.FileStreamer

/-! ## §1. Python. -/

/-- `S3Credentials` of Python. -/
structure S3Credentials where
  accessKeyId : Option String
  secretAccessKey : Option String
  sessionToken : Option String
  regionName : Option String
  endpoint : Option String
  deriving DecidableEq, Repr

/-- `S3Credentials()`. -/
def S3Credentials.unset : S3Credentials := ⟨none, none, none, none, none⟩

/-- The keys of the library, and the fields under them. -/
def S3Credentials.fields (c : S3Credentials) : List (String × Option String) :=
  [("access_key_id", c.accessKeyId), ("secret_access_key", c.secretAccessKey),
    ("session_token", c.sessionToken), ("region", c.regionName), ("endpoint", c.endpoint)]

/-- `items`: the fields that are set. -/
def S3Credentials.items (c : S3Credentials) : List (String × String) :=
  c.fields.filterMap (fun field => field.2.map (fun value => (field.1, value)))

/-- Two arrays of C strings and their length; an array may be null, and so may
an entry. -/
structure ParamArrays where
  keys : Option (List (Option String))
  values : Option (List (Option String))
  numParams : Nat
  deriving DecidableEq, Repr

/-- `_credentials_param_arrays`. -/
def credentialsParamArrays (c : Option S3Credentials) : ParamArrays :=
  match c.elim [] S3Credentials.items with
  | [] => ⟨none, none, 0⟩
  | item :: items =>
      ⟨some ((item :: items).map (fun i => some (received i.1))),
        some ((item :: items).map (fun i => some (received i.2))), (item :: items).length⟩

/-! ## §2. The library. -/

/-- The body of the loop of the constructor. -/
def addParam (params : SortedMap String String) : Option String × Option String →
    SortedMap String String
  | (some key, some value) => params.set key value
  -- null: skipped
  | _ => params

/-- `Credentials::Credentials`, of two arrays. -/
def nativeCredentials (arrays : ParamArrays) : SortedMap String String :=
  match arrays.keys, arrays.values with
  | some keys, some values => ((keys.zip values).take arrays.numParams).foldl addParam .empty
  | _, _ => .empty

/-- `std::stoi`, of all of the string. -/
def stoi (s : String) : Option Int :=
  let (minus, digits) := match s.toList.dropWhile isSpace with
    | '+' :: rest => (false, rest)
    | '-' :: rest => (true, rest)
    | rest => (false, rest)
  if digits.isEmpty then none
  else if digits.all Char.isDigit then
    let n : Nat := digits.foldl (fun n c => 10 * n + (c.toNat - '0'.toNat)) 0
    let value : Int := if minus then -n else n
    if -2 ^ 31 ≤ value ∧ value < 2 ^ 31 then some value else none
  else none

/-- `getenv<bool>`; `none` when it throws. -/
def Environment.flag (env : Environment) (name : String) (default : Bool) : Option Bool :=
  match env name with
  | none => some default
  | some s => (stoi s).map (fun i => decide (i ≠ 0))

/-- `_endpoint` of `S3ClientWrapper::Params`; `none` when the constructor
throws. -/
def paramsEndpoint (env : Environment) (credentials : SortedMap String String) : Option String :=
  match credentials.get "endpoint" with
  | some endpoint => some endpoint
  | none =>
      (env.flag "RUNAI_STREAMER_OVERRIDE_ENDPOINT_URL" true).map (fun override =>
        match env "AWS_ENDPOINT_URL" with
        | some endpoint => if override then endpoint else ""
        | none => "")

/-- `to_object_client_config`. -/
def initialParams (credentials : SortedMap String String) : List ObjectConfigParam :=
  (credentials.entries.filter (fun e => decide (e.1 ≠ "endpoint"))).map
    (fun e => ⟨e.1, some e.2⟩)

/-- `Params::Params`, and `to_config`. -/
def toConfig (env : Environment) (credentials : SortedMap String String) :
    Option ObjectClientConfig :=
  (paramsEndpoint env credentials).map (fun endpoint =>
    ⟨nonEmpty (some endpoint), initialParams credentials⟩)

/-! ## §3. The map. -/

/-- **A walk of assignments** leaves under a key what the walk has for it. -/
theorem foldl_addParam_get {items : List (String × String)} (hnodup : (items.map Prod.fst).Nodup)
    (m : SortedMap String String) (k : String) :
    ((items.map (fun i => (some i.1, some i.2))).foldl addParam m).get k
      = (items.lookup k).or (m.get k) := by
  induction items generalizing m with
  | nil => rfl
  | cons item items ih =>
      rw [List.map_cons, List.nodup_cons] at hnodup
      show ((items.map _).foldl addParam (m.set item.1 item.2)).get k = _
      rw [ih hnodup.2, SortedMap.get_set, lookup_cons_eq]
      by_cases hk : k = item.1
      · -- the key does not come again
        have hnone : items.lookup k = none := by
          cases hlookup : items.lookup k with
          | none => rfl
          | some v =>
              have hmem := List.mem_map_of_mem (f := Prod.fst) (mem_of_lookup hlookup)
              exact absurd (hk ▸ hmem) hnodup.1
        rw [if_pos hk, if_pos hk, hnone]
        rfl
      · rw [if_neg hk, if_neg hk]

theorem received_key {c : S3Credentials} {item : String × String} (h : item ∈ c.items) :
    received item.1 = item.1 := by
  have hkeys : ∀ key ∈ ["access_key_id", "secret_access_key", "session_token", "region",
      "endpoint"], received key = key := by decide +kernel
  obtain ⟨field, hfield, hitem⟩ := List.mem_filterMap.mp h
  obtain ⟨value, -, rfl⟩ := Option.map_eq_some_iff.mp hitem
  exact hkeys field.1 (List.mem_map_of_mem (f := Prod.fst) hfield)

theorem items_nodup (c : S3Credentials) : (c.items.map Prod.fst).Nodup := by
  have hfields : (c.fields.map Prod.fst).Nodup := by
    show ["access_key_id", "secret_access_key", "session_token", "region", "endpoint"].Nodup
    decide
  unfold S3Credentials.items
  generalize c.fields = fields at hfields
  induction fields with
  | nil => exact List.nodup_nil
  | cons field fields ih =>
      rw [List.map_cons, List.nodup_cons] at hfields
      rw [List.filterMap_cons]
      cases field.2 with
      | none => exact ih hfields.2
      | some value =>
          show (field.1 :: _).Nodup
          refine List.nodup_cons.mpr ⟨fun hmem => hfields.1 ?_, ih hfields.2⟩
          obtain ⟨item, hitem, hkey⟩ := List.mem_map.mp hmem
          obtain ⟨other, hother, hvalue⟩ := List.mem_filterMap.mp hitem
          obtain ⟨v, -, rfl⟩ := Option.map_eq_some_iff.mp hvalue
          exact hkey ▸ List.mem_map_of_mem hother

/-- The field under a key. -/
def S3Credentials.field (c : S3Credentials) (key : String) : Option String :=
  (c.fields.lookup key).join

theorem items_lookup (c : S3Credentials) (key : String) : c.items.lookup key = c.field key := by
  have hfields : (c.fields.map Prod.fst).Nodup := by
    show ["access_key_id", "secret_access_key", "session_token", "region", "endpoint"].Nodup
    decide
  unfold S3Credentials.items S3Credentials.field
  generalize c.fields = fields at hfields
  induction fields with
  | nil => rfl
  | cons field fields ih =>
      rw [List.map_cons, List.nodup_cons] at hfields
      have hrest := ih hfields.2
      rw [List.filterMap_cons, lookup_cons_eq]
      by_cases hk : key = field.1
      · rw [if_pos hk]
        cases hvalue : field.2 with
        | none =>
            -- no other field has the key
            have hnone : fields.lookup key = none := by
              cases hlookup : fields.lookup key with
              | none => rfl
              | some v =>
                  have hmem := List.mem_map_of_mem (f := Prod.fst) (mem_of_lookup hlookup)
                  exact absurd (hk ▸ hmem) hfields.1
            rw [hnone] at hrest
            exact hrest
        | some value =>
            show (((field.1, value) : String × String) :: _).lookup key = _
            rw [lookup_cons_eq, if_pos hk]
            rfl
      · rw [if_neg hk]
        cases hvalue : field.2 with
        | none => exact hrest
        | some value =>
            show (((field.1, value) : String × String) :: _).lookup key = _
            rw [lookup_cons_eq, if_neg hk, hrest]

theorem lookup_received (items : List (String × String)) (key : String) :
    (items.map (fun i => (i.1, received i.2))).lookup key = (items.lookup key).map received := by
  induction items with
  | nil => rfl
  | cons item items ih =>
      rw [List.map_cons, lookup_cons_eq, lookup_cons_eq, ih]
      split <;> rfl

/-- The map of what Python passes. -/
def fromPython (c : Option S3Credentials) : SortedMap String String :=
  nativeCredentials (credentialsParamArrays c)

/-- **The map holds what the object has**, each value up to a zero. -/
theorem nativeCredentials_get (c : Option S3Credentials) (key : String) :
    (fromPython c).get key = ((c.getD .unset).field key).map received := by
  have hitems : ∀ c : S3Credentials,
      (((c.items.map (fun i => (some (received i.1) : Option String))).zip
          (c.items.map (fun i => (some (received i.2) : Option String)))).take
            c.items.length).foldl addParam .empty
        = ((c.items.map (fun i => (i.1, received i.2))).map
            (fun i => (some i.1, some i.2))).foldl addParam .empty := by
    intro c
    rw [List.zip_map', List.take_of_length_le (by simp), List.map_map]
    congr 1
    apply List.map_congr_left
    intro item hitem
    show (some (received item.1), some (received item.2)) = (some item.1, some (received item.2))
    rw [received_key hitem]
  have hmap : ∀ c : S3Credentials, (fromPython (some c)).get key
      = (c.items.lookup key).map received := by
    intro c
    have hnative : fromPython (some c) = ((c.items.map (fun i => (i.1, received i.2))).map
        (fun i => (some i.1, some i.2))).foldl addParam .empty := by
      rw [← hitems c]
      unfold fromPython credentialsParamArrays
      show nativeCredentials (match c.items with
        | [] => ⟨none, none, 0⟩
        | item :: items => ⟨some ((item :: items).map (fun i => some (received i.1))),
            some ((item :: items).map (fun i => some (received i.2))),
            (item :: items).length⟩) = _
      cases c.items with
      | nil => rfl
      | cons item items => rfl
    have hnodup : ((c.items.map (fun i => (i.1, received i.2))).map Prod.fst).Nodup := by
      rw [List.map_map]
      exact items_nodup c
    rw [hnative, foldl_addParam_get hnodup, lookup_received, SortedMap.get_empty, Option.or_none]
  cases c with
  | none =>
      have hunset : S3Credentials.unset.field key = none := by
        rw [← items_lookup]
        rfl
      show none = _
      rw [Option.getD_none, hunset]
      rfl
  | some c =>
      rw [hmap c, items_lookup]
      rfl

/-! ## §4. The client. -/

/-- The keys the constructor of an S3 client knows. -/
def s3Keys : List String := ["access_key_id", "secret_access_key", "session_token", "region"]

/-- The member that is read from a key. -/
def s3Member (c : Credentials) (key : String) : Option String :=
  if key = "access_key_id" then c.key
  else if key = "secret_access_key" then c.secret
  else if key = "session_token" then c.token
  else if key = "region" then c.region
  else none

theorem readS3Param_member {k : String} (hk : k ∈ s3Keys) (c : Credentials)
    (p : ObjectConfigParam) :
    s3Member (readS3Param c p) k = if k = p.key then p.value else s3Member c k := by
  simp only [s3Keys, List.mem_cons, List.not_mem_nil, or_false] at hk
  unfold readS3Param
  by_cases hkey : p.key = "access_key_id"
  · rw [if_pos hkey]
    rcases hk with rfl | rfl | rfl | rfl <;> simp [s3Member, hkey]
  by_cases hsecret : p.key = "secret_access_key"
  · rw [if_neg hkey, if_pos hsecret]
    rcases hk with rfl | rfl | rfl | rfl <;> simp [s3Member, hsecret]
  by_cases htoken : p.key = "session_token"
  · rw [if_neg hkey, if_neg hsecret, if_pos htoken]
    rcases hk with rfl | rfl | rfl | rfl <;> simp [s3Member, htoken]
  by_cases hregion : p.key = "region"
  · rw [if_neg hkey, if_neg hsecret, if_neg htoken, if_pos hregion]
    rcases hk with rfl | rfl | rfl | rfl <;> simp [s3Member, hregion]
  · rw [if_neg hkey, if_neg hsecret, if_neg htoken, if_neg hregion, if_neg]
    rintro rfl
    rcases hk with h | h | h | h
    · exact hkey h
    · exact hsecret h
    · exact htoken h
    · exact hregion h

theorem readS3Param_endpoint (params : List ObjectConfigParam) (c : Credentials) :
    (params.foldl readS3Param c).endpoint = c.endpoint := by
  induction params generalizing c with
  | nil => rfl
  | cons p params ih =>
      rw [List.foldl_cons, ih]
      unfold readS3Param
      split
      · rfl
      split
      · rfl
      split
      · rfl
      split <;> rfl

/-- **The constructor reads the map.** -/
theorem s3Credentials_member {entries : List (String × String)}
    (hnodup : (entries.map Prod.fst).Nodup) {k : String} (hk : k ∈ s3Keys) (c : Credentials) :
    s3Member ((entries.map (fun e => ⟨e.1, some e.2⟩)).foldl readS3Param c) k
      = (entries.lookup k).or (s3Member c k) := by
  induction entries generalizing c with
  | nil => rfl
  | cons e entries ih =>
      rw [List.map_cons, List.nodup_cons] at hnodup
      rw [List.map_cons, List.foldl_cons, ih hnodup.2, readS3Param_member hk, lookup_cons_eq]
      by_cases hkey : k = e.1
      · have hnone : entries.lookup k = none := by
          cases hlookup : entries.lookup k with
          | none => rfl
          | some v =>
              have hmem := List.mem_map_of_mem (f := Prod.fst) (mem_of_lookup hlookup)
              exact absurd (hkey ▸ hmem) hnodup.1
        rw [if_pos hkey, if_pos hkey, hnone]
        rfl
      · rw [if_neg hkey, if_neg hkey]

theorem initialParams_member (m : SortedMap String String) {k : String} (hk : k ∈ s3Keys)
    (endpoint : Option String) :
    s3Member ((initialParams m).foldl readS3Param ⟨none, none, none, none, endpoint⟩) k
      = m.get k := by
  have hsorted := (m.sorted.filter (fun e => decide (e.1 ≠ "endpoint")))
  have hnodup : ((m.entries.filter (fun e => decide (e.1 ≠ "endpoint"))).map Prod.fst).Nodup := by
    rw [List.nodup_iff_pairwise_ne, List.pairwise_map]
    exact hsorted.imp (fun hlt => ne_of_lt hlt)
  have hplain : k ≠ "endpoint" := by
    rintro rfl
    exact absurd hk (by decide)
  have hnone : s3Member ⟨none, none, none, none, endpoint⟩ k = none := by
    unfold s3Member
    split
    · rfl
    split
    · rfl
    split
    · rfl
    split <;> rfl
  unfold initialParams
  rw [s3Credentials_member hnodup hk, hnone, Option.or_none]
  -- an entry with the key is one of the map's, and the other way round
  apply Option.ext
  intro v
  have hfiltered : (k, v) ∈ m.entries.filter (fun e => decide (e.1 ≠ "endpoint")) ↔
      (k, v) ∈ m.entries := by
    rw [List.mem_filter]
    exact and_iff_left (decide_eq_true hplain)
  rw [← SortedMap.mem_entries, ← hfiltered]
  exact ⟨mem_of_lookup, lookup_of_mem hnodup⟩

/-- The endpoint of a client: the one that was given, else that of the
environment; `none` where the constructor throws. -/
def s3Endpoint (env : Environment) (endpoint : Option String) : Option (Option String) :=
  match endpoint with
  | some endpoint => some (nonEmpty (some (received endpoint)))
  | none =>
      (env.flag "RUNAI_STREAMER_OVERRIDE_ENDPOINT_URL" true).map (fun override =>
        if override then nonEmpty (env "AWS_ENDPOINT_URL") else none)

/-- **The members a client is to have** for what Python passed. -/
def s3Members (env : Environment) (c : Option S3Credentials) : Option Credentials :=
  let c := c.getD .unset
  (s3Endpoint env c.endpoint).map (fun endpoint =>
    ⟨c.accessKeyId.map received, c.secretAccessKey.map received, c.sessionToken.map received,
      c.regionName.map received, endpoint⟩)

theorem paramsEndpoint_eq (env : Environment) (c : Option S3Credentials) :
    (paramsEndpoint env (fromPython c)).map (fun endpoint => nonEmpty (some endpoint))
      = s3Endpoint env (c.getD .unset).endpoint := by
  have hfield : (c.getD .unset).field "endpoint" = (c.getD .unset).endpoint := rfl
  unfold paramsEndpoint s3Endpoint
  rw [nativeCredentials_get, hfield]
  cases (c.getD .unset).endpoint with
  | some endpoint => rfl
  | none =>
      rw [Option.map_none]
      dsimp only
      rw [Option.map_map]
      congr 1
      funext override
      show nonEmpty (some _) = _
      cases env "AWS_ENDPOINT_URL" with
      | none => cases override <;> rfl
      | some endpoint => cases override <;> rfl

/-- **A client has just the fields of the object** that Python passed. -/
theorem s3Members_config (env : Environment) (c : Option S3Credentials) :
    (toConfig env (fromPython c)).map s3Credentials = s3Members env c := by
  have hendpoint := paramsEndpoint_eq env c
  have hmember : ∀ k ∈ s3Keys, ∀ endpoint,
      s3Member ((initialParams (fromPython c)).foldl readS3Param
        ⟨none, none, none, none, endpoint⟩) k = ((c.getD .unset).field k).map received :=
    fun k hk endpoint => (initialParams_member _ hk endpoint).trans (nativeCredentials_get c k)
  unfold toConfig s3Members
  dsimp only
  rw [Option.map_map, ← hendpoint, Option.map_map]
  congr 1
  funext endpoint
  show (initialParams (fromPython c)).foldl readS3Param
    ⟨none, none, none, none, nonEmpty (some endpoint)⟩ = _
  have hkey := hmember "access_key_id" (by decide) (nonEmpty (some endpoint))
  have hsecret := hmember "secret_access_key" (by decide) (nonEmpty (some endpoint))
  have htoken := hmember "session_token" (by decide) (nonEmpty (some endpoint))
  have hregion := hmember "region" (by decide) (nonEmpty (some endpoint))
  have hlast := readS3Param_endpoint (initialParams (fromPython c))
    ⟨none, none, none, none, nonEmpty (some endpoint)⟩
  generalize (initialParams (fromPython c)).foldl readS3Param
    ⟨none, none, none, none, nonEmpty (some endpoint)⟩ = client at hkey hsecret htoken hregion hlast
  obtain ⟨key, secret, token, region, endpoint'⟩ := client
  obtain rfl : endpoint' = nonEmpty (some endpoint) := hlast
  obtain rfl : key = (c.getD .unset).accessKeyId.map received := hkey
  obtain rfl : secret = (c.getD .unset).secretAccessKey.map received := hsecret
  obtain rfl : token = (c.getD .unset).sessionToken.map received := htoken
  obtain rfl : region = (c.getD .unset).regionName.map received := hregion
  rfl

end ModelStreamer.Clients
