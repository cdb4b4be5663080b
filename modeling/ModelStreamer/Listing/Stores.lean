/-
  ModelStreamer.Listing.Stores
  ────────────────────────────
  **LISTING A BUCKET** (`list_files` of the three plugins' clients, and
  `impl_obj_list_files`).

  S3 is asked page by page, each time with the token of the page before.
  The SDKs of GCS and Azure page on their own: one gives objects until one of
  them is an error, the other pages until one throws.

    • `Store.Holds`, `Store.Fails` — what the service answers, in all,
    • `listFiles_holds`, `listFiles_fails` — a plugin lists just these
      objects, however they come in pages, or it reports an error,
    • `implObjListFiles_holds` — and the block it hands over reads as the
      list.

  A service is a parameter; what it answers may change between two calls.
-/
import ModelStreamer.Common.StorageUri
import ModelStreamer.FileStreamer.SourceTypes
import ModelStreamer.Listing.Entries

namespace ModelStreamer.Listing

open ModelStreamer.Lib ModelStreamer.FileStreamer

/-! ## §1. The clients. -/

/-- An object as the SDKs report it. -/
structure StoredObject where
  key : List UInt8
  size : Int
  deriving DecidableEq, Repr

/-- A key ending with `/` is a directory marker. -/
def isMarker (key : List UInt8) : Bool := decide (key.getLast? = some 47)

/-- The loop over the objects of a page. -/
def pushObjects (uriPrefix : List UInt8) : List Listed → List StoredObject → List Listed
  | results, [] => results
  | results, object :: objects =>
      if isMarker object.key then pushObjects uriPrefix results objects
      else
        pushObjects uriPrefix
          (results ++ [(uriPrefix ++ object.key, Marshal.cUint64 object.size)]) objects

/-- How `list_files` of a client ends, and `results` then. -/
inductive Outcome where
  | returned (ret : ResponseCode) (results : List Listed)
  | threw
  deriving DecidableEq, Repr

/-- `Model::ListObjectsV2Request`. -/
structure ListObjectsV2Request where
  bucket : String
  keyPrefix : String
  delimiter : Option String
  continuationToken : Option String
  deriving DecidableEq, Repr

/-- What `GetResult` has. -/
structure ListObjectsV2Result where
  contents : List StoredObject
  isTruncated : Bool
  nextContinuationToken : String
  deriving DecidableEq, Repr

section S3

-- the service, by the number of the call; `none` where the call fails
variable (listObjectsV2 : Nat → ListObjectsV2Request → Option ListObjectsV2Result)

/-- The `while` loop of `S3Client::list_files`; `none` while it still runs. -/
def s3Loop (uriPrefix : List UInt8) :
    Nat → Nat → ListObjectsV2Request → List Listed → Option Outcome
  | 0, _, _, _ => none
  | fuel + 1, calls, request, results =>
      match listObjectsV2 calls request with
      | none => some (.returned .fileAccessError results)
      | some result =>
          let results := pushObjects uriPrefix results result.contents
          if result.isTruncated then
            s3Loop uriPrefix fuel (calls + 1)
              { request with continuationToken := some result.nextContinuationToken } results
          else some (.returned .success results)

/-- The pages from this call on hold these objects, and they come to an
end. -/
inductive Pages : Nat → ListObjectsV2Request → List StoredObject → Prop
  | last {calls : Nat} {request : ListObjectsV2Request} {contents : List StoredObject}
      {token : String} : listObjectsV2 calls request = some ⟨contents, false, token⟩ →
      Pages calls request contents
  | more {calls : Nat} {request : ListObjectsV2Request} {contents rest : List StoredObject}
      {token : String} : listObjectsV2 calls request = some ⟨contents, true, token⟩ →
      Pages (calls + 1) { request with continuationToken := some token } rest →
      Pages calls request (contents ++ rest)

/-- One of the pages from this call on cannot be had. -/
inductive Breaks : Nat → ListObjectsV2Request → Prop
  | here {calls : Nat} {request : ListObjectsV2Request} :
      listObjectsV2 calls request = none → Breaks calls request
  | later {calls : Nat} {request : ListObjectsV2Request} {contents : List StoredObject}
      {token : String} : listObjectsV2 calls request = some ⟨contents, true, token⟩ →
      Breaks (calls + 1) { request with continuationToken := some token } →
      Breaks calls request

end S3

/-- The `for` loop of `GCSClient::list_files`, over what `ListObjects`
gives. -/
def gcsLoop (uriPrefix : List UInt8) : List Listed → List (Option StoredObject) → Outcome
  | results, [] => .returned .success results
  | results, none :: _ => .returned .fileAccessError results
  | results, some object :: objects =>
      gcsLoop uriPrefix (pushObjects uriPrefix results [object]) objects

/-- The `for` loop of `AzureClient::list_files`, over the pages there are;
after them the pager may throw. -/
def azureLoop (uriPrefix : List UInt8) (throws : Bool) :
    List Listed → List (List StoredObject) → Outcome
  | results, [] => if throws then .threw else .returned .success results
  | results, page :: pages => azureLoop uriPrefix throws (pushObjects uriPrefix results page) pages

/-- A client, by its service: what the SDK gives for a bucket, a prefix and a
delimiter. -/
inductive Store where
  | s3 (listObjectsV2 : Nat → ListObjectsV2Request → Option ListObjectsV2Result)
  | gcs (listObjects : String → String → Option String → List (Option StoredObject))
  | azure (listBlobs : String → Option String → Option String → List (List StoredObject) × Bool)

/-- `uri.scheme + "://" + uri.bucket + "/"`. -/
def uriPrefix (uri : StorageUri) : List UInt8 :=
  utf8 (uri.scheme ++ "://" ++ uri.bucket ++ "/").toList

/-- The delimiter that stops at the immediate children. -/
def delimiter (isRecursive : Bool) : Option String := if isRecursive then none else some "/"

/-- The first request of `S3Client::list_files`. -/
def firstRequest (uri : StorageUri) (isRecursive : Bool) : ListObjectsV2Request :=
  ⟨uri.bucket, uri.path, delimiter isRecursive, none⟩

/-- `options.Prefix` of Azure. -/
def azurePrefix (uri : StorageUri) : Option String :=
  if uri.path = "" then none else some uri.path

/-- `list_files` of the client; `none` while it still runs. -/
def Store.listFiles (store : Store) (fuel : Nat) (uri : StorageUri) (isRecursive : Bool) :
    Option Outcome :=
  match store with
  | .s3 listObjectsV2 =>
      s3Loop listObjectsV2 (uriPrefix uri) fuel 0 (firstRequest uri isRecursive) []
  | .gcs listObjects =>
      some (gcsLoop (uriPrefix uri) [] (listObjects uri.bucket uri.path (delimiter isRecursive)))
  | .azure listBlobs =>
      let (pages, throws) := listBlobs uri.bucket (azurePrefix uri) (delimiter isRecursive)
      some (azureLoop (uriPrefix uri) throws [] pages)

/-- **What the service holds** below the prefix. -/
def Store.Holds (store : Store) (uri : StorageUri) (isRecursive : Bool)
    (objects : List StoredObject) : Prop :=
  match store with
  | .s3 listObjectsV2 => Pages listObjectsV2 0 (firstRequest uri isRecursive) objects
  | .gcs listObjects =>
      listObjects uri.bucket uri.path (delimiter isRecursive) = objects.map some
  | .azure listBlobs =>
      ∃ pages, listBlobs uri.bucket (azurePrefix uri) (delimiter isRecursive) = (pages, false) ∧
        pages.flatten = objects

/-- **The service fails** on the way. -/
def Store.Fails (store : Store) (uri : StorageUri) (isRecursive : Bool) : Prop :=
  match store with
  | .s3 listObjectsV2 => Breaks listObjectsV2 0 (firstRequest uri isRecursive)
  | .gcs listObjects => none ∈ listObjects uri.bucket uri.path (delimiter isRecursive)
  | .azure listBlobs =>
      (listBlobs uri.bucket (azurePrefix uri) (delimiter isRecursive)).2 = true

/-! ## §2. What a client lists. -/

/-- What an object becomes in the list. -/
def listed (uri : StorageUri) (object : StoredObject) : Option Listed :=
  if isMarker object.key then none
  else some (uriPrefix uri ++ object.key, Marshal.cUint64 object.size)

theorem pushObjects_eq (uri : StorageUri) (results : List Listed) (objects : List StoredObject) :
    pushObjects (uriPrefix uri) results objects = results ++ objects.filterMap (listed uri) := by
  induction objects generalizing results with
  | nil => exact (List.append_nil results).symm
  | cons object objects ih =>
      unfold pushObjects
      rw [ih, ih]
      by_cases hmarker : isMarker object.key = true
      · have hnone : listed uri object = none := if_pos hmarker
        rw [if_pos hmarker, List.filterMap_cons_none hnone]
      · have hsome : listed uri object = some _ := if_neg hmarker
        rw [if_neg hmarker, List.filterMap_cons_some hsome, List.append_assoc]
        rfl

/-- A listing in one page is one in several. -/
theorem pushObjects_append (uri : StorageUri) (results : List Listed)
    (objects rest : List StoredObject) :
    pushObjects (uriPrefix uri) (pushObjects (uriPrefix uri) results objects) rest
      = pushObjects (uriPrefix uri) results (objects ++ rest) := by
  rw [pushObjects_eq, pushObjects_eq, pushObjects_eq, List.filterMap_append, List.append_assoc]

section S3

variable {listObjectsV2 : Nat → ListObjectsV2Request → Option ListObjectsV2Result} {calls : Nat}
  {request : ListObjectsV2Request} {objects : List StoredObject}

/-- **The loop goes through all pages.** -/
theorem s3Loop_pages (uri : StorageUri) (results : List Listed)
    (h : Pages listObjectsV2 calls request objects) :
    ∃ fuel, ∀ more, s3Loop listObjectsV2 (uriPrefix uri) (fuel + more) calls request results
      = some (.returned .success (pushObjects (uriPrefix uri) results objects)) := by
  induction h generalizing results with
  | last hpage =>
      refine ⟨1, fun more => ?_⟩
      rw [Nat.add_comm, s3Loop, hpage]
      rfl
  | more hpage _ ih =>
      obtain ⟨fuel, hrest⟩ := ih (pushObjects (uriPrefix uri) results _)
      refine ⟨fuel + 1, fun more => ?_⟩
      rw [Nat.add_right_comm, s3Loop, hpage]
      show s3Loop _ _ _ _ _ _ = _
      rw [hrest, pushObjects_append]

/-- A page that cannot be had ends it. -/
theorem s3Loop_breaks (uri : StorageUri) (results : List Listed)
    (h : Breaks listObjectsV2 calls request) :
    ∃ fuel, ∀ more, ∃ soFar,
      s3Loop listObjectsV2 (uriPrefix uri) (fuel + more) calls request results
        = some (.returned .fileAccessError soFar) := by
  induction h generalizing results with
  | here hpage =>
      refine ⟨1, fun more => ⟨results, ?_⟩⟩
      rw [Nat.add_comm, s3Loop, hpage]
  | later hpage _ ih =>
      obtain ⟨fuel, hrest⟩ := ih (pushObjects (uriPrefix uri) results _)
      refine ⟨fuel + 1, fun more => ?_⟩
      rw [Nat.add_right_comm, s3Loop, hpage]
      exact hrest more

end S3

theorem gcsLoop_some (uri : StorageUri) (results : List Listed) (objects : List StoredObject) :
    gcsLoop (uriPrefix uri) results (objects.map some)
      = .returned .success (pushObjects (uriPrefix uri) results objects) := by
  induction objects generalizing results with
  | nil => rfl
  | cons object objects ih =>
      rw [List.map_cons, gcsLoop, ih, pushObjects_append]
      rfl

theorem gcsLoop_none (uri : StorageUri) (results : List Listed)
    {objects : List (Option StoredObject)} (h : none ∈ objects) :
    ∃ soFar, gcsLoop (uriPrefix uri) results objects = .returned .fileAccessError soFar := by
  induction objects generalizing results with
  | nil => simp at h
  | cons object objects ih =>
      cases object with
      | none => exact ⟨results, rfl⟩
      | some object => exact ih _ (by simpa using h)

theorem azureLoop_pages (uri : StorageUri) (throws : Bool) (results : List Listed)
    (pages : List (List StoredObject)) :
    azureLoop (uriPrefix uri) throws results pages
      = if throws then .threw
        else .returned .success (pushObjects (uriPrefix uri) results pages.flatten) := by
  induction pages generalizing results with
  | nil => rfl
  | cons page pages ih =>
      rw [azureLoop, ih, pushObjects_append]
      rfl

/-- **A client lists what the service holds**, however it comes in pages. -/
theorem listFiles_holds {store : Store} {uri : StorageUri} {isRecursive : Bool}
    {objects : List StoredObject} (h : store.Holds uri isRecursive objects) :
    ∃ fuel, ∀ more, store.listFiles (fuel + more) uri isRecursive
      = some (.returned .success (objects.filterMap (listed uri))) := by
  cases store with
  | s3 listObjectsV2 =>
      obtain ⟨fuel, hloop⟩ := s3Loop_pages uri [] h
      refine ⟨fuel, fun more => (hloop more).trans ?_⟩
      rw [pushObjects_eq]
      rfl
  | gcs listObjects =>
      have hobjects : listObjects uri.bucket uri.path (delimiter isRecursive) = objects.map some := h
      refine ⟨0, fun more => ?_⟩
      show some (gcsLoop _ _ _) = _
      rw [hobjects, gcsLoop_some, pushObjects_eq]
      rfl
  | azure listBlobs =>
      obtain ⟨pages, hpages, rfl⟩ := h
      refine ⟨0, fun more => ?_⟩
      show some (azureLoop _ (listBlobs _ _ _).2 _ (listBlobs _ _ _).1) = _
      rw [hpages, azureLoop_pages, pushObjects_eq]
      rfl

/-- **It reports that the service failed.** -/
theorem listFiles_fails {store : Store} {uri : StorageUri} {isRecursive : Bool}
    (h : store.Fails uri isRecursive) :
    ∃ fuel, ∀ more, store.listFiles (fuel + more) uri isRecursive = some .threw ∨
      ∃ soFar, store.listFiles (fuel + more) uri isRecursive
        = some (.returned .fileAccessError soFar) := by
  cases store with
  | s3 listObjectsV2 =>
      obtain ⟨fuel, hloop⟩ := s3Loop_breaks uri [] h
      exact ⟨fuel, fun more => Or.inr (hloop more)⟩
  | gcs listObjects =>
      obtain ⟨soFar, hloop⟩ := gcsLoop_none uri [] h
      exact ⟨0, fun more => Or.inr ⟨soFar, congrArg some hloop⟩⟩
  | azure listBlobs =>
      refine ⟨0, fun more => Or.inl ?_⟩
      have hthrows : (listBlobs uri.bucket (azurePrefix uri) (delimiter isRecursive)).2 = true := h
      show some (azureLoop _ (listBlobs _ _ _).2 _ (listBlobs _ _ _).1) = _
      rw [hthrows, azureLoop_pages]
      rfl

/-! ## §3. The block. -/

/-- `new char[n]`: a block that ends before the address space does, if there
is one. -/
abbrev Allocator := (n : Nat) → Option {buf : Nat // buf + n ≤ 2 ^ 64}

/-- What `obj_list_files` returns and sets: the memory, `out_entries` (none is
null) and `out_num_entries`. -/
structure Handed where
  ret : ResponseCode
  memory : Nat → UInt8
  entries : Option Nat
  numEntries : Nat

/-- `impl_obj_list_files`; the pointers it is given are not null. -/
def implObjListFiles (store : Store) (new : Allocator) (memory : Nat → UInt8) (fuel : Nat)
    (uri : String) (isRecursive : Bool) : Option Handed :=
  match StorageUri.parse uri with
  -- the constructor throws, and this is caught
  | none => some ⟨.unknownError, memory, none, 0⟩
  | some parsed =>
      match store.listFiles fuel parsed isRecursive with
      | none => none
      | some .threw => some ⟨.unknownError, memory, none, 0⟩
      | some (.returned ret results) =>
          if ret ≠ .success then some ⟨ret, memory, none, 0⟩
          else
            -- an `unsigned`
            let numEntries := results.length % 2 ^ 32
            if results = [] then some ⟨.success, memory, none, numEntries⟩
            else
              match new (blockBytes results) with
              | none => some ⟨.unknownError, memory, none, numEntries⟩
              | some buf =>
                  some ⟨.success, makeEntries memory buf results, some buf, numEntries⟩

/-- `entries[i]` for all `i < num_entries`. -/
def Handed.read (handed : Handed) : Option (List Listed) :=
  match handed.entries with
  | none => if handed.numEntries = 0 then some [] else none
  | some entries => readEntries handed.memory entries handed.numEntries 0

/-- **The block reads as the list**, each path up to a zero. -/
theorem implObjListFiles_holds {store : Store} {new : Allocator} {memory : Nat → UInt8}
    {uri : String} {parsed : StorageUri} {isRecursive : Bool} {objects : List StoredObject}
    (huri : StorageUri.parse uri = some parsed) (hholds : store.Holds parsed isRecursive objects)
    (hnew : new (blockBytes (objects.filterMap (listed parsed))) ≠ none)
    (hcount : (objects.filterMap (listed parsed)).length < 2 ^ 32) :
    ∃ fuel, ∀ more, ∃ handed,
      implObjListFiles store new memory (fuel + more) uri isRecursive = some handed ∧
      handed.ret = .success ∧
      handed.read = some ((objects.filterMap (listed parsed)).map cut) := by
  obtain ⟨fuel, hlist⟩ := listFiles_holds hholds
  refine ⟨fuel, fun more => ?_⟩
  have hsizes : ∀ r ∈ objects.filterMap (listed parsed), r.2 < 2 ^ 64 := by
    intro r hr
    obtain ⟨object, -, hobject⟩ := List.mem_filterMap.mp hr
    unfold listed at hobject
    split at hobject
    · exact absurd hobject (by simp)
    · rw [← Option.some.inj hobject]
      unfold Marshal.cUint64
      omega
  unfold implObjListFiles
  rw [huri]
  dsimp only
  rw [hlist more]
  generalize hresults : objects.filterMap (listed parsed) = results at hnew hcount hsizes
  dsimp only
  rw [if_neg (by simp)]
  by_cases hnil : results = []
  · subst hnil
    exact ⟨_, if_pos rfl, rfl, rfl⟩
  · obtain ⟨buf, hbuf⟩ := Option.ne_none_iff_exists'.mp hnew
    rw [if_neg hnil, hbuf]
    refine ⟨_, rfl, rfl, ?_⟩
    show readEntries _ _ (results.length % 2 ^ 32) 0 = _
    rw [Nat.mod_eq_of_lt hcount,
      readEntries_makeEntries buf.2 hsizes (by rw [Nat.zero_add]), List.drop_zero,
      List.take_length]

/-- **A failure is reported**, and nothing is handed over. -/
theorem implObjListFiles_fails {store : Store} {new : Allocator} {memory : Nat → UInt8}
    {uri : String} {parsed : StorageUri} {isRecursive : Bool}
    (huri : StorageUri.parse uri = some parsed) (hfails : store.Fails parsed isRecursive) :
    ∃ fuel, ∀ more, ∃ handed,
      implObjListFiles store new memory (fuel + more) uri isRecursive = some handed ∧
      handed.ret ≠ .success ∧ handed.memory = memory ∧ handed.entries = none := by
  obtain ⟨fuel, hlist⟩ := listFiles_fails hfails
  refine ⟨fuel, fun more => ?_⟩
  unfold implObjListFiles
  rw [huri]
  dsimp only
  rcases hlist more with hthrew | ⟨soFar, hreturned⟩
  · rw [hthrew]
    exact ⟨_, rfl, by simp, rfl, rfl⟩
  · rw [hreturned]
    dsimp only
    rw [if_pos (by simp)]
    exact ⟨_, rfl, by simp, rfl, rfl⟩

end ModelStreamer.Listing
