/-
  ModelStreamer.Common.StorageUri
  ───────────────────────────────
  **OBJECT-STORAGE URIs** (`common::s3::StorageUri`).

  The C++ constructor matches the whole path against
  `^(s3|gs|az)://([^/]+)/(.+)$` and throws when it does not match.  The
  bucket group cannot contain `/`, so it ends at the first `/` after the
  scheme; `.` does not match a line terminator.

    • `parse_eq_some` — what is a URI, and its parts.
-/
import Mathlib.Data.List.Basic

namespace ModelStreamer

/-- `common::s3::StorageUri`, less the copy of the whole URI. -/
structure StorageUri where
  scheme : String
  bucket : String
  path : String
  deriving DecidableEq, Repr

namespace StorageUri

/-! ## §1. The constructor. -/

/-- The `(s3|gs|az)://` group and what follows it. -/
def splitScheme : List Char → Option (String × List Char)
  | 's' :: '3' :: ':' :: '/' :: '/' :: rest => some ("s3", rest)
  | 'g' :: 's' :: ':' :: '/' :: '/' :: rest => some ("gs", rest)
  | 'a' :: 'z' :: ':' :: '/' :: '/' :: rest => some ("az", rest)
  | _ => none

/-- The `([^/]+)/(.+)$` groups. -/
def splitBucket (rest : List Char) : Option (List Char × List Char) :=
  match rest.takeWhile (· ≠ '/'), rest.dropWhile (· ≠ '/') with
  | c :: bucket, '/' :: p :: path =>
      if (p :: path).all (fun c => c ≠ '\n' && c ≠ '\r') then
        some (c :: bucket, p :: path)
      else none
  | _, _ => none

/-- The constructor; `none` where it throws. -/
def parse (uri : String) : Option StorageUri := do
  let (scheme, rest) ← splitScheme uri.toList
  let (bucket, path) ← splitBucket rest
  return ⟨scheme, String.ofList bucket, String.ofList path⟩

/-- `StorageUri::is_gcs`. -/
def isGcs (uri : StorageUri) : Bool := uri.scheme == "gs"

/-- `StorageUri::is_azure`. -/
def isAzure (uri : StorageUri) : Bool := uri.scheme == "az"

/-! ## §2. What matches. -/

/-- **The bucket** ends at the first slash, and the key goes to the end. -/
theorem splitBucket_eq_some {rest bucket key : List Char} :
    splitBucket rest = some (bucket, key) ↔
      rest = bucket ++ '/' :: key ∧ bucket ≠ [] ∧ '/' ∉ bucket ∧ key ≠ [] ∧
        ∀ c ∈ key, c ≠ '\n' ∧ c ≠ '\r' := by
  constructor
  · intro h
    have hparts : rest = rest.takeWhile (· ≠ '/') ++ rest.dropWhile (· ≠ '/') :=
      List.takeWhile_append_dropWhile.symm
    have hslash : '/' ∉ rest.takeWhile (· ≠ '/') := by
      intro hmem
      have hstop := List.all_eq_true.mp List.all_takeWhile '/' hmem
      simp at hstop
    unfold splitBucket at h
    split at h
    next c front p back hfront hback =>
      split at h
      next hall =>
        obtain ⟨rfl, rfl⟩ := Prod.mk.inj (Option.some.inj h)
        rw [hfront, hback] at hparts
        rw [hfront] at hslash
        refine ⟨hparts, List.cons_ne_nil _ _, hslash, List.cons_ne_nil _ _, fun c hc => ?_⟩
        have hplain := List.all_eq_true.mp hall c hc
        simpa using hplain
      next => simp at h
    next => simp at h
  · rintro ⟨rfl, hbucket, hslash, hkey, hplain⟩
    have hall : ∀ c ∈ bucket, decide (c ≠ '/') = true := by
      intro c hc
      rw [decide_eq_true_eq]
      rintro rfl
      exact hslash hc
    obtain ⟨b, bucket, rfl⟩ := List.exists_cons_of_ne_nil hbucket
    obtain ⟨k, key, rfl⟩ := List.exists_cons_of_ne_nil hkey
    have htake : (b :: bucket ++ '/' :: k :: key).takeWhile (· ≠ '/') = b :: bucket := by
      rw [List.takeWhile_append_of_pos hall]
      simp
    have hdrop : (b :: bucket ++ '/' :: k :: key).dropWhile (· ≠ '/') = '/' :: k :: key := by
      rw [List.dropWhile_append_of_pos hall]
      simp
    unfold splitBucket
    rw [htake, hdrop]
    refine if_pos (List.all_eq_true.mpr fun c hc => ?_)
    simpa using hplain c hc

/-- The protocol goes with its scheme. -/
theorem splitScheme_eq_some {uri rest : List Char} {scheme : String} :
    splitScheme uri = some (scheme, rest) ↔
      scheme ∈ ["s3", "gs", "az"] ∧ uri = scheme.toList ++ "://".toList ++ rest := by
  constructor
  · intro h
    unfold splitScheme at h
    split at h <;>
      first
      | (obtain ⟨rfl, rfl⟩ := Prod.mk.inj (Option.some.inj h); exact ⟨by simp, rfl⟩)
      | simp at h
  · rintro ⟨hscheme, rfl⟩
    simp only [List.mem_cons, List.not_mem_nil, or_false] at hscheme
    rcases hscheme with rfl | rfl | rfl <;> rfl

/-- **What the expression matches**: a protocol, a bucket, a slash, a key. -/
theorem parse_eq_some {s : String} {uri : StorageUri} :
    parse s = some uri ↔
      uri.scheme ∈ ["s3", "gs", "az"] ∧
      s.toList = uri.scheme.toList ++ "://".toList ++ (uri.bucket.toList ++ '/' :: uri.path.toList) ∧
      uri.bucket.toList ≠ [] ∧ '/' ∉ uri.bucket.toList ∧ uri.path.toList ≠ [] ∧
      ∀ c ∈ uri.path.toList, c ≠ '\n' ∧ c ≠ '\r' := by
  obtain ⟨scheme, bucket, path⟩ := uri
  constructor
  · intro h
    obtain ⟨⟨scheme', rest⟩, hscheme, h⟩ := Option.bind_eq_some_iff.mp h
    obtain ⟨⟨bucket', key⟩, hbucket, h⟩ := Option.bind_eq_some_iff.mp h
    obtain ⟨rfl, rfl, rfl⟩ := StorageUri.mk.inj (Option.some.inj h)
    obtain ⟨hmem, hs⟩ := splitScheme_eq_some.mp hscheme
    obtain ⟨rfl, hparts⟩ := splitBucket_eq_some.mp hbucket
    simp only [String.toList_ofList]
    exact ⟨hmem, hs, hparts⟩
  · rintro ⟨hmem, hs, hparts⟩
    unfold parse
    rw [splitScheme_eq_some.mpr ⟨hmem, hs⟩]
    show (splitBucket _).bind _ = _
    rw [splitBucket_eq_some.mpr ⟨rfl, hparts⟩]
    simp

end StorageUri

end ModelStreamer
