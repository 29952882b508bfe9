import Shaka.Skills.Canonical

namespace Shaka.Properties
open Shaka.Core Skills CheckedSteps JsonValue

variable {host : SkillHost}

-- The digest tells authorities apart, neither more nor less, and the canonical form that it is made
-- from is the value itself in an order that is not changed again.
theorem manifestAuthority_exact (faithful : FaithfulDigest host) :
    (∀ (a b : SkillManifest) (digest digest' : String), a.authoritySha256 host = .ok digest →
      b.authoritySha256 host = .ok digest' → (digest = digest' ↔ SameAuthority a b)) ∧
    ∀ value : Value, canonicalizeJson (canonicalizeJson value.json) = canonicalizeJson value.json ∧
      SameValue (canonicalizeJson value.json) value.json := by
  refine ⟨fun a b digest digest' ran ran' => authoritySha256_iff faithful ran ran',fun value => ?_⟩
  have again := canonicalize_idempotent value.distinct
  exact ⟨again,same_of_canonicalized (canonicalized_distinct value.distinct) value.distinct again⟩

-- A manifest and the same with its permissions and the keys of its schema in another order.

def urlSchema : Json := .object [("url",.object [("type",.string "string")])]

def fetchManifest (permissions : List Capability) (inputSchema : Value) : SkillManifest :=
  ⟨"fetch","0.1.0","busca",permissions,inputSchema,⟨.object [],.object .nil (by simp)⟩,.candidate,none⟩

theorem urlSchema_distinct : Distinct urlSchema := by
  refine .object (by simp) fun entry listed => ?_
  obtain rfl := List.mem_singleton.mp listed
  refine .object (by simp) fun entry listed => ?_
  obtain rfl := List.mem_singleton.mp listed
  exact .string

def sortedSchema : Value where
  json := .object [("properties",urlSchema),("type",.string "object")]
  distinct := .object (by simp) fun entry listed => by
    rcases List.mem_cons.mp listed with rfl | later
    · exact urlSchema_distinct
    · obtain rfl := List.mem_singleton.mp later
      exact .string

def reversedSchema : Value where
  json := .object [("type",.string "object"),("properties",urlSchema)]
  distinct := .object (by simp) fun entry listed => by
    rcases List.mem_cons.mp listed with rfl | later
    · exact .string
    · obtain rfl := List.mem_singleton.mp later
      exact urlSchema_distinct

def fetchAuthority : ManifestAuthorityPayload := ⟨["filesystem_read","network"],sortedSchema.json,.object []⟩

def fetchBytes : List UInt8 := bytesOf
  "\x7b\"permissions\":[\"filesystem_read\",\"network\"],\"input_schema\":\x7b\"properties\":\x7b\"url\":\x7b\"type\":\"string\"\x7d\x7d,\"type\":\"object\"\x7d,\"output_schema\":\x7b\x7d\x7d"

def fetchPreimage : List UInt8 := bytesOf "shaka-skill-manifest-authority-v1" ++ 0 :: fetchBytes

def fetchDigest : String := "bcb32d68e5fd30fb3746ac3ba8aa2aaa00fd801ac2dd980225325355991a495d"

def spelled (bytes : List UInt8) : String := String.ofList ('-' :: bytes.map fun byte =>
    Char.ofNat byte.toNat)

theorem spelled_injective : Function.Injective spelled := by
  intro a b same
  have letters := congrArg String.toList same
  simp only [spelled,String.toList_ofList,List.cons.injEq,true_and] at letters
  refine List.map_injective_iff.mpr (fun byte other equal => ?_) letters
  have codes : ∀ code < 256, (Char.ofNat code).toNat = code := by decide +kernel
  have same := congrArg Char.toNat equal
  rw [codes _ byte.toNat_lt,codes _ other.toNat_lt] at same
  exact UInt8.toNat_inj.mp same

-- The digests of the known byte strings, and of any other a text that no digest is.
def sha256Of (known : List (List UInt8 × String)) (bytes : List UInt8) : String :=
  (known.lookup bytes).getD (spelled bytes)

theorem known_of_lookup {known : List (List UInt8 × String)} {bytes : List UInt8} {digest : String}
    (found : known.lookup bytes = some digest) : (bytes,digest) ∈ known := by
  obtain ⟨before,after,rfl,_⟩ := List.lookup_eq_some_iff.mp found
  simp

theorem sha256Of_injective {known : List (List UInt8 × String)}
    (hex : ∀ entry ∈ known, entry.2.toList.head? ≠ some '-') (distinct : (known.map (·.2)).Nodup) :
    Function.Injective (sha256Of known) := by
  have apart : ∀ digest bytes bytes', known.lookup bytes = some digest → digest ≠ spelled bytes' := by
    intro digest bytes bytes' found same
    have listed := known_of_lookup found
    exact hex _ listed (by simp [same,spelled])
  intro a b same
  unfold sha256Of at same
  cases one : known.lookup a with
  | none =>
    cases two : known.lookup b with
    | none =>
      rw [one,two] at same
      exact spelled_injective same
    | some digest =>
      rw [one,two] at same
      exact absurd same.symm (apart digest b a two)
  | some digest =>
    cases two : known.lookup b with
    | none =>
      rw [one,two] at same
      exact absurd same (apart digest a b one)
    | some digest' =>
      rw [one,two] at same
      obtain rfl : digest = digest' := same
      have entries := List.inj_on_of_nodup_map distinct (known_of_lookup one) (known_of_lookup two) rfl
      exact congrArg Prod.fst entries

open Classical in
-- It knows the JSON of one authority and the SHA-256 of its bytes.
noncomputable def fetchHost : SkillHost where
  sha256Hex := sha256Of [(fetchPreimage,fetchDigest)]
  toVec := fun authority => if authority = fetchAuthority then .ok fetchBytes else .error "desconhecido"
  hexDecode := fun _ => none
  isVerifyingKey := fun _ => false
  verify := fun _ _ _ => false

theorem fetchHost_faithful : FaithfulDigest fetchHost := by
  refine ⟨fun one other bytes ran ran' => ?_,?_⟩
  · simp only [fetchHost] at ran ran'
    split at ran
    · next known =>
      split at ran'
      · next known' => exact known.trans known'.symm
      · cases ran'
    · cases ran
  · exact @sha256Of_injective [(fetchPreimage,fetchDigest)] (by simp [fetchDigest]) (by simp)

theorem fetchHost_digest {permissions : List Capability} {schema : Value}
    (authority : (⟨dedup ((permissions.map capabilityLabel).insertionSort (· ≤ ·)),
      canonicalizeJson schema.json,
      canonicalizeJson (.object [])⟩ : ManifestAuthorityPayload) = fetchAuthority) :
    (fetchManifest permissions schema).authoritySha256 fetchHost = .ok fetchDigest := by
  have serialized : fetchHost.toVec fetchAuthority = .ok fetchBytes := if_pos rfl
  have hashed : fetchHost.sha256Hex fetchPreimage = fetchDigest := by
    simp [fetchHost,sha256Of]
  simp only [SkillManifest.authoritySha256,manifestAuthoritySha256,fetchManifest]
  rw [authority,serialized]
  exact congrArg Except.ok hashed

theorem manifestAuthority_exact_reordered :
    SameAuthority (fetchManifest [.network,.filesystemRead,.network] reversedSchema)
      (fetchManifest [.filesystemRead,.network] sortedSchema) :=
  ((manifestAuthority_exact fetchHost_faithful).1 _ _ _ _ (fetchHost_digest rfl) (fetchHost_digest rfl)).mp
    rfl

end Shaka.Properties
