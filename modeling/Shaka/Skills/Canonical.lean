import Shaka.Skills.Manifest

namespace Shaka.Skills
open Shaka.Core CheckedSteps JsonValue

instance : Std.Total byKey := ⟨fun a b => le_total a.1 b.1⟩

instance : IsTrans (String × Json) byKey := ⟨fun _ _ _ ab bc => le_trans (α := String) ab bc⟩

variable {fields others : List (String × Json)} {value other : Json}

theorem canonicalizeFields_map (fields : List (String × Json)) :
    canonicalizeFields fields = fields.map fun field => (field.1,canonicalizeJson field.2) := by
  induction fields with
  | nil => rfl
  | cons first rest ih =>
    obtain ⟨key,value⟩ := first
    rw [canonicalizeFields,ih,List.map_cons]

theorem canonicalizeItems_map (items : List Json) : canonicalizeItems items = items.map canonicalizeJson := by
  induction items with
  | nil => rfl
  | cons first rest ih => rw [canonicalizeItems,ih,List.map_cons]

theorem canonicalizeFields_keys (fields : List (String × Json)) :
    (canonicalizeFields fields).map (·.1) = fields.map (·.1) := by
  rw [canonicalizeFields_map,List.map_map]
  rfl

theorem sorted_rising (distinct : (fields.map (·.1)).Nodup) : Rising (fields.insertionSort byKey) := by
  have keys : (fields.insertionSort byKey).Pairwise fun a b => a.1 ≠ b.1 := by
    have same := (List.perm_insertionSort byKey fields).map (·.1)
    exact List.pairwise_map.mp (same.nodup_iff.mpr distinct)
  exact (List.pairwise_insertionSort byKey fields).imp₂ (fun _ _ below differs =>
    lt_of_le_of_ne below differs) keys

theorem rising_keys (rising : Rising fields) : (fields.map (·.1)).Nodup :=
  List.pairwise_map.mpr (rising.imp fun below => ne_of_lt below)

-- Fields that are the same but for their order are sorted into the same list.
theorem sorted_perm (perm : fields.Perm others) (distinct : (fields.map (·.1)).Nodup) :
    fields.insertionSort byKey = others.insertionSort byKey := by
  have same : (fields.insertionSort byKey).Perm (others.insertionSort byKey) :=
    (List.perm_insertionSort _ _).trans (perm.trans (List.perm_insertionSort _ _).symm)
  have apart : ∀ a b : String × Json, a ∈ fields.insertionSort byKey → b ∈ others.insertionSort byKey →
      a.1 < b.1 → b.1 < a.1 → a = b := fun a b _ _ below above => absurd below (lt_asymm above)
  exact List.Perm.eq_of_pairwise apart (sorted_rising distinct)
    (sorted_rising ((perm.map (·.1)).nodup_iff.mp distinct)) same

theorem canonicalize_object (distinct : (fields.map (·.1)).Nodup) :
    canonicalizeJson (.object fields) = .object ((canonicalizeFields fields).insertionSort byKey) := by
  have rising : Rising ([] ++ (canonicalizeFields fields).insertionSort byKey) :=
    sorted_rising (by rw [canonicalizeFields_keys]; exact distinct)
  rw [canonicalizeJson,insertEach_rising rising,List.nil_append]

theorem canonicalized_of_same (same : SameValue value other) (distinct : Distinct value)
    (distinct' : Distinct other) : canonicalizeJson value = canonicalizeJson other := by
  induction same with
  | null | bool | number | string => rfl
  | @array items others lengths _ ih =>
    cases distinct with | array inside =>
    cases distinct' with | array inside' =>
    rw [canonicalizeJson,canonicalizeJson,canonicalizeItems_map,canonicalizeItems_map]
    congr 1
    refine List.ext_getElem (by simpa using lengths) fun place one two => ?_
    simp only [List.length_map] at one two
    have paired : (items[place],others[place]) ∈ items.zip others :=
      List.mem_iff_getElem.mpr ⟨place,by simp [one,two],by simp⟩
    simpa using ih _ paired (inside _ (List.getElem_mem one)) (inside' _ (List.getElem_mem two))
  | @object entries reordered others perm keys _ ih =>
    cases distinct with | object once inside =>
    cases distinct' with | object once' inside' =>
    rw [canonicalize_object once,canonicalize_object once']
    congr 1
    have lengths : reordered.length = others.length := by simpa using congrArg List.length keys
    -- in the order of the other's keys the canonical fields are the other's
    have aligned : canonicalizeFields reordered = canonicalizeFields others := by
      rw [canonicalizeFields_map,canonicalizeFields_map]
      refine List.ext_getElem (by simpa using lengths) fun place one two => ?_
      simp only [List.length_map] at one two
      have paired : (reordered[place],others[place]) ∈ reordered.zip others :=
        List.mem_iff_getElem.mpr ⟨place,by simp [one,two],by simp⟩
      have key : reordered[place].1 = others[place].1 := by
        have at_place := congrArg (fun list => list[place]?) keys
        simpa [one,two] using at_place
      simp only [List.getElem_map]
      rw [key,ih _ paired (inside _ (perm.mem_iff.mpr (List.getElem_mem one)))
        (inside' _ (List.getElem_mem two))]
    rw [← aligned]
    refine sorted_perm ?_ (by rw [canonicalizeFields_keys]; exact once)
    rw [canonicalizeFields_map,canonicalizeFields_map]
    exact perm.map _

theorem same_of_canonicalized (distinct : Distinct value) (distinct' : Distinct other)
    (same : canonicalizeJson value = canonicalizeJson other) : SameValue value other := by
  induction value using Json.ind generalizing other with
  | null => cases other <;> simp only [canonicalizeJson,reduceCtorEq] at same; exact .null
  | bool flag =>
    cases other <;> simp only [canonicalizeJson,reduceCtorEq,Json.bool.injEq] at same
    exact same ▸ .bool
  | number text =>
    cases other <;> simp only [canonicalizeJson,reduceCtorEq,Json.number.injEq] at same
    exact same ▸ .number
  | string text =>
    cases other <;> simp only [canonicalizeJson,reduceCtorEq,Json.string.injEq] at same
    exact same ▸ .string
  | array items ih =>
    cases other <;> simp only [canonicalizeJson,reduceCtorEq,Json.array.injEq] at same
    rename_i others
    cases distinct with | array inside =>
    cases distinct' with | array inside' =>
    rw [canonicalizeItems_map,canonicalizeItems_map] at same
    have lengths : items.length = others.length := by simpa using congrArg List.length same
    refine .array lengths fun pair paired => ?_
    obtain ⟨place,bound,rfl⟩ := List.mem_iff_getElem.mp paired
    simp only [List.length_zip,Nat.lt_min] at bound
    have at_place := congrArg (fun list => list[place]?) same
    simp only [List.getElem?_map,List.getElem?_eq_getElem bound.1,List.getElem?_eq_getElem bound.2,
      Option.map_some,Option.some.injEq] at at_place
    rw [List.getElem_zip]
    exact ih _ (List.getElem_mem bound.1) (inside _ (List.getElem_mem bound.1))
      (inside' _ (List.getElem_mem bound.2)) at_place
  | object entries ih =>
    cases distinct with | object once inside =>
    cases other with
    | object others =>
      cases distinct' with | object once' inside' =>
      rw [canonicalize_object once,canonicalize_object once',Json.object.injEq] at same
      have perm : (canonicalizeFields others).Perm (canonicalizeFields entries) :=
        (List.perm_insertionSort byKey _).symm.trans (same ▸ List.perm_insertionSort byKey _)
      rw [canonicalizeFields_map,canonicalizeFields_map] at perm
      have ordered :
          Relation.Comp (· = List.map (fun field : String × Json => (field.1,canonicalizeJson field.2)) ·)
          (·.Perm ·) (others.map fun field => (field.1,canonicalizeJson field.2)) entries := by
        rw [List.eq_map_comp_perm]
        exact perm
      obtain ⟨reordered,aligned,among⟩ := ordered
      have lengths : others.length = reordered.length := by simpa using congrArg List.length aligned
      have keys : reordered.map (·.1) = others.map (·.1) := by
        simpa [Function.comp_def] using (congrArg (List.map (·.1)) aligned).symm
      refine .object among.symm keys fun pair paired => ?_
      obtain ⟨place,bound,rfl⟩ := List.mem_iff_getElem.mp paired
      simp only [List.length_zip,Nat.lt_min] at bound
      have at_place := congrArg (fun list => list[place]?) aligned
      simp only [List.getElem?_map,List.getElem?_eq_getElem bound.1,List.getElem?_eq_getElem bound.2,
        Option.map_some,Option.some.injEq,Prod.mk.injEq] at at_place
      rw [List.getElem_zip]
      have listed := among.mem_iff.mp (List.getElem_mem bound.1)
      exact ih _ listed (inside _ listed) (inside' _ (List.getElem_mem bound.2)) at_place.2.symm
    | null | bool | number | string | array =>
      rw [canonicalize_object once] at same
      simp only [canonicalizeJson,reduceCtorEq] at same

theorem canonicalized_distinct (distinct : Distinct value) : Distinct (canonicalizeJson value) := by
  induction value using Json.ind with
  | null | bool | number | string => exact distinct
  | array items ih =>
    cases distinct with | array inside =>
    rw [canonicalizeJson,canonicalizeItems_map]
    refine .array fun item listed => ?_
    obtain ⟨original,present,rfl⟩ := List.mem_map.mp listed
    exact ih original present (inside original present)
  | object entries ih =>
    cases distinct with | object once inside =>
    rw [canonicalize_object once]
    have sorted := @sorted_rising (canonicalizeFields entries) (by rw [canonicalizeFields_keys]; exact once)
    refine .object (rising_keys sorted) fun entry listed => ?_
    rw [List.mem_insertionSort,canonicalizeFields_map] at listed
    obtain ⟨original,present,rfl⟩ := List.mem_map.mp listed
    exact ih original present (inside original present)

theorem canonicalize_idempotent (distinct : Distinct value) :
    canonicalizeJson (canonicalizeJson value) = canonicalizeJson value := by
  induction value using Json.ind with
  | null | bool | number | string => rfl
  | array items ih =>
    cases distinct with | array inside =>
    rw [canonicalizeJson,canonicalizeJson,canonicalizeItems_map,canonicalizeItems_map,List.map_map]
    congr 1
    exact List.map_congr_left fun item listed => ih item listed (inside item listed)
  | object entries ih =>
    cases distinct with | object once inside =>
    have rising : Rising ((canonicalizeFields entries).insertionSort byKey) :=
      sorted_rising (by rw [canonicalizeFields_keys]; exact once)
    rw [canonicalize_object once,canonicalize_object (rising_keys rising)]
    congr 1
    -- every sorted field is canonical already, and they are sorted
    have kept : canonicalizeFields ((canonicalizeFields entries).insertionSort byKey) =
        (canonicalizeFields entries).insertionSort byKey := by
      rw [canonicalizeFields_map]
      refine (List.map_congr_left fun field listed => ?_).trans (List.map_id _)
      rw [List.mem_insertionSort,canonicalizeFields_map] at listed
      obtain ⟨original,present,rfl⟩ := List.mem_map.mp listed
      exact Prod.ext rfl (ih original present (inside original present))
    rw [kept]
    exact (List.pairwise_insertionSort byKey _).insertionSort_eq

variable {labels : List String} {label : String}

theorem mem_dedup : label ∈ dedup labels ↔ label ∈ labels := by
  induction labels with
  | nil => rfl
  | cons first rest ih =>
    cases rest with
    | nil => rfl
    | cons second rest =>
      rw [dedup]
      split
      · next same =>
        rw [ih,same]
        simp
      · rw [List.mem_cons,ih,← List.mem_cons]

theorem dedup_rising (sorted : labels.Pairwise (· ≤ ·)) : (dedup labels).Pairwise (· < ·) := by
  induction labels with
  | nil => exact .nil
  | cons first rest ih =>
    cases rest with
    | nil => exact List.pairwise_singleton _ _
    | cons second rest =>
      obtain ⟨least,sorted⟩ := List.pairwise_cons.mp sorted
      rw [dedup]
      split
      · exact ih sorted
      · next differs =>
        refine List.pairwise_cons.mpr ⟨fun label listed => ?_,ih sorted⟩
        have below : first < second := lt_of_le_of_ne (least second List.mem_cons_self) differs
        rcases List.mem_cons.mp (mem_dedup.mp listed) with rfl | later
        · exact below
        · exact lt_of_lt_of_le below ((List.pairwise_cons.mp sorted).1 label later)

-- The canonical permissions are those of the set.
theorem canonicalPermissions_iff {permissions others : List Capability} :
    dedup ((permissions.map capabilityLabel).insertionSort (· ≤ ·)) =
      dedup ((others.map capabilityLabel).insertionSort (· ≤ ·)) ↔ ∀ capability, capability ∈ permissions ↔
      capability ∈ others := by
  have member : ∀ (capabilities : List Capability) (capability : Capability),
      capabilityLabel capability ∈ dedup ((capabilities.map capabilityLabel).insertionSort (· ≤ ·)) ↔
        capability ∈ capabilities := fun capabilities capability => by
    rw [mem_dedup,List.mem_insertionSort,List.mem_map_of_injective capabilityLabel_injective]
  have rising : ∀ capabilities : List Capability,
      (dedup ((capabilities.map capabilityLabel).insertionSort (· ≤ ·))).Pairwise (· < ·) :=
      fun capabilities =>
    dedup_rising (List.pairwise_insertionSort (· ≤ ·) _)
  constructor
  · intro same capability
    rw [← member permissions,same,member others]
  · intro same
    have distinct : ∀ capabilities : List Capability,
        (dedup ((capabilities.map capabilityLabel).insertionSort (· ≤ ·))).Nodup := fun capabilities =>
      (rising capabilities).imp fun below => ne_of_lt below
    have perm := (List.perm_ext_iff_of_nodup (distinct permissions) (distinct others)).mpr fun label => by
      simp only [mem_dedup,List.mem_insertionSort,List.mem_map,same]
    exact perm.eq_of_pairwise (fun _ _ _ _ below above =>
      absurd below (lt_asymm above)) (rising permissions) (rising others)

-- The permissions are the same set, and the schemas the same values but for the order of keys.
structure SameAuthority (a b : SkillManifest) : Prop where
  permissions : ∀ capability, capability ∈ a.permissions ↔ capability ∈ b.permissions
  inputSchema : SameValue a.inputSchema.json b.inputSchema.json
  outputSchema : SameValue a.outputSchema.json b.outputSchema.json

-- Different authorities have different JSON, and different bytes different digests.
structure FaithfulDigest (host : SkillHost) : Prop where
  serializer : ∀ a b bytes, host.toVec a = .ok bytes → host.toVec b = .ok bytes → a = b
  collisionFree : Function.Injective host.sha256Hex

variable {host : SkillHost} {a b : SkillManifest} {digest digest' : String}

-- The digests are the same exactly when the canonical authorities are.
theorem authoritySha256_iff (faithful : FaithfulDigest host) (ran : a.authoritySha256 host = .ok digest)
    (ran' : b.authoritySha256 host = .ok digest') : digest = digest' ↔ SameAuthority a b := by
  simp only [SkillManifest.authoritySha256,manifestAuthoritySha256,bind_ok,mapError_ok,pure_ok] at ran ran'
  obtain ⟨encoded,serialized,rfl⟩ := ran
  obtain ⟨encoded',serialized',rfl⟩ := ran'
  constructor
  · intro same
    have bytes := List.append_cancel_left (faithful.collisionFree same)
    obtain rfl := (List.cons.inj bytes).2
    have authorities := faithful.serializer _ _ _ serialized serialized'
    obtain ⟨permissions,inputs,outputs⟩ := ManifestAuthorityPayload.mk.inj authorities
    exact ⟨canonicalPermissions_iff.mp permissions,
      same_of_canonicalized a.inputSchema.distinct b.inputSchema.distinct inputs,
      same_of_canonicalized a.outputSchema.distinct b.outputSchema.distinct outputs⟩
  · intro same
    rw [canonicalPermissions_iff.mpr same.permissions,
      canonicalized_of_same same.inputSchema a.inputSchema.distinct b.inputSchema.distinct,
      canonicalized_of_same same.outputSchema a.outputSchema.distinct b.outputSchema.distinct,serialized']
      at serialized
    rw [Except.ok.inj serialized]

end Shaka.Skills
