import Mathlib.Data.List.AList
import Mathlib.Data.List.Perm.Subperm

namespace Tables

variable {κ ν γ : Type} [DecidableEq κ] {m m' : AList fun _ : κ => ν}

-- The values of a table, in the order of its entries.
def values (m : AList fun _ : κ => ν) : List ν := m.entries.map (·.2)

theorem mem_values {v : ν} : v ∈ values m ↔ ∃ k, m.lookup k = some v := by
  simp only [values,List.mem_map]
  constructor
  · rintro ⟨⟨k,_⟩,listed,rfl⟩
    exact ⟨k,AList.mem_lookup_iff.mpr listed⟩
  · rintro ⟨k,found⟩
    exact ⟨⟨k,v⟩,AList.mem_lookup_iff.mp found,rfl⟩

theorem values_insert {k : κ} (absent : m.lookup k = none) (v : ν) :
    values (m.insert k v) = v :: values m := by
  have fresh : k ∉ m := AList.lookup_eq_none.mp absent
  rw [values,AList.entries_insert_of_notMem fresh]
  rfl

-- Tables that agree on a projection of every row list the same projections.
theorem values_map_perm (f : ν → γ) (same : ∀ k, (m'.lookup k).map f = (m.lookup k).map f) :
    ((values m').map f).Perm ((values m).map f) := by
  have project : ∀ t :
      AList fun _ : κ => ν, ((t.entries.map fun e => (⟨e.1,f e.2⟩ : Sigma fun _ : κ => γ)).map (·.2)) =
      (values t).map f := fun t => by simp [values]
  have keys : ∀ t :
      AList fun _ : κ => ν, (t.entries.map fun e => (⟨e.1,f e.2⟩ : Sigma fun _ : κ => γ)).NodupKeys :=
    fun t => by
      have distinct := t.nodupKeys
      simpa [List.NodupKeys,List.keys,Function.comp_def] using distinct
  rw [← project,← project]
  refine List.Perm.map _ (List.lookup_ext (keys m') (keys m) fun k v => ?_)
  have found : ∀ t : AList fun _ : κ => ν,
      (t.entries.map fun e => (⟨e.1,f e.2⟩ : Sigma fun _ : κ => γ)).dlookup k = (t.lookup k).map f := fun t =>
    @List.dlookup_map₂ κ _ (fun _ => ν) (fun _ => γ) t.entries (fun _ => f) k
  rw [found,found,same]

-- No more rows satisfy `p` where each of those that do replaces one that did.
theorem count_le (p : ν → Bool)
    (was : ∀ k v', m'.lookup k = some v' → p v' = true → ∃ v, m.lookup k = some v ∧ p v = true) :
    ((values m').filter p).length ≤
      ((values m).filter p).length := by
  have chosen : ∀ t : AList fun _ : κ => ν,
      ((values t).filter p).length = ((t.entries.filter fun e => p e.2).map (·.1)).length := fun t => by
    simp [values,List.filter_map,Function.comp_def]
  rw [chosen,chosen]
  have distinct : ((m'.entries.filter fun e => p e.2).map (·.1)).Nodup :=
    List.Nodup.sublist (List.filter_sublist.map _) m'.nodupKeys
  refine (List.subperm_of_subset distinct fun k listed => ?_).length_le
  obtain ⟨⟨k',v'⟩,kept,rfl⟩ := List.mem_map.mp listed
  obtain ⟨entry,holds⟩ := List.mem_filter.mp kept
  obtain ⟨v,found,held⟩ := was k' v' (AList.mem_lookup_iff.mpr entry) holds
  exact List.mem_map.mpr ⟨⟨k',v⟩,List.mem_filter.mpr ⟨AList.mem_lookup_iff.mp found,held⟩,rfl⟩

theorem count_insert_le (p : ν → Bool) (k : κ) (v : ν) :
    ((values (m.insert k v)).filter p).length ≤ ((values m).filter p).length + 1 := by
  have rest : ((m.erase k).entries.filter fun e => p e.2).length ≤ (m.entries.filter fun e => p e.2).length :=
    (List.Sublist.filter _ (List.kerase_sublist k m.entries)).length_le
  have entries : (m.insert k v).entries = ⟨k,v⟩ :: (m.erase k).entries := rfl
  simp only [values,List.filter_map,List.length_map,Function.comp_def,entries]
  rw [List.filter_cons]
  split
  · simp only [List.length_cons]
    omega
  · omega

-- Two tables that cannot be told apart by one who sees only the rows that satisfy `p`.
def AgreeOn (p : ν → Bool) (m m' : AList fun _ : κ => ν) : Prop :=
  ∀ k, (m.lookup k).filter p = (m'.lookup k).filter p

variable {p : ν → Bool} {m'' : AList fun _ : κ => ν}

theorem AgreeOn.refl (m : AList fun _ : κ => ν) : AgreeOn p m m := fun _ => rfl

theorem AgreeOn.symm (agree : AgreeOn p m m') : AgreeOn p m' m := fun k => (agree k).symm

theorem AgreeOn.trans (one : AgreeOn p m m') (two : AgreeOn p m' m'') : AgreeOn p m m'' := fun k =>
    (one k).trans (two k)

theorem AgreeOn.found (agree : AgreeOn p m m') {k : κ} {v : ν} (found : m.lookup k = some v)
    (seen : p v = true) : m'.lookup k = some v := by
  have same := agree k
  rw [found,Option.filter_some,if_pos seen,eq_comm,Option.filter_eq_some_iff] at same
  exact same.1

-- Where no row is hidden the two read the same.
theorem AgreeOn.lookup (agree : AgreeOn p m m') {k : κ} (left : ∀ v, m.lookup k = some v → p v = true)
    (right : ∀ v, m'.lookup k = some v → p v = true) : m.lookup k = m'.lookup k := by
  cases found : m.lookup k with
  | some v => exact (agree.found found (left v found)).symm
  | none =>
    cases found' : m'.lookup k with
    | none => rfl
    | some v => exact absurd (found.symm.trans (agree.symm.found found' (right v found'))) (by simp)

theorem AgreeOn.insert (agree : AgreeOn p m m') (k : κ) (v : ν) :
    AgreeOn p (m.insert k v) (m'.insert k v) := by
  intro other
  by_cases same : other = k
  · rw [same,AList.lookup_insert,AList.lookup_insert]
  · rw [AList.lookup_insert_ne same,AList.lookup_insert_ne same]
    exact agree other

theorem AgreeOn.of_eq (same : m = m') : AgreeOn p m m' := fun k => by rw [same]

-- A hidden row takes the place of a hidden row, or of none.
theorem AgreeOn.aside {k : κ} {v : ν} (was : ∀ old, m.lookup k = some old → p old = false)
    (hidden : p v = false) : AgreeOn p (m.insert k v) m := by
  intro other
  by_cases same : other = k
  · rw [same,AList.lookup_insert,Option.filter_some,hidden]
    cases found : m.lookup k with
    | none => rfl
    | some old => rw [Option.filter_some,was old found]; rfl
  · rw [AList.lookup_insert_ne same]

theorem AgreeOn.entries (agree : AgreeOn p m m') :
    (m.entries.filter fun e => p e.2).Perm (m'.entries.filter fun e => p e.2) := by
  have distinct : ∀ t : AList fun _ : κ => ν, (t.entries.filter fun e => p e.2).Nodup := fun t =>
    t.nodupKeys.nodup.filter _
  have listed : ∀ (t : AList fun _ : κ => ν) k v, ⟨k,v⟩ ∈ t.entries.filter (fun e => p e.2) ↔
      (t.lookup k).filter p = some v := fun t k v => by
    rw [List.mem_filter,Option.filter_eq_some_iff]
    exact and_congr_left fun _ => AList.mem_lookup_iff.symm
  refine (List.perm_ext_iff_of_nodup (distinct m) (distinct m')).mpr ?_
  rintro ⟨k,v⟩
  rw [listed,listed,agree k]

theorem AgreeOn.values (agree : AgreeOn p m m') : ((values m).filter p).Perm ((values m').filter p) := by
  have chosen : ∀ t : AList fun _ : κ => ν, (Tables.values t).filter p = (t.entries.filter fun e =>
      p e.2).map (·.2) :=
    fun t => by simp [Tables.values,List.filter_map,Function.comp_def]
  rw [chosen,chosen]
  exact agree.entries.map _

end Tables
