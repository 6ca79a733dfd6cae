/-
Maps: `sync.Map`, as far as sequential code sees it (`Load`, `Store` and `Range`), and
the built-in ones.

`Range` may visit the entries in any order. A `Visit` of a map is one such order,
and a function that ranges over a map takes the visit as an argument.

* `load_storeAll` — storing one value under many keys.
* `first_or_eq_iff` — when the first entry that meets a test is the same whatever
  the order.
-/

import Mathlib.Data.List.AList

namespace Glider.Go

/-- A map with the entries in no order that means anything. -/
abbrev SyncMap (K V : Type) [DecidableEq K] := AList fun _ : K => V

namespace SyncMap

variable {K V : Type} [DecidableEq K]

def load (m : SyncMap K V) (k : K) : Option V := m.lookup k

def store (m : SyncMap K V) (k : K) (v : V) : SyncMap K V := m.insert k v

/-- Store one value under every key of a list. -/
def storeAll (m : SyncMap K V) (ks : List K) (v : V) : SyncMap K V :=
  ks.foldl (fun m k => m.store k v) m

@[simp] theorem load_empty (k : K) : load (∅ : SyncMap K V) k = none := rfl

@[simp] theorem load_store (m : SyncMap K V) (k k' : K) (v : V) :
    (m.store k v).load k' = if k' = k then some v else m.load k' := by
  unfold load store
  split
  · rename_i heq
    rw [heq, AList.lookup_insert]
  · rename_i hne
    exact AList.lookup_insert_ne hne

@[simp] theorem load_storeAll (m : SyncMap K V) (ks : List K) (v : V) (k : K) :
    (m.storeAll ks v).load k = if k ∈ ks then some v else m.load k := by
  induction ks generalizing m with
  | nil => simp [storeAll]
  | cons k' ks ih =>
    have hcons : m.storeAll (k' :: ks) v = (m.store k' v).storeAll ks v := rfl
    rw [hcons, ih, load_store]
    by_cases hks : k ∈ ks
    · simp [hks]
    · simp [hks]

/-- `delete(m, k)`. -/
def delete (m : SyncMap K V) (k : K) : SyncMap K V := m.erase k

/-- `len(m)`. -/
def len (m : SyncMap K V) : Nat := m.entries.length

theorem load_delete (m : SyncMap K V) (k k' : K) :
    (m.delete k).load k' = if k' = k then none else m.load k' := by
  unfold load delete
  split
  · rename_i heq
    rw [heq, AList.lookup_erase]
  · rename_i hne
    exact AList.lookup_erase_ne hne

theorem load_delete_of_some {m : SyncMap K V} {k k' : K} {v : V}
    (h : (m.delete k).load k' = some v) : m.load k' = some v := by
  rw [load_delete] at h
  split at h
  · cases h
  · exact h

@[simp] theorem load_delete_self (m : SyncMap K V) (k : K) : (m.delete k).load k = none := by
  rw [load_delete, if_pos rfl]

/-! ### Maps from keys to the things that have them -/

/-- The map leads to the things in the list, to each by its own key. -/
def Indexes (m : SyncMap K V) (key : V → K) (vs : List V) : Prop :=
  ∀ k v, m.load k = some v ↔ v ∈ vs ∧ key v = k

section Indexes

variable {m : SyncMap K V} {key key' : V → K} {vs : List V} {k : K} {v : V}

/-- A new thing under a new key. -/
theorem Indexes.cons (h : m.Indexes key vs) (hk : m.load k = none) (hnew : key' v = k)
    (hold : ∀ w ∈ vs, key' w = key w) : (m.store k v).Indexes key' (v :: vs) := by
  intro k' w
  rw [load_store]
  constructor
  · intro hload
    split at hload
    · rename_i heq
      cases hload
      exact ⟨List.mem_cons_self, hnew.trans heq.symm⟩
    · obtain ⟨hw, hkey⟩ := (h k' w).mp hload
      exact ⟨List.mem_cons_of_mem v hw, (hold w hw).trans hkey⟩
  · rintro ⟨hw, hkey⟩
    rcases List.mem_cons.mp hw with rfl | hw
    · exact if_pos (hkey.symm.trans hnew)
    · have hload := (h k' w).mpr ⟨hw, (hold w hw).symm.trans hkey⟩
      rw [if_neg, hload]
      rintro rfl
      rw [hk] at hload
      cases hload

/-- A thing is taken out, with its key. -/
theorem Indexes.concat_delete (h : m.Indexes key (vs ++ [v])) (hv : v ∉ vs) :
    (m.delete (key v)).Indexes key vs := by
  intro k w
  rw [load_delete]
  constructor
  · intro hload
    split at hload
    · cases hload
    rename_i hkey
    obtain ⟨hw, rfl⟩ := (h k w).mp hload
    rcases List.mem_append.mp hw with hw | hw
    · exact ⟨hw, rfl⟩
    · cases List.mem_singleton.mp hw
      exact absurd rfl hkey
  · rintro ⟨hw, rfl⟩
    have hload := (h _ w).mpr ⟨List.mem_append_left _ hw, rfl⟩
    rw [if_neg, hload]
    -- another thing with the key of the last one would be the last one
    intro heq
    have hload' := (h _ v).mpr ⟨List.mem_append_right _ (List.mem_singleton_self v), rfl⟩
    rw [← heq, hload] at hload'
    cases hload'
    exact hv hw

end Indexes

/-! ### Range -/

/-- The entries as pairs. -/
def pairs (m : SyncMap K V) : List (K × V) := m.entries.map fun e => (e.1, e.2)

theorem mem_pairs {m : SyncMap K V} {k : K} {v : V} : (k, v) ∈ m.pairs ↔ m.load k = some v := by
  rw [load, ← Option.mem_def, AList.mem_lookup_iff]
  constructor
  · intro h
    obtain ⟨⟨k', v'⟩, he, heq⟩ := List.mem_map.mp h
    cases heq
    exact he
  · intro h
    exact List.mem_map.mpr ⟨⟨k, v⟩, h, rfl⟩

theorem nodup_pairs (m : SyncMap K V) : m.pairs.Nodup := by
  refine m.nodupKeys.nodup.map ?_
  rintro ⟨k, v⟩ ⟨k', v'⟩ heq
  cases heq
  rfl

/-- An order in which `Range` may visit the entries. -/
structure Visit (m : SyncMap K V) where
  order : List (K × V)
  perm : order.Perm m.pairs

/-- The entries as they are stored. -/
def Visit.stored (m : SyncMap K V) : Visit m := ⟨m.pairs, List.Perm.refl _⟩

/-- A visit that starts at an entry. -/
def Visit.startingAt [DecidableEq V] (m : SyncMap K V) (e : K × V) (he : e ∈ m.pairs) : Visit m :=
  ⟨e :: m.pairs.erase e, (List.perm_cons_erase he).symm⟩

variable {m : SyncMap K V} {p : K → Bool}

/-- The value of the first entry whose key meets the test: a `Range` that stops
there. -/
def Visit.first (visit : Visit m) (p : K → Bool) : Option V :=
  (visit.order.find? fun e => p e.1).map (·.2)

theorem Visit.first_eq_none {visit : Visit m} :
    visit.first p = none ↔ ∀ k v, m.load k = some v → p k = false := by
  unfold Visit.first
  rw [Option.map_eq_none_iff, List.find?_eq_none]
  constructor
  · intro h k v hk
    simpa using h (k, v) (visit.perm.mem_iff.mpr (mem_pairs.mpr hk))
  · rintro h ⟨k, v⟩ he
    simpa using h k v (mem_pairs.mp (visit.perm.mem_iff.mp he))

theorem Visit.first_eq_some {visit : Visit m} {v : V} (h : visit.first p = some v) :
    ∃ k, m.load k = some v ∧ p k = true := by
  obtain ⟨⟨k, v'⟩, hfind, rfl⟩ := Option.map_eq_some_iff.mp h
  have hmem := visit.perm.mem_iff.mp (List.mem_of_find?_eq_some hfind)
  exact ⟨k, mem_pairs.mp hmem, by simpa using List.find?_some hfind⟩

theorem Visit.first_startingAt [DecidableEq V] {k : K} {v : V} (he : (k, v) ∈ m.pairs)
    (hk : p k = true) : (Visit.startingAt m (k, v) he).first p = some v := by
  simp [Visit.first, Visit.startingAt, hk]

/-- **Order independence.** The first hit, or the fallback when there is none, is
the same in every order exactly when all hits have one value. -/
theorem first_or_eq_iff [DecidableEq V] (fallback : Option V) :
    (∀ visit visit' : Visit m, (visit.first p).or fallback = (visit'.first p).or fallback) ↔
      ∀ k k' v v', m.load k = some v → m.load k' = some v' → p k = true → p k' = true →
        v = v' := by
  constructor
  · intro same k k' v v' hk hk' hp hp'
    have heq := same (Visit.startingAt m (k, v) (mem_pairs.mpr hk))
      (Visit.startingAt m (k', v') (mem_pairs.mpr hk'))
    rw [Visit.first_startingAt _ hp, Visit.first_startingAt _ hp'] at heq
    exact Option.some.inj heq
  · intro agree visit visit'
    cases hfirst : visit.first p with
    | none =>
      have hfirst' : visit'.first p = none :=
        Visit.first_eq_none.mpr (Visit.first_eq_none.mp hfirst)
      rw [hfirst']
    | some v =>
      obtain ⟨k, hk, hp⟩ := Visit.first_eq_some hfirst
      cases hfirst' : visit'.first p with
      | none =>
        have hnot := Visit.first_eq_none.mp hfirst' k v hk
        rw [hp] at hnot
        cases hnot
      | some v' =>
        obtain ⟨k', hk', hp'⟩ := Visit.first_eq_some hfirst'
        rw [agree k k' v v' hk hk' hp hp']

end SyncMap

end Glider.Go
