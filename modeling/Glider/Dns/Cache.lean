/-
The cache of the DNS client, `dns/cache.go`: items on a heap, linked in both directions
from the most to the least recently used, with a map from keys to items beside the
list, and the permanent entries in a map of their own.

A `nil` pointer is `none`. An operation that follows one panics, and its model is
`none` too. Times are in nanoseconds.

* `get_spec`, `set_grows` — what the two operations do to the entries; the links only
  decide which entry is dropped.
-/

import Glider.Go.Strings
import Glider.Go.SyncMap
import Mathlib.Logic.Function.Basic

namespace Glider.Dns

open Glider.Go

/-- A non-nil pointer to an item. -/
abbrev Ref := Nat

structure Item where
  key : GoString
  val : List UInt8 := []
  exp : Int := 0
  prev : Option Ref := none
  next : Option Ref := none

/-- `LruCache`, with the heap its pointers go to. `fresh` is the next pointer the
allocator returns. -/
structure LruCache where
  size : Int
  head : Option Ref
  tail : Option Ref
  cache : SyncMap GoString Ref
  store : SyncMap GoString (List UInt8)
  items : Ref → Item
  fresh : Ref

namespace LruCache

/-- `NewLruCache`: two placeholders, at 0 and 1. -/
def new (size : Int) : LruCache where
  size := size
  head := some 0
  tail := some 1
  cache := SyncMap.store (SyncMap.store ∅ (ascii "head") 0) (ascii "tail") 1
  store := ∅
  items r :=
    if r = 0 then { key := ascii "head", next := some 1 }
    else { key := ascii "tail", prev := some 0 }
  fresh := 2

/-- `it.next = target`. -/
def setNext (c : LruCache) (it target : Option Ref) : Option LruCache :=
  it.map fun r => { c with items := Function.update c.items r { c.items r with next := target } }

/-- `it.prev = target`. -/
def setPrev (c : LruCache) (it target : Option Ref) : Option LruCache :=
  it.map fun r => { c with items := Function.update c.items r { c.items r with prev := target } }

/-- `it.val = v` and `it.exp = exp`. -/
def setVal (c : LruCache) (it : Ref) (v : List UInt8) (exp : Int) : LruCache :=
  { c with items := Function.update c.items it { c.items it with val := v, exp := exp } }

/-- The first half of `moveToHead`: take an item out of the list. -/
def unlink (c : LruCache) (it : Ref) : Option LruCache :=
  if c.tail = some it then
    { c with tail := (c.items it).prev }.setNext (c.items it).prev none
  else do
    let c ← c.setNext (c.items it).prev (c.items it).next
    c.setPrev (c.items it).next (c.items it).prev

def moveToHead (c : LruCache) (it : Ref) : Option LruCache :=
  if c.head = some it then some c
  else do
    let c ← c.unlink it
    let c ← c.setPrev (some it) none
    let c ← c.setNext (some it) c.head
    let c ← c.setPrev c.head (some it)
    some { c with head := some it }

/-- `&item{..}`, at `fresh`. -/
def alloc (c : LruCache) (item : Item) : LruCache :=
  { c with items := Function.update c.items c.fresh item, fresh := c.fresh + 1 }

def putToHead (c : LruCache) (k : GoString) (v : List UInt8) (exp : Int) : Option LruCache := do
  let it := c.fresh
  let c ← (c.alloc { key := k, val := v, exp := exp, next := c.head }).setPrev c.head (some it)
  some { c with head := some it, cache := c.cache.store k it }

def removeTail (c : LruCache) : Option LruCache := do
  let tail ← c.tail
  let c := { c with cache := c.cache.delete (c.items tail).key }
  let c ← c.setNext (c.items tail).prev none
  some { c with tail := (c.items tail).prev }

/-- `Unix` of a time in nanoseconds. -/
def unix (t : Int) : Int := t / 1000000000

/-- `time.Second * time.Duration(ttl)`: 64 bits of nanoseconds. -/
def seconds (ttl : Int) : Int := (1000000000 * ttl).bmod 18446744073709551616

/-- `Get` at the time `now`: the value, whether it has expired, and the cache. -/
def get (c : LruCache) (k : GoString) (now : Int) : Option (List UInt8 × Bool × LruCache) :=
  match c.store.load k with
  | some v => some (v, false, c)
  | none =>
    match c.cache.load k with
    | some it => do
      let c' ← c.moveToHead it
      some ((c.items it).val, (c.items it).exp < unix now, c')
    | none => some ([], false, c)

/-- `Set` at the time `now`. -/
def set (c : LruCache) (k : GoString) (v : List UInt8) (ttl now : Int) : Option LruCache :=
  if ttl = 0 then some { c with store := c.store.store k v }
  else
    let exp := unix (now + seconds ttl)
    match c.cache.load k with
    | some it => (c.setVal it v exp).moveToHead it
    | none => do
      let c ← c.putToHead k v exp
      if c.size < c.cache.len then c.removeTail else some c

/-! ### Links and entries -/

/-- The value of a cached key. -/
def entry (c : LruCache) (k : GoString) : Option (List UInt8) :=
  (c.cache.load k).map fun it => (c.items it).val

/-- Only links have changed. -/
structure Relinked (c c' : LruCache) : Prop where
  cache : c'.cache = c.cache
  store : c'.store = c.store
  fresh : c'.fresh = c.fresh
  key : ∀ r, (c'.items r).key = (c.items r).key
  val : ∀ r, (c'.items r).val = (c.items r).val
  exp : ∀ r, (c'.items r).exp = (c.items r).exp
  size : c'.size = c.size

/-- Each item is stored under its own key. -/
def Keyed (c : LruCache) : Prop :=
  ∀ k r, c.cache.load k = some r → r < c.fresh ∧ (c.items r).key = k

variable {c c' c'' : LruCache}

theorem Relinked.refl (c : LruCache) : Relinked c c :=
  ⟨rfl, rfl, rfl, fun _ => rfl, fun _ => rfl, fun _ => rfl, rfl⟩

theorem Relinked.trans (h : Relinked c c') (h' : Relinked c' c'') : Relinked c c'' where
  cache := h'.cache.trans h.cache
  store := h'.store.trans h.store
  fresh := h'.fresh.trans h.fresh
  key r := (h'.key r).trans (h.key r)
  val r := (h'.val r).trans (h.val r)
  exp r := (h'.exp r).trans (h.exp r)
  size := h'.size.trans h.size

theorem Relinked.entry_eq (h : Relinked c c') (k : GoString) : c'.entry k = c.entry k := by
  simp only [entry, h.cache, h.val]

theorem Relinked.keyed (h : Relinked c c') (keyed : Keyed c) : Keyed c' := by
  intro k r hr
  rw [h.cache] at hr
  rw [h.fresh, h.key]
  exact keyed k r hr

/-- What an assignment to an item leaves alone, it leaves alone on the whole heap. -/
theorem update_proj {α : Type} (proj : Item → α) {items : Ref → Item} {r : Ref} (item : Item)
    (h : proj item = proj (items r)) (r' : Ref) :
    proj (Function.update items r item r') = proj (items r') := by
  by_cases hr : r' = r
  · rw [hr, Function.update_self, h]
  · rw [Function.update_of_ne hr]

theorem setVal_items_self (c : LruCache) (it : Ref) (v : List UInt8) (exp : Int) :
    (c.setVal it v exp).items it = { c.items it with val := v, exp := exp } :=
  Function.update_self ..

theorem setVal_items_ne {it r : Ref} (h : r ≠ it) (v : List UInt8) (exp : Int) :
    (c.setVal it v exp).items r = c.items r := Function.update_of_ne h ..

theorem alloc_items_fresh (c : LruCache) (item : Item) : (c.alloc item).items c.fresh = item :=
  Function.update_self ..

theorem alloc_items_ne {r : Ref} (h : r ≠ c.fresh) (item : Item) :
    (c.alloc item).items r = c.items r := Function.update_of_ne h ..

theorem setNext_relinked {it target : Option Ref} (h : c.setNext it target = some c') :
    Relinked c c' := by
  obtain ⟨r, -, rfl⟩ := Option.map_eq_some_iff.mp h
  exact ⟨rfl, rfl, rfl, update_proj Item.key _ rfl, update_proj Item.val _ rfl,
    update_proj Item.exp _ rfl, rfl⟩

theorem setPrev_relinked {it target : Option Ref} (h : c.setPrev it target = some c') :
    Relinked c c' := by
  obtain ⟨r, -, rfl⟩ := Option.map_eq_some_iff.mp h
  exact ⟨rfl, rfl, rfl, update_proj Item.key _ rfl, update_proj Item.val _ rfl,
    update_proj Item.exp _ rfl, rfl⟩

theorem unlink_relinked {it : Ref} (h : c.unlink it = some c') : Relinked c c' := by
  unfold unlink at h
  split at h
  · have linked := setNext_relinked h
    exact ⟨linked.cache, linked.store, linked.fresh, linked.key, linked.val, linked.exp,
      linked.size⟩
  · obtain ⟨c₁, h₁, h⟩ := Option.bind_eq_some_iff.mp h
    exact (setNext_relinked h₁).trans (setPrev_relinked h)

theorem moveToHead_relinked {it : Ref} (h : c.moveToHead it = some c') : Relinked c c' := by
  unfold moveToHead at h
  split at h
  · cases h
    exact .refl c
  obtain ⟨c₁, h₁, h⟩ := Option.bind_eq_some_iff.mp h
  obtain ⟨c₂, h₂, h⟩ := Option.bind_eq_some_iff.mp h
  obtain ⟨c₃, h₃, h⟩ := Option.bind_eq_some_iff.mp h
  obtain ⟨c₄, h₄, h⟩ := Option.bind_eq_some_iff.mp h
  cases h
  have linked := (((unlink_relinked h₁).trans (setPrev_relinked h₂)).trans
    (setNext_relinked h₃)).trans (setPrev_relinked h₄)
  exact ⟨linked.cache, linked.store, linked.fresh, linked.key, linked.val, linked.exp, linked.size⟩

/-! ### The operations

`Grows k v c c'`: the entries of `c'` are those of `c`, and perhaps `v` under `k`. -/

/-- No entry is new but this one. -/
structure Grows (k : GoString) (v : List UInt8) (c c' : LruCache) : Prop where
  keyed : Keyed c'
  store : c'.store = c.store
  entry : ∀ k' v', c'.entry k' = some v' → c.entry k' = some v' ∨ k' = k ∧ v' = v

variable {k : GoString} {v : List UInt8}

theorem Grows.relinked (h : Grows k v c c') (h' : Relinked c' c'') : Grows k v c c'' where
  keyed := h'.keyed h.keyed
  store := h'.store.trans h.store
  entry k' v' hentry := h.entry k' v' ((h'.entry_eq k').symm.trans hentry)

theorem setVal_grows (keyed : Keyed c) {it : Ref} (hit : c.cache.load k = some it) (v : List UInt8)
    (exp : Int) : Grows k v c (c.setVal it v exp) where
  keyed k' r hr := by
    have hkey : ((c.setVal it v exp).items r).key = (c.items r).key :=
      update_proj Item.key { c.items it with val := v, exp := exp } rfl r
    rw [hkey]
    exact keyed k' r hr
  store := rfl
  entry k' v' hentry := by
    obtain ⟨r, hr, hval⟩ := Option.map_eq_some_iff.mp hentry
    by_cases hrit : r = it
    · -- an item has one key, so `k'` is `k`
      subst hrit
      rw [setVal_items_self] at hval
      exact .inr ⟨(keyed k' r hr).2.symm.trans (keyed k r hit).2, hval.symm⟩
    · rw [setVal_items_ne hrit] at hval
      exact .inl (Option.map_eq_some_iff.mpr ⟨r, hr, hval⟩)

theorem putToHead_grows (keyed : Keyed c) {exp : Int} (h : c.putToHead k v exp = some c') :
    Grows k v c c' := by
  obtain ⟨c₁, h₁, h⟩ := Option.bind_eq_some_iff.mp h
  cases h
  have linked := setPrev_relinked h₁
  have cache : c₁.cache = c.cache := linked.cache
  have fresh : c₁.fresh = c.fresh + 1 := linked.fresh
  have new : (c₁.items c.fresh).key = k ∧ (c₁.items c.fresh).val = v := by
    rw [linked.key, linked.val, alloc_items_fresh]
    exact ⟨rfl, rfl⟩
  -- no key leads to the fresh pointer yet
  have old : ∀ k' r, c.cache.load k' = some r →
      (c₁.items r).key = (c.items r).key ∧ (c₁.items r).val = (c.items r).val := by
    intro k' r hr
    rw [linked.key, linked.val, alloc_items_ne (Nat.ne_of_lt (keyed k' r hr).1)]
    exact ⟨rfl, rfl⟩
  have cases : ∀ k' r, (c₁.cache.store k c.fresh).load k' = some r →
      k' = k ∧ r = c.fresh ∨ c.cache.load k' = some r := by
    intro k' r hr
    rw [SyncMap.load_store, cache] at hr
    split at hr
    · rename_i heq
      exact .inl ⟨heq, (Option.some.inj hr).symm⟩
    · exact .inr hr
  refine ⟨fun k' r hr => ?_, linked.store, fun k' v' hentry => ?_⟩
  · rcases cases k' r hr with ⟨rfl, rfl⟩ | hr
    · exact ⟨fresh ▸ Nat.lt_succ_self _, new.1⟩
    · obtain ⟨hlt, hkey⟩ := keyed k' r hr
      exact ⟨fresh ▸ Nat.lt_succ_of_lt hlt, (old k' r hr).1.trans hkey⟩
  · obtain ⟨r, hr, hval⟩ := Option.map_eq_some_iff.mp hentry
    rcases cases k' r hr with ⟨rfl, rfl⟩ | hr
    · exact .inr ⟨rfl, hval.symm.trans new.2⟩
    · exact .inl (Option.map_eq_some_iff.mpr ⟨r, hr, (old k' r hr).2.symm.trans hval⟩)

theorem removeTail_grows (hgrows : Grows k v c c') (h : c'.removeTail = some c'') :
    Grows k v c c'' := by
  obtain ⟨tail, -, h⟩ := Option.bind_eq_some_iff.mp h
  obtain ⟨c₁, h₁, h⟩ := Option.bind_eq_some_iff.mp h
  cases h
  have linked := setNext_relinked h₁
  have sub : ∀ k' r, c₁.cache.load k' = some r → c'.cache.load k' = some r := by
    intro k' r hr
    rw [linked.cache] at hr
    exact SyncMap.load_delete_of_some hr
  refine ⟨fun k' r hr => ?_, linked.store.trans hgrows.store, fun k' v' hentry => ?_⟩
  · obtain ⟨hlt, hkey⟩ := hgrows.keyed k' r (sub k' r hr)
    exact ⟨hlt.trans_eq linked.fresh.symm, (linked.key r).trans hkey⟩
  · obtain ⟨r, hr, hval⟩ := Option.map_eq_some_iff.mp hentry
    refine hgrows.entry k' v' (Option.map_eq_some_iff.mpr ⟨r, sub k' r hr, ?_⟩)
    exact (linked.val r).symm.trans hval

theorem new_load {size : Int} {r : Ref} (h : (new size).cache.load k = some r) :
    k = ascii "tail" ∧ r = 1 ∨ k = ascii "head" ∧ r = 0 := by
  simp only [new, SyncMap.load_store, SyncMap.load_empty] at h
  split at h
  · rename_i hk
    exact .inl ⟨hk, (Option.some.inj h).symm⟩
  · split at h
    · rename_i hk
      exact .inr ⟨hk, (Option.some.inj h).symm⟩
    · cases h

theorem new_keyed (size : Int) : Keyed (new size) := by
  intro k r h
  rcases new_load h with ⟨rfl, rfl⟩ | ⟨rfl, rfl⟩
  · exact ⟨Nat.one_lt_two, rfl⟩
  · exact ⟨Nat.two_pos, rfl⟩

/-- The placeholders have no value. -/
theorem new_entry {size : Int} (h : (new size).entry k = some v) : v = [] := by
  obtain ⟨r, hr, hval⟩ := Option.map_eq_some_iff.mp h
  rcases new_load hr with ⟨-, rfl⟩ | ⟨-, rfl⟩
  · exact hval.symm
  · exact hval.symm

/-- **`Get`** returns a permanent value, or else a cached one, or nothing, and only
changes links. -/
theorem get_spec {now : Int} {expired : Bool} (h : c.get k now = some (v, expired, c')) :
    Relinked c c' ∧ (c.store.load k = some v ∨ c.entry k = some v ∨ v = []) := by
  unfold get at h
  split at h
  · rename_i hstore
    cases h
    exact ⟨.refl c, .inl hstore⟩
  · split at h
    · rename_i it hit
      obtain ⟨c₁, h₁, h⟩ := Option.bind_eq_some_iff.mp h
      cases h
      refine ⟨moveToHead_relinked h₁, .inr (.inl ?_)⟩
      rw [entry, hit, Option.map_some]
    · cases h
      exact ⟨.refl c, .inr (.inr rfl)⟩

/-- A permanent value goes to a map of its own. -/
theorem set_permanent {now : Int} (h : c.set k v 0 now = some c') :
    c' = { c with store := c.store.store k v } := by
  rw [set, if_pos rfl] at h
  exact (Option.some.inj h).symm

/-- A value that may expire does not go to the permanent ones. -/
theorem set_store {ttl now : Int} (httl : ttl ≠ 0) (h : c.set k v ttl now = some c') :
    c'.store = c.store := by
  rw [set, if_neg httl] at h
  split at h
  · exact (moveToHead_relinked h).store
  · obtain ⟨c₁, h₁, h⟩ := Option.bind_eq_some_iff.mp h
    obtain ⟨c₂, h₂, h₁⟩ := Option.bind_eq_some_iff.mp h₁
    cases h₁
    have hput : c₂.store = c.store := (setPrev_relinked h₂).store
    split at h
    · obtain ⟨tail, -, h⟩ := Option.bind_eq_some_iff.mp h
      obtain ⟨c₃, h₃, h⟩ := Option.bind_eq_some_iff.mp h
      cases h
      exact (setNext_relinked h₃).store.trans hput
    · cases h
      exact hput

/-- **`Set`** of a value that may expire adds that entry, and may evict others. -/
theorem set_grows {ttl now : Int} (keyed : Keyed c) (httl : ttl ≠ 0)
    (h : c.set k v ttl now = some c') : Grows k v c c' := by
  rw [set, if_neg httl] at h
  split at h
  · rename_i it hit
    exact (setVal_grows keyed hit v _).relinked (moveToHead_relinked h)
  · obtain ⟨c₁, h₁, h⟩ := Option.bind_eq_some_iff.mp h
    have put := putToHead_grows keyed h₁
    split at h
    · exact removeTail_grows put h
    · cases h
      exact put

end LruCache

end Glider.Dns
