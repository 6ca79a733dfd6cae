/-
What the cache of the DNS client is for: `Lru` is a list of entries, the most recently used one
first, that loses its last entry when it gets too long, with the permanent values in a map beside
it. The items and pointers of `Glider.Dns.Cache` refine it.

* `WellFormed` — the items are linked from head to tail in both directions, and the map leads to
  each of them by its own key.
* `moveToHead_spec`, `putToHead_spec`, `removeTail_spec` — the three functions that change the links
  follow no `nil` pointer and keep this.
* `get_refines`, `set_refines` — the calls return what they return on the list.
* `lru_refines` — and so does every sequence of calls.
-/

import Glider.Dns.Cache
import Glider.Lib.Links

namespace Glider.Dns

open Glider.Go Glider.Lib

/-! ### The list -/

structure Entry where
  key : GoString
  val : List UInt8
  exp : Int
deriving DecidableEq, Repr

/-- A cache as a list of entries, the most recently used one first, and the permanent
values beside it. -/
structure Lru where
  size : Int
  entries : List Entry
  store : GoString → Option (List UInt8)

namespace Lru

def new (size : Int) : Lru := ⟨size, [⟨ascii "head", [], 0⟩, ⟨ascii "tail", [], 0⟩], fun _ => none⟩

def find (l : Lru) (k : GoString) : Option Entry := l.entries.find? fun e => e.key = k

/-- An entry in front of the others. -/
def touch (l : Lru) (e : Entry) : Lru :=
  { l with entries := e :: l.entries.filter fun e' => e'.key ≠ e.key }

/-- On overflow the least recently used entry goes. -/
def evict (l : Lru) : Lru :=
  if l.size < l.entries.length then { l with entries := l.entries.dropLast } else l

def get (l : Lru) (k : GoString) (now : Int) : (List UInt8 × Bool) × Lru :=
  match l.store k with
  | some v => ((v, false), l)
  | none =>
    match l.find k with
    | some e => ((e.val, e.exp < LruCache.unix now), l.touch e)
    | none => (([], false), l)

def set (l : Lru) (k : GoString) (v : List UInt8) (ttl now : Int) : Lru :=
  if ttl = 0 then { l with store := Function.update l.store k (some v) }
  else
    let e := ⟨k, v, LruCache.unix (now + LruCache.seconds ttl)⟩
    match l.find k with
    | some _ => l.touch e
    | none => { l with entries := e :: l.entries }.evict

end Lru

/-- A call, at a time. The mutex makes calls take place one after the other. -/
inductive Op where
  | get (k : GoString) (now : Int)
  | set (k : GoString) (v : List UInt8) (ttl now : Int)

namespace Lru

/-- The results of the `Get`s among the calls, and the list. -/
def run : Lru → List Op → List (List UInt8 × Bool) × Lru
  | l, [] => ([], l)
  | l, .get k now :: ops =>
    let (results, l') := (l.get k now).2.run ops
    ((l.get k now).1 :: results, l')
  | l, .set k v ttl now :: ops => (l.set k v ttl now).run ops

theorem get_size (l : Lru) (k : GoString) (now : Int) : (l.get k now).2.size = l.size := by
  unfold get
  split
  · rfl
  · split
    · rfl
    · rfl

theorem set_size (l : Lru) (k : GoString) (v : List UInt8) (ttl now : Int) :
    (l.set k v ttl now).size = l.size := by
  unfold set
  split
  · rfl
  dsimp only
  split
  · rfl
  · unfold evict
    split
    · rfl
    · rfl

theorem run_size (l : Lru) (ops : List Op) : (l.run ops).2.size = l.size := by
  induction ops generalizing l with
  | nil => rfl
  | cons op ops ih =>
    cases op with
    | get k now => exact (ih _).trans (l.get_size k now)
    | set k v ttl now => exact (ih _).trans (l.set_size k v ttl now)

end Lru

namespace LruCache

variable {c c' : LruCache} {refs pre post : List Ref} {r : Ref}

/-- The item without its links. -/
def entryAt (c : LruCache) (r : Ref) : Entry := ⟨(c.items r).key, (c.items r).val, (c.items r).exp⟩

/-- The items `refs` are linked in this order from head to tail, and the map leads to each of them
by its own key. -/
structure WellFormed (c : LruCache) (refs : List Ref) : Prop where
  linked : Linked (fun r => (c.items r).next) (fun r => (c.items r).prev) refs
  head : c.head = refs.head?
  tail : c.tail = refs.getLast?
  cached : ∀ k r, c.cache.load k = some r ↔ r ∈ refs ∧ (c.items r).key = k
  allocated : ∀ r ∈ refs, r < c.fresh

/-- The cache holds what the list holds, in the items `refs`, and not more than it should. -/
structure Represents (c : LruCache) (l : Lru) (refs : List Ref) : Prop where
  wellFormed : WellFormed c refs
  entries : l.entries = refs.map c.entryAt
  store : ∀ k, c.store.load k = l.store k
  size : c.size = l.size
  two_le : 2 ≤ refs.length
  le_max : (refs.length : Int) ≤ max c.size 2

def Refines (c : LruCache) (l : Lru) : Prop := ∃ refs, Represents c l refs

/-! ### Links -/

theorem setNext_links {it target : Option Ref} (h : c.setNext it target = some c') :
    (∀ r, (c'.items r).next = if it = some r then target else (c.items r).next) ∧
      (∀ r, (c'.items r).prev = (c.items r).prev) ∧ c'.head = c.head ∧ c'.tail = c.tail := by
  obtain ⟨p, rfl, rfl⟩ := Option.map_eq_some_iff.mp h
  refine ⟨fun r => ?_, update_proj Item.prev _ rfl, rfl, rfl⟩
  by_cases hr : r = p
  · rw [hr, if_pos rfl]
    show (Function.update c.items p _ p).next = target
    rw [Function.update_self]
  · rw [if_neg fun heq => hr (Option.some.inj heq).symm]
    exact congrArg Item.next (Function.update_of_ne hr ..)

theorem setPrev_links {it target : Option Ref} (h : c.setPrev it target = some c') :
    (∀ r, (c'.items r).prev = if it = some r then target else (c.items r).prev) ∧
      (∀ r, (c'.items r).next = (c.items r).next) ∧ c'.head = c.head ∧ c'.tail = c.tail := by
  obtain ⟨p, rfl, rfl⟩ := Option.map_eq_some_iff.mp h
  refine ⟨fun r => ?_, update_proj Item.next _ rfl, rfl, rfl⟩
  by_cases hr : r = p
  · rw [hr, if_pos rfl]
    show (Function.update c.items p _ p).prev = target
    rw [Function.update_self]
  · rw [if_neg fun heq => hr (Option.some.inj heq).symm]
    exact congrArg Item.prev (Function.update_of_ne hr ..)

theorem setNext_some (c : LruCache) {it : Option Ref} (target : Option Ref) (h : it ≠ none) :
    ∃ c', c.setNext it target = some c' := by
  obtain ⟨p, rfl⟩ := Option.ne_none_iff_exists'.mp h
  exact ⟨_, rfl⟩

theorem setPrev_some (c : LruCache) {it : Option Ref} (target : Option Ref) (h : it ≠ none) :
    ∃ c', c.setPrev it target = some c' := by
  obtain ⟨p, rfl⟩ := Option.ne_none_iff_exists'.mp h
  exact ⟨_, rfl⟩

/-- `unlink` takes an item out of the list, if it is not the first one. -/
theorem unlink_spec (h : WellFormed c (pre ++ r :: post)) (hpre : pre ≠ []) :
    ∃ c', c.unlink r = some c' ∧
      Linked (fun r => (c'.items r).next) (fun r => (c'.items r).prev) (pre ++ post) ∧
      c'.head = c.head ∧ c'.tail = (pre ++ post).getLast? := by
  obtain ⟨hnext, hprev⟩ := h.linked.links pre r post rfl
  have hlast : pre.getLast? ≠ none := by simpa using hpre
  have htail := h.tail
  rw [List.getLast?_append_cons] at htail
  cases post with
  | nil =>
    obtain ⟨c', hset⟩ := setNext_some { c with tail := pre.getLast? } none hlast
    obtain ⟨hnexts, hprevs, hhead, htail'⟩ := setNext_links hset
    refine ⟨c', ?_, h.linked.erase (fun m _ => hnexts m) (fun m _ => hprevs m), hhead, ?_⟩
    · rw [unlink, if_pos (by exact htail), hprev, hset]
    · rw [htail', List.append_nil]
  | cons q post =>
    have hr : c.tail ≠ some r := by
      intro heq
      rw [htail, List.getLast?_cons_cons] at heq
      have hsuffix := (List.nodup_append.mp h.linked.nodup).2.1
      exact (List.nodup_cons.mp hsuffix).1 (List.mem_of_getLast? heq)
    obtain ⟨c₁, hset₁⟩ := setNext_some c (some q) hlast
    obtain ⟨hnexts, hprevs, hhead, htail₁⟩ := setNext_links hset₁
    have hnext₁ : (c₁.items r).next = some q := by
      rw [hnexts r]
      split
      · rfl
      · exact hnext
    obtain ⟨c', hset₂⟩ := setPrev_some c₁ pre.getLast? (Option.some_ne_none q)
    obtain ⟨hprevs', hnexts', hhead', htail'⟩ := setPrev_links hset₂
    refine ⟨c', ?_, h.linked.erase (fun m _ => ?_) (fun m _ => ?_), ?_, ?_⟩
    · rw [unlink, if_neg hr, hprev, hnext, List.head?_cons, hset₁]
      show c₁.setPrev (c₁.items r).next (c₁.items r).prev = some c'
      rw [hnext₁, hprevs r, hprev, hset₂]
    · exact (hnexts' m).trans (hnexts m)
    · rw [hprevs' m, hprevs m]
      rfl
    · rw [hhead', hhead]
    · rw [htail', htail₁, htail, List.getLast?_cons_cons, List.getLast?_append_cons]

theorem WellFormed.head_ne_none (h : WellFormed c refs) (hne : refs ≠ []) : c.head ≠ none := by
  rw [h.head]
  simpa using hne

theorem WellFormed.notMem_others (h : WellFormed c (pre ++ r :: post)) : r ∉ pre ++ post := by
  have nodup := List.perm_middle.nodup_iff.mp h.linked.nodup
  exact (List.nodup_cons.mp nodup).1

/-- A new order of the items, with nothing else changed. -/
theorem WellFormed.reorder {refs' : List Ref} (h : WellFormed c refs) (same : Relinked c c')
    (perm : refs'.Perm refs)
    (linked : Linked (fun r => (c'.items r).next) (fun r => (c'.items r).prev) refs')
    (head : c'.head = refs'.head?) (tail : c'.tail = refs'.getLast?) : WellFormed c' refs' where
  linked := linked
  head := head
  tail := tail
  cached k r := by
    rw [same.cache, same.key, perm.mem_iff]
    exact h.cached k r
  allocated r hr := by
    rw [same.fresh]
    exact h.allocated r (perm.mem_iff.mp hr)

/-- **`moveToHead`** moves an item to the front, and follows no `nil` pointer. -/
theorem moveToHead_spec (h : WellFormed c (pre ++ r :: post)) :
    ∃ c', c.moveToHead r = some c' ∧ WellFormed c' (r :: (pre ++ post)) := by
  cases pre with
  | nil => exact ⟨c, if_pos h.head, h⟩
  | cons first pre =>
    have hr := h.notMem_others
    have hhead : c.head = some first := h.head
    have hne : c.head ≠ some r := by
      rw [hhead]
      rintro heq
      cases heq
      exact hr List.mem_cons_self
    obtain ⟨c₁, hunlink, hlinked, hhead₁, htail₁⟩ := unlink_spec h (List.cons_ne_nil _ _)
    obtain ⟨c₂, hset₂⟩ := setPrev_some c₁ none (Option.some_ne_none r)
    obtain ⟨hprevs₂, hnexts₂, hhead₂, htail₂⟩ := setPrev_links hset₂
    obtain ⟨c₃, hset₃⟩ := setNext_some c₂ c₂.head (Option.some_ne_none r)
    obtain ⟨hnexts₃, hprevs₃, hhead₃, htail₃⟩ := setNext_links hset₃
    have hhead₃' : c₃.head = some first := by rw [hhead₃, hhead₂, hhead₁, hhead]
    obtain ⟨c₄, hset₄⟩ := setPrev_some c₃ (some r) (hhead₃'.trans_ne (Option.some_ne_none first))
    obtain ⟨hprevs₄, hnexts₄, -, htail₄⟩ := setPrev_links hset₄
    have hmove : c.moveToHead r = some { c₄ with head := some r } := by
      rw [moveToHead, if_neg hne, hunlink]
      simp only [Option.bind_eq_bind, Option.bind_some, hset₂, hset₃, hset₄]
    refine ⟨_, hmove, h.reorder (moveToHead_relinked hmove) List.perm_middle.symm
      (hlinked.cons hr ?_ ?_ (fun m hm => ?_) (fun m hm => ?_)) rfl ?_⟩
    · rw [hnexts₄ r, hnexts₃ r, if_pos rfl, hhead₂, hhead₁, hhead]
      rfl
    · rw [hprevs₄ r, if_neg (hhead₃' ▸ hhead ▸ hne), hprevs₃ r, hprevs₂ r, if_pos rfl]
    · have hmr : some r ≠ some m := fun heq => hr (Option.some.inj heq ▸ hm)
      rw [hnexts₄ m, hnexts₃ m, if_neg hmr, hnexts₂ m]
    · have hmr : some r ≠ some m := fun heq => hr (Option.some.inj heq ▸ hm)
      rw [hprevs₄ m, hprevs₃ m, hprevs₂ m, if_neg hmr, hhead₃']
      rfl
    · rw [List.cons_append, List.getLast?_cons_cons, ← List.cons_append, ← htail₁, ← htail₂,
        ← htail₃, ← htail₄]

theorem entryAt_of_relinked (same : Relinked c c') (r : Ref) : c'.entryAt r = c.entryAt r := by
  rw [entryAt, same.key, same.val, same.exp, entryAt]

theorem WellFormed.setVal (h : WellFormed c refs) (v : List UInt8) (exp : Int) :
    WellFormed (c.setVal r v exp) refs := by
  have hnext : (fun m => ((c.setVal r v exp).items m).next) = fun m => (c.items m).next :=
    funext (update_proj Item.next _ rfl)
  have hprev : (fun m => ((c.setVal r v exp).items m).prev) = fun m => (c.items m).prev :=
    funext (update_proj Item.prev _ rfl)
  refine ⟨?_, h.head, h.tail, fun k m => ?_, h.allocated⟩
  · rw [hnext, hprev]
    exact h.linked
  · rw [show ((c.setVal r v exp).items m).key = (c.items m).key from
      update_proj Item.key { c.items r with val := v, exp := exp } rfl m]
    exact h.cached k m

/-- **`putToHead`** puts a new item in front. -/
theorem putToHead_spec (h : WellFormed c refs) (hne : refs ≠ []) {k : GoString}
    (hk : c.cache.load k = none) (v : List UInt8) (exp : Int) :
    ∃ c', c.putToHead k v exp = some c' ∧ WellFormed c' (c.fresh :: refs) ∧
      c'.entryAt c.fresh = ⟨k, v, exp⟩ ∧ (∀ r ∈ refs, c'.entryAt r = c.entryAt r) ∧
      c'.store = c.store ∧ c'.size = c.size := by
  have hfresh : c.fresh ∉ refs := fun hmem => Nat.lt_irrefl _ (h.allocated _ hmem)
  have hhead : c.head ≠ some c.fresh := fun heq => hfresh (List.mem_of_head? (h.head ▸ heq))
  obtain ⟨item, hitem⟩ : ∃ item : Item, item = { key := k, val := v, exp := exp, next := c.head } :=
    ⟨_, rfl⟩
  have new := alloc_items_fresh c item
  have old : ∀ m ∈ refs, (c.alloc item).items m = c.items m := fun m hm =>
    alloc_items_ne (Nat.ne_of_lt (h.allocated m hm)) item
  obtain ⟨c₁, hset⟩ := setPrev_some (c.alloc item) (some c.fresh) (h.head_ne_none hne)
  obtain ⟨hprevs, hnexts, -, htail⟩ := setPrev_links hset
  have same := setPrev_relinked hset
  have index : c.cache.Indexes (fun r => (c.items r).key) refs := h.cached
  rw [← show c₁.cache = c.cache from same.cache] at index hk
  refine ⟨{ c₁ with head := some c.fresh, cache := c₁.cache.store k c.fresh }, ?_,
    ⟨h.linked.cons hfresh ?_ ?_ (fun m hm => ?_) (fun m hm => ?_), rfl, ?_, fun k' m => ?_,
      fun m hm => ?_⟩, ?_, fun m hm => ?_, same.store, same.size⟩
  · rw [putToHead, ← hitem, hset]
    rfl
  · rw [hnexts, new, hitem]
    exact h.head
  · rw [hprevs, if_neg hhead, new, hitem]
  · rw [hnexts, old m hm]
  · rw [hprevs, old m hm]
    exact if_congr (by rw [h.head]) rfl rfl
  · obtain ⟨first, rest, rfl⟩ := List.exists_cons_of_ne_nil hne
    rw [List.getLast?_cons_cons]
    exact htail.trans h.tail
  · have index' : (c₁.cache.store k c.fresh).Indexes (fun r => (c₁.items r).key)
        (c.fresh :: refs) := by
      refine index.cons hk ?_ fun w hw => ?_
      · rw [same.key, new, hitem]
      · rw [same.key, old w hw]
    exact index' k' m
  · rw [same.fresh]
    rcases List.mem_cons.mp hm with rfl | hm
    · exact Nat.lt_succ_self _
    · exact Nat.lt_succ_of_lt (h.allocated m hm)
  · rw [entryAt, same.key, same.val, same.exp, new, hitem]
  · rw [entryAt, same.key, same.val, same.exp, old m hm, entryAt]

/-- **`removeTail`** takes the last item out of the list and out of the map. -/
theorem removeTail_spec (h : WellFormed c (pre ++ [r])) (hpre : pre ≠ []) :
    ∃ c', c.removeTail = some c' ∧ WellFormed c' pre ∧ (∀ m, c'.entryAt m = c.entryAt m) ∧
      c'.store = c.store ∧ c'.size = c.size := by
  have hlast : pre.getLast? ≠ none := by simpa using hpre
  have htail : c.tail = some r := by rw [h.tail, List.getLast?_append_cons, List.getLast?_singleton]
  have hprev : (c.items r).prev = pre.getLast? := (h.linked.links pre r [] rfl).2
  obtain ⟨c₁, hset⟩ := setNext_some { c with cache := c.cache.delete (c.items r).key } none hlast
  obtain ⟨hnexts, hprevs, hhead, -⟩ := setNext_links hset
  have same := setNext_relinked hset
  have hr : r ∉ pre := fun hmem =>
    (List.nodup_append.mp h.linked.nodup).2.2 r hmem r (List.mem_singleton_self r) rfl
  refine ⟨{ c₁ with tail := pre.getLast? }, ?_,
    ⟨?_, ?_, rfl, fun k m => ?_, fun m hm => ?_⟩, fun m => ?_, same.store, same.size⟩
  · refine Option.bind_eq_some_iff.mpr ⟨r, htail, Option.bind_eq_some_iff.mpr ⟨c₁, ?_, ?_⟩⟩
    · dsimp only
      rw [hprev, hset]
    · rw [show (c₁.items r).prev = pre.getLast? from (hprevs r).trans hprev]
  · have linked := h.linked.erase (fun m _ => hnexts m) (fun m _ => hprevs m)
    rwa [List.append_nil] at linked
  · obtain ⟨first, rest, rfl⟩ := List.exists_cons_of_ne_nil hpre
    exact hhead.trans h.head
  · have index : (c.cache.delete (c.items r).key).Indexes (fun r => (c.items r).key) pre :=
      SyncMap.Indexes.concat_delete h.cached hr
    rw [same.key, show c₁.cache = c.cache.delete (c.items r).key from same.cache]
    exact index k m
  · rw [same.fresh]
    exact h.allocated m (List.mem_append_left _ hm)
  · exact (entryAt_of_relinked same m).trans rfl

/-- The map has as many entries as the list has items. -/
theorem WellFormed.len_eq (h : WellFormed c refs) : c.cache.len = refs.length := by
  have hperm : c.cache.pairs.Perm (refs.map fun r => ((c.items r).key, r)) := by
    refine (List.perm_ext_iff_of_nodup (SyncMap.nodup_pairs c.cache) ?_).mpr ?_
    · exact h.linked.nodup.map fun r r' heq => (Prod.ext_iff.mp heq).2
    · rintro ⟨k, r⟩
      rw [SyncMap.mem_pairs, h.cached, List.mem_map]
      constructor
      · rintro ⟨hr, rfl⟩
        exact ⟨r, hr, rfl⟩
      · rintro ⟨r', hr, heq⟩
        cases heq
        exact ⟨hr, rfl⟩
  have hlength := hperm.length_eq
  rwa [SyncMap.pairs, List.length_map, List.length_map] at hlength

theorem new_wellFormed (size : Int) : WellFormed (new size) [0, 1] := by
  refine ⟨⟨by decide, fun pre r post hsplit => ?_⟩, rfl, rfl, fun k r => ?_, ?_⟩
  · cases pre with
    | nil =>
      cases hsplit
      exact ⟨rfl, rfl⟩
    | cons _ pre =>
      cases pre with
      | nil =>
        cases hsplit
        exact ⟨rfl, rfl⟩
      | cons _ pre => simp at hsplit
  · constructor
    · intro hload
      rcases new_load hload with ⟨rfl, rfl⟩ | ⟨rfl, rfl⟩
      · exact ⟨by decide, rfl⟩
      · exact ⟨by decide, rfl⟩
    · rintro ⟨hr, rfl⟩
      rcases List.mem_pair.mp hr with rfl | rfl
      · rfl
      · rfl
  · show ∀ r ∈ [0, 1], r < 2
    decide

/-! ### The operations -/

variable {l : Lru} {k : GoString}

/-- Keys are found in the list as in the map. -/
theorem WellFormed.find_eq (h : WellFormed c refs) (k : GoString) :
    (refs.map c.entryAt).find? (fun e => e.key = k) = (c.cache.load k).map c.entryAt := by
  rw [List.find?_map]
  congr 1
  cases hfind : refs.find? ((fun e : Entry => decide (e.key = k)) ∘ c.entryAt) with
  | some r =>
    have htest := List.find?_some hfind
    have hkey : (c.items r).key = k := of_decide_eq_true htest
    exact ((h.cached k r).mpr ⟨List.mem_of_find?_eq_some hfind, hkey⟩).symm
  | none =>
    cases hload : c.cache.load k with
    | none => rfl
    | some r =>
      obtain ⟨hr, hkey⟩ := (h.cached k r).mp hload
      exact absurd (decide_eq_true hkey) (List.find?_eq_none.mp hfind r hr)

/-- No other entry has the key of an item. -/
theorem WellFormed.filter_others (h : WellFormed c (pre ++ r :: post)) :
    (((pre ++ r :: post).map c.entryAt).filter fun e => e.key ≠ (c.items r).key) =
      (pre ++ post).map c.entryAt := by
  have hothers : ∀ m ∈ pre ++ post, (c.items m).key ≠ (c.items r).key := by
    intro m hm heq
    have hload := (h.cached _ r).mpr ⟨List.mem_append_cons_self, rfl⟩
    have hmem : m ∈ pre ++ r :: post := List.perm_middle.mem_iff.mpr (List.mem_cons_of_mem r hm)
    have hload' := (h.cached _ m).mpr ⟨hmem, heq⟩
    rw [hload] at hload'
    cases hload'
    exact h.notMem_others hm
  have hkeep : ∀ ms : List Ref, (∀ m ∈ ms, m ∈ pre ++ post) →
      ((ms.map c.entryAt).filter fun e => e.key ≠ (c.items r).key) = ms.map c.entryAt := by
    intro ms hms
    refine List.filter_eq_self.mpr fun e he => ?_
    obtain ⟨m, hm, rfl⟩ := List.mem_map.mp he
    exact decide_eq_true (hothers m (hms m hm))
  rw [List.map_append, List.filter_append, List.map_cons,
    List.filter_cons_of_neg (by simp [entryAt]),
    hkeep pre fun m hm => List.mem_append_left post hm,
    hkeep post fun m hm => List.mem_append_right pre hm, List.map_append]

/-- A move to the front of the list. -/
theorem Represents.moveToHead {l' : Lru} (h : Represents c l (pre ++ r :: post))
    (hstore : l'.store = l.store) (hsize : l'.size = l.size)
    (hentries : l'.entries = c.entryAt r :: (pre ++ post).map c.entryAt) :
    ∃ c', c.moveToHead r = some c' ∧ Refines c' l' := by
  obtain ⟨c', hmove, wf⟩ := moveToHead_spec h.wellFormed
  have same := moveToHead_relinked hmove
  have hlength : (r :: (pre ++ post)).length = (pre ++ r :: post).length :=
    List.perm_middle.length_eq.symm
  refine ⟨c', hmove, r :: (pre ++ post), wf, ?_, fun k => ?_, ?_, ?_, ?_⟩
  · rw [show c'.entryAt = c.entryAt from funext (entryAt_of_relinked same), List.map_cons, hentries]
  · rw [same.store, hstore]
    exact h.store k
  · rw [same.size, hsize, h.size]
  · rw [hlength]
    exact h.two_le
  · rw [hlength, same.size]
    exact h.le_max

/-- **`Get`** returns what the list returns. -/
theorem get_refines (h : Refines c l) (k : GoString) (now : Int) :
    ∃ c', c.get k now = some ((l.get k now).1.1, (l.get k now).1.2, c') ∧
      Refines c' (l.get k now).2 := by
  obtain ⟨refs, hrefs⟩ := h
  have wf := hrefs.wellFormed
  unfold get Lru.get Lru.find
  rw [hrefs.store, hrefs.entries, wf.find_eq k]
  cases hstore : l.store k with
  | some v => exact ⟨c, rfl, refs, hrefs⟩
  | none =>
    cases hload : c.cache.load k with
    | none => exact ⟨c, rfl, refs, hrefs⟩
    | some r =>
      obtain ⟨pre, post, rfl⟩ := List.append_of_mem ((wf.cached k r).mp hload).1
      obtain ⟨c', hmove, href⟩ : ∃ c', c.moveToHead r = some c' ∧
          Refines c' (l.touch (c.entryAt r)) := by
        refine hrefs.moveToHead rfl rfl ?_
        rw [← wf.filter_others, ← hrefs.entries]
        rfl
      refine ⟨c', ?_, href⟩
      dsimp only
      rw [hmove]
      rfl

theorem setVal_entryAt {m : Ref} (v : List UInt8) (exp : Int) :
    (c.setVal r v exp).entryAt m = if m = r then ⟨(c.items r).key, v, exp⟩ else c.entryAt m := by
  split
  · rename_i heq
    rw [heq, entryAt, setVal_items_self]
  · rename_i hne
    rw [entryAt, setVal_items_ne hne, entryAt]

/-- The end of `Set`: a list with one entry too many loses the last. -/
theorem evict_refines (wf : WellFormed c refs) (hentries : l.entries = refs.map c.entryAt)
    (hstore : ∀ k, c.store.load k = l.store k) (hsize : c.size = l.size) (hlong : 3 ≤ refs.length)
    (hmax : (refs.length : Int) ≤ max c.size 2 + 1) :
    ∃ c', (if c.size < c.cache.len then c.removeTail else some c) = some c' ∧
      Refines c' l.evict := by
  rw [wf.len_eq, Lru.evict, hentries, List.length_map, ← hsize]
  by_cases hfull : c.size < refs.length
  · rw [if_pos hfull, if_pos hfull]
    obtain ⟨pre, r, rfl⟩ := (List.eq_nil_or_concat' refs).resolve_left fun heq => by
      rw [heq] at hlong
      cases hlong
    rw [List.length_append, List.length_singleton] at hlong hmax
    have hpre : pre ≠ [] := List.ne_nil_of_length_pos (by omega)
    obtain ⟨c', hremove, wf', hsame, hstore', hsize'⟩ := removeTail_spec wf hpre
    refine ⟨c', hremove, pre, wf', ?_, fun k => ?_, hsize', by omega, ?_⟩
    · rw [List.map_append, List.map_singleton, List.dropLast_concat, funext hsame]
    · rw [hstore']
      exact hstore k
    · rw [hsize']
      push_cast at hmax
      omega
  · rw [if_neg hfull, if_neg hfull]
    exact ⟨c, rfl, refs, wf, hentries, hstore, hsize, by omega, by omega⟩

/-- **`Set`** does to the cache what it does to the list. -/
theorem set_refines (h : Refines c l) (k : GoString) (v : List UInt8) (ttl now : Int) :
    ∃ c', c.set k v ttl now = some c' ∧ Refines c' (l.set k v ttl now) := by
  obtain ⟨refs, hrefs⟩ := h
  have wf := hrefs.wellFormed
  unfold set Lru.set
  by_cases httl : ttl = 0
  · rw [if_pos httl, if_pos httl]
    refine ⟨_, rfl, refs, ⟨wf.linked, wf.head, wf.tail, wf.cached, wf.allocated⟩, hrefs.entries,
      fun k' => ?_, hrefs.size, hrefs.two_le, hrefs.le_max⟩
    show (c.store.store k v).load k' = Function.update l.store k (some v) k'
    rw [SyncMap.load_store, Function.update_apply, hrefs.store]
  rw [if_neg httl, if_neg httl]
  generalize unix (now + seconds ttl) = exp
  unfold Lru.find
  rw [hrefs.entries, wf.find_eq k]
  dsimp only
  cases hload : c.cache.load k with
  | some r =>
    obtain ⟨hr, hkey⟩ := (wf.cached k r).mp hload
    obtain ⟨pre, post, rfl⟩ := List.append_of_mem hr
    have hset : Represents (c.setVal r v exp)
        { l with entries := (pre ++ r :: post).map (c.setVal r v exp).entryAt }
        (pre ++ r :: post) :=
      ⟨wf.setVal v exp, rfl, hrefs.store, hrefs.size, hrefs.two_le, hrefs.le_max⟩
    have hothers : ∀ m ∈ pre ++ post, (c.setVal r v exp).entryAt m = c.entryAt m := by
      intro m hm
      rw [setVal_entryAt, if_neg]
      rintro rfl
      exact wf.notMem_others hm
    refine hset.moveToHead rfl rfl ?_
    rw [List.map_congr_left hothers, setVal_entryAt, if_pos rfl, ← wf.filter_others,
      ← hrefs.entries, hkey]
    rfl
  | none =>
    have htwo := hrefs.two_le
    have hmax := hrefs.le_max
    have hne : refs ≠ [] := List.ne_nil_of_length_pos (by omega)
    obtain ⟨c₁, hput, wf₁, hnew, hold, hstore₁, hsize₁⟩ := putToHead_spec wf hne hload v exp
    dsimp only [Option.map_none]
    rw [hput]
    refine evict_refines wf₁ ?_ (fun k' => ?_) (hsize₁.trans hrefs.size) (Nat.succ_le_succ htwo) ?_
    · rw [List.map_cons, hnew, List.map_congr_left hold]
    · rw [hstore₁]
      exact hrefs.store k'
    · rw [hsize₁, List.length_cons]
      push_cast
      omega

/-! ### Runs -/

/-- The results of the `Get`s among the calls, and the cache; `none` as soon as a call follows a
`nil` pointer. -/
def run : LruCache → List Op → Option (List (List UInt8 × Bool) × LruCache)
  | c, [] => some ([], c)
  | c, .get k now :: ops => do
    let (v, expired, c) ← c.get k now
    let (results, c) ← c.run ops
    some ((v, expired) :: results, c)
  | c, .set k v ttl now :: ops => do
    let c ← c.set k v ttl now
    c.run ops

theorem run_refines (h : Refines c l) (ops : List Op) :
    ∃ c', c.run ops = some ((l.run ops).1, c') ∧ Refines c' (l.run ops).2 := by
  induction ops generalizing c l with
  | nil => exact ⟨c, rfl, h⟩
  | cons op ops ih =>
    cases op with
    | get k now =>
      obtain ⟨c₁, hget, h₁⟩ := get_refines h k now
      obtain ⟨c', hrun, h'⟩ := ih h₁
      refine ⟨c', ?_, h'⟩
      rw [run, hget]
      show ((c₁.run ops).bind fun x => some (_ :: x.1, x.2)) = _
      rw [hrun]
      rfl
    | set k v ttl now =>
      obtain ⟨c₁, hset, h₁⟩ := set_refines h k v ttl now
      obtain ⟨c', hrun, h'⟩ := ih h₁
      refine ⟨c', ?_, h'⟩
      rw [run, hset]
      exact hrun

theorem new_refines (size : Int) : Refines (new size) (Lru.new size) :=
  ⟨[0, 1], new_wellFormed size, rfl, fun _ => rfl, rfl, Nat.le_refl 2, Int.le_max_right size 2⟩

/-- **Refinement.** Whatever calls are made, none follows a `nil` pointer, the results are those of
the list, and afterwards the items are linked from head to tail, each of them in the map under its
own key, and not more than `size` of them, or two. -/
theorem lru_refines (size : Int) (ops : List Op) :
    ∃ c refs, (new size).run ops = some (((Lru.new size).run ops).1, c) ∧ WellFormed c refs ∧
      ((Lru.new size).run ops).2.entries = refs.map c.entryAt ∧
      (∀ k, c.store.load k = ((Lru.new size).run ops).2.store k) ∧
      (c.cache.len : Int) ≤ max size 2 := by
  obtain ⟨c, hrun, refs, h⟩ := run_refines (new_refines size) ops
  refine ⟨c, refs, hrun, h.wellFormed, h.entries, h.store, ?_⟩
  have hmax := h.le_max
  rw [h.size, Lru.run_size] at hmax
  rw [h.wellFormed.len_eq]
  exact hmax

end LruCache

end Glider.Dns
