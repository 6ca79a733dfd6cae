/-
The address pool of the DHCP server (`service/dhcpd/pool.go`).

A free entry has no hardware address, a dynamic one has an expiry, and a static one has neither
expiry nor end. `LeaseIP` looks for the entry of a client with `bytes.Equal`, which takes an empty
hardware address and the nil of a free entry for the same.

* `leaseIP_cases` — what `LeaseIP` can do: renew the first entry of the client, take a free one, or
  give up.
* `poolItems_eq` — the loop of `NewPool` appends the range. `poolItems_last`: unless it goes on for
  ever.
* `newPool_enumerates_iff` — a new pool is the configured range, exactly if that does not end at the
  last of all addresses.
* `ips_step` — nothing changes the addresses of a pool.
-/

import Glider.Lib.Machine
import Glider.Go.HostPort

namespace Glider.Dhcpd

open Glider.Go Glider.Lib

/-! ### The pool -/

/-- A reading of the clock, in nanoseconds since the zero time. The clock does not go back to
before 1970. -/
def timeAt (now : Nat) : Int := 62135596800000000000 + now

structure Item where
  ip : Addr
  /-- `none` is nil. -/
  mac : Option (List UInt8) := none
  /-- Zero is the zero time. -/
  expire : Int := 0
deriving DecidableEq, Repr

structure Pool where
  items : List Item
  lease : Int64
deriving DecidableEq, Repr

def ipv4ToNum (addr : Addr) : UInt32 :=
  let ip := addr.asSlice
  let n := (ip.getD 0 0).toUInt32 <<< 24 + (ip.getD 1 0).toUInt32 <<< 16
  n + (ip.getD 2 0).toUInt32 <<< 8 + (ip.getD 3 0).toUInt32

def numToIPv4 (n : UInt32) : Addr :=
  .v4 (BitVec.ofNat 32
    (bigEndian [(n >>> 24).toUInt8, (n >>> 16).toUInt8, (n >>> 8).toUInt8, n.toUInt8]))

/-- The loop of `NewPool`. It does not come to an end if the last address is `255.255.255.255`. -/
def poolItems : Nat → UInt32 → UInt32 → List Item → Option (List Item)
  | 0, _, _, _ => none
  | fuel + 1, n, e, items =>
    if n ≤ e then poolItems fuel (n + 1) e (items ++ [{ ip := numToIPv4 n }]) else some items

def newPool (fuel : Nat) (lease : Int64) (start stop : Addr) : Option (Except String Pool) :=
  if start.isUnspecified || stop.isUnspecified || start.is6 || stop.is6 then
    some (.error ("start ip or end ip is wrong/nil, please check your config, " ++
      "note only ipv4 is supported"))
  else
    let s := ipv4ToNum start
    let e := ipv4ToNum stop
    if e < s then some (.error "start ip larger than end ip")
    else (poolItems fuel s e []).map fun items => .ok ⟨items, lease⟩

/-- `bytes.Equal(mac, item.mac)`. -/
def Item.ownedBy (mac : List UInt8) (item : Item) : Bool := mac = item.mac.getD []

/-- A loop that changes the first item it is looking for, and returns its address. -/
def first (found : Item → Bool) (change : Item → Item) : List Item → Option (Addr × List Item)
  | [] => none
  | item :: items =>
    if found item then some (item.ip, change item :: items)
    else (first found change items).map fun (ip, items) => (ip, item :: items)

namespace Item

def renew (expiry : Int) (item : Item) : Item :=
  if item.expire = 0 then item else { item with expire := expiry }

def take (mac : List UInt8) (expiry : Int) (item : Item) : Item :=
  { item with mac := some mac, expire := expiry }

def clear (item : Item) : Item := { item with mac := none, expire := 0 }

def isFree (item : Item) : Bool := item.mac = none

end Item

namespace Pool

def expiry (p : Pool) (now : Nat) : Int := timeAt now + p.lease.toInt

/-- `LeaseIP`, at `now`, with the random number `idx`. A requested address that is no address is
`none`. -/
def leaseIP (p : Pool) (mac : List UInt8) (ip : Option Addr) (idx now : Nat) :
    Pool × Except String Addr :=
  -- static ip and leased ip
  match first (Item.ownedBy mac) (Item.renew (p.expiry now)) p.items with
  | some (ip, items) => ({ p with items }, .ok ip)
  | none =>
    -- requested ip
    match first (fun item => some item.ip = ip && item.isFree) (Item.take mac (p.expiry now))
        p.items with
    | some (ip, items) => ({ p with items }, .ok ip)
    | none =>
      -- lease new ip
      match first Item.isFree (Item.take mac (p.expiry now)) (p.items.drop idx) with
      | some (ip, items) => ({ p with items := p.items.take idx ++ items }, .ok ip)
      | none =>
        match first Item.isFree (Item.take mac (p.expiry now)) p.items with
        | some (ip, items) => ({ p with items }, .ok ip)
        | none => (p, .error "no more ip can be leased")

def leaseStaticIP (p : Pool) (mac : List UInt8) (ip : Addr) : Pool :=
  { p with
    items := p.items.map fun item =>
      if item.ip = ip then { item with mac := some mac, expire := 0 } else item }

def releaseIP (p : Pool) (mac : List UInt8) : Pool :=
  { p with
    items := p.items.map fun item =>
      if item.expire ≠ 0 ∧ item.ownedBy mac then item.clear else item }

/-- One tick of the goroutine that `NewPool` starts. -/
def tick (p : Pool) (now : Nat) : Pool :=
  { p with
    items := p.items.map fun item =>
      if item.expire ≠ 0 ∧ item.expire < timeAt now then item.clear else item }

end Pool

/-- A static host. `net.ParseMAC` does not accept an empty hardware address. -/
structure StaticHost where
  mac : List UInt8
  ip : Addr
  mac_ne : mac ≠ []

/-- `New`, for the static hosts among its arguments. -/
def Pool.install (p : Pool) (hosts : List StaticHost) : Pool :=
  hosts.foldl (fun p host => p.leaseStaticIP host.mac host.ip) p

/-- The pool as it is before it serves. `none` is an error, or a loop without end. -/
def startUp (fuel : Nat) (lease : Int64) (start stop : Addr) (hosts : List StaticHost) :
    Option Pool :=
  match newPool fuel lease start stop with
  | some (.ok p) => some (p.install hosts)
  | _ => none

inductive Act where
  | lease (mac : List UInt8) (ip : Option Addr) (idx now : Nat)
  | release (mac : List UInt8)
  | tick (now : Nat)
deriving DecidableEq, Repr

def poolMachine : Machine Pool Act where
  step p
    | .lease mac ip idx now => some (p.leaseIP mac ip idx now).1
    | .release mac => some (p.releaseIP mac)
    | .tick now => some (p.tick now)

/-! ### One pass over the items -/

section First

variable {found : Item → Bool} {change : Item → Item} {items items' : List Item} {ip : Addr}

theorem first_eq_none : first found change items = none ↔ ∀ item ∈ items, found item = false := by
  induction items with
  | nil => simp [first]
  | cons item items ih =>
    rw [first, List.forall_mem_cons]
    cases hfound : found item with
    | true => simp
    | false => simp [ih]

theorem first_eq_some (h : first found change items = some (ip, items')) :
    ∃ i item, items[i]? = some item ∧ found item = true ∧
      (∀ j < i, ∀ item', items[j]? = some item' → found item' = false) ∧ ip = item.ip ∧
      items' = items.set i (change item) := by
  induction items generalizing items' with
  | nil => cases h
  | cons item items ih =>
    rw [first] at h
    split at h
    · rename_i hfound
      cases h
      exact ⟨0, item, rfl, hfound, fun j hj => absurd hj (Nat.not_lt_zero j), rfl, rfl⟩
    · rename_i hfound
      obtain ⟨⟨ip', rest⟩, hrest, heq⟩ := Option.map_eq_some_iff.mp h
      cases heq
      obtain ⟨i, item', hi, hfound', hbefore, hip, rfl⟩ := ih hrest
      refine ⟨i + 1, item', hi, hfound', fun j hj other hother => ?_, hip, rfl⟩
      cases j with
      | zero =>
        cases hother
        exact Bool.eq_false_iff.mpr hfound
      | succ j => exact hbefore j (Nat.lt_of_succ_lt_succ hj) other hother

end First

/-! ### `LeaseIP` -/

/-- What `LeaseIP` can do. -/
inductive Leased (p : Pool) (mac : List UInt8) (ip : Option Addr) (now : Nat) :
    Pool → Except String Addr → Prop
  | renewed {i : Nat} {item : Item} (here : p.items[i]? = some item)
      (owned : item.ownedBy mac = true)
      (before : ∀ j < i, ∀ item', p.items[j]? = some item' → item'.ownedBy mac = false) :
      Leased p mac ip now { p with items := p.items.set i (item.renew (p.expiry now)) }
        (.ok item.ip)
  | taken {i : Nat} {item : Item} (here : p.items[i]? = some item) (free : item.mac = none)
      (unowned : ∀ item' ∈ p.items, item'.ownedBy mac = false)
      (asked : ∀ item' ∈ p.items, some item'.ip = ip → item'.mac = none → item.ip = item'.ip) :
      Leased p mac ip now { p with items := p.items.set i (item.take mac (p.expiry now)) }
        (.ok item.ip)
  | full (unowned : ∀ item ∈ p.items, item.ownedBy mac = false)
      (taken : ∀ item ∈ p.items, item.mac ≠ none) :
      Leased p mac ip now p (.error "no more ip can be leased")

variable {p p' : Pool} {mac : List UInt8} {ip : Option Addr} {idx now : Nat}

theorem set_drop {items : List Item} {idx i : Nat} {item : Item}
    (h : (items.drop idx)[i]? = some item) (item' : Item) :
    items.take idx ++ (items.drop idx).set i item' = items.set (idx + i) item' := by
  rw [List.getElem?_drop] at h
  have hlt := (List.getElem?_eq_some_iff.mp h).1
  have hlen : (items.take idx).length = idx := List.length_take_of_le (by omega)
  have hset := List.set_append_right (s := items.take idx) (t := items.drop idx) (idx + i) item'
    (by omega)
  rw [List.take_append_drop, hlen, Nat.add_sub_cancel_left] at hset
  exact hset.symm

theorem leaseIP_cases (p : Pool) (mac : List UInt8) (ip : Option Addr) (idx now : Nat) :
    Leased p mac ip now (p.leaseIP mac ip idx now).1 (p.leaseIP mac ip idx now).2 := by
  unfold Pool.leaseIP
  split
  · rename_i h
    obtain ⟨i, item, hi, howned, hbefore, rfl, rfl⟩ := first_eq_some h
    exact .renewed hi howned hbefore
  rename_i howned
  have unowned := first_eq_none.mp howned
  split
  · rename_i h
    obtain ⟨i, item, hi, hfound, -, rfl, rfl⟩ := first_eq_some h
    obtain ⟨hip, hfree⟩ := Bool.and_eq_true_iff.mp hfound
    refine .taken hi (of_decide_eq_true hfree) unowned fun item' _ hip' _ => ?_
    exact Option.some.inj ((of_decide_eq_true hip).trans hip'.symm)
  rename_i hasked
  have asked : ∀ item' ∈ p.items, some item'.ip = ip → item'.mac = none → False := by
    intro item' hmem hip hfree
    have := first_eq_none.mp hasked item' hmem
    simp [hip, hfree, Item.isFree] at this
  split
  · rename_i h
    obtain ⟨i, item, hi, hfree, -, rfl, rfl⟩ := first_eq_some h
    rw [set_drop hi]
    rw [List.getElem?_drop] at hi
    exact .taken hi (of_decide_eq_true hfree) unowned fun item' hmem hip hfree' =>
      (asked item' hmem hip hfree').elim
  split
  · rename_i h
    obtain ⟨i, item, hi, hfree, -, rfl, rfl⟩ := first_eq_some h
    exact .taken hi (of_decide_eq_true hfree) unowned fun item' hmem hip hfree' =>
      (asked item' hmem hip hfree').elim
  · rename_i h
    exact .full unowned fun item hmem => of_decide_eq_false (first_eq_none.mp h item hmem)

/-- The hardware address of a client, unless it is empty, is not that of a free entry. -/
theorem ownedBy_iff (hmac : mac ≠ []) {item : Item} :
    item.ownedBy mac = true ↔ item.mac = some mac := by
  unfold Item.ownedBy
  cases item.mac with
  | none => simp [hmac]
  | some mac' => simp [eq_comm]

theorem expiry_ne_zero (p : Pool) (now : Nat) : p.expiry now ≠ 0 := by
  have := p.lease.le_toInt
  unfold Pool.expiry timeAt
  omega

/-! ### Renewing an entry -/

theorem renew_ip (expiry : Int) (item : Item) : (item.renew expiry).ip = item.ip := by
  unfold Item.renew
  split <;> rfl

theorem renew_mac (expiry : Int) (item : Item) : (item.renew expiry).mac = item.mac := by
  unfold Item.renew
  split <;> rfl

theorem renew_expire_eq_zero {expiry : Int} (h : expiry ≠ 0) (item : Item) :
    (item.renew expiry).expire = 0 ↔ item.expire = 0 := by
  unfold Item.renew
  split
  · rfl
  · rename_i hne
    exact ⟨fun h' => absurd h' h, fun h' => absurd h' hne⟩

/-! ### The addresses of a pool -/

variable {items : List Item}

theorem ips_set {i : Nat} {item item' : Item} (hi : items[i]? = some item)
    (hip : item'.ip = item.ip) : (items.set i item').map Item.ip = items.map Item.ip := by
  obtain ⟨hlt, rfl⟩ := List.getElem?_eq_some_iff.mp hi
  have hlt' : i < (items.map Item.ip).length := by rwa [List.length_map]
  have hself : (items.map Item.ip).set i (items.map Item.ip)[i] = items.map Item.ip :=
    List.set_getElem_self hlt'
  rw [List.getElem_map] at hself
  rw [List.map_set, hip, hself]

theorem ips_map {change : Item → Item} (hip : ∀ item, (change item).ip = item.ip) :
    (items.map change).map Item.ip = items.map Item.ip := by
  rw [List.map_map]
  exact List.map_congr_left fun item _ => hip item

theorem ips_leased {result : Except String Addr} (h : Leased p mac ip now p' result) :
    p'.items.map Item.ip = p.items.map Item.ip := by
  cases h with
  | renewed here owned before => exact ips_set here (renew_ip ..)
  | taken here free unowned asked => exact ips_set here rfl
  | full unowned taken => rfl

theorem ips_step {act : Act} (hstep : poolMachine.step p act = some p') :
    p'.items.map Item.ip = p.items.map Item.ip := by
  cases act with
  | lease mac ip idx now =>
    cases hstep
    exact ips_leased (leaseIP_cases p mac ip idx now)
  | release mac | tick now =>
    cases hstep
    exact ips_map fun item => by split <;> rfl

theorem ips_install (p : Pool) (hosts : List StaticHost) :
    (p.install hosts).items.map Item.ip = p.items.map Item.ip := by
  induction hosts generalizing p with
  | nil => rfl
  | cons host hosts ih =>
    refine (ih (p.leaseStaticIP host.mac host.ip)).trans (ips_map fun item => ?_)
    split <;> rfl

/-- Nothing has an expiry before the pool serves. -/
theorem install_expire (hosts : List StaticHost) (h : ∀ item ∈ p.items, item.expire = 0) :
    ∀ item ∈ (p.install hosts).items, item.expire = 0 := by
  induction hosts generalizing p with
  | nil => exact h
  | cons host hosts ih =>
    refine ih (p := p.leaseStaticIP host.mac host.ip) fun item hitem => ?_
    obtain ⟨old, hold, rfl⟩ := List.mem_map.mp hitem
    split
    · rfl
    · exact h old hold

/-- Two entries with one address are one. -/
theorem eq_of_ip (hnodup : (items.map Item.ip).Nodup) {i j : Nat} {item item' : Item}
    (hi : items[i]? = some item) (hj : items[j]? = some item') (hip : item.ip = item'.ip) :
    i = j := by
  have hlt := (List.getElem?_eq_some_iff.mp hi).1
  refine (List.getElem?_inj (by rwa [List.length_map]) hnodup).mp ?_
  rw [List.getElem?_map, List.getElem?_map, hi, hj, Option.map_some, Option.map_some, hip]

/-! ### The range of a new pool -/

/-- The address of a number. -/
theorem numToIPv4_eq (n : UInt32) : numToIPv4 n = .v4 (BitVec.ofNat 32 n.toNat) := by
  have hlt := n.toNat_lt
  have hbytes : bigEndian
      [(n >>> 24).toUInt8, (n >>> 16).toUInt8, (n >>> 8).toUInt8, n.toUInt8] = n.toNat := by
    simp only [bigEndian, List.foldl_cons, List.foldl_nil, UInt32.toNat_toUInt8,
      UInt32.toNat_shiftRight, show UInt32.toNat 24 % 32 = 24 from rfl,
      show UInt32.toNat 16 % 32 = 16 from rfl, show UInt32.toNat 8 % 32 = 8 from rfl,
      Nat.shiftRight_eq_div_pow]
    omega
  rw [numToIPv4, hbytes]

/-- The number of an address. -/
theorem toNat_ipv4ToNum (a : BitVec 32) : (ipv4ToNum (.v4 a)).toNat = a.toNat := by
  have hlt := a.isLt
  have hslice : Addr.asSlice (.v4 a) =
      [(a.toNat >>> 24).toUInt8, (a.toNat >>> 16).toUInt8, (a.toNat >>> 8).toUInt8,
        a.toNat.toUInt8] := rfl
  rw [ipv4ToNum, hslice]
  have hbyte : ∀ x : Nat, x.toUInt8.toNat = x % 256 := fun _ => rfl
  simp only [List.getD_cons_zero, List.getD_cons_succ, UInt32.toNat_add, UInt32.toNat_shiftLeft,
    UInt8.toNat_toUInt32, hbyte, Nat.shiftRight_eq_div_pow, Nat.shiftLeft_eq, UInt32.reduceToNat,
    Nat.reduceMod, Nat.reducePow]
  omega

/-- The addresses from one number to another. -/
def addrRange (n e : UInt32) : List (BitVec 32) :=
  (List.range' n.toNat (e.toNat + 1 - n.toNat)).map (BitVec.ofNat 32)

/-- Their items. -/
def rangeItems (n e : UInt32) : List Item := (addrRange n e).map fun a => { ip := .v4 a }

/-- Up to the last of all addresses, the loop goes on for ever. -/
theorem poolItems_last (fuel : Nat) (n : UInt32) (items : List Item) :
    poolItems fuel n 0xFFFFFFFF items = none := by
  induction fuel generalizing n items with
  | zero => rfl
  | succ fuel ih =>
    have hle : n ≤ 0xFFFFFFFF := UInt32.le_iff_toNat_le.mpr (Nat.le_of_lt_succ n.toNat_lt)
    rw [poolItems, if_pos hle, ih]

/-- Up to any other one, it appends the range. -/
theorem poolItems_eq {e : UInt32} (he : e ≠ 0xFFFFFFFF) (fuel : Nat) (n : UInt32)
    (items : List Item) :
    poolItems fuel n e items =
      if e.toNat + 1 - n.toNat < fuel then some (items ++ rangeItems n e) else none := by
  have hlast : e.toNat ≠ 4294967295 := fun heq => he (UInt32.toNat_inj.mp heq)
  have hlt := e.toNat_lt
  induction fuel generalizing n items with
  | zero => rfl
  | succ fuel ih =>
    rw [poolItems]
    by_cases hle : n ≤ e
    · have hnat := UInt32.le_iff_toNat_le.mp hle
      have hnext : (n + 1).toNat = n.toNat + 1 := by
        rw [UInt32.toNat_add]
        exact Nat.mod_eq_of_lt (by rw [UInt32.toNat_one]; omega)
      have hlen : e.toNat + 1 - n.toNat = e.toNat + 1 - (n + 1).toNat + 1 := by omega
      have hrange : rangeItems n e = { ip := numToIPv4 n } :: rangeItems (n + 1) e := by
        rw [rangeItems, addrRange, hlen, List.range'_succ, List.map_cons, List.map_cons,
          numToIPv4_eq, rangeItems, addrRange, hnext]
      rw [if_pos hle, ih, hrange, List.append_assoc, List.singleton_append]
      congr 1
      exact propext (by omega)
    · have hnat : e.toNat < n.toNat := Nat.lt_of_not_le fun h => hle (UInt32.le_iff_toNat_le.mpr h)
      have hempty : e.toNat + 1 - n.toNat = 0 := by omega
      rw [if_neg hle, if_pos (by omega), rangeItems, addrRange, hempty, List.range'_zero,
        List.map_nil, List.map_nil, List.append_nil]

theorem ips_rangeItems (n e : UInt32) :
    (rangeItems n e).map Item.ip = (addrRange n e).map Addr.v4 := by
  rw [rangeItems, List.map_map]
  rfl

/-- The range is in increasing order. -/
theorem pairwise_addrRange (n e : UInt32) : (addrRange n e).Pairwise (· < ·) := by
  have hlt := e.toNat_lt
  rw [addrRange, List.pairwise_map]
  refine List.Pairwise.imp_of_mem ?_ (List.pairwise_lt_range' ..)
  intro m m' _ hm' hlt'
  have hbound := List.mem_range'_1.mp hm'
  apply BitVec.lt_def.mpr
  rw [BitVec.toNat_ofNat, BitVec.toNat_ofNat, Nat.mod_eq_of_lt (by omega),
    Nat.mod_eq_of_lt (by omega)]
  exact hlt'

theorem nodup_ips_rangeItems (n e : UInt32) : ((rangeItems n e).map Item.ip).Nodup := by
  rw [ips_rangeItems]
  exact List.pairwise_map.mpr ((pairwise_addrRange n e).imp fun h heq =>
    BitVec.ne_of_lt h (Addr.v4.inj heq))

/-- The items of a new pool: free, and each with an address of its own. -/
theorem newPool_spec {fuel : Nat} {lease : Int64} {start stop : Addr}
    (h : newPool fuel lease start stop = some (.ok p)) :
    (∀ item ∈ p.items, item.mac = none ∧ item.expire = 0) ∧ (p.items.map Item.ip).Nodup := by
  unfold newPool at h
  split at h
  · cases h
  dsimp only at h
  split at h
  · cases h
  obtain ⟨items, hitems, heq⟩ := Option.map_eq_some_iff.mp h
  cases heq
  by_cases hlast : ipv4ToNum stop = 0xFFFFFFFF
  · rw [hlast, poolItems_last] at hitems
    cases hitems
  · rw [poolItems_eq hlast, List.nil_append] at hitems
    split at hitems <;> cases hitems
    refine ⟨fun item hitem => ?_, nodup_ips_rangeItems ..⟩
    obtain ⟨m, -, rfl⟩ := List.mem_map.mp hitem
    exact ⟨rfl, rfl⟩

/-- What a range of addresses asks for: `NewPool` comes to an end, its items are the addresses from
`start` to `stop` in increasing order, and numbers stand for addresses one to one. -/
structure EnumeratesRange (lease : Int64) (start stop : BitVec 32) : Prop where
  items : ∃ (fuel₀ : Nat) (p : Pool) (bits : List (BitVec 32)), (∀ fuel, fuel₀ ≤ fuel →
      newPool fuel lease (.v4 start) (.v4 stop) = some (.ok p)) ∧
    p.items.map Item.ip = bits.map Addr.v4 ∧ bits.Pairwise (· < ·) ∧
    ∀ a, a ∈ bits ↔ start ≤ a ∧ a ≤ stop
  ipv4ToNum_numToIPv4 : ∀ n, ipv4ToNum (numToIPv4 n) = n
  numToIPv4_ipv4ToNum : ∀ a, numToIPv4 (ipv4ToNum (.v4 a)) = .v4 a

section Range

variable {lease : Int64} {start stop : BitVec 32}

theorem mem_addrRange (a : BitVec 32) :
    a ∈ addrRange (ipv4ToNum (.v4 start)) (ipv4ToNum (.v4 stop)) ↔ start ≤ a ∧ a ≤ stop := by
  have hstop := stop.isLt
  rw [addrRange, toNat_ipv4ToNum, toNat_ipv4ToNum, List.mem_map, BitVec.le_def, BitVec.le_def]
  constructor
  · rintro ⟨m, hm, rfl⟩
    have hbound := List.mem_range'_1.mp hm
    rw [BitVec.toNat_ofNat, Nat.mod_eq_of_lt (by omega)]
    omega
  · rintro ⟨hge, hle⟩
    refine ⟨a.toNat, List.mem_range'_1.mpr (by omega), ?_⟩
    rw [BitVec.ofNat_toNat, BitVec.setWidth_eq]

/-- On specified addresses in the right order, `NewPool` is its loop. -/
theorem newPool_eq (hstart : start ≠ 0) (hstop : stop ≠ 0) (hle : start ≤ stop) (fuel : Nat) :
    newPool fuel lease (.v4 start) (.v4 stop) =
      (poolItems fuel (ipv4ToNum (.v4 start)) (ipv4ToNum (.v4 stop)) []).map fun items =>
        .ok ⟨items, lease⟩ := by
  have hspecified : (Addr.isUnspecified (.v4 start) || Addr.isUnspecified (.v4 stop) ||
      Addr.is6 (.v4 start) || Addr.is6 (.v4 stop)) = false := by
    simp only [Addr.isUnspecified, Addr.is6, decide_eq_false hstart, decide_eq_false hstop,
      Bool.or_false]
  have horder : ¬ ipv4ToNum (.v4 stop) < ipv4ToNum (.v4 start) := by
    rw [UInt32.lt_iff_toNat_lt, toNat_ipv4ToNum, toNat_ipv4ToNum]
    exact Nat.not_lt.mpr (BitVec.le_def.mp hle)
  simp only [newPool, hspecified, Bool.false_eq_true, if_false, if_neg horder]

theorem ipv4ToNum_last : ipv4ToNum (.v4 stop) = 0xFFFFFFFF ↔ stop = 0xFFFFFFFF := by
  rw [← UInt32.toNat_inj, toNat_ipv4ToNum, ← BitVec.toNat_inj]
  rfl

/-- Up to the last of all addresses there is no pool, however long one waits. -/
theorem newPool_last (hstart : start ≠ 0) (fuel : Nat) :
    newPool fuel lease (.v4 start) (.v4 0xFFFFFFFF) = none := by
  have hle : start ≤ 0xFFFFFFFF := BitVec.le_def.mpr (Nat.le_of_lt_succ start.isLt)
  rw [newPool_eq hstart (by decide) hle, ipv4ToNum_last.mpr rfl, poolItems_last, Option.map_none]

theorem not_enumerates_last (hstart : start ≠ 0) :
    ¬ EnumeratesRange lease start 0xFFFFFFFF := by
  rintro ⟨⟨fuel, p, -, hpool, -⟩, -, -⟩
  have hnone := @newPool_last lease start hstart fuel
  rw [hpool fuel (Nat.le_refl fuel)] at hnone
  cases hnone

/-- **The pool is the configured range**, exactly if that does not end at the last of all
addresses. -/
theorem newPool_enumerates_iff (hstart : start ≠ 0) (hstop : stop ≠ 0) (hle : start ≤ stop) :
    EnumeratesRange lease start stop ↔ stop ≠ 0xFFFFFFFF := by
  constructor
  · rintro hrange rfl
    exact not_enumerates_last hstart hrange
  · intro hlast
    have hnum : ipv4ToNum (.v4 stop) ≠ 0xFFFFFFFF := fun h => hlast (ipv4ToNum_last.mp h)
    have hstop := (ipv4ToNum (.v4 stop)).toNat_lt
    refine ⟨⟨4294967298, ⟨rangeItems (ipv4ToNum (.v4 start)) (ipv4ToNum (.v4 stop)), lease⟩, _,
      ?_, ips_rangeItems .., pairwise_addrRange .., mem_addrRange⟩, ?_, ?_⟩
    · intro fuel hfuel
      rw [newPool_eq hstart ‹_› hle, poolItems_eq hnum, if_pos (by omega), List.nil_append,
        Option.map_some]
    · intro n
      rw [← UInt32.toNat_inj, numToIPv4_eq, toNat_ipv4ToNum, BitVec.toNat_ofNat]
      exact Nat.mod_eq_of_lt n.toNat_lt
    · intro a
      rw [numToIPv4_eq, toNat_ipv4ToNum, BitVec.ofNat_toNat, BitVec.setWidth_eq]

/-- A pool of a hundred addresses. -/
theorem newPool_enumerates_hundred :
    EnumeratesRange 3600000000000 0xC0A80101 0xC0A80164 :=
  (newPool_enumerates_iff (by decide) (by decide) (by decide)).mpr (by decide)

/-- The pool from `255.255.255.254` to `255.255.255.255`. -/
theorem newPool_never_ends :
    (0xFFFFFFFE : BitVec 32) ≠ 0 ∧ (0xFFFFFFFE : BitVec 32) ≤ 0xFFFFFFFF ∧
      (∀ fuel, newPool fuel 3600000000000 (.v4 0xFFFFFFFE) (.v4 0xFFFFFFFF) = none) ∧
      ¬ EnumeratesRange 3600000000000 0xFFFFFFFE 0xFFFFFFFF := by
  have hstart : (0xFFFFFFFE : BitVec 32) ≠ 0 := by decide
  exact ⟨hstart, by decide, newPool_last hstart, not_enumerates_last hstart⟩

end Range

theorem startUp_spec {fuel : Nat} {lease : Int64} {start stop : Addr} {hosts : List StaticHost}
    (h : startUp fuel lease start stop hosts = some p) :
    (∀ item ∈ p.items, item.expire = 0) ∧ (p.items.map Item.ip).Nodup := by
  unfold startUp at h
  split at h <;> cases h
  rename_i new hnew
  obtain ⟨hitems, hnodup⟩ := newPool_spec hnew
  rw [ips_install]
  refine ⟨?_, hnodup⟩
  exact install_expire hosts fun item hitem => (hitems item hitem).2

theorem run_nodup {acts : List Act} (hrun : poolMachine.run p acts = some p')
    (h : (p.items.map Item.ip).Nodup) : (p'.items.map Item.ip).Nodup :=
  @Machine.run_invariant _ _ poolMachine (fun p => (p.items.map Item.ip).Nodup) _ _ _
    (fun _ _ _ h hstep => (ips_step hstep).symm ▸ h) hrun h

end Glider.Dhcpd
