/-
Balance of the `rr` strategy (`rule/group.go`, `scheduleRR`).

`Dial`, `DialUDP` and `NextDialer` each take one pick, and each pick advances the 32-bit index
once. `picks` are the picks of any sequence of such calls on a rotation that does not change.

* `picks_count` — the picks of a forwarder are the visits of the index to its residue.
* `rr_balanced` — so two forwarders are picked equally often, up to 1, and up to 2 if the
  index wraps once.
* `rr_unbalanced_truncated` — not so for a rotation longer than the index can count: its
  length is truncated to 32 bits before the division. Nor for one with a forwarder in it twice.
-/

import Glider.Lib.Residues
import Glider.Rule.Schedule

namespace Glider.Rule

open Glider.Go Glider.Lib

/-! ### Calls that take a pick -/

/-- A call that asks the group for a forwarder. -/
inductive Caller where
  | dial (addr : GoString)
  | dialUDP (addr : GoString)
  | nextDialer (dstAddr : GoString)
deriving DecidableEq, Repr

namespace FwdrGroup

/-- The scheduler's pick in a call, and the group afterwards. `Dial` tries it first, and
`DialUDP` calls `NextDialer`. -/
def pickFor (h : Heap) (p : FwdrGroup) : Caller → Option FwdrId × FwdrGroup
  | .dial addr =>
    let cands := p.dialCandidates h addr p.dialAttempts
    (cands.1.bind List.head?, cands.2)
  | .dialUDP addr => p.nextDialer h addr
  | .nextDialer dstAddr => p.nextDialer h dstAddr

/-- The picks of consecutive calls, each with the records the forwarders have by then. -/
def picks : FwdrGroup → List (Heap × Caller) → List (Option FwdrId)
  | _, [] => []
  | p, (h, c) :: calls => (p.pickFor h c).1 :: picks (p.pickFor h c).2 calls

/-- The first candidate of a dial is the pick of the scheduler. -/
theorem dialCandidates_head (h : Heap) (p : FwdrGroup) (dstAddr : GoString) (n : Int)
    (hne : p.pool ≠ []) :
    (p.dialCandidates h dstAddr n).1.bind List.head? = (p.nextDialer h dstAddr).1 ∧
      (p.dialCandidates h dstAddr n).2 = (p.nextDialer h dstAddr).2 := by
  unfold dialCandidates
  split
  · rename_i p' hnext
    rw [hnext]
    exact ⟨rfl, rfl⟩
  · rename_i first p' hnext
    rw [hnext]
    refine ⟨?_, rfl⟩
    rw [Option.bind_some, foldl_addCandidate hne, List.head?_append, List.head?_cons,
      Option.some_or]

section RoundRobin

variable {p : FwdrGroup}

/-- Whatever the call, it takes the round-robin pick and advances the index once. -/
theorem pickFor_rr (hnext : p.next = .rr) (hne : p.avail ≠ []) (h : Heap) (c : Caller) :
    p.pickFor h c = (pick p.avail (p.index + 1), p.bump) := by
  have hnextDialer : ∀ dstAddr, p.nextDialer h dstAddr = (pick p.avail (p.index + 1), p.bump) := by
    intro dstAddr
    rw [nextDialer, if_neg hne, schedule, hnext]
    rfl
  have hpool : p.pool ≠ [] := by
    rw [pool, if_neg hne]
    exact hne
  cases c with
  | dial addr =>
    obtain ⟨hhead, hgroup⟩ := dialCandidates_head h p addr p.dialAttempts hpool
    rw [pickFor, hhead, hgroup, hnextDialer]
  | dialUDP addr => exact hnextDialer addr
  | nextDialer dstAddr => exact hnextDialer dstAddr

/-- The picks of a forwarder, counted along the index. -/
theorem picks_count (hnext : p.next = .rr) (hne : p.avail ≠ []) (f : FwdrId)
    (calls : List (Heap × Caller)) :
    (p.picks calls).count (some f) =
      Nat.count (fun k => pick p.avail (p.index + 1 + UInt32.ofNat k) = some f) calls.length := by
  induction calls generalizing p with
  | nil => rfl
  | cons call calls ih =>
    obtain ⟨h, c⟩ := call
    have hshift : ∀ k, p.index + 1 + 1 + UInt32.ofNat k = p.index + 1 + UInt32.ofNat (k + 1) := by
      intro k
      rw [UInt32.ofNat_add]
      grind
    rw [picks, pickFor_rr hnext hne, List.count_cons, List.length_cons, Nat.count_succ']
    rw [ih (p := p.bump) hnext hne]
    simp only [bump, hshift, beq_iff_eq]
    simp

end RoundRobin

end FwdrGroup

/-! ### Balance -/

/-- The index picks `f` when its residue is the position of `f`. -/
theorem pick_eq_some_iff {l : List FwdrId} (nodup : l.Nodup) (hlen : l.length < 2 ^ 32) {f : FwdrId}
    (hf : f ∈ l) (n : UInt32) : pick l n = some f ↔ n.toNat % l.length = l.idxOf f := by
  have hpos : l.idxOf f < l.length := List.idxOf_lt_length_of_mem hf
  have hmod : (n % UInt32.ofNat l.length).toNat = n.toNat % l.length := by
    rw [UInt32.toNat_mod, UInt32.toNat_ofNat', Nat.mod_eq_of_lt hlen]
  have hlt : n.toNat % l.length < l.length := Nat.mod_lt _ (by omega)
  have hne : l.length % 4294967296 ≠ 0 := by omega
  rw [pick, if_neg (mt ofNat_length_eq_zero.mp hne), hmod, List.getElem?_eq_getElem hlt,
    Option.some.injEq]
  constructor
  · rintro rfl
    rw [nodup.idxOf_getElem]
  · intro heq
    simp only [heq, List.getElem_idxOf]

theorem index_toNat (index : UInt32) (k : Nat) :
    (index + 1 + UInt32.ofNat k).toNat = (index.toNat + 1 + k) % 2 ^ 32 := by
  simp only [UInt32.toNat_add, UInt32.toNat_ofNat', UInt32.toNat_one]
  omega

/-- A forwarder is picked as often as another, up to the wraps of the index and one. -/
theorem picks_count_le {p : FwdrGroup} (hnext : p.next = .rr) (nodup : p.avail.Nodup)
    (hlen : p.avail.length < 2 ^ 32) {f g : FwdrId} (hf : f ∈ p.avail) (hg : g ∈ p.avail)
    (calls : List (Heap × Caller)) (wraps : Nat)
    (hwraps : p.index.toNat + calls.length < (wraps + 1) * 2 ^ 32) :
    (p.picks calls).count (some f) ≤ (p.picks calls).count (some g) + (wraps + 1) := by
  have hne : p.avail ≠ [] := List.ne_nil_of_mem hf
  have hindex := p.index.toNat_lt
  rw [FwdrGroup.picks_count hnext hne, FwdrGroup.picks_count hnext hne]
  simp only [pick_eq_some_iff nodup hlen hf, pick_eq_some_iff nodup hlen hg, index_toNat]
  apply count_wrapping_le (List.idxOf_lt_length_of_mem hf) (List.idxOf_lt_length_of_mem hg)
  · omega
  · omega

/-- **Round-robin balance.** On a rotation of distinct forwarders whose length fits the index,
from every starting index and for every sequence of calls: any two forwarders are picked
equally often up to 1 if the index does not wrap, and up to 2 if it wraps once. -/
theorem rr_balanced (p : FwdrGroup) (hnext : p.next = .rr) (nodup : p.avail.Nodup)
    (hlen : p.avail.length < 2 ^ 32) (f g : FwdrId) (hf : f ∈ p.avail) (hg : g ∈ p.avail)
    (calls : List (Heap × Caller)) :
    (p.index.toNat + calls.length < 2 ^ 32 →
      (((p.picks calls).count (some f) : Int) - (p.picks calls).count (some g)).natAbs ≤ 1) ∧
    (p.index.toNat + calls.length < 2 * 2 ^ 32 →
      (((p.picks calls).count (some f) : Int) - (p.picks calls).count (some g)).natAbs ≤ 2) := by
  constructor
  · intro hwrap
    have hfg := picks_count_le hnext nodup hlen hf hg calls 0 (by omega)
    have hgf := picks_count_le hnext nodup hlen hg hf calls 0 (by omega)
    omega
  · intro hwrap
    have hfg := picks_count_le hnext nodup hlen hf hg calls 1 (by omega)
    have hgf := picks_count_le hnext nodup hlen hg hf calls 1 (by omega)
    omega

/-- Three forwarders and an index that wraps after the first pick. The bound of 2 is met:
4294967295 and 0 have the same residue. -/
theorem rr_balanced_wrapping :
    ((roundRobin 3 4294967294).picks
        [(Heap.ofList [], .dial []), (Heap.ofList [], .dialUDP [])]).count (some 0) = 2 ∧
      (((roundRobin 3 4294967294).picks
          [(Heap.ofList [], .dial []), (Heap.ofList [], .dialUDP [])]).count (some 0) -
        (((roundRobin 3 4294967294).picks
          [(Heap.ofList [], .dial []), (Heap.ofList [], .dialUDP [])]).count (some 1) : Int)).natAbs
        ≤ 2 :=
  ⟨by decide, (rr_balanced (roundRobin 3 4294967294) rfl (by decide) (by decide) 0 1 (by decide)
    (by decide) [(Heap.ofList [], .dial []), (Heap.ofList [], .dialUDP [])]).2 (by decide)⟩

/-- A length that truncates to one makes every pick the first forwarder. -/
theorem pick_of_truncated {m : Nat} (hm : UInt32.ofNat m = 1) (n : UInt32) :
    pick (List.range m) n = some 0 := by
  have hpos : 0 < m := by
    rcases Nat.eq_zero_or_pos m with rfl | hpos
    · cases hm
    · exact hpos
  rw [pick, List.length_range, hm, if_neg (by decide), UInt32.mod_one]
  exact List.getElem?_range hpos

theorem picks_of_truncated {m : Nat} (hm : UInt32.ofNat m = 1) (hpos : 0 < m) (h : Heap) :
    (roundRobin m 0).picks [(h, .nextDialer []), (h, .nextDialer [])] = [some 0, some 0] := by
  have hne : (roundRobin m 0).avail ≠ [] := List.ne_nil_of_mem (mem_avail_roundRobin.mpr hpos)
  have hne' : (roundRobin m 0).bump.avail ≠ [] := hne
  simp only [FwdrGroup.picks, FwdrGroup.pickFor_rr rfl hne]
  rw [FwdrGroup.pickFor_rr rfl hne']
  exact congrArg₂ (fun first second => [first, second]) (pick_of_truncated hm _)
    (pick_of_truncated hm _)

/-- Two picks from 4294967297 distinct forwarders, with no wrap: the divisor is
`uint32(4294967297) = 1`, so both are the first forwarder. Two picks from four entries, three of
them the same forwarder, are both this one, too. -/
theorem rr_unbalanced_truncated :
    (∃ p : FwdrGroup, p.next = .rr ∧ p.avail.Nodup ∧ 0 ∈ p.avail ∧ 1 ∈ p.avail ∧
      ∃ calls : List (Heap × Caller), p.index.toNat + calls.length < 2 ^ 32 ∧
        (p.picks calls).count (some 0) = 2 ∧ (p.picks calls).count (some 1) = 0) ∧
    ∃ p : FwdrGroup, p.next = .rr ∧ p.avail.length < 2 ^ 32 ∧ 0 ∈ p.avail ∧ 1 ∈ p.avail ∧
      ∃ calls : List (Heap × Caller), p.index.toNat + calls.length < 2 ^ 32 ∧
        (p.picks calls).count (some 0) = 2 ∧ (p.picks calls).count (some 1) = 0 := by
  have hzero : 0 < 2 ^ 32 + 1 := by omega
  have hone : 1 < 2 ^ 32 + 1 := by omega
  have hpicks := picks_of_truncated (m := 2 ^ 32 + 1) (by decide) hzero (Heap.ofList [])
  have hcalls : 0 + 2 < 2 ^ 32 := by omega
  constructor
  · refine ⟨roundRobin (2 ^ 32 + 1) 0, rfl, List.nodup_range, mem_avail_roundRobin.mpr hzero,
      mem_avail_roundRobin.mpr hone, _, ?_, by rw [hpicks]; decide, by rw [hpicks]; decide⟩
    exact hcalls
  · exact ⟨⟨[], {}, [0, 1], [0, 0, 0, 1], 0, 0, .rr, 3, 0⟩, rfl, by decide, by decide, by decide,
      [(Heap.ofList [], .nextDialer []), (Heap.ofList [], .nextDialer [])], hcalls, by decide,
      by decide⟩

end Glider.Rule
