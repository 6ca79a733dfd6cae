/-
What the schedulers pick (`rule/group.go`), and the candidates of one dial.

* `nextDialer_mem` — whatever the strategy, the pick is a forwarder of the pool,
  so no index is out of range, unless the length of the pool is a multiple of 2^32.
* `dialCandidates_eq_rotate` — the candidates are the pool, rotated to start at
  the pick and cut to the attempt limit.
* `dialCandidates_truncated_rotation` — the same for a group given by its two lists, with
  what follows for the entries.
* `dialCandidates_panics` — with 2^32 forwarders the divisor is zero.
-/

import Glider.Rule.Rotation
import Mathlib.Data.List.Rotate

namespace Glider.Rule

open Glider.Go

theorem ofNat_length_eq_zero {n : Nat} : UInt32.ofNat n = 0 ↔ n % 4294967296 = 0 := by
  rw [← UInt32.toNat_inj, UInt32.toNat_ofNat']
  exact Iff.rfl

/-- An index reduced modulo the length is in range. -/
theorem exists_pick {l : List FwdrId} (hlen : l.length % 4294967296 ≠ 0) (n : UInt32) :
    ∃ f ∈ l, pick l n = some f := by
  have hlt : (n % UInt32.ofNat l.length).toNat < l.length := by
    rw [UInt32.toNat_mod, UInt32.toNat_ofNat']
    have hmod : n.toNat % (l.length % 2 ^ 32) < l.length % 2 ^ 32 :=
      Nat.mod_lt n.toNat (Nat.pos_of_ne_zero hlen)
    exact hmod.trans_le (Nat.mod_le _ _)
  refine ⟨_, List.getElem_mem hlt, ?_⟩
  rw [pick, if_neg (mt ofNat_length_eq_zero.mp hlen), List.getElem?_eq_getElem hlt]

/-- The forwarder of the lowest latency is one of those compared. -/
theorem foldl_lowerLatency_mem (h : Heap) (l : List FwdrId) (best : Int64 × FwdrId) :
    (l.foldl (FwdrGroup.lowerLatency h) best).2 = best.2 ∨
      (l.foldl (FwdrGroup.lowerLatency h) best).2 ∈ l := by
  induction l generalizing best with
  | nil => exact Or.inl rfl
  | cons f l ih =>
    rw [List.foldl_cons]
    rcases ih (FwdrGroup.lowerLatency h best f) with heq | hmem
    · rw [heq]
      unfold FwdrGroup.lowerLatency
      split
      · exact Or.inr List.mem_cons_self
      · exact Or.inl rfl
    · exact Or.inr (List.mem_cons_of_mem f hmem)

namespace FwdrGroup

variable {h : Heap} {p : FwdrGroup} {dstAddr : GoString}

theorem scheduleLHA_mem (hne : p.avail ≠ []) :
    ∃ f ∈ p.avail, (p.scheduleLHA h dstAddr).1 = some f := by
  obtain ⟨old, rest, havail⟩ := List.exists_cons_of_ne_nil hne
  have hold : old ∈ p.avail := by simp [havail]
  have hhead : p.avail[0]? = some old := by simp [havail]
  simp only [scheduleLHA, hhead]
  split
  · rcases foldl_lowerLatency_mem h p.avail ((h old).latency, old) with heq | hmem
    · exact ⟨_, heq ▸ hold, rfl⟩
    · exact ⟨_, hmem, rfl⟩
  · exact ⟨old, hold, rfl⟩

/-- Every scheduler picks from a rotation that is not empty. -/
theorem schedule_mem (hne : p.avail ≠ []) (hlen : p.avail.length % 4294967296 ≠ 0) :
    ∃ f ∈ p.avail, (p.schedule h dstAddr).1 = some f := by
  unfold schedule
  cases p.next with
  | ha =>
    have hpos : 0 < p.avail.length := List.length_pos_iff.mpr hne
    exact ⟨_, List.getElem_mem hpos, List.getElem?_eq_getElem hpos⟩
  | lha => exact scheduleLHA_mem hne
  | rr | dh => exact exists_pick hlen _

/-- **The pick is in the pool**, whatever the strategy. -/
theorem nextDialer_mem (hlen : p.pool.length % 4294967296 ≠ 0) :
    ∃ f ∈ p.pool, (p.nextDialer h dstAddr).1 = some f := by
  unfold nextDialer
  unfold pool at hlen ⊢
  split <;> rename_i havail
  · rw [if_pos havail] at hlen
    exact exists_pick hlen _
  · rw [if_neg havail] at hlen
    exact schedule_mem havail hlen

/-- A truncated length of zero makes round robin panic. -/
theorem nextDialer_eq_none (hnext : p.next = .rr) (hlen : p.pool.length % 4294967296 = 0) :
    (p.nextDialer h dstAddr).1 = none := by
  unfold nextDialer
  unfold pool at hlen
  split <;> rename_i havail
  · rw [if_pos havail] at hlen
    exact if_pos (ofNat_length_eq_zero.mpr hlen)
  · rw [if_neg havail] at hlen
    rw [schedule, hnext]
    exact if_pos (ofNat_length_eq_zero.mpr hlen)

/-! ### Candidates -/

/-- The retry loop walks the pool from `start`, skips the first pick and stops at
the limit. -/
theorem foldl_addCandidate {pool : List FwdrId} (hne : pool ≠ []) (first : FwdrId) (start : Nat)
    (n : Int) (is : List Nat) (out : List FwdrId) :
    is.foldl (addCandidate pool first start n) out =
      out ++ ((is.filterMap fun i => pool[(start + i) % pool.length]?).filter (· ≠ first)).take
        (n.toNat - out.length) := by
  have hpos : 0 < pool.length := List.length_pos_iff.mpr hne
  induction is generalizing out with
  | nil => simp
  | cons i is ih =>
    obtain ⟨f, hget⟩ : ∃ f, pool[(start + i) % pool.length]? = some f :=
      ⟨_, List.getElem?_eq_getElem (Nat.mod_lt (start + i) hpos)⟩
    rw [List.foldl_cons, ih]
    simp only [addCandidate, hget, List.filterMap_cons, List.filter_cons]
    by_cases hroom : (out.length : Int) < n
    · rw [if_pos hroom]
      by_cases hfirst : f = first
      · simp [hfirst]
      · have hsucc : n.toNat - out.length = n.toNat - (out.length + 1) + 1 := by omega
        simp [hfirst, hsucc]
    · rw [if_neg hroom]
      have hfull : n.toNat - out.length = 0 := by omega
      simp [hfull]

/-- Reading the pool at consecutive indices modulo its length rotates it. -/
theorem filterMap_getElem?_mod (pool : List FwdrId) (start : Nat) :
    ((List.range pool.length).filterMap fun i => pool[(start + i) % pool.length]?) =
      pool.rotate start := by
  have read : ∀ i ∈ List.range pool.length,
      pool[(start + i) % pool.length]? = some ((pool.rotate start).getD i 0) := by
    intro i hi
    have hi' : i < pool.length := List.mem_range.mp hi
    rw [Nat.add_comm, ← List.getElem?_rotate hi']
    simp [hi']
  rw [List.filterMap_congr read, ← Function.comp_def some, List.filterMap_eq_map]
  apply List.ext_getElem
  · simp
  · intro i _ hi
    simp [List.getElem?_eq_getElem hi]

/-- **The candidates are the rotated pool**, cut to the attempt limit; the first
one is the pick of the strategy. -/
theorem dialCandidates_eq_rotate (hlen : p.pool.length % 4294967296 ≠ 0) (nodup : p.pool.Nodup)
    (n : Int) :
    ∃ first pre post, p.pool = pre ++ first :: post ∧
      (p.nextDialer h dstAddr).1 = some first ∧
      p.dialCandidates h dstAddr n =
        (some ((p.pool.rotate pre.length).take (max 1 (min n p.pool.length).toNat)),
          (p.nextDialer h dstAddr).2) := by
  obtain ⟨first, hfirst, hpick⟩ : ∃ f ∈ p.pool, (p.nextDialer h dstAddr).1 = some f :=
    nextDialer_mem hlen
  obtain ⟨pre, post, hsplit, hpre⟩ := List.eq_append_cons_of_mem hfirst
  refine ⟨first, pre, post, hsplit, hpick, ?_⟩
  have hpost : first ∉ post := by
    rw [hsplit] at nodup
    exact (List.nodup_cons.mp (List.nodup_append.mp nodup).2.1).1
  have hidx : p.pool.idxOf? first = some pre.length := by
    rw [hsplit, List.idxOf?_eq_some_iff]
    refine ⟨by simp, by simp, fun j hj hjf => hpre ?_⟩
    rw [List.getElem_append_left hj] at hjf
    exact hjf ▸ List.getElem_mem hj
  -- the walk starts after the pick and ends with it
  have hwalk : p.pool.rotate (pre.length + 1) = post ++ pre ++ [first] := by
    have hassoc : p.pool = (pre ++ [first]) ++ post := by simp [hsplit]
    have hlen : pre.length + 1 = (pre ++ [first]).length := by simp
    rw [hassoc, hlen, List.rotate_append_length_eq, List.append_assoc]
  have hothers : (post ++ pre ++ [first]).filter (· ≠ first) = post ++ pre := by
    rw [List.filter_append, List.filter_eq_self.mpr]
    · simp
    · intro f hf
      simp only [decide_not, Bool.not_eq_eq_eq_not, Bool.not_true, decide_eq_false_iff_not]
      rintro rfl
      exact (List.mem_append.mp hf).elim hpost hpre
  have hrotate : p.pool.rotate pre.length = first :: (post ++ pre) := by
    rw [hsplit, List.rotate_append_length_eq, List.cons_append]
  obtain ⟨q, hq⟩ : ∃ q, p.nextDialer h dstAddr = (some first, q) := ⟨_, Prod.ext hpick rfl⟩
  have hpoolne : p.pool ≠ [] := List.ne_nil_of_mem hfirst
  simp only [dialCandidates, hq, hidx]
  rw [foldl_addCandidate hpoolne, filterMap_getElem?_mod, hwalk, hothers, hrotate]
  have hmax : max 1 (min n p.pool.length).toNat = (min n p.pool.length).toNat - 1 + 1 := by omega
  rw [hmax, List.take_succ_cons]
  rfl

/-- A pool of distinct forwarders has distinct forwarders, whichever list it is. -/
theorem nodup_pool (fwdrs : p.fwdrs.Nodup) (avail : p.avail.Nodup) : p.pool.Nodup := by
  unfold pool
  split
  · exact fwdrs
  · exact avail

theorem pool_subset (members : ∀ f ∈ p.avail, f ∈ p.fwdrs) {f : FwdrId} (hf : f ∈ p.pool) :
    f ∈ p.fwdrs := by
  unfold pool at hf
  split at hf
  · exact hf
  · exact members f hf

/-- **The candidates are the truncated rotation of the pool.** Whatever the strategy, the
index, the latencies, the destination and the limit, if the length of the pool is no multiple
of 2^32 the pick exists, the candidates are the pool from the pick on and around, at least one
and at most the limit; and the retry walk reads no index outside the pool. -/
theorem dialCandidates_truncated_rotation (h : Heap) (p : FwdrGroup) (dstAddr : GoString) (n : Int)
    (hlen : p.pool.length % 4294967296 ≠ 0) (fwdrs : p.fwdrs.Nodup) (avail : p.avail.Nodup)
    (members : ∀ f ∈ p.avail, f ∈ p.fwdrs) :
    ∃ first cands, (p.nextDialer h dstAddr).1 = some first ∧
      (p.dialCandidates h dstAddr n).1 = some cands ∧
      cands = (p.pool.rotate (p.pool.idxOf first)).take (max 1 (min n p.pool.length)).toNat ∧
      cands.Nodup ∧ (∀ f ∈ cands, f ∈ p.pool ∧ f ∈ p.fwdrs) ∧ cands.head? = some first ∧
      ∀ i, ∃ f ∈ p.pool, p.pool[i % p.pool.length]? = some f := by
  have nodup : p.pool.Nodup := nodup_pool fwdrs avail
  obtain ⟨first, pre, post, hsplit, hpick, hcands⟩ :=
    @dialCandidates_eq_rotate h p dstAddr hlen nodup n
  have hpre : first ∉ pre := by
    rw [hsplit] at nodup
    intro hmem
    exact (List.nodup_append.mp nodup).2.2 first hmem first List.mem_cons_self rfl
  have hidx : p.pool.idxOf first = pre.length := by
    rw [hsplit, List.idxOf_append_of_notMem hpre, List.idxOf_cons_self, Nat.add_zero]
  have hlimit : max 1 (min n p.pool.length).toNat = (max 1 (min n p.pool.length)).toNat := by omega
  rw [hlimit] at hcands
  refine ⟨first, _, hpick, congrArg Prod.fst hcands, by rw [hidx], ?_, ?_, ?_, ?_⟩
  · exact ((List.nodup_rotate).mpr nodup).sublist (List.take_sublist ..)
  · intro f hf
    have hmem : f ∈ p.pool := List.mem_rotate.mp (List.mem_of_mem_take hf)
    exact ⟨hmem, pool_subset members hmem⟩
  · have hrotate : p.pool.rotate pre.length = first :: (post ++ pre) := by
      rw [hsplit, List.rotate_append_length_eq, List.cons_append]
    have hpos : (max 1 (min n p.pool.length)).toNat ≠ 0 := by omega
    rw [hrotate, List.head?_take, if_neg hpos, List.head?_cons]
  · intro i
    have hpos : 0 < p.pool.length := List.length_pos_iff.mpr (by simp [hsplit])
    exact ⟨_, List.getElem_mem (Nat.mod_lt i hpos), List.getElem?_eq_getElem (Nat.mod_lt i hpos)⟩

/-- Three forwarders, two of them in the rotation, with the index about to wrap and a limit
above the pool. -/
theorem dialCandidates_truncated_rotation_wrapped :
    ∃ first cands,
      (FwdrGroup.nextDialer (Heap.ofList [{}, {}, {}])
        ⟨[], {}, [0, 1, 2], [2, 0], 4294967295, 0, .rr, 3, 0⟩ []).1 = some first ∧
      (FwdrGroup.dialCandidates (Heap.ofList [{}, {}, {}])
        ⟨[], {}, [0, 1, 2], [2, 0], 4294967295, 0, .rr, 3, 0⟩ [] 5).1 = some cands ∧
      cands = [2, 0] ∧ cands.head? = some first := by
  obtain ⟨first, cands, hpick, hcands, -, -, -, hhead, -⟩ := dialCandidates_truncated_rotation
    (Heap.ofList [{}, {}, {}]) ⟨[], {}, [0, 1, 2], [2, 0], 4294967295, 0, .rr, 3, 0⟩ [] 5
    (by decide) (by decide) (by decide) (by decide)
  refine ⟨first, cands, hpick, hcands, ?_, hhead⟩
  have hlist : (FwdrGroup.dialCandidates (Heap.ofList [{}, {}, {}])
      ⟨[], {}, [0, 1, 2], [2, 0], 4294967295, 0, .rr, 3, 0⟩ [] 5).1 = some [2, 0] := by decide
  exact Option.some.inj (hcands.symm.trans hlist)

theorem dialCandidates_eq_none (hnext : (p.nextDialer h dstAddr).1 = none) (n : Int) :
    (p.dialCandidates h dstAddr n).1 = none := by
  obtain ⟨q, hq⟩ : ∃ q, p.nextDialer h dstAddr = (none, q) := ⟨_, Prod.ext hnext rfl⟩
  rw [dialCandidates, hq]

end FwdrGroup

/-- A group of `m` enabled forwarders under `rr`. -/
def roundRobin (m : Nat) (index : UInt32) : FwdrGroup :=
  ⟨[], {}, List.range m, List.range m, index, 0, .rr, 3, 0⟩

theorem mem_avail_roundRobin {m : Nat} {index : UInt32} {f : FwdrId} :
    f ∈ (roundRobin m index).avail ↔ f < m :=
  List.mem_range

theorem length_pool_roundRobin (m : Nat) (index : UInt32) :
    (roundRobin m index).pool.length = m := by
  have hpool : (roundRobin m index).pool = List.range m := ite_id _
  rw [hpool, List.length_range]

theorem roundRobin_panics {m : Nat} (hpos : 0 < m) (hm : m % 4294967296 = 0) :
    (roundRobin m 0).fwdrs ≠ [] ∧ (roundRobin m 0).fwdrs.Nodup ∧ (roundRobin m 0).avail.Nodup ∧
      (∀ f ∈ (roundRobin m 0).avail, f ∈ (roundRobin m 0).fwdrs) ∧ ∀ h dstAddr n,
        ((roundRobin m 0).nextDialer h dstAddr).1 = none ∧
          ((roundRobin m 0).dialCandidates h dstAddr n).1 = none := by
  refine ⟨List.ne_nil_of_mem (List.mem_range.mpr hpos), List.nodup_range, List.nodup_range,
    fun _ => id, fun h dstAddr n => ?_⟩
  have hlen : (roundRobin m 0).pool.length % 4294967296 = 0 := by
    rw [length_pool_roundRobin, hm]
  have hnext := @FwdrGroup.nextDialer_eq_none h _ dstAddr rfl hlen
  exact ⟨hnext, FwdrGroup.dialCandidates_eq_none hnext n⟩

/-- 4294967296 distinct forwarders, all of them in the rotation: `uint32(4294967296) = 0`. -/
theorem dialCandidates_panics :
    ∃ p : FwdrGroup, p.fwdrs ≠ [] ∧ p.fwdrs.Nodup ∧ p.avail.Nodup ∧ (∀ f ∈ p.avail, f ∈ p.fwdrs) ∧
      ∀ h dstAddr n,
        (p.nextDialer h dstAddr).1 = none ∧ (p.dialCandidates h dstAddr n).1 = none := by
  have hpos : 0 < 2 ^ 32 := by omega
  exact ⟨roundRobin (2 ^ 32) 0, roundRobin_panics hpos (Nat.mod_self _)⟩

end Glider.Rule
