/-
Doubly linked lists: nodes with a link in each direction, and the list they stand for.

The links are two functions, so a heap of any kind will do. An operation is described by what it
does to the links of the nodes in the list; what it does to other nodes is of no interest.

* `Linked.cons` — a node goes before the first one.
* `Linked.erase` — a node is taken out, wherever it is.
-/

import Mathlib.Data.List.Nodup

namespace Glider.Lib

variable {N : Type}

/-- The nodes are linked to their neighbours in the list, and the ends to nothing. -/
structure Linked (next prev : N → Option N) (ns : List N) : Prop where
  nodup : ns.Nodup
  links : ∀ pre n post, ns = pre ++ n :: post → next n = post.head? ∧ prev n = pre.getLast?

namespace Linked

variable {next prev next' prev' : N → Option N} {ns pre post : List N} {n : N}

theorem nodup_erase (h : Linked next prev (pre ++ n :: post)) : (pre ++ post).Nodup :=
  (List.Sublist.append_left (List.sublist_cons_self n post) pre).nodup h.nodup

theorem notMem_of_mem_left (h : Linked next prev (pre ++ n :: post)) {m : N} (hm : m ∈ pre) :
    m ∉ post := fun hm' =>
  (List.nodup_append.mp h.nodup_erase).2.2 m hm m hm' rfl

variable [DecidableEq N]

/-- **A new first node.** Only the link back from the old first node changes. -/
theorem cons (h : Linked next prev ns) (hn : n ∉ ns) (hnext : next' n = ns.head?)
    (hprev : prev' n = none) (hnexts : ∀ m ∈ ns, next' m = next m)
    (hprevs : ∀ m ∈ ns, prev' m = if ns.head? = some m then some n else prev m) :
    Linked next' prev' (n :: ns) := by
  refine ⟨List.nodup_cons.mpr ⟨hn, h.nodup⟩, fun pre m post hsplit => ?_⟩
  cases pre with
  | nil =>
    cases hsplit
    exact ⟨hnext, hprev⟩
  | cons n' pre =>
    rw [List.cons_append] at hsplit
    obtain ⟨rfl, rfl⟩ := List.cons.inj hsplit
    obtain ⟨hm, hm'⟩ := h.links pre m post rfl
    have hmem : m ∈ pre ++ m :: post := List.mem_append_cons_self
    refine ⟨(hnexts m hmem).trans hm, ?_⟩
    cases pre with
    | nil => exact (hprevs m hmem).trans (if_pos rfl)
    | cons p pre =>
      have hne : (p :: pre ++ m :: post).head? ≠ some m := by
        rintro heq
        cases heq
        exact (List.nodup_cons.mp h.nodup).1 (List.mem_append_right pre List.mem_cons_self)
      rw [hprevs m hmem, if_neg hne, hm']
      rfl

section Erase

variable (h : Linked next prev (pre ++ n :: post))
  (hnexts : ∀ m ∈ pre ++ post, next' m = if pre.getLast? = some m then post.head? else next m)
  (hprevs : ∀ m ∈ pre ++ post, prev' m = if post.head? = some m then pre.getLast? else prev m)

include h hnexts hprevs

/-- The links of a node behind the one taken out. -/
theorem links_behind {c b : List N} {m : N} (hsplit : post = c ++ m :: b) :
    next' m = b.head? ∧ prev' m = (pre ++ c).getLast? := by
  subst hsplit
  have hmem : m ∈ c ++ m :: b := List.mem_append_cons_self
  obtain ⟨hnext, hprev⟩ := h.links (pre ++ n :: c) m b (by simp)
  constructor
  · rw [hnexts m (List.mem_append_right pre hmem), if_neg, hnext]
    intro hm
    exact h.notMem_of_mem_left (List.mem_of_getLast? hm) hmem
  · cases c with
    | nil =>
      rw [hprevs m (List.mem_append_right pre hmem), List.append_nil]
      exact if_pos rfl
    | cons x c =>
      rw [hprevs m (List.mem_append_right pre hmem), if_neg, hprev]
      · simp
      · rintro hm
        cases hm
        have := (List.nodup_append.mp h.nodup_erase).2.1
        exact (List.nodup_cons.mp this).1 List.mem_append_cons_self

/-- The links of a node before the one taken out. -/
theorem links_before {a c : List N} {m : N} (hsplit : pre = a ++ m :: c) :
    next' m = (c ++ post).head? ∧ prev' m = a.getLast? := by
  subst hsplit
  have hmem : m ∈ a ++ m :: c := List.mem_append_cons_self
  obtain ⟨hnext, hprev⟩ := h.links a m (c ++ n :: post) (by simp)
  constructor
  · cases c with
    | nil => rw [hnexts m (List.mem_append_left post hmem), if_pos (by simp), List.nil_append]
    | cons x c =>
      rw [hnexts m (List.mem_append_left post hmem), if_neg, hnext]
      · rfl
      · intro hm
        rw [List.getLast?_append_cons, List.getLast?_cons_cons] at hm
        have hsuffix := (List.nodup_append.mp (List.nodup_append.mp h.nodup_erase).1).2.1
        exact (List.nodup_cons.mp hsuffix).1 (List.mem_of_getLast? hm)
  · rw [hprevs m (List.mem_append_left post hmem), if_neg, hprev]
    intro hm
    exact h.notMem_of_mem_left hmem (List.mem_of_head? hm)

/-- **A node taken out.** Its neighbours are linked to each other. -/
theorem erase : Linked next' prev' (pre ++ post) := by
  refine ⟨h.nodup_erase, fun a m b hsplit => ?_⟩
  obtain ⟨c, rfl, hpost⟩ | ⟨c, hpre, hb⟩ := List.append_eq_append_iff.mp hsplit
  · exact h.links_behind hnexts hprevs hpost
  cases c with
  | nil =>
    rw [List.append_nil] at hpre
    subst hpre
    have := h.links_behind hnexts hprevs (show post = [] ++ m :: b from hb.symm)
    rwa [List.append_nil] at this
  | cons m' c =>
    cases hb
    exact h.links_before hnexts hprevs hpre

end Erase

end Linked

end Glider.Lib
