/-
The lifetime of a cached answer (`dns/client.go`, `handleAnswer`).

`extractAnswer` keeps the last nonzero TTL of the address records, and starts from the
configured minimum. The result is clamped to the configured window, and a result of zero
then becomes 1800 seconds, which the window need not contain.

* `extractAnswer_ttl` — the extracted TTL is the minimum or one of the answers' own.
* `ttl_window_iff` — the lifetime lies in the window unless the minimum is zero, no address
  record has a TTL, and the maximum is below 1800.
-/

import Glider.Dns.Client

namespace Glider.Dns

open Glider.Go

/-- An address record with a TTL. -/
def Timed (answer : RR) : Prop := IsAddress answer.rtype ∧ answer.ttl ≠ 0

instance : DecidablePred Timed := fun _ => inferInstanceAs (Decidable (_ ∧ _))

/-! ### The TTL of a response -/

theorem extractOne_ttl (acc : List Addr × Int) (answer : RR) :
    (extractOne acc answer).2 = if Timed answer then (answer.ttl.toNat : Int) else acc.2 := by
  unfold extractOne Timed
  by_cases haddress : IsAddress answer.rtype
  · by_cases hzero : answer.ttl = 0
    · simp [haddress, hzero]
    · simp [haddress, hzero]
  · simp [haddress]

/-- The loop leaves the TTL it starts from, or finds one that is not zero. -/
theorem foldl_extractOne_ttl (answers : List RR) (acc : List Addr × Int) :
    ((∀ answer ∈ answers, ¬ Timed answer) ∧ (answers.foldl extractOne acc).2 = acc.2) ∨
      ∃ answer ∈ answers, Timed answer ∧
        (answers.foldl extractOne acc).2 = answer.ttl.toNat := by
  induction answers generalizing acc with
  | nil => exact Or.inl ⟨(fun _ h => nomatch h), rfl⟩
  | cons answer answers ih =>
    rw [List.foldl_cons]
    rcases ih (extractOne acc answer) with ⟨hnone, hlast⟩ | ⟨found, hmem, htimed, hlast⟩
    · rw [hlast, extractOne_ttl]
      by_cases htimed : Timed answer
      · exact Or.inr ⟨answer, List.mem_cons_self, htimed, if_pos htimed⟩
      · refine Or.inl ⟨?_, if_neg htimed⟩
        intro other hother
        rcases List.mem_cons.mp hother with rfl | hrest
        · exact htimed
        · exact hnone other hrest
    · exact Or.inr ⟨found, List.mem_cons_of_mem answer hmem, htimed, hlast⟩

/-- **The extracted TTL** is the configured minimum if no address record has one, and
positive otherwise. -/
theorem extractAnswer_ttl (cfg : Config) (resp : Message) :
    ((∀ answer ∈ resp.answers, ¬ Timed answer) ∧ (extractAnswer cfg resp).2 = cfg.minTTL) ∨
      ((∃ answer ∈ resp.answers, Timed answer) ∧ 0 < (extractAnswer cfg resp).2) := by
  rcases foldl_extractOne_ttl resp.answers ([], cfg.minTTL) with
    hnone | ⟨answer, hmem, htimed, hlast⟩
  · exact Or.inl hnone
  · refine Or.inr ⟨⟨answer, hmem, htimed⟩, ?_⟩
    have hpos : 0 < answer.ttl.toNat := by
      apply Nat.pos_of_ne_zero
      intro hzero
      exact htimed.2 (UInt32.toNat_inj.mp hzero)
    rw [extractAnswer, hlast]
    omega

/-! ### The window -/

/-- The lifetime of an entry that expires lies in the configured window. -/
def InWindow (cfg : Config) (ttl : Int) : Prop := max 1 cfg.minTTL ≤ ttl ∧ ttl ≤ cfg.maxTTL

instance (cfg : Config) (ttl : Int) : Decidable (InWindow cfg ttl) :=
  inferInstanceAs (Decidable (_ ∧ _))

/-- Clamping reaches the window, unless it ends at a minimum of zero: then the default
decides. -/
theorem clampTTL_inWindow_iff {cfg : Config} (hmin : 0 ≤ cfg.minTTL) (hle : cfg.minTTL ≤ cfg.maxTTL)
    (hmax : 1 ≤ cfg.maxTTL) (ttl : Int) :
    InWindow cfg (clampTTL cfg ttl) ↔ 0 < cfg.minTTL ∨ 0 < ttl ∨ 1800 ≤ cfg.maxTTL := by
  unfold InWindow clampTTL
  dsimp only
  split_ifs <;> omega

/-- The lifetime `handleAnswer` passes to the cache. -/
def cachedTTL (cfg : Config) (resp : Message) : Int := clampTTL cfg (extractAnswer cfg resp).2

/-- **The window, exactly.** For every configuration with a proper window and every
response that decodes: the response is stored under its question with a lifetime that lies in
the window exactly if the minimum is positive, some address record has a TTL, or the
window contains the default. -/
theorem ttl_window_iff (cfg : Config) (hmin : 0 ≤ cfg.minTTL) (hle : cfg.minTTL ≤ cfg.maxTTL)
    (hmax : 1 ≤ cfg.maxTTL) (cache : LruCache) (respBytes : Slice) (resp : Message) (now : Int)
    (hdecode : decode respBytes = .ok resp) :
    handleAnswer cfg cache respBytes now =
        (cache.set (qKey resp.question) respBytes.bytes (cachedTTL cfg resp) now).map .ok ∧
      (InWindow cfg (cachedTTL cfg resp) ↔
        0 < cfg.minTTL ∨ (∃ answer ∈ resp.answers, Timed answer) ∨ 1800 ≤ cfg.maxTTL) := by
  constructor
  · rw [handleAnswer, hdecode, Option.map_eq_bind]
    rfl
  · rw [cachedTTL, clampTTL_inWindow_iff hmin hle hmax]
    rcases extractAnswer_ttl cfg resp with ⟨hnone, hlast⟩ | ⟨hsome, hpos⟩
    · have hnot : ¬ ∃ answer ∈ resp.answers, Timed answer := by
        rintro ⟨answer, hmem, htimed⟩
        exact hnone answer hmem htimed
      rw [hlast]
      simp only [hnot, false_or]
      omega
    · simp only [hsome, hpos, true_or, or_true]

/-- A response with one address record under the default configuration. -/
theorem ttl_window_minute :
    ∃ resp, decode (answerFor 97 98) = .ok resp ∧
      InWindow plainConfig (cachedTTL plainConfig resp) := by
  have hanswers : ∃ resp, decode (answerFor 97 98) = .ok resp ∧
      ∃ answer ∈ resp.answers, Timed answer := by
    refine ⟨_, rfl, ?_⟩
    decide
  obtain ⟨resp, hdecode, htimed⟩ := hanswers
  have hwindow := (ttl_window_iff plainConfig (by decide) (by decide) (by decide)
    (LruCache.new 4096) (answerFor 97 98) resp 0 hdecode).2
  exact ⟨resp, hdecode, hwindow.mpr (Or.inr (Or.inl htimed))⟩

/-- A response without answers, to a query for a one-letter name. -/
def emptyAnswer : Slice :=
  .ofBytes [0, 7, 0x81, 0x80, 0, 1, 0, 0, 0, 0, 0, 0, 1, 97, 0, 0, 1, 0, 1] []

/-- With a maximum of a minute, an empty answer is kept for half an hour. -/
theorem empty_answer_outlives_window :
    ∃ resp, decode emptyAnswer = .ok resp ∧
      cachedTTL { plainConfig with maxTTL := 60 } resp = 1800 ∧
      ¬ InWindow { plainConfig with maxTTL := 60 }
        (cachedTTL { plainConfig with maxTTL := 60 } resp) := by
  refine ⟨_, rfl, by decide, by decide⟩

end Glider.Dns
