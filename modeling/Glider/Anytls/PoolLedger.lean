/-
The session pool lends no session twice and loses none.

The ledger of `Glider.Lib.Ledger` is kept over the calls of `CreateStream`, the streams handed
out, the cleanup pass and the goroutines of `go sess.Close()`: each has what it has taken and
not yet handed on. That `InIdle` is clear for a session somebody has is what makes the
`CompareAndSwap` of `returnToIdle` succeed, so that no session is lost there.

* `Client.Sound` — the invariant: the ledger, the flags, and the mutex.
* `pool_exclusive` — the four properties of the pool.
* `expired_session_nowhere` — between `idleLock.Unlock` and `sess.Close`, a session that a pass
  has taken out is nowhere.
-/

import Glider.Anytls.Pool
import Glider.Lib.Ledger

namespace Glider.Anytls.Pool

open Glider.Lib

/-! ### Who has what -/

namespace CallStage

/-- The session of the call. -/
def sess : CallStage → Option Sid
  | popped x | cleared x | created x | opening x | failing x => some x
  | idle | checked | popping | dialing => none

/-- The call holds `idleLock`. -/
def inside : CallStage → Bool
  | popping | popped _ | cleared _ => true
  | _ => false

/-- A session whose `InIdle` is clear. -/
def unmarked : CallStage → Option Sid
  | cleared x | created x | opening x | failing x => some x
  | _ => none

end CallStage

namespace StreamStage

/-- The session, until the stream has given it up. -/
def sess : StreamStage → Option Sid
  | live x | closing x | alive x | returning x | marked x | locked x => some x
  | unused | appended | finished => none

def inside : StreamStage → Bool
  | locked _ | appended => true
  | _ => false

def unmarked : StreamStage → Option Sid
  | live x | closing x | alive x | returning x => some x
  | _ => none

theorem sess_of_unmarked {c : StreamStage} {x : Sid} (h : c.unmarked = some x) :
    c.sess = some x := by
  cases c <;> first | exact h | cases h

end StreamStage

theorem CallStage.sess_of_unmarked {c : CallStage} {x : Sid} (h : c.unmarked = some x) :
    c.sess = some x := by
  cases c <;> first | exact h | cases h

def HookStage.inside : HookStage → Bool
  | .locked | .removed => true
  | _ => false

namespace SweepStage

def inside : SweepStage → Bool
  | scanning .. | clearing .. | leaving _ => true
  | _ => false

/-- The sessions taken out of the list, to be closed. -/
def taken : SweepStage → List Sid
  | leaving toClose | closing toClose => toClose
  | _ => []

/-- What a pass over the list has kept, not yet seen and found expired. -/
def listed : SweepStage → Option (List Sid)
  | scanning _ remaining rest toClose | clearing _ remaining rest toClose _ =>
    some (remaining ++ rest ++ toClose)
  | _ => none

theorem listed_eq_none {st : SweepStage} (h : st.inside = false) : st.listed = none := by
  cases st <;> first | rfl | cases h

end SweepStage

namespace Client

def Holds (s : Client) : Owner → Sid → Prop
  | .call t, x => (s.calls t).sess = some x
  | .stream i, x => (s.streams i).sess = some x
  | .sweep, x => x ∈ s.sweeper.taken
  | .dropper, x => x ∈ s.dropped

def inside (s : Client) : Holder → Bool
  | .call t => (s.calls t).inside
  | .stream i => (s.streams i).inside
  | .hook x => (s.hooks x).inside
  | .sweep => s.sweeper.inside

section Setters

variable (s : Client)

theorem holds_setCall (t : Tid) (c : CallStage) :
    (s.setCall t c).Holds = Function.update s.Holds (.call t) fun x => c.sess = some x := by
  funext o x
  cases o with
  | call t' => by_cases h : t' = t <;> simp [Holds, setCall, Function.update, h]
  | stream | sweep | dropper => rfl

theorem holds_setStream (i : Nat) (c : StreamStage) :
    (s.setStream i c).Holds = Function.update s.Holds (.stream i) fun x => c.sess = some x := by
  funext o x
  cases o with
  | stream i' => by_cases h : i' = i <;> simp [Holds, setStream, Function.update, h]
  | call | sweep | dropper => rfl

theorem inside_setCall (t : Tid) (c : CallStage) :
    (s.setCall t c).inside = Function.update s.inside (.call t) c.inside := by
  funext h
  cases h with
  | call t' => by_cases h : t' = t <;> simp [inside, setCall, Function.update, h]
  | stream | hook | sweep => rfl

theorem inside_setStream (i : Nat) (c : StreamStage) :
    (s.setStream i c).inside = Function.update s.inside (.stream i) c.inside := by
  funext h
  cases h with
  | stream i' => by_cases h : i' = i <;> simp [inside, setStream, Function.update, h]
  | call | hook | sweep => rfl

theorem inside_setHook (x : Sid) (c : HookStage) :
    (s.setHook x c).inside = Function.update s.inside (.hook x) c.inside := by
  funext h
  cases h with
  | hook x' => by_cases h : x' = x <;> simp [inside, setHook, Function.update, h]
  | call | stream | sweep => rfl

theorem inside_sweeper (st : SweepStage) :
    { s with sweeper := st }.inside = Function.update s.inside .sweep st.inside := by
  funext h
  cases h with
  | sweep => rfl
  | call | stream | hook => rfl

theorem holds_dropped (l : List Sid) :
    { s with dropped := l }.Holds = Function.update s.Holds .dropper (· ∈ l) := by
  funext o x
  cases o with
  | dropper => rfl
  | call | stream | sweep => rfl

theorem holds_sweeper (st : SweepStage) :
    { s with sweeper := st }.Holds = Function.update s.Holds .sweep (· ∈ st.taken) := by
  funext o x
  cases o with
  | sweep => rfl
  | call | stream | dropper => rfl

end Setters

/-! ### The mutex -/

variable {s s' : Client}

section Mutex

variable (mutex : Mutex s.idleLock s.inside)

include mutex

theorem mutex_setCall {t : Tid} {c : CallStage} (hc : c.inside = (s.calls t).inside) :
    Mutex s.idleLock (s.setCall t c).inside := by
  rw [inside_setCall]
  exact mutex.stay hc

theorem mutex_setStream {i : Nat} {c : StreamStage} (hc : c.inside = (s.streams i).inside) :
    Mutex s.idleLock (s.setStream i c).inside := by
  rw [inside_setStream]
  exact mutex.stay hc

theorem mutex_setHook {x : Sid} {c : HookStage} (hc : c.inside = (s.hooks x).inside) :
    Mutex s.idleLock (s.setHook x c).inside := by
  rw [inside_setHook]
  exact mutex.stay hc

theorem mutex_sweeper {st : SweepStage} (hst : st.inside = s.sweeper.inside) :
    Mutex s.idleLock { s with sweeper := st }.inside := by
  rw [inside_sweeper]
  exact mutex.stay hst

/-- A session that is closed for the first time has not run its hook. -/
theorem mutex_die (hooked : ∀ x, s.hooks x ≠ .idle → s.closed x = true) (x : Sid) :
    Mutex (s.die x).idleLock (s.die x).inside := by
  unfold die
  split
  · exact mutex
  · rename_i hopen
    have hidle : s.hooks x = .idle := by
      by_contra hne
      exact hopen (hooked x hne)
    exact mutex_setHook mutex (c := .begun) (x := x) (by rw [hidle]; rfl)

end Mutex

/-! ### The books -/

/-- `l` has every session of the list once, except for closed ones. -/
structure Covers (idle : List Sid) (closed : Sid → Bool) (l : List Sid) : Prop where
  nodup : l.Nodup
  sub : ∀ x ∈ l, x ∈ idle
  all : ∀ x ∈ idle, closed x = true ∨ x ∈ l

namespace Covers

variable {idle l l' : List Sid} {closed closed' : Sid → Bool} {x : Sid}

theorem perm (inv : Covers idle closed l) (h : l.Perm l') : Covers idle closed l' where
  nodup := h.nodup_iff.mp inv.nodup
  sub y hy := inv.sub y (h.mem_iff.mpr hy)
  all y hy := (inv.all y hy).imp_right h.mem_iff.mp

theorem tail (inv : Covers idle closed (x :: l)) (hx : closed x = true) : Covers idle closed l where
  nodup := (List.nodup_cons.mp inv.nodup).2
  sub y hy := inv.sub y (List.mem_cons_of_mem x hy)
  all y hy := by
    obtain h | h := inv.all y hy
    · exact .inl h
    · obtain rfl | h := List.mem_cons.mp h
      · exact .inl hx
      · exact .inr h

theorem mono (inv : Covers idle closed l) (h : ∀ x, closed x = true → closed' x = true) :
    Covers idle closed' l :=
  { inv with all := fun x hx => (inv.all x hx).imp_left (h x) }

end Covers

/-- The ledger, and the flags that go with it. -/
structure Books (s : Client) : Prop where
  ledger : Ledger s.Holds s.idleSessions (fun x => s.closed x = true) (· < s.sessionCounter)
  callFlag : ∀ t x, (s.calls t).unmarked = some x → s.inIdle x = false
  streamFlag : ∀ i x, (s.streams i).unmarked = some x → s.inIdle x = false
  fresh : ∀ x, s.sessionCounter ≤ x → s.inIdle x = false
  hooked : ∀ x, s.hooks x ≠ .idle → s.closed x = true
  cancelled : s.dropped ≠ [] → s.ctxDone = true
  /-- A pass that goes through the list forgets only closed sessions. -/
  scan : ∀ l, s.sweeper.listed = some l → Covers s.idleSessions s.closed l

structure Sound (s : Client) : Prop extends Books s where
  mutex : Mutex s.idleLock s.inside

namespace Books

variable {t : Tid} {c : CallStage}

theorem callFlag_setCall (inv : Books s) (hflag : ∀ x, c.unmarked = some x → s.inIdle x = false) :
    ∀ t' x, ((s.setCall t c).calls t').unmarked = some x → s.inIdle x = false := by
  exact (Function.forall_update_iff s.calls fun _ c => ∀ x, c.unmarked = some x →
    s.inIdle x = false).mpr ⟨hflag, fun t' _ => inv.callFlag t'⟩

variable {i : Nat}

theorem streamFlag_setStream (inv : Books s) {c : StreamStage}
    (hflag : ∀ x, c.unmarked = some x → s.inIdle x = false) :
    ∀ i' x, ((s.setStream i c).streams i').unmarked = some x → s.inIdle x = false := by
  exact (Function.forall_update_iff s.streams fun _ c => ∀ x, c.unmarked = some x →
    s.inIdle x = false).mpr ⟨hflag, fun i' _ => inv.streamFlag i'⟩

/-- A call goes on with the same session. -/
theorem setCall (inv : Books s) (hsess : c.sess = (s.calls t).sess)
    (hflag : ∀ x, c.unmarked = some x → s.inIdle x = false) : Books (s.setCall t c) := by
  have hsame : (s.setCall t c).Holds = s.Holds := by
    rw [holds_setCall, hsess]
    exact Function.update_eq_self ..
  exact { inv with
    ledger := hsame ▸ inv.ledger
    callFlag := inv.callFlag_setCall hflag }

/-- A stream goes on with the same session. -/
theorem setStream (inv : Books s) {c : StreamStage} (hsess : c.sess = (s.streams i).sess)
    (hflag : ∀ x, c.unmarked = some x → s.inIdle x = false) : Books (s.setStream i c) := by
  have hsame : (s.setStream i c).Holds = s.Holds := by
    rw [holds_setStream, hsess]
    exact Function.update_eq_self ..
  exact { inv with
    ledger := hsame ▸ inv.ledger
    streamFlag := inv.streamFlag_setStream hflag }

/-- A call lets go of a closed session. -/
theorem setCall_closed (inv : Books s) (hsess : c.sess = none)
    (hclosed : ∀ x, (s.calls t).sess = some x → s.closed x = true) : Books (s.setCall t c) := by
  have hflag : c.unmarked = none := by
    cases c <;> first | rfl | cases hsess
  refine { inv with
    ledger := ?_
    callFlag := inv.callFlag_setCall (by rw [hflag]; nofun) }
  rw [holds_setCall]
  refine inv.ledger.shed_update (fun x h => ?_) fun x h _ => hclosed x h
  cases hsess.symm.trans h

/-- So does a stream. -/
theorem setStream_closed (inv : Books s) {c : StreamStage} (hsess : c.sess = none)
    (hclosed : ∀ x, (s.streams i).sess = some x → s.closed x = true) : Books (s.setStream i c) := by
  have hflag : c.unmarked = none := by
    cases c <;> first | rfl | cases hsess
  refine { inv with
    ledger := ?_
    streamFlag := inv.streamFlag_setStream (by rw [hflag]; nofun) }
  rw [holds_setStream]
  refine inv.ledger.shed_update (fun x h => ?_) fun x h _ => hclosed x h
  cases hsess.symm.trans h

theorem die (inv : Books s) (x : Sid) : Books (s.die x) := by
  unfold Client.die
  split
  · exact inv
  · have hmono : ∀ y, s.closed y = true → Function.update s.closed x true y = true := by
      intro y hy
      by_cases h : y = x
      · rw [h, Function.update_self]
      · rwa [Function.update_of_ne h]
    refine { inv with
      ledger := inv.ledger.mono hmono
      hooked := fun y hy => ?_
      scan := fun l hl => (inv.scan l hl).mono hmono }
    by_cases h : y = x
    · subst h
      exact Function.update_self ..
    · simp only [Function.update_of_ne h] at hy
      exact hmono y (inv.hooked y hy)

/-- `InIdle` is cleared. -/
theorem clear (inv : Books s) (x : Sid) : Books (s.setInIdle x false) := by
  have hmono : ∀ y, s.inIdle y = false → Function.update s.inIdle x false y = false := by
    intro y hy
    by_cases h : y = x
    · rw [h, Function.update_self]
    · rwa [Function.update_of_ne h]
  exact { inv with
    callFlag := fun t y h => hmono y (inv.callFlag t y h)
    streamFlag := fun i y h => hmono y (inv.streamFlag i y h)
    fresh := fun y h => hmono y (inv.fresh y h) }

/-- A pass goes on, with the same sessions taken out. -/
theorem setSweeper (inv : Books s) {st : SweepStage} (htaken : st.taken = s.sweeper.taken)
    (hscan : ∀ l, st.listed = some l → Covers s.idleSessions s.closed l) :
    Books { s with sweeper := st } := by
  have hsame : { s with sweeper := st }.Holds = s.Holds := by
    rw [holds_sweeper, htaken]
    exact Function.update_eq_self ..
  exact { inv with ledger := hsame ▸ inv.ledger, scan := hscan }

end Books

@[simp] theorem die_calls (s : Client) (x : Sid) : (s.die x).calls = s.calls := by
  unfold die
  split <;> rfl

@[simp] theorem die_sweeper (s : Client) (x : Sid) : (s.die x).sweeper = s.sweeper := by
  unfold die
  split <;> rfl

theorem die_closed (s : Client) (x : Sid) : (s.die x).closed x = true := by
  unfold die
  split
  · assumption
  · exact Function.update_self ..

theorem not_holds_call {t : Tid} (h : (s.calls t).sess = none) (x : Sid) :
    ¬ s.Holds (.call t) x := by
  intro hx
  cases h.symm.trans hx

theorem not_holds_stream {i : Nat} (h : (s.streams i).sess = none) (x : Sid) :
    ¬ s.Holds (.stream i) x := by
  intro hx
  cases h.symm.trans hx

variable {x : Sid}

theorem holds_call_iff {t : Tid} (h : (s.calls t).sess = some x) (y : Sid) :
    s.Holds (.call t) y ↔ y = x := by
  show (s.calls t).sess = some y ↔ y = x
  rw [h, Option.some.injEq, eq_comm]

theorem holds_stream_iff {i : Nat} (h : (s.streams i).sess = some x) (y : Sid) :
    s.Holds (.stream i) y ↔ y = x := by
  show (s.streams i).sess = some y ↔ y = x
  rw [h, Option.some.injEq, eq_comm]

namespace Sound

/-- While another goroutine is inside, no pass goes through the list. -/
theorem scan_idle (inv : Sound s) {h : Holder} (hin : s.inside h = true) (hne : h ≠ .sweep)
    {P : List Sid → Prop} (l : List Sid) (hl : s.sweeper.listed = some l) : P l := by
  have hout : s.sweeper.inside = false := by
    refine Bool.eq_false_iff.mpr fun hsweep => ?_
    have hin' : s.inside .sweep = true := hsweep
    exact hne (inv.mutex.alone hin hin')
  cases (SweepStage.listed_eq_none hout).symm.trans hl

variable {t : Tid}

theorem callStep (inv : Sound s) (h : s.callStep t = some s') : Sound s' := by
  unfold Client.callStep at h
  split at h <;> rename_i hstage
  · -- `idleLock.Lock`
    split at h <;> cases h
    rename_i hfree
    refine ⟨{ inv.toBooks.setCall (t := t) (c := .popping) (hstage ▸ rfl) nofun with }, ?_⟩
    exact (inside_setCall s t .popping).symm ▸ inv.mutex.acquire hfree (.call t)
  · have hin : s.inside (.call t) = true := by simp [inside, hstage, CallStage.inside]
    split at h <;> cases h
    · -- the last session is popped
      rename_i x hlast
      have hidle : s.idleSessions.dropLast ++ [x] = s.idleSessions :=
        List.dropLast_append_getLast? x hlast
      refine ⟨{ inv with ledger := ?_, callFlag := ?_, scan := ?_ }, ?_⟩
      · refine inv.ledger.withdraw (.call t) [x] ?_ ?_ ?_ ?_
        · rw [hidle]
          exact inv.ledger.nodup
        · rw [hidle]
          exact fun _ h => h
        · rw [hidle]
          exact fun _ h => .inr h
        · intro o y
          show (s.setCall t (.popped x)).Holds o y ↔ _
          rw [holds_setCall, Ledger.gain_iff (not_holds_call (hstage ▸ rfl))]
          simp [CallStage.sess, eq_comm]
      · exact inv.callFlag_setCall nofun
      · exact inv.scan_idle hin nofun
      · exact mutex_setCall inv.mutex (hstage ▸ rfl)
    · -- there is none
      refine ⟨{ inv.toBooks.setCall (t := t) (c := .dialing) (hstage ▸ rfl) nofun with }, ?_⟩
      exact (inside_setCall s t .dialing).symm ▸ inv.mutex.release hin
  · -- `InIdle.Store(false)`
    rename_i x
    cases h
    refine ⟨(inv.toBooks.clear x).setCall (hstage ▸ rfl) fun y hy => ?_, ?_⟩
    · cases hy
      exact Function.update_self ..
    · exact mutex_setCall (s := s.setInIdle x false) inv.mutex (hstage ▸ rfl)
  · rename_i x
    have hin : s.inside (.call t) = true := by simp [inside, hstage, CallStage.inside]
    split at h <;> cases h <;> rename_i hclosed
    · refine ⟨inv.toBooks.setCall_closed rfl fun y hy => ?_, ?_⟩
      · rw [hstage] at hy
        cases hy
        exact hclosed
      · exact mutex_setCall inv.mutex (hstage ▸ rfl)
    · refine ⟨{ inv.toBooks.setCall (t := t) (c := .opening x) (hstage ▸ rfl) ?_ with }, ?_⟩
      · exact fun y hy => inv.callFlag t y (hstage ▸ hy)
      · exact (inside_setCall s t (.opening x)).symm ▸ inv.mutex.release hin
  · -- the session is registered
    rename_i x
    cases h
    refine ⟨{ inv.toBooks.setCall (t := t) (c := .opening x) (hstage ▸ rfl) ?_ with }, ?_⟩
    · exact fun y hy => inv.callFlag t y (hstage ▸ hy)
    · exact mutex_setCall inv.mutex (hstage ▸ rfl)
  · -- `sess.Close` after a failed `OpenStream`
    rename_i x
    cases h
    refine ⟨(inv.toBooks.die x).setCall_closed rfl fun y hy => ?_, ?_⟩
    · rw [die_calls, hstage] at hy
      cases hy
      exact die_closed s x
    · exact mutex_setCall (mutex_die inv.mutex inv.hooked x) (by rw [die_calls, hstage]; rfl)
  · cases h
  · cases h
  · cases h

theorem dial (inv : Sound s) {ok : Bool} (h : s.dial t ok = some s') : Sound s' := by
  unfold Client.dial at h
  split at h <;> try cases h
  rename_i hstage
  split at h <;> cases h
  · have hflag := inv.fresh s.sessionCounter (Nat.le_refl _)
    refine ⟨{ inv with ledger := ?_, callFlag := ?_, fresh := ?_ }, ?_⟩
    · refine inv.ledger.enter (.call t) (Nat.lt_irrefl _) (fun x => Nat.lt_succ_iff_lt_or_eq) ?_
      intro o x
      show (s.setCall t (.created s.sessionCounter)).Holds o x ↔ _
      rw [holds_setCall, Ledger.gain_iff (not_holds_call (hstage ▸ rfl))]
      simp [CallStage.sess, eq_comm]
    · exact inv.callFlag_setCall fun x hx => by cases hx; exact hflag
    · exact fun x hx => inv.fresh x (Nat.le_of_succ_le hx)
    · exact mutex_setCall inv.mutex (hstage ▸ rfl)
  · exact ⟨inv.toBooks.setCall (hstage ▸ rfl) nofun, mutex_setCall inv.mutex (hstage ▸ rfl)⟩

theorem opened (inv : Sound s) {i : Option Nat} (h : s.opened t i = some s') : Sound s' := by
  unfold Client.opened at h
  split at h <;> try cases h
  rename_i x hstage
  have hheld : s.Holds (.call t) x := (holds_call_iff (hstage ▸ rfl) x).mpr rfl
  have hflag := inv.callFlag t x (hstage ▸ rfl)
  split at h
  · rename_i i
    split at h <;> cases h
    rename_i hunused
    refine ⟨{ inv with ledger := ?_, callFlag := ?_, streamFlag := ?_ }, ?_⟩
    · refine inv.ledger.move (.stream i) hheld fun o y => ?_
      show ((s.setStream i (.live x)).setCall t .idle).Holds o y ↔ _
      rw [holds_setCall, holds_setStream]
      refine inv.ledger.move_iff (holds_call_iff (hstage ▸ rfl)) nofun nofun fun y => ?_
      simp [not_holds_stream (s := s) (i := i) (hunused ▸ rfl) y, StreamStage.sess, eq_comm]
    · exact inv.callFlag_setCall nofun
    · exact inv.streamFlag_setStream fun y hy => by cases hy; exact hflag
    · have hlive : (StreamStage.live x).inside = (s.streams i).inside := hunused ▸ rfl
      have hidle : CallStage.inside .idle = (s.calls t).inside := hstage ▸ rfl
      exact mutex_setCall (s := s.setStream i (.live x)) (mutex_setStream inv.mutex hlive) hidle
  · cases h
    refine ⟨inv.toBooks.setCall (hstage ▸ rfl) fun y hy => ?_,
      mutex_setCall inv.mutex (hstage ▸ rfl)⟩
    cases hy
    exact hflag

theorem streamStep (inv : Sound s) {i : Nat} (h : s.streamStep i = some s') : Sound s' := by
  unfold Client.streamStep at h
  split at h <;> rename_i hstage
  · -- `IsClosed`
    rename_i x
    split at h <;> cases h <;> rename_i hclosed
    · refine ⟨inv.toBooks.setStream_closed rfl fun y hy => ?_, ?_⟩
      · rw [hstage] at hy
        cases hy
        exact hclosed
      · exact mutex_setStream inv.mutex (hstage ▸ rfl)
    · exact ⟨inv.toBooks.setStream (hstage ▸ rfl) fun y hy => inv.streamFlag i y (hstage ▸ hy),
        mutex_setStream inv.mutex (hstage ▸ rfl)⟩
  · -- `ctx.Done`
    rename_i x
    split at h <;> cases h <;> rename_i hctx
    · have hone := holds_stream_iff (s := s) (i := i) (x := x) (hstage ▸ rfl)
      refine ⟨{ inv with
        ledger := ?_
        streamFlag := inv.streamFlag_setStream nofun
        cancelled := fun _ => hctx }, ?_⟩
      · refine inv.ledger.move .dropper ((hone x).mpr rfl) fun o y => ?_
        show ({ s with dropped := x :: s.dropped }.setStream i .finished).Holds o y ↔ _
        rw [holds_setStream, holds_dropped]
        refine inv.ledger.move_iff hone nofun nofun fun y => ?_
        rw [List.mem_cons, or_comm]
        rfl
      · exact mutex_setStream inv.mutex (hstage ▸ rfl)
    · exact ⟨inv.toBooks.setStream (hstage ▸ rfl) fun y hy => inv.streamFlag i y (hstage ▸ hy),
        mutex_setStream inv.mutex (hstage ▸ rfl)⟩
  · -- `InIdle.CompareAndSwap(false, true)`
    rename_i x
    have hflag := inv.streamFlag i x (hstage ▸ rfl)
    rw [hflag] at h
    cases h
    have hheld : s.Holds (.stream i) x := (holds_stream_iff (hstage ▸ rfl) x).mpr rfl
    have hbooks := inv.toBooks.setStream (i := i) (c := .marked x) (hstage ▸ rfl) nofun
    have hheld' : (s.setStream i (.marked x)).Holds (.stream i) x := by
      rw [holds_setStream, Function.update_self]
      rfl
    refine ⟨{ hbooks with callFlag := ?_, streamFlag := ?_, fresh := ?_ }, ?_⟩
    · intro t y hy
      have hy' : s.Holds (.call t) y := CallStage.sess_of_unmarked hy
      have hne : y ≠ x := by
        rintro rfl
        cases inv.ledger.unique _ _ _ hy' hheld
      exact (Function.update_of_ne hne ..).trans (inv.callFlag t y hy)
    · intro j y hy
      have hy' : (s.setStream i (.marked x)).Holds (.stream j) y := StreamStage.sess_of_unmarked hy
      have hne : y ≠ x := by
        rintro rfl
        cases hbooks.ledger.unique _ _ _ hy' hheld'
        simp [Client.setStream, Client.setInIdle, StreamStage.unmarked] at hy
      exact (Function.update_of_ne hne ..).trans (hbooks.streamFlag j y hy)
    · intro y hy
      have hne : y ≠ x := Nat.ne_of_gt (Nat.lt_of_lt_of_le (inv.ledger.held_known _ _ hheld) hy)
      exact (Function.update_of_ne hne ..).trans (inv.fresh y hy)
    · exact mutex_setStream (s := s.setInIdle x true) inv.mutex (hstage ▸ rfl)
  · -- `idleLock.Lock`
    rename_i x
    split at h <;> cases h
    rename_i hfree
    refine ⟨{ inv.toBooks.setStream (i := i) (c := .locked x) (hstage ▸ rfl) nofun with }, ?_⟩
    exact (inside_setStream s i (.locked x)).symm ▸ inv.mutex.acquire hfree (.stream i)
  · -- the session is appended
    rename_i x
    cases h
    have hin : s.inside (.stream i) = true := by simp [inside, hstage, StreamStage.inside]
    have hone := holds_stream_iff (s := s) (i := i) (x := x) (hstage ▸ rfl)
    refine ⟨{ inv with ledger := ?_, streamFlag := ?_, scan := inv.scan_idle hin nofun }, ?_⟩
    · refine inv.ledger.restore ((hone x).mpr rfl) fun o y => ?_
      show (s.setStream i .appended).Holds o y ↔ _
      rw [holds_setStream]
      exact inv.ledger.lose_iff hone nofun
    · exact inv.streamFlag_setStream nofun
    · exact mutex_setStream inv.mutex (hstage ▸ rfl)
  · -- `idleLock.Unlock`
    cases h
    have hin : s.inside (.stream i) = true := by simp [inside, hstage, StreamStage.inside]
    refine ⟨{ inv.toBooks.setStream (i := i) (c := .finished) (hstage ▸ rfl) nofun with }, ?_⟩
    exact (inside_setStream s i .finished).symm ▸ inv.mutex.release hin
  · cases h
  · cases h
  · cases h

theorem hookStep (inv : Sound s) {x : Sid} (h : s.hookStep x = some s') : Sound s' := by
  unfold Client.hookStep at h
  have hclosed (c : HookStage) (hc : s.hooks x ≠ .idle) :
      ∀ y, (s.setHook x c).hooks y ≠ .idle → s.closed y = true := by
    intro y hy
    by_cases h : y = x
    · exact h ▸ inv.hooked x hc
    · simp only [setHook, Function.update_of_ne h] at hy
      exact inv.hooked y hy
  split at h <;> rename_i hstage
  · -- `InIdle.Store(false)`
    cases h
    exact ⟨{ inv.toBooks.clear x with hooked := hclosed .cleared (hstage ▸ nofun) },
      mutex_setHook (s := s.setInIdle x false) inv.mutex (hstage ▸ rfl)⟩
  · -- `idleLock.Lock`
    split at h <;> cases h
    rename_i hfree
    refine ⟨{ inv with hooked := hclosed .locked (hstage ▸ nofun) }, ?_⟩
    exact (inside_setHook s x .locked).symm ▸ inv.mutex.acquire hfree (.hook x)
  · -- the session is removed
    cases h
    have hin : s.inside (.hook x) = true := by simp [inside, hstage, HookStage.inside]
    refine ⟨{ inv with
      ledger := ?_
      hooked := hclosed .removed (hstage ▸ nofun)
      scan := inv.scan_idle hin nofun }, mutex_setHook inv.mutex (hstage ▸ rfl)⟩
    refine inv.ledger.withdraw .sweep [] ?_ ?_ ?_ ?_
    · rw [List.append_nil]
      exact inv.ledger.nodup.erase x
    · rw [List.append_nil]
      exact fun y hy => List.mem_of_mem_erase hy
    · intro y hy
      rw [List.append_nil]
      by_cases hyx : y = x
      · exact .inl (hyx ▸ inv.hooked x (hstage ▸ nofun))
      · exact .inr ((List.mem_erase_of_ne hyx).mpr hy)
    · intro o y
      simp only [List.not_mem_nil, and_false, or_false]
      rfl
  · -- `idleLock.Unlock`
    cases h
    have hin : s.inside (.hook x) = true := by simp [inside, hstage, HookStage.inside]
    refine ⟨{ inv with hooked := hclosed .unlocked (hstage ▸ nofun) }, ?_⟩
    exact (inside_setHook s x .unlocked).symm ▸ inv.mutex.release hin
  · cases h
    exact ⟨{ inv with hooked := hclosed .finished (hstage ▸ nofun) },
      mutex_setHook inv.mutex (hstage ▸ rfl)⟩
  · cases h
  · cases h

theorem sweepStep (inv : Sound s) (h : s.sweepStep = some s') : Sound s' := by
  unfold Client.sweepStep at h
  have hcovers {l : List Sid} (hl : s.sweeper.listed = some l) := inv.scan l hl
  split at h <;> rename_i hstage <;> rw [hstage] at hcovers
  · -- `idleLock.Lock`
    rename_i e
    split at h <;> cases h
    rename_i hfree
    have hstart : Covers s.idleSessions s.closed s.idleSessions :=
      ⟨inv.ledger.nodup, fun _ h => h, fun _ h => .inr h⟩
    have htaken : (SweepStage.scanning e [] s.idleSessions []).taken = s.sweeper.taken :=
      hstage ▸ rfl
    refine ⟨{ inv.toBooks.setSweeper htaken ?_ with }, ?_⟩
    · intro l hl
      cases hl
      simpa using hstart
    · exact (inside_sweeper s (.scanning e [] s.idleSessions [])).symm ▸
        inv.mutex.acquire hfree .sweep
  · rename_i e remaining x rest toClose
    have hmiddle :
        (remaining ++ x :: rest ++ toClose).Perm (x :: (remaining ++ rest ++ toClose)) := by
      rw [List.append_assoc, List.append_assoc, List.cons_append]
      exact List.perm_middle
    have hhead := (hcovers rfl).perm hmiddle
    split at h
    · -- a closed session
      rename_i hclosed
      cases h
      refine ⟨inv.toBooks.setSweeper (hstage ▸ rfl) fun l hl => ?_,
        mutex_sweeper inv.mutex (hstage ▸ rfl)⟩
      cases hl
      exact hhead.tail hclosed
    · split at h
      · -- an expired one
        cases h
        refine ⟨inv.toBooks.setSweeper (hstage ▸ rfl) fun l hl => ?_,
          mutex_sweeper inv.mutex (hstage ▸ rfl)⟩
        cases hl
        rw [← List.append_assoc]
        exact hhead.perm (List.perm_append_singleton x _).symm
      · cases h
        refine ⟨inv.toBooks.setSweeper (hstage ▸ rfl) fun l hl => ?_,
          mutex_sweeper inv.mutex (hstage ▸ rfl)⟩
        cases hl
        have hsame : remaining ++ [x] ++ rest ++ toClose = remaining ++ x :: rest ++ toClose := by
          simp
        exact hsame ▸ hcovers rfl
  · -- `InIdle.Store(false)`
    rename_i e remaining rest toClose x
    cases h
    refine ⟨(inv.toBooks.clear x).setSweeper (hstage ▸ rfl) fun l hl => ?_,
      mutex_sweeper (s := s.setInIdle x false) inv.mutex (hstage ▸ rfl)⟩
    cases hl
    exact hcovers rfl
  · -- the list is replaced
    rename_i e remaining toClose
    cases h
    have hcovers := hcovers rfl
    rw [List.append_nil] at hcovers
    refine ⟨{ inv with ledger := ?_, scan := nofun }, mutex_sweeper inv.mutex (hstage ▸ rfl)⟩
    refine inv.ledger.withdraw .sweep toClose hcovers.nodup hcovers.sub hcovers.all fun o y => ?_
    show { s with sweeper := .leaving toClose }.Holds o y ↔ _
    rw [holds_sweeper]
    exact Ledger.gain_iff (by simp [Holds, hstage, SweepStage.taken])
  · -- `idleLock.Unlock`
    rename_i toClose
    cases h
    have hin : s.inside .sweep = true := by simp [inside, hstage, SweepStage.inside]
    have htaken : (SweepStage.closing toClose).taken = s.sweeper.taken := hstage ▸ rfl
    refine ⟨{ inv.toBooks.setSweeper htaken nofun with }, ?_⟩
    exact (inside_sweeper s (.closing toClose)).symm ▸ inv.mutex.release hin
  · -- `sess.Close`
    rename_i x rest
    cases h
    refine ⟨{ inv.toBooks.die x with ledger := ?_, scan := nofun },
      mutex_sweeper (mutex_die inv.mutex inv.hooked x) ?_⟩
    · have htaken : (s.die x).sweeper.taken = x :: rest := by
        rw [die_sweeper, hstage]
        rfl
      show Ledger { s.die x with sweeper := .closing rest }.Holds _ _ _
      rw [holds_sweeper]
      refine (inv.toBooks.die x).ledger.shed_update (fun y h => ?_) fun y h hlost => ?_
      · show y ∈ (s.die x).sweeper.taken
        rw [htaken]
        exact List.mem_cons_of_mem x h
      · have hy : y ∈ x :: rest := htaken ▸ h
        obtain rfl := (List.mem_cons.mp hy).resolve_right hlost
        exact die_closed s y
    · rw [die_sweeper, hstage]
      rfl
  · cases h
    exact ⟨inv.toBooks.setSweeper (hstage ▸ rfl) nofun, mutex_sweeper inv.mutex (hstage ▸ rfl)⟩
  · cases h

theorem new : Sound .new where
  ledger :=
    have hnobody : ∀ o x, ¬ Client.new.Holds o x := fun o x hx => by cases o <;> cases hx
    { nodup := List.nodup_nil
      idle_known := nofun
      held_known := fun o x hx => absurd hx (hnobody o x)
      apart := fun o x hx => absurd hx (hnobody o x)
      unique := fun o _ x hx => absurd hx (hnobody o x)
      accounted := nofun }
  callFlag _ _ := nofun
  streamFlag _ _ := nofun
  fresh _ _ := rfl
  hooked x hx := absurd rfl hx
  cancelled hx := absurd rfl hx
  scan := nofun
  mutex who := by cases who <;> exact ⟨nofun, nofun⟩

theorem step (inv : Sound s) {idleTimeout : Int} {a : PoolAct}
    (h : (pool idleTimeout).step s a = some s') : Sound s' := by
  cases a with
  | create t =>
    simp only [pool, create] at h
    split at h <;> cases h
    rename_i hstage
    split
    · exact inv
    · exact ⟨inv.toBooks.setCall (hstage ▸ rfl) nofun, mutex_setCall inv.mutex (hstage ▸ rfl)⟩
  | call t => exact inv.callStep h
  | dial t ok => exact inv.dial h
  | opened t i => exact inv.opened h
  | close i =>
    simp only [pool, close] at h
    split at h <;> cases h <;> rename_i hstage
    · exact ⟨inv.toBooks.setStream (hstage ▸ rfl) fun y hy => inv.streamFlag i y (hstage ▸ hy),
        mutex_setStream inv.mutex (hstage ▸ rfl)⟩
    · exact inv
  | stream i => exact inv.streamStep h
  | die x =>
    simp only [pool] at h
    split at h <;> cases h
    exact ⟨inv.toBooks.die x, mutex_die inv.mutex inv.hooked x⟩
  | hook x => exact inv.hookStep h
  | cleanup =>
    simp only [pool, cleanup] at h
    split at h <;> cases h
    rename_i hstage
    exact ⟨inv.toBooks.setSweeper (hstage ▸ rfl) nofun, mutex_sweeper inv.mutex (hstage ▸ rfl)⟩
  | sweep => exact inv.sweepStep h
  | shut t =>
    simp only [pool, shut] at h
    split at h <;> cases h
    exact ⟨{ inv with cancelled := fun _ => rfl }, inv.mutex⟩
  | shutdown t =>
    simp only [pool, shutStep] at h
    split at h <;> cases h <;> exact ⟨{ inv with }, inv.mutex⟩
  | shutClose t x =>
    simp only [pool, shutClose] at h
    split at h <;> try cases h
    split at h <;> cases h
    exact ⟨{ inv.toBooks.die x with }, mutex_die inv.mutex inv.hooked x⟩
  | tick d =>
    cases h
    exact ⟨{ inv with }, inv.mutex⟩

end Sound

/-! ### What a pass takes out -/

/-- The steps a pass still makes after it has replaced the list. -/
def sweepWork (s : Client) : Nat :=
  match s.sweeper with
  | .leaving toClose => toClose.length + 1
  | .closing toClose => toClose.length
  | _ => 0

theorem die_mono {x y : Sid} (h : s.closed y = true) : (s.die x).closed y = true := by
  unfold die
  split
  · exact h
  · by_cases hy : y = x
    · rw [hy]
      exact Function.update_self ..
    · exact (Function.update_of_ne hy ..).trans h

theorem sweepStep_closed (h : s.sweepStep = some s') (hx : s.closed x = true) :
    s'.closed x = true := by
  unfold sweepStep at h
  split at h <;> (try split at h) <;> (try split at h) <;> cases h
  all_goals first
    | exact hx
    | exact die_mono hx

/-- Each step brings the pass nearer to the `Close` of a session it has taken out. -/
theorem sweepStep_taken (h : s.sweepStep = some s') (hx : x ∈ s.sweeper.taken) :
    (s'.closed x = true ∨ x ∈ s'.sweeper.taken) ∧ s'.sweepWork < s.sweepWork := by
  unfold sweepStep at h
  split at h <;> rename_i hstage <;> rw [hstage] at hx
  · cases hx
  · cases hx
  · cases hx
  · cases hx
  · cases h
    refine ⟨.inr hx, ?_⟩
    simp [sweepWork, hstage]
  · rename_i y rest
    cases h
    refine ⟨?_, by simp [sweepWork, hstage]⟩
    obtain rfl | hrest := List.mem_cons.mp hx
    · exact .inl (die_closed s x)
    · exact .inr hrest
  · cases hx
  · cases h

theorem sweepStep_enabled (hx : x ∈ s.sweeper.taken) : ∃ s', s.sweepStep = some s' := by
  unfold sweepStep
  cases hstage : s.sweeper with
  | idle | begun | scanning | clearing =>
    rw [hstage] at hx
    cases hx
  | leaving toClose => exact ⟨_, rfl⟩
  | closing toClose =>
    cases toClose with
    | nil | cons y rest => exact ⟨_, rfl⟩

/-- A pass closes what it has taken out. -/
theorem sweep_closes (idleTimeout : Int) (hx : x ∈ s.sweeper.taken) :
    (pool idleTimeout).Settles (· = .sweep) (fun s => s.closed x = true) s := by
  have preserved : ∀ s a s', (s.closed x = true ∨ x ∈ s.sweeper.taken) → a = .sweep →
      (pool idleTimeout).step s a = some s' → s'.closed x = true ∨ x ∈ s'.sweeper.taken := by
    rintro s a s' hor rfl h
    obtain hclosed | htaken := hor
    · exact .inl (sweepStep_closed h hclosed)
    · exact (sweepStep_taken h htaken).1
  refine (pool idleTimeout).settles_of_measure sweepWork preserved ?_ ?_ ?_ (.inr hx)
  · rintro s a s' - hclosed rfl h
    exact sweepStep_closed h hclosed
  · rintro s a s' hor hnot rfl h
    exact .inr (sweepStep_taken h (hor.resolve_left hnot)).2
  · intro s hor hnot
    obtain ⟨s', h⟩ := sweepStep_enabled (hor.resolve_left hnot)
    exact ⟨.sweep, s', rfl, h⟩

/-! ### Exclusivity -/

/-- A call of `CreateStream`, or a stream that has not given it back, has the session. -/
def Owned (s : Client) (x : Sid) : Prop :=
  (∃ t, (s.calls t).sess = some x) ∨ ∃ i, (s.streams i).sess = some x

theorem owned_iff : s.Owned x ↔ ∃ o, s.Holds o x ∧ o ≠ .sweep ∧ o ≠ .dropper := by
  constructor
  · rintro (⟨t, h⟩ | ⟨i, h⟩)
    · exact ⟨.call t, h, nofun, nofun⟩
    · exact ⟨.stream i, h, nofun, nofun⟩
  · rintro ⟨o, h, hsweep, hdropper⟩
    cases o with
    | call t => exact .inl ⟨t, h⟩
    | stream i => exact .inr ⟨i, h⟩
    | sweep => exact absurd rfl hsweep
    | dropper => exact absurd rfl hdropper

end Client

theorem sound_of_run {idleTimeout : Int} {as : List PoolAct} {s : Client}
    (hrun : (pool idleTimeout).run .new as = some s) : s.Sound :=
  (pool idleTimeout).run_invariant (fun _ _ _ inv h => inv.step h) hrun .new

/-- **Exclusivity.** No session is in the list twice, none there has an owner, no two streams
have one session, and a session that is neither closed nor owned nor dropped is in the list,
unless a cleanup pass has taken it out; that pass closes it. Sessions are dropped only after
`Client.Close`. -/
theorem pool_exclusive {idleTimeout : Int} {as : List PoolAct} {s : Client}
    (hrun : (pool idleTimeout).run .new as = some s) :
    s.idleSessions.Nodup ∧
      (∀ x ∈ s.idleSessions, ¬ s.Owned x) ∧
      (∀ i j x, (s.streams i).sess = some x → (s.streams j).sess = some x → i = j) ∧
      (∀ x < s.sessionCounter, s.closed x = false → ¬ s.Owned x → x ∉ s.dropped →
        x ∉ s.sweeper.taken → x ∈ s.idleSessions) ∧
      (∀ x ∈ s.sweeper.taken,
        (pool idleTimeout).Settles (· = .sweep) (fun s => s.closed x = true) s) ∧
      (s.dropped ≠ [] → s.ctxDone = true) := by
  have inv := sound_of_run hrun
  refine ⟨inv.ledger.nodup, ?_, ?_, ?_, fun x hx => Client.sweep_closes idleTimeout hx,
    inv.cancelled⟩
  · intro x hx howned
    obtain ⟨o, hheld, -, -⟩ := Client.owned_iff.mp howned
    exact inv.ledger.apart o x hheld hx
  · intro i j x hi hj
    have hsame := inv.ledger.unique (.stream i) (.stream j) x hi hj
    exact Owner.stream.inj hsame
  · intro x hx hopen howned hdropped htaken
    obtain hclosed | ⟨o, hheld⟩ | hidle := inv.ledger.accounted x hx
    · cases hopen.symm.trans hclosed
    · refine absurd (Client.owned_iff.mpr ⟨o, hheld, ?_, ?_⟩) howned
      · rintro rfl
        exact htaken hheld
      · rintro rfl
        exact hdropped hheld
    · exact hidle

/-- A stream is opened and closed, and its session expires: the cleanup pass takes it out of
the list. -/
def expiredRun : List PoolAct :=
  [.create 0, .call 0, .call 0, .dial 0 true, .call 0, .opened 0 (some 0), .close 0, .stream 0,
    .stream 0, .stream 0, .stream 0, .stream 0, .stream 0, .tick 30000000001, .cleanup, .sweep,
    .sweep, .sweep, .sweep]

theorem pool_exclusive_expired :
    ∃ s, (pool 30000000000).run .new expiredRun = some s ∧ 0 ∈ s.sweeper.taken ∧
      s.idleSessions.Nodup ∧
      (pool 30000000000).Settles (· = .sweep) (fun s => s.closed 0 = true) s := by
  have hmap : ((pool 30000000000).run .new expiredRun).map
      (fun s => decide (0 ∈ s.sweeper.taken)) = some true := by decide
  obtain ⟨s, hrun, hfields⟩ := Option.map_eq_some_iff.mp hmap
  have htaken : 0 ∈ s.sweeper.taken := of_decide_eq_true hfields
  obtain ⟨hnodup, -, -, -, hcloses, -⟩ := pool_exclusive hrun
  exact ⟨s, hrun, htaken, hnodup, hcloses 0 htaken⟩

/-- The session that a pass is about to close is neither closed nor owned nor dropped, and it
is not in the list. -/
theorem expired_session_nowhere :
    ∃ s, (pool 30000000000).run .new expiredRun = some s ∧ 0 < s.sessionCounter ∧
      s.closed 0 = false ∧ ¬ s.Owned 0 ∧ 0 ∉ s.dropped ∧ 0 ∉ s.idleSessions := by
  have hmap : ((pool 30000000000).run .new expiredRun).map (fun s =>
      decide (0 ∈ s.sweeper.taken ∧ 0 < s.sessionCounter ∧ s.closed 0 = false ∧ 0 ∉ s.dropped)) =
        some true := by decide
  obtain ⟨s, hrun, hfields⟩ := Option.map_eq_some_iff.mp hmap
  obtain ⟨htaken, hknown, hopen, hdropped⟩ := of_decide_eq_true hfields
  have inv := sound_of_run hrun
  have hheld : s.Holds .sweep 0 := htaken
  refine ⟨s, hrun, hknown, hopen, ?_, hdropped, inv.ledger.apart .sweep 0 hheld⟩
  intro howned
  obtain ⟨o, hother, hne, -⟩ := Client.owned_iff.mp howned
  exact hne (inv.ledger.unique o .sweep 0 hother hheld)

end Glider.Anytls.Pool
