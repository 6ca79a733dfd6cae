/-
What a client of the DHCP server can rely on, over whole runs of the pool: `LeaseIP`, `ReleaseIP`
and the ticks of the clock in any order.

* `owns_step` — the first entry of a client stays its first entry until it is released or expires.
* `exclusive_iff` — an address is promised to one client at a time, exactly if the client's hardware
  address is not empty.
* `sound_leased`, `sound_map` — a dynamic entry is the only entry of its client.
* `leases_stable` — static entries stay, leases are stable, and the pool is exhausted only if every
  entry is taken.
-/

import Glider.Dhcpd.Pool

namespace Glider.Dhcpd

open Glider.Go Glider.Lib

variable {p p' : Pool} {mac : List UInt8} {ip : Option Addr} {idx now : Nat} {items : List Item}
  {a : Addr}

/-! ### The first entry of a client -/

/-- The first entry of a client has this address. -/
def Owns (items : List Item) (mac : List UInt8) (a : Addr) : Prop :=
  ∃ (i : Nat) (item : Item), items[i]? = some item ∧ item.ip = a ∧ item.mac = some mac ∧
    ∀ j < i, ∀ item' : Item, items[j]? = some item' → item'.mac ≠ some mac

/-- Writing an entry makes no difference, if it stays the client's, or stays another's. -/
theorem Owns.set (h : Owns items mac a) {i : Nat} {item item' : Item} (hi : items[i]? = some item)
    (hip : item'.ip = item.ip) (hmac : item'.mac = some mac ↔ item.mac = some mac) :
    Owns (items.set i item') mac a := by
  have hlt := (List.getElem?_eq_some_iff.mp hi).1
  obtain ⟨k, own, hk, rfl, hown, hbefore⟩ := h
  have before : ∀ j < k, ∀ other : Item, (items.set i item')[j]? = some other →
      other.mac ≠ some mac := by
    intro j hj other hother
    rw [List.getElem?_set] at hother
    split at hother
    · rename_i heq
      cases hother
      exact fun h => hbefore j hj item (heq ▸ hi) (hmac.mp h)
    · exact hbefore j hj other hother
  by_cases heq : i = k
  · cases heq
    cases hi.symm.trans hk
    exact ⟨i, item', List.getElem?_set_self hlt, hip, hmac.mpr hown, before⟩
  · exact ⟨k, own, (List.getElem?_set_ne heq).trans hk, rfl, hown, before⟩

variable {change : Item → Item}

/-- A pass over all entries makes no difference, if it gives the client no entry, and takes away
none with this address. -/
theorem Owns.map (h : Owns items mac a) (hip : ∀ item, (change item).ip = item.ip)
    (hnew : ∀ item, (change item).mac = some mac → item.mac = some mac)
    (hkeep : ∀ item ∈ items, item.ip = a → item.mac = some mac → (change item).mac = some mac) :
    Owns (items.map change) mac a := by
  obtain ⟨k, own, hk, rfl, hown, hbefore⟩ := h
  refine ⟨k, change own, ?_, hip own, hkeep own (List.mem_of_getElem? hk) rfl hown, ?_⟩
  · rw [List.getElem?_map, hk, Option.map_some]
  · intro j hj other hother
    rw [List.getElem?_map] at hother
    obtain ⟨item, hitem, rfl⟩ := Option.map_eq_some_iff.mp hother
    exact fun h => hbefore j hj item hitem (hnew item h)

/-- The address that `LeaseIP` returns is that of the client's first entry. -/
theorem owns_of_leased (hmac : mac ≠ []) (h : Leased p mac ip now p' (.ok a)) :
    Owns p'.items mac a := by
  cases h with
  | @renewed i item here owned before =>
    have hlt := (List.getElem?_eq_some_iff.mp here).1
    refine ⟨i, _, List.getElem?_set_self hlt, renew_ip .., ?_, fun j hj other hother => ?_⟩
    · rw [renew_mac]
      exact (ownedBy_iff hmac).mp owned
    · dsimp only at hother
      rw [List.getElem?_set_ne (Nat.ne_of_gt hj)] at hother
      exact fun h => by
        have := before j hj other hother
        rw [(ownedBy_iff hmac).mpr h] at this
        cases this
  | @taken i item here free unowned asked =>
    have hlt := (List.getElem?_eq_some_iff.mp here).1
    refine ⟨i, _, List.getElem?_set_self hlt, rfl, rfl, fun j hj other hother => ?_⟩
    dsimp only at hother
    rw [List.getElem?_set_ne (Nat.ne_of_gt hj)] at hother
    exact fun h => by
      have := unowned other (List.mem_of_getElem? hother)
      rw [(ownedBy_iff hmac).mpr h] at this
      cases this

/-- The client does not release its entries, and the one with this address does not expire. -/
def Keeps (mac : List UInt8) (a : Addr) (p : Pool) : Act → Prop
  | .lease _ _ _ _ => True
  | .release mac' => mac' ≠ mac
  | .tick now => ∀ item ∈ p.items, item.ip = a → item.expire ≠ 0 → timeAt now ≤ item.expire

/-- **A lease is kept** until it is released or expires, whatever else happens. -/
theorem owns_step (hmac : mac ≠ []) (h : Owns p.items mac a) {act : Act}
    (hkeeps : Keeps mac a p act) (hstep : poolMachine.step p act = some p') :
    Owns p'.items mac a := by
  cases act with
  | lease mac' ip idx now =>
    cases hstep
    generalize hresult : (p.leaseIP mac' ip idx now).2 = result
    have leased := leaseIP_cases p mac' ip idx now
    rw [hresult] at leased
    generalize (p.leaseIP mac' ip idx now).1 = p' at leased
    cases leased with
    | renewed here owned before => exact h.set here (renew_ip ..) (by rw [renew_mac])
    | @taken i item here free unowned asked =>
      refine h.set here rfl ⟨fun hnew => ?_, fun hold => ?_⟩
      · -- the client has an entry, so it is not the one that takes another
        cases hnew
        obtain ⟨k, own, hk, -, hown, -⟩ := h
        have := unowned own (List.mem_of_getElem? hk)
        rw [(ownedBy_iff hmac).mpr hown] at this
        cases this
      · rw [free] at hold
        cases hold
    | full unowned taken => exact h
  | release mac' =>
    cases hstep
    refine h.map (fun item => ?_) (fun item hnew => ?_) (fun item _ _ hown => ?_)
    · split <;> rfl
    · split at hnew
      · cases hnew
      · exact hnew
    · rw [if_neg]
      · exact hown
      · rintro ⟨-, howned⟩
        have : mac' = mac := by simpa [Item.ownedBy, hown] using howned
        exact hkeeps this
  | tick now =>
    cases hstep
    refine h.map (fun item => ?_) (fun item hnew => ?_) (fun item hmem hip hown => ?_)
    · split <;> rfl
    · split at hnew
      · cases hnew
      · exact hnew
    · rw [if_neg]
      · exact hown
      · rintro ⟨hne, hlt⟩
        exact Int.not_lt.mpr (hkeeps item hmem hip hne) hlt

theorem owns_run (hmac : mac ≠ []) (h : Owns p.items mac a) {acts : List Act}
    (hrun : poolMachine.run p acts = some p') (hkeeps : poolMachine.Guarded (Keeps mac a) p acts) :
    Owns p'.items mac a :=
  Machine.guarded_invariant poolMachine (fun _ _ _ h hkeeps hstep => owns_step hmac h hkeeps hstep)
    hrun hkeeps h

/-! ### One address, one client -/

/-- The address of a client's entry is not promised to another client. -/
theorem leaseIP_ne (hnodup : (p.items.map Item.ip).Nodup) (h : Owns p.items mac a)
    {mac' : List UInt8} (hne : mac' ≠ mac) :
    (p.leaseIP mac' ip idx now).2 ≠ .ok a := by
  intro hresult
  obtain ⟨k, own, hk, hown, hmine, -⟩ := h
  have leased := leaseIP_cases p mac' ip idx now
  rw [hresult] at leased
  generalize (p.leaseIP mac' ip idx now).1 = p' at leased
  cases leased with
  | @renewed i item here owned before =>
    cases eq_of_ip hnodup hk here hown
    cases hk.symm.trans here
    have : mac' = mac := by simpa [Item.ownedBy, hmine] using owned
    exact hne this
  | @taken i item here free unowned asked =>
    cases eq_of_ip hnodup hk here hown
    cases hk.symm.trans here
    rw [hmine] at free
    cases free

/-- Two addresses, `192.0.2.1` and `192.0.2.2`, and nobody has any. -/
def twoFree : Pool := ⟨[{ ip := .v4 0xC0000201#32 }, { ip := .v4 0xC0000202#32 }], 0⟩

theorem startUp_twoFree :
    startUp 3 0 (.v4 0xC0000201#32) (.v4 0xC0000202#32) [] = some twoFree := by
  decide

/-- **Exclusive leases.** An address that has been promised to a client is not promised to another
one before the client releases it or the lease expires, exactly if the client's hardware address is
not empty. -/
theorem exclusive_iff (mac : List UInt8) :
    (∀ fuel lease start stop hosts p before s ip idx now s₁ a after s₂ mac' ip' idx' now',
      startUp fuel lease start stop hosts = some p → poolMachine.run p before = some s →
      s.leaseIP mac ip idx now = (s₁, .ok a) → poolMachine.run s₁ after = some s₂ →
      poolMachine.Guarded (Keeps mac a) s₁ after → mac' ≠ mac →
      (s₂.leaseIP mac' ip' idx' now').2 ≠ .ok a) ↔
    mac ≠ [] := by
  constructor
  · rintro h rfl
    exact h 3 0 _ _ [] twoFree [] twoFree none 0 0 twoFree (.v4 0xC0000201#32) [] twoFree [1] none
      0 0 startUp_twoFree rfl rfl rfl trivial (by decide) rfl
  · intro hmac fuel lease start stop hosts p before s ip idx now s₁ a after s₂ mac' ip' idx' now'
      hstart hbefore hlease hafter hkeeps hne
    have leased := leaseIP_cases s mac ip idx now
    rw [hlease] at leased
    have hnodup := run_nodup hbefore (startUp_spec hstart).2
    rw [← ips_leased leased] at hnodup
    exact leaseIP_ne (run_nodup hafter hnodup)
      (owns_run hmac (owns_of_leased hmac leased) hafter hkeeps) hne

/-- The empty hardware address gets an address, and another client gets it too. -/
theorem empty_mac_not_exclusive :
    ∃ s₁ s₂ a, startUp 3 0 (.v4 0xC0000201#32) (.v4 0xC0000202#32) [] = some twoFree ∧
      twoFree.leaseIP [] none 0 0 = (s₁, .ok a) ∧ s₁.leaseIP [1] none 0 0 = (s₂, .ok a) :=
  ⟨_, _, _, startUp_twoFree, rfl, rfl⟩

/-! ### Static and dynamic entries -/

/-- A free entry has no expiry, and a dynamic entry is the only one of its client. -/
structure Sound (p : Pool) : Prop where
  free : ∀ item ∈ p.items, item.mac = none → item.expire = 0
  one : ∀ (i j : Nat) (item item' : Item), p.items[i]? = some item → p.items[j]? = some item' →
    item.mac = item'.mac → item.expire ≠ 0 → i = j

/-- Static entries stay as they are. -/
def KeepsStatic (p p' : Pool) : Prop :=
  ∀ (i : Nat) (item : Item), p.items[i]? = some item → item.mac ≠ none → item.expire = 0 →
    p'.items[i]? = some item

theorem keepsStatic_leased {result : Except String Addr} (h : Leased p mac ip now p' result) :
    KeepsStatic p p' := by
  intro k item hk hmac hexpire
  cases h with
  | @renewed i old here owned before =>
    by_cases heq : i = k
    · cases heq
      cases hk.symm.trans here
      have hsame : item.renew (p.expiry now) = item := if_pos hexpire
      rw [hsame]
      exact List.getElem?_set_self (List.getElem?_eq_some_iff.mp hk).1
    · exact (List.getElem?_set_ne heq).trans hk
  | @taken i old here free unowned asked =>
    refine (List.getElem?_set_ne ?_).trans hk
    rintro rfl
    cases hk.symm.trans here
    exact hmac free
  | full unowned taken => exact hk

theorem keepsStatic_map {lease : Int64} (h : ∀ item, item.expire = 0 → change item = item) :
    KeepsStatic p ⟨p.items.map change, lease⟩ := by
  intro k item hk _ hexpire
  rw [List.getElem?_map, hk, Option.map_some, h item hexpire]

theorem sound_leased {result : Except String Addr} (h : Leased p mac ip now p' result)
    (sound : Sound p) : Sound p' := by
  cases h with
  | @renewed i old here owned before =>
    have hlt := (List.getElem?_eq_some_iff.mp here).1
    -- entries stay with their clients, and dynamic ones dynamic
    have hsame : ∀ (k : Nat) (item : Item),
        (p.items.set i (old.renew (p.expiry now)))[k]? = some item →
        ∃ item', p.items[k]? = some item' ∧ item.mac = item'.mac ∧
          (item.expire = 0 ↔ item'.expire = 0) := by
      intro k item hk
      rw [List.getElem?_set] at hk
      split at hk
      · rename_i heq
        cases heq
        cases hk
        exact ⟨old, here, renew_mac .., renew_expire_eq_zero (expiry_ne_zero p now) old⟩
      · exact ⟨item, hk, rfl, Iff.rfl⟩
    refine ⟨fun item hitem hfree => ?_, fun k l item item' hk hl hmac hexpire => ?_⟩
    · obtain ⟨k, hk⟩ := List.mem_iff_getElem?.mp hitem
      obtain ⟨old', hold, hmac, hexpire⟩ := hsame k item hk
      exact hexpire.mpr (sound.free old' (List.mem_of_getElem? hold) (hmac ▸ hfree))
    · obtain ⟨old₁, hold₁, hmac₁, hexpire₁⟩ := hsame k item hk
      obtain ⟨old₂, hold₂, hmac₂, -⟩ := hsame l item' hl
      exact sound.one k l old₁ old₂ hold₁ hold₂ (hmac₁ ▸ hmac₂ ▸ hmac)
        fun h => hexpire (hexpire₁.mpr h)
  | @taken i old here free unowned asked =>
    have hlt := (List.getElem?_eq_some_iff.mp here).1
    have hnot : ∀ (k : Nat) (item : Item), p.items[k]? = some item → item.mac ≠ some mac := by
      intro k item hk hmac
      have := unowned item (List.mem_of_getElem? hk)
      simp [Item.ownedBy, hmac] at this
    refine ⟨fun item hitem hfree => ?_, fun k l item item' hk hl hmac hexpire => ?_⟩
    · rcases List.mem_or_eq_of_mem_set hitem with hitem | rfl
      · exact sound.free item hitem hfree
      · cases hfree
    · dsimp only at hk hl
      rw [List.getElem?_set] at hk hl
      split at hk
      · cases hk
        split at hl
        · exact Eq.trans (Eq.symm ‹_›) ‹_›
        · exact absurd hmac.symm (hnot l item' hl)
      · split at hl
        · cases hl
          exact absurd hmac (hnot k item hk)
        · exact sound.one k l item item' hk hl hmac hexpire
  | full unowned taken => exact sound

theorem sound_map {lease : Int64} (h : ∀ item, change item = item ∨ change item = item.clear)
    (sound : Sound p) : Sound ⟨p.items.map change, lease⟩ := by
  refine ⟨fun item hitem hfree => ?_, fun k l item item' hk hl hmac hexpire => ?_⟩
  · obtain ⟨old, hold, rfl⟩ := List.mem_map.mp hitem
    rcases h old with hsame | hclear
    · rw [hsame] at hfree ⊢
      exact sound.free old hold hfree
    · rw [hclear]
      rfl
  · dsimp only at hk hl
    rw [List.getElem?_map] at hk hl
    obtain ⟨old, hold, rfl⟩ := Option.map_eq_some_iff.mp hk
    obtain ⟨old', hold', rfl⟩ := Option.map_eq_some_iff.mp hl
    rcases h old with hsame | hclear
    · rw [hsame] at hmac hexpire
      rcases h old' with hsame' | hclear'
      · rw [hsame'] at hmac
        exact sound.one k l old old' hold hold' hmac hexpire
      · rw [hclear'] at hmac
        exact absurd (sound.free old (List.mem_of_getElem? hold) hmac) hexpire
    · rw [hclear] at hexpire
      exact absurd rfl hexpire

/-- What every action keeps. -/
theorem step_sound {act : Act} (hstep : poolMachine.step p act = some p') (sound : Sound p) :
    Sound p' ∧ KeepsStatic p p' := by
  cases act with
  | lease mac ip idx now =>
    cases hstep
    have leased := leaseIP_cases p mac ip idx now
    exact ⟨sound_leased leased sound, keepsStatic_leased leased⟩
  | release mac | tick now =>
    cases hstep
    refine ⟨sound_map (fun item => ?_) sound, keepsStatic_map fun item hexpire => ?_⟩
    · split
      · exact .inr rfl
      · exact .inl rfl
    · exact if_neg fun h => h.1 hexpire

theorem run_sound {acts : List Act} (hrun : poolMachine.run p acts = some p') (sound : Sound p) :
    Sound p' ∧ KeepsStatic p p' := by
  induction acts generalizing p with
  | nil =>
    cases hrun
    exact ⟨sound, fun i item hi _ _ => hi⟩
  | cons act acts ih =>
    obtain ⟨mid, hstep, hrest⟩ := Machine.run_cons_eq_some _ hrun
    obtain ⟨sound', hkeeps⟩ := step_sound hstep sound
    obtain ⟨sound'', hkeeps'⟩ := ih hrest sound'
    refine ⟨sound'', fun i item hi hmac hexpire => ?_⟩
    exact hkeeps' i item (hkeeps i item hi hmac hexpire) hmac hexpire

/-! ### Leases are stable -/

/-- The first entry of a client is the one it gets again. -/
theorem leaseIP_owned (hmac : mac ≠ []) (h : Owns p.items mac a) :
    (p.leaseIP mac ip idx now).2 = .ok a := by
  obtain ⟨k, own, hk, rfl, hown, hfirst⟩ := h
  have howned := (ownedBy_iff hmac).mpr hown
  have leased := leaseIP_cases p mac ip idx now
  generalize (p.leaseIP mac ip idx now).1 = p' at leased
  generalize (p.leaseIP mac ip idx now).2 = result at leased
  cases leased with
  | @renewed i item here owned before =>
    obtain hlt | heq | hlt := Nat.lt_trichotomy i k
    · exact absurd ((ownedBy_iff hmac).mp owned) (hfirst i hlt item here)
    · cases heq
      cases here.symm.trans hk
      rfl
    · rw [before k hlt own hk] at howned
      cases howned
  | taken here free unowned asked | full unowned taken =>
    rw [unowned own (List.mem_of_getElem? hk)] at howned
    cases howned

/-- A free address goes to a client that asks for it and has none. -/
theorem leaseIP_asked {item : Item} (hitem : item ∈ p.items) (hfree : item.mac = none)
    (hnone : ∀ item' ∈ p.items, item'.ownedBy mac = false) :
    (p.leaseIP mac (some item.ip) idx now).2 = .ok item.ip := by
  have leased := leaseIP_cases p mac (some item.ip) idx now
  generalize (p.leaseIP mac (some item.ip) idx now).1 = p' at leased
  generalize (p.leaseIP mac (some item.ip) idx now).2 = result at leased
  cases leased with
  | @renewed i old here owned before =>
    rw [hnone old (List.mem_of_getElem? here)] at owned
    cases owned
  | taken here free unowned asked => exact congrArg _ (asked item hitem rfl hfree)
  | full unowned taken => exact absurd hfree (taken item hitem)

/-- An error means that there is no entry of the client and no free one. -/
theorem leaseIP_error : (∃ e, (p.leaseIP mac ip idx now).2 = .error e) ↔
    ∀ item ∈ p.items, item.ownedBy mac = false ∧ item.mac ≠ none := by
  have leased := leaseIP_cases p mac ip idx now
  generalize (p.leaseIP mac ip idx now).1 = p' at leased
  generalize (p.leaseIP mac ip idx now).2 = result at leased
  cases leased with
  | @renewed i item here owned before =>
    refine ⟨(fun ⟨e, h⟩ => by cases h), fun h => ?_⟩
    rw [(h item (List.mem_of_getElem? here)).1] at owned
    cases owned
  | @taken i item here free unowned asked =>
    refine ⟨(fun ⟨e, h⟩ => by cases h), fun h => ?_⟩
    exact absurd free (h item (List.mem_of_getElem? here)).2
  | full unowned taken =>
    exact ⟨fun _ item hitem => ⟨unowned item hitem, taken item hitem⟩, fun _ => ⟨_, rfl⟩⟩

theorem leaseIP_error_same {e : String} (h : (p.leaseIP mac ip idx now).2 = .error e) :
    (p.leaseIP mac ip idx now).1 = p := by
  have leased := leaseIP_cases p mac ip idx now
  rw [h] at leased
  generalize (p.leaseIP mac ip idx now).1 = p' at leased
  cases leased
  rfl

/-- **Stable leases.** In every state that a pool comes to: static entries are as they were
installed, a dynamic entry is the only entry of its client, a client gets the same address again
until it releases it or it expires, a client without an entry gets the free address it asks for, and
an error means that there is no entry of the client and no free one. -/
theorem leases_stable (fuel : Nat) (lease : Int64) (start stop : Addr) (hosts : List StaticHost)
    (p : Pool) (acts : List Act) (s : Pool) (hstart : startUp fuel lease start stop hosts = some p)
    (hrun : poolMachine.run p acts = some s) :
    (∀ item ∈ p.items, item.mac ≠ none → item ∈ s.items) ∧
    (∀ (i j : Nat) (item item' : Item), s.items[i]? = some item → s.items[j]? = some item' →
      item.mac = item'.mac → item.expire ≠ 0 → i = j) ∧
    ∀ mac ip idx now, mac ≠ [] →
      (∀ s₁ a after s₂ ip' idx' now', s.leaseIP mac ip idx now = (s₁, .ok a) →
        poolMachine.run s₁ after = some s₂ → poolMachine.Guarded (Keeps mac a) s₁ after →
        (s₂.leaseIP mac ip' idx' now').2 = .ok a) ∧
      (∀ item ∈ s.items, item.mac = none → (∀ item' ∈ s.items, item'.mac ≠ some mac) →
        (s.leaseIP mac (some item.ip) idx now).2 = .ok item.ip) ∧
      ((∃ e, (s.leaseIP mac ip idx now).2 = .error e) ↔
        ∀ item ∈ s.items, item.mac ≠ some mac ∧ item.mac ≠ none) ∧
      ∀ e, (s.leaseIP mac ip idx now).2 = .error e → (s.leaseIP mac ip idx now).1 = s := by
  obtain ⟨hstatic, -⟩ := startUp_spec hstart
  have fresh : Sound p := by
    refine ⟨fun item hitem _ => hstatic item hitem, fun i j item item' hi _ _ hexpire => ?_⟩
    exact absurd (hstatic item (List.mem_of_getElem? hi)) hexpire
  obtain ⟨sound, hkeeps⟩ := run_sound hrun fresh
  refine ⟨fun item hitem hmac => ?_, sound.one, fun mac ip idx now hmac => ⟨?_, ?_, ?_, ?_⟩⟩
  · obtain ⟨i, hi⟩ := List.mem_iff_getElem?.mp hitem
    exact List.mem_of_getElem? (hkeeps i item hi hmac (hstatic item hitem))
  · intro s₁ a after s₂ ip' idx' now' hlease hafter hkept
    have leased := leaseIP_cases s mac ip idx now
    rw [hlease] at leased
    exact leaseIP_owned hmac (owns_run hmac (owns_of_leased hmac leased) hafter hkept)
  · intro item hitem hfree hnone
    refine leaseIP_asked hitem hfree fun item' hitem' => ?_
    rw [Bool.eq_false_iff, ne_eq, ownedBy_iff hmac]
    exact hnone item' hitem'
  · rw [leaseIP_error]
    simp only [← Bool.not_eq_true, ownedBy_iff hmac, ne_eq]
  · exact fun e => leaseIP_error_same

/-- A static host, and a client that has taken the other address: the pool is exhausted. -/
theorem leases_stable_exhausted :
    ∃ p s e, startUp 3 0 (.v4 0xC0000201#32) (.v4 0xC0000202#32)
        [⟨[1, 2, 3, 4, 5, 6], .v4 0xC0000201#32, by decide⟩] = some p ∧
      poolMachine.run p [.lease [7] none 0 0] = some s ∧
      (s.leaseIP [8] none 0 0).2 = .error e := by
  have hstart : startUp 3 0 (.v4 0xC0000201#32) (.v4 0xC0000202#32)
      [⟨[1, 2, 3, 4, 5, 6], .v4 0xC0000201#32, by decide⟩] = some
        ⟨[{ ip := .v4 0xC0000201#32, mac := some [1, 2, 3, 4, 5, 6] },
          { ip := .v4 0xC0000202#32 }], 0⟩ := by
    decide
  obtain ⟨e, he⟩ := ((leases_stable _ _ _ _ _ _ [.lease [7] none 0 0] _ hstart rfl).2.2
    [8] none 0 0 (by decide)).2.2.1.mpr (by decide)
  exact ⟨_, _, e, hstart, rfl, he⟩

end Glider.Dhcpd
