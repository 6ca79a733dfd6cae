/-
Hosts and ports: `net.JoinHostPort`, `strconv.ParseUint` for ports, and when two targets are the
same.

* `splitHostPort_joinHostPort` — `net.SplitHostPort` takes apart what `net.JoinHostPort` builds.
* `SameTarget` — two targets with the same port and the same host, IP addresses being compared as
  such, without their zones; `targetZone` is the zone of one.
-/

import Glider.Go.IPString
import Glider.Go.Strconv
import Glider.Go.Url

namespace Glider.Go

/-- `net.JoinHostPort`. -/
def joinHostPort (host port : GoString) : GoString :=
  if colon ∈ host then openBracket :: host ++ closeBracket :: colon :: port
  else host ++ colon :: port

/-- `strconv.ParseUint(s, 10, 16)`. -/
def parseUint16 (s : GoString) : Nat × Option NumError :=
  if s = [] then (0, some .syntaxError) else parseUintLoop 65535 s 0

/-! ### Ports -/

theorem parseUintLoop_le {maxVal n : Nat} {s : GoString} (hn : n ≤ maxVal) :
    (parseUintLoop maxVal s n).1 ≤ maxVal := by
  induction s generalizing n with
  | nil => exact hn
  | cons b s ih =>
    rw [parseUintLoop]
    split
    · split
      · exact Nat.le_refl _
      · exact ih (by omega)
    · exact Nat.zero_le _

theorem parseUint16_lt (s : GoString) : (parseUint16 s).1 < 65536 := by
  unfold parseUint16
  split
  · decide
  · exact Nat.lt_succ_of_le (parseUintLoop_le (Nat.zero_le _))

theorem isDigit_add {d : Nat} (hd : d < 10) : isDigit (48 + d).toUInt8 = true := by
  have hbyte : (48 + d).toUInt8 = hexDigit d := by rw [hexDigit, if_pos hd]
  rw [hbyte]
  exact (isDigit_hexDigit d hd).1

variable {n : Nat}

/-- Digits are read one after the other, as long as the number is not too large. -/
theorem parseUintLoop_digits {maxVal : Nat} {ds : List Nat} (hds : ∀ d ∈ ds, d < 10)
    (hle : ds.foldl (fun n d => n * 10 + d) n ≤ maxVal) :
    parseUintLoop maxVal (ds.map fun d => (48 + d).toUInt8) n =
      (ds.foldl (fun n d => n * 10 + d) n, none) := by
  induction ds generalizing n with
  | nil => rfl
  | cons d ds ih =>
    have hd := hds d List.mem_cons_self
    have hgrows : ∀ (ds : List Nat) (n : Nat), n ≤ ds.foldl (fun n d => n * 10 + d) n := by
      intro ds
      induction ds with
      | nil => exact fun n => Nat.le_refl n
      | cons e ds ih => exact fun n => Nat.le_trans (by omega) (ih (n * 10 + e))
    have hstep : n * 10 + d ≤ maxVal := Nat.le_trans (hgrows ds (n * 10 + d)) hle
    rw [List.map_cons, parseUintLoop, if_pos (isDigit_add hd), digit_toNat hd,
      Nat.add_sub_cancel_left, if_neg (by omega),
      ih (fun e he => hds e (List.mem_cons_of_mem d he)) hle]
    rfl

theorem formatUint_ne_nil (n : Nat) : formatUint n ≠ [] := by
  unfold formatUint
  split
  · simp
  · rename_i hn
    simp [Nat.digits_ne_nil_iff_ne_zero.mpr hn]

/-- A port is read back. -/
theorem parseUint16_formatUint (hn : n < 65536) : parseUint16 (formatUint n) = (n, none) := by
  unfold parseUint16
  rw [if_neg (formatUint_ne_nil n)]
  unfold formatUint
  split
  · rename_i hzero
    rw [hzero]
    decide
  · have hvalue : (Nat.digits 10 n).reverse.foldl (fun n d => n * 10 + d) 0 = n := by
      rw [List.foldl_reverse]
      calc (Nat.digits 10 n).foldr (fun d n => n * 10 + d) 0
          = Nat.ofDigits 10 (Nat.digits 10 n) := by
            rw [Nat.ofDigits_eq_foldr]
            congr 1
            funext d m
            simp
            omega
        _ = n := Nat.ofDigits_digits 10 n
    rw [parseUintLoop_digits, hvalue]
    · intro d hd
      exact Nat.digits_lt_base (by decide) (List.mem_reverse.mp hd)
    · rw [hvalue]
      omega

/-- A number as text has digits only. -/
theorem formatUint_digits {b : UInt8} (h : b ∈ formatUint n) : isDigit b = true := by
  unfold formatUint at h
  split at h
  · rw [List.mem_singleton.mp h]
    decide
  · obtain ⟨d, hd, rfl⟩ := List.mem_map.mp h
    exact isDigit_add (Nat.digits_lt_base (by decide) (List.mem_reverse.mp hd))

/-! ### Hosts with ports -/

/-- What a host, and a port, may consist of. -/
def NoBrackets (s : GoString) : Prop := openBracket ∉ s ∧ closeBracket ∉ s

theorem NoBrackets.append {s t : GoString} (hs : NoBrackets s) (ht : NoBrackets t) :
    NoBrackets (s ++ t) :=
  ⟨mt List.mem_append.mp (not_or.mpr ⟨hs.1, ht.1⟩), mt List.mem_append.mp (not_or.mpr ⟨hs.2, ht.2⟩)⟩

/-- `net.SplitHostPort` takes apart what `net.JoinHostPort` builds. -/
theorem splitHostPort_joinHostPort {host port : GoString} (hhost : NoBrackets host)
    (hport : NoBrackets port) (hcolon : colon ∉ port) :
    splitHostPort (joinHostPort host port) = .ok (host, port) := by
  unfold joinHostPort splitHostPort
  by_cases hc : colon ∈ host
  · rw [if_pos hc]
    have hlast : lastIndexByte (openBracket :: host ++ closeBracket :: colon :: port) colon =
        some (host.length + 2) := by
      have happend : openBracket :: host ++ closeBracket :: colon :: port =
          (openBracket :: host ++ [closeBracket]) ++ colon :: port := by simp
      rw [happend, lastIndexByte_append hcolon]
      simp
    have hclose : indexByte (openBracket :: host ++ closeBracket :: colon :: port) closeBracket =
        some (host.length + 1) := by
      rw [indexByte_append]
      · rfl
      · simp only [List.mem_cons, not_or]
        exact ⟨by decide, hhost.2⟩
    have hsplit :
        splitHost (openBracket :: host ++ closeBracket :: colon :: port) (host.length + 2) =
          .ok (host, 1, host.length + 2) := by
      unfold splitHost
      rw [if_pos (by rfl), hclose]
      dsimp only
      rw [if_neg (by simp), if_pos rfl]
      simp
    rw [hlast]
    dsimp only
    rw [hsplit]
    dsimp only
    rw [if_neg, if_neg]
    · simp
    · have hne : closeBracket ≠ colon := by decide
      simp [hport.2, hne]
    · have hne : openBracket ≠ closeBracket ∧ openBracket ≠ colon := by decide
      simp [hhost.1, hport.1, hne.1, hne.2]
  · rw [if_neg hc, lastIndexByte_append hcolon]
    have hfirst : ¬ (host ++ colon :: port)[0]? = some openBracket := by
      cases host with
      | nil => simp; decide
      | cons b host =>
        intro h
        cases h
        exact hhost.1 List.mem_cons_self
    have hsplit : splitHost (host ++ colon :: port) host.length = .ok (host, 0, 0) := by
      unfold splitHost
      rw [if_neg hfirst, List.take_left, if_neg hc]
    have hne : openBracket ≠ colon ∧ closeBracket ≠ colon := by decide
    dsimp only
    rw [hsplit]
    dsimp only
    rw [if_neg, if_neg]
    · simp
    · simp [hhost.2, hport.2, hne.2]
    · simp [hhost.1, hport.1, hne.1]

/-- A host that has been split off has no brackets. -/
theorem noBrackets_of_splitHostPort {s host port : GoString}
    (h : splitHostPort s = .ok (host, port)) : NoBrackets host := by
  unfold splitHostPort at h
  split at h
  · cases h
  rename_i i hlast
  split at h
  · cases h
  rename_i host' j k hsplit
  split at h
  · cases h
  rename_i hopen
  split at h
  · cases h
  rename_i hclose
  cases h
  unfold splitHost at hsplit
  split at hsplit
  · split at hsplit
    · cases hsplit
    rename_i e hindex
    split at hsplit
    · cases hsplit
    split at hsplit
    · cases hsplit
      refine ⟨fun hmem => hopen ?_, fun hmem => ?_⟩
      · rw [List.drop_take] at hmem
        exact List.mem_of_mem_take hmem
      · -- the bracket that ends the host is the first one
        obtain ⟨pre, post, rfl, hpre, -⟩ | ⟨hnone, -⟩ := cut_cases s closeBracket
        · cases (indexByte_append hpre post).symm.trans hindex
          rw [List.take_left] at hmem
          exact hpre (List.mem_of_mem_drop hmem)
        · cases (indexByte_eq_none hnone).symm.trans hindex
    · split at hsplit <;> cases hsplit
  · split at hsplit <;> cases hsplit
    exact ⟨fun hmem => hopen (List.mem_of_mem_take hmem),
      fun hmem => hclose (List.mem_of_mem_take hmem)⟩

/-! ### Targets -/

/-- `Addr.Is4`. -/
def Addr.is4 : Addr → Bool
  | .v4 _ => true
  | .v6 _ _ => false

/-- `Addr.Is6`, which an IPv4-mapped address is too. -/
def Addr.is6 : Addr → Bool
  | .v4 _ => false
  | .v6 _ _ => true

/-- An address with its zone dropped, as an IPv4 address if it stands for one (`Addr.Unmap`). -/
def Addr.canonical : Addr → Addr
  | .v4 bits => .v4 bits
  | .v6 bits _ => if bits.toNat >>> 32 = 0xffff then .v4 (bits.setWidth 32) else .v6 bits []

/-- Two hosts are the same: as addresses, or byte for byte. -/
def SameHost (host host' : GoString) : Prop :=
  match parseAddr host with
  | .ok ip => ∃ ip', parseAddr host' = .ok ip' ∧ ip'.canonical = ip.canonical
  | .error _ => host' = host

/-- Two targets with the same port number and the same host. -/
def SameTarget (target target' : GoString) : Prop :=
  ∃ host port host' port' n, splitHostPort target = .ok (host, port) ∧
    splitHostPort target' = .ok (host', port') ∧ parseUint16 port = (n, none) ∧
    parseUint16 port' = (n, none) ∧ SameHost host host'

/-- `Addr.Zone`. -/
def Addr.zone : Addr → GoString
  | .v4 _ => []
  | .v6 _ zone => zone

/-- The zone of a host. A name has none. -/
def hostZone (host : GoString) : GoString :=
  match parseAddr host with
  | .ok ip => ip.zone
  | .error _ => []

def targetZone (target : GoString) : GoString :=
  match splitHostPort target with
  | .ok (host, _) => hostZone host
  | .error _ => []

theorem bigEndianBytes_append (j k n : Nat) :
    bigEndianBytes (j + k) n = bigEndianBytes j (n / 256 ^ k) ++ bigEndianBytes k n := by
  induction k generalizing n with
  | zero => simp [bigEndianBytes]
  | succ k ih =>
    rw [← Nat.add_assoc, bigEndianBytes_succ, ih, bigEndianBytes_succ, List.append_assoc,
      Nat.div_div_eq_div_mul, Nat.pow_succ, Nat.mul_comm]

/-- The bytes of an address denote it, up to `canonical`. -/
theorem ipAddr_asSlice (ip : Addr) : ipAddr ip.asSlice = ip.canonical := by
  cases ip with
  | v4 bits =>
    have hbits : bits.toNat % 256 ^ 4 = bits.toNat := Nat.mod_eq_of_lt bits.isLt
    unfold ipAddr Addr.asSlice Addr.canonical
    rw [if_pos (length_bigEndianBytes 4 _), bigEndian_bigEndianBytes, hbits, BitVec.ofNat_toNat,
      BitVec.setWidth_eq]
  | v6 bits zone =>
    have hbits : bits.toNat % 256 ^ 16 = bits.toNat := Nat.mod_eq_of_lt bits.isLt
    have hparts : bigEndianBytes 16 bits.toNat =
        bigEndianBytes 12 (bits.toNat / 256 ^ 4) ++ bigEndianBytes 4 bits.toNat :=
      bigEndianBytes_append 12 4 _
    have hmapped : v4InV6Prefix <+: bigEndianBytes 16 bits.toNat ↔ bits.toNat >>> 32 = 0xffff := by
      have hhigh : bits.toNat >>> 32 = bits.toNat / 256 ^ 4 := Nat.shiftRight_eq_div_pow _ 32
      have hvalue :
          bigEndian (bigEndianBytes 12 (bits.toNat / 256 ^ 4)) = bits.toNat / 256 ^ 4 := by
        rw [bigEndian_bigEndianBytes]
        exact Nat.mod_eq_of_lt (Nat.div_lt_of_lt_mul bits.isLt)
      rw [hparts, hhigh]
      constructor
      · rintro ⟨low, hlow⟩
        rw [← hvalue, ← (List.append_inj hlow (length_bigEndianBytes 12 _).symm).1]
        decide
      · intro h
        rw [h]
        exact List.prefix_append _ _
    unfold ipAddr Addr.asSlice Addr.canonical
    dsimp only
    rw [if_neg (by simp)]
    by_cases h : bits.toNat >>> 32 = 0xffff
    · rw [if_pos (hmapped.mpr h), if_pos h, hparts, List.drop_left' (length_bigEndianBytes 12 _),
        bigEndian_bigEndianBytes]
      refine congrArg Addr.v4 (BitVec.eq_of_toNat_eq ?_)
      rw [BitVec.toNat_ofNat, BitVec.toNat_setWidth]
      exact Nat.mod_mod _ _
    · rw [if_neg (mt hmapped.mp h), if_neg h, bigEndian_bigEndianBytes, hbits, BitVec.ofNat_toNat,
        BitVec.setWidth_eq]

theorem canonical_canonical (ip : Addr) : ip.canonical.canonical = ip.canonical := by
  cases ip with
  | v4 bits => rfl
  | v6 bits zone =>
    by_cases h : bits.toNat >>> 32 = 0xffff <;> simp [Addr.canonical, h]

theorem zone_ipAddr (ip : List UInt8) : (ipAddr ip).zone = [] := by
  unfold ipAddr
  split
  · rfl
  split
  · rfl
  · rfl

theorem length_asSlice (ip : Addr) : ip.asSlice.length = 4 ∨ ip.asSlice.length = 16 := by
  cases ip with
  | v4 bits => exact .inl (length_bigEndianBytes 4 _)
  | v6 bits zone => exact .inr (length_bigEndianBytes 16 _)

variable {host : GoString}

/-- The text of the bytes of an address is the same host. -/
theorem sameHost_ipString {ip : Addr} (h : parseAddr host = .ok ip) :
    SameHost host (ipString ip.asSlice) := by
  unfold SameHost
  rw [h]
  refine ⟨ip.canonical, ?_, canonical_canonical ip⟩
  rw [parseAddr_ipString (length_asSlice ip), ipAddr_asSlice]

/-- The zone of an address is not in its bytes. -/
theorem hostZone_ipString (ip : Addr) : hostZone (ipString ip.asSlice) = [] := by
  unfold hostZone
  rw [parseAddr_ipString (length_asSlice ip)]
  exact zone_ipAddr _

theorem sameHost_name {e : String} (h : parseAddr host = .error e) : SameHost host host := by
  unfold SameHost
  rw [h]

theorem noBrackets_ipString {ip : List UInt8} (hlen : ip.length = 4 ∨ ip.length = 16) :
    NoBrackets (ipString ip) := by
  have hdigit : ∀ d < 16, hexDigit d ≠ openBracket ∧ hexDigit d ≠ closeBracket := by decide
  have h4 : ∀ ip, NoBrackets (string4 ip) := by
    refine fun ip => ⟨fun h => ?_, fun h => ?_⟩
    · obtain h | ⟨d, hd, h⟩ := mem_string4 h
      · cases h
      · exact (hdigit d (by omega)).1 h.symm
    · obtain h | ⟨d, hd, h⟩ := mem_string4 h
      · cases h
      · exact (hdigit d (by omega)).2 h.symm
  unfold ipString
  rw [if_neg (by rintro rfl; simp at hlen)]
  split
  · exact h4 ip
  · rename_i hnot
    have h16 := hlen.resolve_left hnot
    rw [if_pos h16]
    split
    · exact h4 _
    · refine ⟨fun h => ?_, fun h => ?_⟩
      · obtain h | ⟨d, hd, h⟩ := isV6Byte_string6 h16 _ h
        · cases h
        · exact (hdigit d hd).1 h.symm
      · obtain h | ⟨d, hd, h⟩ := isV6Byte_string6 h16 _ h
        · cases h
        · exact (hdigit d hd).2 h.symm

/-- A host and the number of a port are taken apart again. -/
theorem splitHostPort_join (hbrackets : NoBrackets host) (n : Nat) :
    splitHostPort (joinHostPort host (formatUint n)) = .ok (host, formatUint n) := by
  have hdigits : ∀ c, isDigit c = false → c ∉ formatUint n := by
    intro c hc hmem
    rw [formatUint_digits hmem] at hc
    cases hc
  exact splitHostPort_joinHostPort hbrackets ⟨hdigits _ rfl, hdigits _ rfl⟩ (hdigits _ rfl)

theorem targetZone_join (hbrackets : NoBrackets host) (n : Nat) :
    targetZone (joinHostPort host (formatUint n)) = hostZone host := by
  unfold targetZone
  rw [splitHostPort_join hbrackets n]

/-- A target put together from the same host and the number of its port. -/
theorem sameTarget_join {target host port host' : GoString}
    (hsplit : splitHostPort target = .ok (host, port)) (hport : parseUint16 port = (n, none))
    (hbrackets : NoBrackets host') (hhost : SameHost host host') :
    SameTarget target (joinHostPort host' (formatUint n)) := by
  have hn : n < 65536 := by
    have hlt := parseUint16_lt port
    rw [hport] at hlt
    exact hlt
  exact ⟨host, port, host', formatUint n, n, hsplit, splitHostPort_join hbrackets n, hport,
    parseUint16_formatUint hn, hhost⟩

end Glider.Go
