/-
IP addresses as text: `IP.String` of package `net`, with `Addr.String` of `net/netip` behind it.

An IPv4 address, and an IPv6 address that stands for one, is written in decimal fields; any other
in groups of hexadecimal digits, with the longest run of at least two zero groups left out.

* `parseAddr_string4`, `parseAddr_string6` — `netip.ParseAddr` reads the text back.
-/

import Glider.Go.Binary

namespace Glider.Go

/-! ### Text -/

/-- A digit, in lower case. -/
def hexDigit (d : Nat) : UInt8 := if d < 10 then (48 + d).toUInt8 else (87 + d).toUInt8

/-- `appendDecimal`, of a byte. -/
def appendDecimal (x : Nat) : GoString :=
  (if 100 ≤ x then [hexDigit (x / 100)] else []) ++
  (if 10 ≤ x then [hexDigit (x / 10 % 10)] else []) ++ [hexDigit (x % 10)]

/-- `appendHex`, of 16 bits. -/
def appendHex (x : Nat) : GoString :=
  (if 0x1000 ≤ x then [hexDigit (x / 4096)] else []) ++
  (if 0x100 ≤ x then [hexDigit (x / 256 % 16)] else []) ++
  (if 0x10 ≤ x then [hexDigit (x / 16 % 16)] else []) ++ [hexDigit (x % 16)]

/-- `Addr.String` of an IPv4 address. -/
def string4 (ip : List UInt8) : GoString := join (ip.map fun b => appendDecimal b.toNat) dot

/-- The 16-bit groups of an address. -/
def groups : List UInt8 → List Nat
  | hi :: lo :: rest => (hi.toNat * 256 + lo.toNat) :: groups rest
  | _ => []

/-- The loop of `appendTo6` that looks for the longest run of zeros, at group `i`: the first group
of the run and the one after it. -/
def longestZeros : (i : Nat) → List Nat → (best : Nat × Nat) → Nat × Nat
  | _, [], best => best
  | i, g :: gs, best =>
    let l := ((g :: gs).takeWhile (· = 0)).length
    longestZeros (i + 1) gs (if 2 ≤ l ∧ best.2 - best.1 < l then (i, i + l) else best)

def joinHex (gs : List Nat) : GoString := join (gs.map appendHex) colon

/-- `Addr.String` of an IPv6 address without a zone. -/
def string6 (ip : List UInt8) : GoString :=
  let gs := groups ip
  let (zeroStart, zeroEnd) := longestZeros 0 gs (255, 255)
  if zeroStart = 255 then joinHex gs
  else joinHex (gs.take zeroStart) ++ [colon, colon] ++ joinHex (gs.drop zeroEnd)

/-- The first bytes of an IPv6 address that stands for an IPv4 address. -/
def v4InV6Prefix : List UInt8 := [0, 0, 0, 0, 0, 0, 0, 0, 0, 0, 0xff, 0xff]

/-- `hexString`. -/
def hexString (b : List UInt8) : GoString :=
  b.flatMap fun x => [hexDigit (x.toNat / 16), hexDigit (x.toNat % 16)]

/-- `IP.String`. -/
def ipString (ip : List UInt8) : GoString :=
  if ip = [] then ascii "<nil>"
  else if ip.length = 4 then string4 ip
  else if ip.length = 16 then
    if v4InV6Prefix <+: ip then string4 (ip.drop 12) else string6 ip
  else ascii "?" ++ hexString ip

example : ipString (0x20 :: 0x01 :: 0x0d :: 0xb8 :: List.replicate 11 0 ++ [1]) =
    ascii "2001:db8::1" := by decide

/-! ### Digits -/

theorem hexValue_hexDigit : ∀ d < 16, hexValue (hexDigit d) = some d := by decide

theorem isDigit_hexDigit : ∀ d < 10, isDigit (hexDigit d) ∧ (hexDigit d).toNat - 48 = d := by decide

theorem hexDigit_notSep : ∀ d < 16, hexDigit d ≠ colon ∧ hexDigit d ≠ dot ∧ hexDigit d ≠ 37 := by
  decide

theorem parseHexGroup_digit {d off acc : Nat} (hd : d < 16) (hoff : off ≤ 3)
    (hacc : acc * 16 + d ≤ 65535) (tail : GoString) :
    parseHexGroup (hexDigit d :: tail) off acc = parseHexGroup tail (off + 1) (acc * 16 + d) := by
  rw [parseHexGroup, hexValue_hexDigit d hd]
  dsimp only
  rw [if_neg (by omega), if_neg (by omega)]

theorem parseHexGroup_end {tail : GoString} (htail : tail = [] ∨ ∃ rest, tail = colon :: rest)
    (off acc : Nat) : parseHexGroup tail off acc = .ok (off, acc, tail) := by
  obtain rfl | ⟨rest, rfl⟩ := htail
  · rfl
  · rfl

/-- The digits of a group. -/
theorem appendHex_digits {x : Nat} (hx : x < 65536) :
    ∃ ds : List Nat, appendHex x = ds.map hexDigit ∧ (∀ d ∈ ds, d < 16) ∧
      1 ≤ ds.length ∧ ds.length ≤ 4 ∧ ds.foldl (fun n d => n * 16 + d) 0 = x := by
  unfold appendHex
  by_cases h1 : 0x1000 ≤ x
  · refine ⟨[x / 4096, x / 256 % 16, x / 16 % 16, x % 16], ?_, ?_, by simp, by simp, ?_⟩
    · rw [if_pos h1, if_pos (by omega), if_pos (by omega)]
      rfl
    · simp only [List.forall_mem_cons]
      exact ⟨by omega, by omega, by omega, by omega, fun _ h => by cases h⟩
    · simp only [List.foldl_cons, List.foldl_nil]
      omega
  by_cases h2 : 0x100 ≤ x
  · refine ⟨[x / 256 % 16, x / 16 % 16, x % 16], ?_, ?_, by simp, by simp, ?_⟩
    · rw [if_neg h1, if_pos h2, if_pos (by omega)]
      rfl
    · simp only [List.forall_mem_cons]
      exact ⟨by omega, by omega, by omega, fun _ h => by cases h⟩
    · simp only [List.foldl_cons, List.foldl_nil]
      omega
  by_cases h3 : 0x10 ≤ x
  · refine ⟨[x / 16 % 16, x % 16], ?_, ?_, by simp, by simp, ?_⟩
    · rw [if_neg h1, if_neg h2, if_pos h3]
      rfl
    · simp only [List.forall_mem_cons]
      exact ⟨by omega, by omega, fun _ h => by cases h⟩
    · simp only [List.foldl_cons, List.foldl_nil]
      omega
  · refine ⟨[x % 16], ?_, ?_, by simp, by simp, ?_⟩
    · rw [if_neg h1, if_neg h2, if_neg h3]
      rfl
    · simp only [List.forall_mem_cons]
      exact ⟨by omega, fun _ h => by cases h⟩
    · simp only [List.foldl_cons, List.foldl_nil]
      omega

theorem parseHexGroup_digits {ds : List Nat} {off acc : Nat} {tail : GoString}
    (hds : ∀ d ∈ ds, d < 16) (hlen : off + ds.length ≤ 4) (hacc : acc < 16 ^ off)
    (htail : tail = [] ∨ ∃ rest, tail = colon :: rest) :
    parseHexGroup (ds.map hexDigit ++ tail) off acc =
      .ok (off + ds.length, ds.foldl (fun n d => n * 16 + d) acc, tail) := by
  induction ds generalizing off acc with
  | nil => exact parseHexGroup_end htail off acc
  | cons d ds ih =>
    have hd := hds d List.mem_cons_self
    rw [List.length_cons] at hlen
    have hpow : 16 ^ off ≤ 16 ^ 3 := Nat.pow_le_pow_right (by decide) (by omega)
    have hnext : acc * 16 + d < 16 ^ (off + 1) := by rw [Nat.pow_succ]; omega
    rw [List.map_cons, List.cons_append, parseHexGroup_digit hd (by omega) (by omega),
      ih (fun e he => hds e (List.mem_cons_of_mem d he)) (by omega) hnext, List.length_cons,
      List.foldl_cons, Nat.add_right_comm, Nat.add_assoc]

/-- A group is read back. -/
theorem parseHexGroup_appendHex {x : Nat} (hx : x < 65536) {tail : GoString}
    (htail : tail = [] ∨ ∃ rest, tail = colon :: rest) :
    ∃ k, parseHexGroup (appendHex x ++ tail) 0 0 = .ok (k + 1, x, tail) := by
  obtain ⟨ds, htext, hds, hpos, hlen, hvalue⟩ := appendHex_digits hx
  refine ⟨ds.length - 1, ?_⟩
  rw [htext, parseHexGroup_digits hds (by omega) (by decide) htail, hvalue, Nat.zero_add,
    Nat.sub_add_cancel hpos]

/-! ### Groups -/

/-- The bytes of groups. -/
def groupBytes (gs : List Nat) : List UInt8 := gs.flatMap fun g => [(g / 256).toUInt8, g.toUInt8]

theorem joinHex_cons_cons (g g' : Nat) (gs : List Nat) :
    joinHex (g :: g' :: gs) = appendHex g ++ colon :: joinHex (g' :: gs) := by
  simp [joinHex, join, List.intercalate]

theorem joinHex_singleton (g : Nat) : joinHex [g] = appendHex g := by
  simp [joinHex, join, List.intercalate]

variable {gs : List Nat}

/-- A printed list of groups starts with a digit. -/
theorem joinHex_head (hne : gs ≠ []) (hgs : ∀ g ∈ gs, g < 65536) :
    ∃ d rest, d < 16 ∧ joinHex gs = hexDigit d :: rest := by
  cases gs with
  | nil => exact absurd rfl hne
  | cons g gs =>
    obtain ⟨ds, htext, hds, hpos, -, -⟩ := appendHex_digits (hgs g List.mem_cons_self)
    cases ds with
    | nil => exact absurd hpos (by simp)
    | cons d ds =>
      have hd := hds d List.mem_cons_self
      cases gs with
      | nil => exact ⟨d, _, hd, by rw [joinHex_singleton, htext]; rfl⟩
      | cons g' gs => exact ⟨d, _, hd, by rw [joinHex_cons_cons, htext]; rfl⟩

section

variable {g n : Nat} {ip : List UInt8} {ellipsis : Option Nat}

/-- The last group. -/
theorem parseIPv6Groups_last (hg : g < 65536) :
    parseIPv6Groups (n + 1) (appendHex g) ip ellipsis =
      .ok ([], ip ++ [(g / 256).toUInt8, g.toUInt8], ellipsis) := by
  obtain ⟨k, hgroup⟩ := parseHexGroup_appendHex hg (.inl rfl)
  rw [List.append_nil] at hgroup
  rw [parseIPv6Groups, hgroup]
  rfl

/-- A group, and more after a colon. -/
theorem parseIPv6Groups_colon (hg : g < 65536) {c : UInt8} (hc : c ≠ colon) (rest : GoString) :
    parseIPv6Groups (n + 1) (appendHex g ++ colon :: c :: rest) ip ellipsis =
      parseIPv6Groups n (c :: rest) (ip ++ [(g / 256).toUInt8, g.toUInt8]) ellipsis := by
  obtain ⟨k, hgroup⟩ := parseHexGroup_appendHex hg (.inr ⟨c :: rest, rfl⟩)
  rw [parseIPv6Groups, hgroup]
  simp only [List.getElem?_cons_zero, ne_eq, not_true_eq_false, if_false, if_neg hc,
    if_neg (show ¬ some colon = some dot by decide)]

/-- A group before the ellipsis. -/
theorem parseIPv6Groups_ellipsis (hg : g < 65536) (rest : GoString) :
    parseIPv6Groups (n + 1) (appendHex g ++ colon :: colon :: rest) ip none =
      let ip := ip ++ [(g / 256).toUInt8, g.toUInt8]
      if rest = [] then .ok ([], ip, some ip.length)
      else parseIPv6Groups n rest ip (some ip.length) := by
  obtain ⟨k, hgroup⟩ := parseHexGroup_appendHex hg (.inr ⟨colon :: rest, rfl⟩)
  rw [parseIPv6Groups, hgroup]
  simp only [List.getElem?_cons_zero, ne_eq, not_true_eq_false, if_false, if_true,
    if_neg (show ¬ some colon = some dot by decide)]

end

variable {ip : List UInt8}

/-- All the groups at the end of the text. -/
theorem parseIPv6Groups_join {n : Nat} {ellipsis : Option Nat} (hne : gs ≠ [])
    (hgs : ∀ g ∈ gs, g < 65536) (hlen : gs.length ≤ n) :
    parseIPv6Groups n (joinHex gs) ip ellipsis = .ok ([], ip ++ groupBytes gs, ellipsis) := by
  induction gs generalizing n ip with
  | nil => exact absurd rfl hne
  | cons g gs ih =>
    obtain ⟨n, rfl⟩ : ∃ m, n = m + 1 := ⟨n - 1, by rw [List.length_cons] at hlen; omega⟩
    have hg := hgs g List.mem_cons_self
    cases gs with
    | nil => rw [joinHex_singleton, parseIPv6Groups_last hg]; rfl
    | cons g' gs =>
      have hgs' : ∀ h ∈ g' :: gs, h < 65536 := fun h hh => hgs h (List.mem_cons_of_mem g hh)
      obtain ⟨d, rest, hd, htext⟩ := joinHex_head (List.cons_ne_nil g' gs) hgs'
      rw [joinHex_cons_cons, htext, parseIPv6Groups_colon hg (hexDigit_notSep d hd).1, ← htext,
        ih (List.cons_ne_nil g' gs) hgs' (by rw [List.length_cons] at hlen; omega),
        List.append_assoc]
      rfl

/-- The groups before the ellipsis. -/
theorem parseIPv6Groups_join_ellipsis {n : Nat} {rest : GoString} (hne : gs ≠ [])
    (hgs : ∀ g ∈ gs, g < 65536) (hlen : gs.length ≤ n) :
    parseIPv6Groups n (joinHex gs ++ colon :: colon :: rest) ip none =
      if rest = [] then .ok ([], ip ++ groupBytes gs, some (ip ++ groupBytes gs).length)
      else parseIPv6Groups (n - gs.length) rest (ip ++ groupBytes gs)
        (some (ip ++ groupBytes gs).length) := by
  induction gs generalizing n ip with
  | nil => exact absurd rfl hne
  | cons g gs ih =>
    obtain ⟨n, rfl⟩ : ∃ m, n = m + 1 := ⟨n - 1, by rw [List.length_cons] at hlen; omega⟩
    have hg := hgs g List.mem_cons_self
    cases gs with
    | nil => rw [joinHex_singleton, parseIPv6Groups_ellipsis hg]; rfl
    | cons g' gs =>
      have hgs' : ∀ h ∈ g' :: gs, h < 65536 := fun h hh => hgs h (List.mem_cons_of_mem g hh)
      obtain ⟨d, more, hd, htext⟩ := joinHex_head (List.cons_ne_nil g' gs) hgs'
      have hbytes : groupBytes (g :: g' :: gs) =
          [(g / 256).toUInt8, g.toUInt8] ++ groupBytes (g' :: gs) := rfl
      have hrest : n + 1 - (g :: g' :: gs).length = n - (g' :: gs).length := by
        rw [List.length_cons]
        omega
      rw [joinHex_cons_cons, List.append_assoc, List.cons_append, htext, List.cons_append,
        parseIPv6Groups_colon hg (hexDigit_notSep d hd).1, ← List.cons_append, ← htext,
        ih (List.cons_ne_nil g' gs) hgs' (by rw [List.length_cons] at hlen; omega), hbytes,
        List.append_assoc, hrest]

/-! ### The run of zeros -/

/-- `best` is a run of at least two zero groups, or none. -/
def IsRun (gs : List Nat) (best : Nat × Nat) : Prop :=
  best.1 = 255 ∨ (best.1 + 2 ≤ best.2 ∧ best.2 ≤ gs.length ∧
    gs = gs.take best.1 ++ List.replicate (best.2 - best.1) 0 ++ gs.drop best.2)

theorem longestZeros_isRun {pre gs : List Nat} {best : Nat × Nat} (h : IsRun (pre ++ gs) best) :
    IsRun (pre ++ gs) (longestZeros pre.length gs best) := by
  induction gs generalizing pre best with
  | nil => exact h
  | cons g gs ih =>
    rw [longestZeros]
    have hsplit : pre ++ g :: gs = (pre ++ [g]) ++ gs := by simp
    have hlength : pre.length + 1 = (pre ++ [g]).length := by simp
    rw [hlength, hsplit]
    apply ih
    rw [← hsplit]
    split
    · rename_i hrun
      have hzeros : (g :: gs).takeWhile (· = 0) =
          List.replicate ((g :: gs).takeWhile (· = 0)).length 0 :=
        List.eq_replicate_of_mem fun x hx => by simpa using List.mem_takeWhile_imp hx
      have hparts := List.takeWhile_append_dropWhile (p := (· = 0)) (l := g :: gs)
      generalize (g :: gs).takeWhile (· = 0) = zeros at hrun hzeros hparts ⊢
      rw [← hparts]
      refine .inr ⟨by dsimp only; omega, by simp, ?_⟩
      dsimp only
      rw [List.take_left, Nat.add_sub_cancel_left, ← hzeros, ← List.append_assoc,
        ← List.length_append, List.drop_left]
    · exact h

/-! ### IPv6 -/

theorem groupBytes_append (gs gs' : List Nat) :
    groupBytes (gs ++ gs') = groupBytes gs ++ groupBytes gs' := List.flatMap_append

theorem groupBytes_zeros (k : Nat) :
    groupBytes (List.replicate k 0) = List.replicate (2 * k) 0 := by
  induction k with
  | zero => rfl
  | succ k ih =>
    rw [List.replicate_succ, show 2 * (k + 1) = 2 * k + 1 + 1 from rfl, List.replicate_succ,
      List.replicate_succ, ← ih]
    rfl

theorem length_groupBytes (gs : List Nat) : (groupBytes gs).length = 2 * gs.length := by
  induction gs with
  | nil => rfl
  | cons g gs ih =>
    rw [List.length_cons, show groupBytes (g :: gs) = [_, _] ++ groupBytes gs from rfl,
      List.length_append, ih]
    simp only [List.length_cons, List.length_nil]
    omega

theorem group_bytes (hi lo : UInt8) :
    ((hi.toNat * 256 + lo.toNat) / 256).toUInt8 = hi ∧
      (hi.toNat * 256 + lo.toNat).toUInt8 = lo := by
  have hlo : lo.toNat < 256 := lo.toNat_lt
  constructor
  · rw [show (hi.toNat * 256 + lo.toNat) / 256 = hi.toNat by omega]
    exact UInt8.ofNat_toNat
  · apply UInt8.toNat_inj.mp
    show (hi.toNat * 256 + lo.toNat) % 256 = lo.toNat
    omega

theorem groupBytes_groups {k : Nat} : ∀ {ip : List UInt8}, ip.length = 2 * k →
    groupBytes (groups ip) = ip ∧ (groups ip).length = k ∧ ∀ g ∈ groups ip, g < 65536 := by
  induction k with
  | zero =>
    intro ip h
    obtain rfl := List.length_eq_zero_iff.mp h
    exact ⟨rfl, rfl, fun g hg => by cases hg⟩
  | succ k ih =>
    intro ip h
    match ip with
    | [] => cases h
    | [b] =>
      rw [List.length_singleton] at h
      omega
    | hi :: lo :: rest =>
      obtain ⟨hbytes, hlen, hlt⟩ := @ih rest (by simp only [List.length_cons] at h; omega)
      refine ⟨?_, by rw [groups, List.length_cons, hlen], fun g hg => ?_⟩
      · rw [groups,
          show groupBytes (_ :: groups rest) = [_, _] ++ groupBytes (groups rest) from rfl,
          hbytes, (group_bytes hi lo).1, (group_bytes hi lo).2]
        rfl
      · obtain rfl | hg := List.mem_cons.mp hg
        · have hhi : hi.toNat < 256 := hi.toNat_lt
          have hlo : lo.toNat < 256 := lo.toNat_lt
          omega
        · exact hlt g hg

/-- A byte of an IPv6 address as text. -/
def IsV6Byte (c : UInt8) : Prop := c = colon ∨ ∃ d < 16, c = hexDigit d

theorem isV6Byte_joinHex (hgs : ∀ g ∈ gs, g < 65536) : ∀ c ∈ joinHex gs, IsV6Byte c := by
  have hgroup : ∀ g < 65536, ∀ c ∈ appendHex g, IsV6Byte c := by
    intro g hg c hc
    obtain ⟨ds, htext, hds, -⟩ := appendHex_digits hg
    rw [htext] at hc
    obtain ⟨d, hd, rfl⟩ := List.mem_map.mp hc
    exact .inr ⟨d, hds d hd, rfl⟩
  induction gs with
  | nil =>
    intro c hc
    cases hc
  | cons g gs ih =>
    have hg := hgs g List.mem_cons_self
    cases gs with
    | nil =>
      rw [joinHex_singleton]
      exact hgroup g hg
    | cons g' gs =>
      intro c hc
      rw [joinHex_cons_cons, List.mem_append, List.mem_cons] at hc
      obtain hc | rfl | hc := hc
      · exact hgroup g hg c hc
      · exact .inl rfl
      · exact ih (fun h hh => hgs h (List.mem_cons_of_mem g hh)) c hc

theorem isV6Byte_ellipsis {pre post : List Nat} (hpre : ∀ g ∈ pre, g < 65536)
    (hpost : ∀ g ∈ post, g < 65536) :
    ∀ c ∈ joinHex pre ++ [colon, colon] ++ joinHex post, IsV6Byte c := by
  intro c hc
  simp only [List.mem_append, List.mem_cons, List.not_mem_nil, or_false] at hc
  obtain (hc | rfl | rfl) | hc := hc
  · exact isV6Byte_joinHex hpre c hc
  · exact .inl rfl
  · exact .inl rfl
  · exact isV6Byte_joinHex hpost c hc

/-- Text that looks like an IPv6 address is parsed as one. -/
theorem parseAddr_of_colon {s : GoString} (hs : ∀ c ∈ s, IsV6Byte c) (hcolon : colon ∈ s) :
    parseAddr s = parseIPv6 s := by
  unfold parseAddr
  have hsep : ∀ c ∈ s, (c = dot || c = colon || c = 37) = true → c = colon := by
    intro c hc h
    obtain rfl | ⟨d, hd, rfl⟩ := hs c hc
    · rfl
    · obtain ⟨h1, h2, h3⟩ := hexDigit_notSep d hd
      simp [h1, h2, h3] at h
  cases hfind : s.find? fun b => b = dot || b = colon || b = 37 with
  | none =>
    have hnone := List.find?_eq_none.mp hfind colon hcolon
    exact absurd (by decide) hnone
  | some b =>
    have hb := List.find?_some hfind
    obtain rfl := hsep b (List.mem_of_find?_eq_some hfind) hb
    rfl

theorem percent_notMem {s : GoString} (hs : ∀ c ∈ s, IsV6Byte c) : 37 ∉ s := by
  intro hmem
  obtain h | ⟨d, hd, h⟩ := hs 37 hmem
  · exact absurd h (by decide)
  · exact (hexDigit_notSep d hd).2.2 h.symm

/-- The bytes on both sides of an ellipsis. -/
theorem expandEllipsis_append {a b : List UInt8} (h : (a ++ b).length < 16) :
    expandEllipsis ([], a ++ b, some a.length) =
      .ok (a ++ List.replicate (16 - (a ++ b).length) 0 ++ b) := by
  unfold expandEllipsis
  dsimp only
  rw [if_neg (by simp), if_pos h, List.take_left, List.drop_left]

theorem joinHex_eq_nil_iff (hgs : ∀ g ∈ gs, g < 65536) : joinHex gs = [] ↔ gs = [] := by
  constructor
  · intro h
    by_contra hne
    obtain ⟨d, rest, -, htext⟩ := joinHex_head hne hgs
    rw [h] at htext
    cases htext
  · rintro rfl
    rfl

/-- The text without an ellipsis. -/
theorem parseIPv6_joinHex (hlen : gs.length = 8) (hgs : ∀ g ∈ gs, g < 65536) :
    parseIPv6 (joinHex gs) = .ok (.v6 (BitVec.ofNat 128 (bigEndian (groupBytes gs))) []) := by
  have hne : gs ≠ [] := by rintro rfl; cases hlen
  obtain ⟨d, rest, hd, htext⟩ := joinHex_head hne hgs
  have hleading : ¬ (joinHex gs).take 2 = [colon, colon] := by
    rw [htext]
    intro h
    exact (hexDigit_notSep d hd).1 (List.cons.inj h).1
  have hsixteen : (groupBytes gs).length = 16 := by rw [length_groupBytes, hlen]
  unfold parseIPv6
  rw [cut_of_not_mem (percent_notMem (isV6Byte_joinHex hgs))]
  dsimp only
  rw [if_neg (by simp), if_neg (by simp [hleading]), if_neg hleading, if_neg hleading,
    parseIPv6Groups_join hne hgs (by omega)]
  simp [expandEllipsis, hsixteen]

/-- The text with an ellipsis for at least one group. -/
theorem parseIPv6_ellipsis {pre post : List Nat} {z : Nat} (hlen : pre.length + z + post.length = 8)
    (hz : 0 < z) (hpre : ∀ g ∈ pre, g < 65536) (hpost : ∀ g ∈ post, g < 65536) :
    parseIPv6 (joinHex pre ++ [colon, colon] ++ joinHex post) =
      .ok (.v6 (BitVec.ofNat 128
        (bigEndian (groupBytes (pre ++ List.replicate z 0 ++ post)))) []) := by
  -- what the groups on both sides stand for
  have hsize : (groupBytes pre ++ groupBytes post).length = 16 - 2 * z := by
    rw [List.length_append, length_groupBytes, length_groupBytes]
    omega
  have hexpand :
      expandEllipsis ([], groupBytes pre ++ groupBytes post, some (groupBytes pre).length) =
        .ok (groupBytes (pre ++ List.replicate z 0 ++ post)) := by
    rw [expandEllipsis_append (by omega), hsize, groupBytes_append, groupBytes_append,
      groupBytes_zeros, show 16 - (16 - 2 * z) = 2 * z by omega]
  unfold parseIPv6
  rw [cut_of_not_mem (percent_notMem (isV6Byte_ellipsis hpre hpost))]
  dsimp only
  rw [if_neg (by simp)]
  by_cases hnil : pre = []
  · subst hnil
    have htext : joinHex [] ++ [colon, colon] ++ joinHex post =
        colon :: colon :: joinHex post := rfl
    rw [htext]
    have hleading : (colon :: colon :: joinHex post).take 2 = [colon, colon] := rfl
    rw [if_pos hleading]
    rw [show (colon :: colon :: joinHex post).drop 2 = joinHex post from rfl]
    by_cases hpostnil : post = []
    · subst hpostnil
      rw [if_pos ⟨hleading, rfl⟩]
      have hzero : z = 8 := by simpa using hlen
      rw [hzero]
      decide
    · rw [if_neg (by rw [joinHex_eq_nil_iff hpost]; exact fun h => hpostnil h.2),
        parseIPv6Groups_join hpostnil hpost (by omega)]
      dsimp only
      rw [if_pos hleading,
        show expandEllipsis ([], [] ++ groupBytes post, some 0) = _ from hexpand]
  · obtain ⟨d, rest, hd, htext⟩ := joinHex_head hnil hpre
    have hleading : ¬ (joinHex pre ++ [colon, colon] ++ joinHex post).take 2 = [colon, colon] := by
      rw [htext]
      intro h
      exact (hexDigit_notSep d hd).1 (List.cons.inj h).1
    have happend : joinHex pre ++ [colon, colon] ++ joinHex post =
        joinHex pre ++ colon :: colon :: joinHex post := by simp
    rw [if_neg (by simp only [hleading, false_and, not_false_eq_true]), if_neg hleading,
      if_neg hleading, happend, parseIPv6Groups_join_ellipsis hnil hpre (by omega), List.nil_append]
    by_cases hpostnil : post = []
    · subst hpostnil
      rw [if_pos (show joinHex [] = [] from rfl)]
      dsimp only
      have hend := hexpand
      rw [show groupBytes [] = [] from rfl, List.append_nil] at hend
      rw [hend]
    · rw [if_neg (by rw [joinHex_eq_nil_iff hpost]; exact hpostnil),
        parseIPv6Groups_join hpostnil hpost (by omega)]
      dsimp only
      rw [hexpand]

theorem isV6Byte_string6 (hlen : ip.length = 16) : ∀ c ∈ string6 ip, IsV6Byte c := by
  obtain ⟨-, -, hlt⟩ := groupBytes_groups (k := 8) hlen
  unfold string6
  dsimp only
  split
  · exact isV6Byte_joinHex hlt
  · exact isV6Byte_ellipsis (fun g hg => hlt g (List.mem_of_mem_take hg))
      (fun g hg => hlt g (List.mem_of_mem_drop hg))

/-- **IPv6 addresses are read back.** -/
theorem parseAddr_string6 (hlen : ip.length = 16) :
    parseAddr (string6 ip) = .ok (.v6 (BitVec.ofNat 128 (bigEndian ip)) []) := by
  obtain ⟨hbytes, hgroups, hlt⟩ := groupBytes_groups (k := 8) hlen
  have hrun : IsRun (groups ip) (longestZeros 0 (groups ip) (255, 255)) :=
    @longestZeros_isRun [] (groups ip) _ (.inl rfl)
  unfold string6
  dsimp only
  by_cases hnone : (longestZeros 0 (groups ip) (255, 255)).1 = 255
  · rw [if_pos hnone]
    have hcolon : colon ∈ joinHex (groups ip) := by
      match groups ip, hgroups with
      | g :: g' :: gs, _ =>
        rw [joinHex_cons_cons]
        simp
    rw [parseAddr_of_colon (isV6Byte_joinHex hlt) hcolon, parseIPv6_joinHex hgroups hlt, hbytes]
  · rw [if_neg hnone]
    obtain hnone' | ⟨hlong, hend, hparts⟩ := hrun
    · exact absurd hnone' hnone
    generalize longestZeros 0 (groups ip) (255, 255) = best at hlong hend hparts ⊢
    have hpre : ∀ g ∈ (groups ip).take best.1, g < 65536 :=
      fun g hg => hlt g (List.mem_of_mem_take hg)
    have hpost : ∀ g ∈ (groups ip).drop best.2, g < 65536 :=
      fun g hg => hlt g (List.mem_of_mem_drop hg)
    have hsum : ((groups ip).take best.1).length + (best.2 - best.1) +
        ((groups ip).drop best.2).length = 8 := by
      rw [List.length_take, List.length_drop]
      omega
    have htext := parseIPv6_ellipsis hsum (by omega) hpre hpost
    rw [← hparts, hbytes] at htext
    rw [← htext]
    exact parseAddr_of_colon (isV6Byte_ellipsis hpre hpost) (by simp)

theorem parseIPv6_zone {s zone : GoString} {bits : BitVec 128} (hs : 37 ∉ s) (hzone : zone ≠ [])
    (h : parseIPv6 s = .ok (.v6 bits [])) : parseIPv6 (s ++ 37 :: zone) = .ok (.v6 bits zone) := by
  unfold parseIPv6 at h ⊢
  rw [cut_of_not_mem hs] at h
  rw [cut_append hs]
  dsimp only at h ⊢
  rw [if_neg (by simp)] at h
  rw [if_neg (by simp [hzone])]
  -- both take the same way through the groups
  generalize (if s.take 2 = [colon, colon] then s.drop 2 else s) = rest at h ⊢
  split at h
  · rename_i hall
    rw [if_pos hall]
    cases h
    rfl
  · rename_i hall
    rw [if_neg hall]
    split at h
    · cases h
    · split at h <;> cases h
      rfl

/-- A zone is what follows a percent sign. -/
theorem parseAddr_zone {s zone : GoString} {bits : BitVec 128} (hs : 37 ∉ s) (hzone : zone ≠ [])
    (h : parseAddr s = .ok (.v6 bits [])) : parseAddr (s ++ 37 :: zone) = .ok (.v6 bits zone) := by
  unfold parseAddr at h ⊢
  rw [List.find?_append]
  split at h
  · cases h
  rename_i b hfind
  rw [hfind, Option.some_or]
  dsimp only
  split at h
  · unfold parseIPv4 at h
    split at h <;> cases h
  · rename_i hdot
    rw [if_neg hdot]
    split at h
    · rename_i hcolon
      rw [if_pos hcolon, parseIPv6_zone hs hzone h]
    · cases h

/-! ### Decimal fields -/

theorem parseIPv4Fields_digit {d : Nat} {v : IPv4Fields} (hd : d < 10)
    (hzero : ¬ (v.digLen = 1 ∧ v.val = 0)) (hval : v.val * 10 + d ≤ 255) (tail : GoString) :
    parseIPv4Fields (hexDigit d :: tail) v =
      parseIPv4Fields tail
        { val := v.val * 10 + d, digLen := v.digLen + 1, fields := v.fields,
          prev := some (hexDigit d) } := by
  obtain ⟨hdigit, hvalue⟩ := isDigit_hexDigit d hd
  rw [parseIPv4Fields, if_pos hdigit, if_neg hzero, hvalue, if_neg (by omega)]

/-- A field is read up to what follows it. -/
theorem parseIPv4Fields_appendDecimal (b : UInt8) (fields : List UInt8) (prev : Option UInt8)
    (tail : GoString) :
    ∃ digLen, ∃ d < 10, parseIPv4Fields (appendDecimal b.toNat ++ tail) { fields, prev } =
      parseIPv4Fields tail { val := b.toNat, digLen, fields, prev := some (hexDigit d) } := by
  have hb : b.toNat < 256 := b.toNat_lt
  unfold appendDecimal
  by_cases h1 : 100 ≤ b.toNat
  · refine ⟨3, b.toNat % 10, by omega, ?_⟩
    rw [if_pos h1, if_pos (by omega)]
    simp only [List.cons_append, List.nil_append]
    rw [parseIPv4Fields_digit (by omega) (by simp) (by dsimp only; omega),
      parseIPv4Fields_digit (by omega) (by dsimp only; omega) (by dsimp only; omega),
      parseIPv4Fields_digit (by omega) (by simp) (by dsimp only; omega)]
    dsimp only
    rw [show ((0 * 10 + b.toNat / 100) * 10 + b.toNat / 10 % 10) * 10 + b.toNat % 10 = b.toNat by
      omega]
  by_cases h2 : 10 ≤ b.toNat
  · refine ⟨2, b.toNat % 10, by omega, ?_⟩
    rw [if_neg h1, if_pos h2]
    simp only [List.cons_append, List.nil_append]
    rw [parseIPv4Fields_digit (by omega) (by simp) (by dsimp only; omega),
      parseIPv4Fields_digit (by omega) (by dsimp only; omega) (by dsimp only; omega)]
    dsimp only
    rw [show (0 * 10 + b.toNat / 10 % 10) * 10 + b.toNat % 10 = b.toNat by omega]
  · refine ⟨1, b.toNat % 10, by omega, ?_⟩
    rw [if_neg h1, if_neg h2]
    simp only [List.cons_append, List.nil_append]
    rw [parseIPv4Fields_digit (by omega) (by simp) (by dsimp only; omega)]
    dsimp only
    rw [show 0 * 10 + b.toNat % 10 = b.toNat by omega]

theorem appendDecimal_digits (b : UInt8) {c : UInt8} (hc : c ∈ appendDecimal b.toNat) :
    ∃ d < 10, c = hexDigit d := by
  have hb : b.toNat < 256 := b.toNat_lt
  unfold appendDecimal at hc
  rw [List.mem_append, List.mem_append, List.mem_singleton] at hc
  obtain (hc | hc) | rfl := hc
  · split at hc
    · exact ⟨_, by omega, List.mem_singleton.mp hc⟩
    · cases hc
  · split at hc
    · exact ⟨_, by omega, List.mem_singleton.mp hc⟩
    · cases hc
  · exact ⟨_, by omega, rfl⟩

theorem string4_cons_cons (a b : UInt8) (bs : List UInt8) :
    string4 (a :: b :: bs) = appendDecimal a.toNat ++ dot :: string4 (b :: bs) := by
  simp [string4, join, List.intercalate]

theorem string4_singleton (b : UInt8) : string4 [b] = appendDecimal b.toNat := by
  simp [string4, join, List.intercalate]

theorem appendDecimal_ne_nil (x : Nat) : appendDecimal x ≠ [] := by
  unfold appendDecimal
  simp

theorem string4_cons_ne_nil (b : UInt8) (bs : List UInt8) : string4 (b :: bs) ≠ [] := by
  cases bs with
  | nil =>
    rw [string4_singleton]
    exact appendDecimal_ne_nil b.toNat
  | cons b' bs =>
    rw [string4_cons_cons]
    simp

/-- All fields that are left. -/
theorem parseIPv4Fields_string4 {bs fields : List UInt8} {b : UInt8} {prev : Option UInt8}
    (hlen : fields.length + bs.length = 3) :
    parseIPv4Fields (string4 (b :: bs)) { fields, prev } = .ok (fields ++ b :: bs) := by
  induction bs generalizing fields b prev with
  | nil =>
    obtain ⟨digLen, d, hd, hfield⟩ := parseIPv4Fields_appendDecimal b fields prev []
    rw [List.append_nil] at hfield
    rw [string4_singleton, hfield, parseIPv4Fields,
      if_neg (by dsimp only; simp only [List.length_nil] at hlen; omega)]
    simp
  | cons b' bs ih =>
    obtain ⟨digLen, d, hd, hfield⟩ :=
      parseIPv4Fields_appendDecimal b fields prev (dot :: string4 (b' :: bs))
    rw [List.length_cons] at hlen
    have hdot : ¬ (some (hexDigit d) = none ∨ string4 (b' :: bs) = [] ∨
        some (hexDigit d) = some dot) := by
      simp [string4_cons_ne_nil, (hexDigit_notSep d (by omega)).2.1]
    rw [string4_cons_cons, hfield, parseIPv4Fields, if_neg (by decide), if_pos rfl, if_neg hdot,
      if_neg (by dsimp only; omega),
      ih (by simp only [List.length_append, List.length_singleton]; omega)]
    simp

/-- **IPv4 addresses are read back.** -/
theorem parseAddr_string4 (hlen : ip.length = 4) :
    parseAddr (string4 ip) = .ok (.v4 (BitVec.ofNat 32 (bigEndian ip))) := by
  match ip, hlen with
  | b :: b' :: bs, hlen =>
    have hdigits : ∀ c ∈ appendDecimal b.toNat, ¬ (c = dot || c = colon || c = 37) = true := by
      intro c hc
      obtain ⟨d, hd, rfl⟩ := appendDecimal_digits b hc
      obtain ⟨h1, h2, h3⟩ := hexDigit_notSep d (by omega)
      simp [h1, h2, h3]
    have hfind : (string4 (b :: b' :: bs)).find? (fun c => c = dot || c = colon || c = 37) =
        some dot := by
      rw [string4_cons_cons, List.find?_append, List.find?_eq_none.mpr hdigits]
      rfl
    unfold parseAddr
    rw [hfind]
    dsimp only
    have hrest : ([] : List UInt8).length + (b' :: bs).length = 3 := by
      simp only [List.length_cons, List.length_nil] at hlen ⊢
      omega
    rw [if_pos rfl, parseIPv4, parseIPv4Fields_string4 hrest]
    rfl

theorem mem_string4 {c : UInt8} (hc : c ∈ string4 ip) : c = dot ∨ ∃ d < 10, c = hexDigit d := by
  induction ip with
  | nil => cases hc
  | cons b ip ih =>
    cases ip with
    | nil =>
      rw [string4_singleton] at hc
      exact .inr (appendDecimal_digits b hc)
    | cons b' ip =>
      rw [string4_cons_cons, List.mem_append, List.mem_cons] at hc
      obtain hc | rfl | hc := hc
      · exact .inr (appendDecimal_digits b hc)
      · exact .inl rfl
      · exact ih hc

/-- The address that the text of `IP.String` denotes. -/
def ipAddr (ip : List UInt8) : Addr :=
  if ip.length = 4 then .v4 (BitVec.ofNat 32 (bigEndian ip))
  else if v4InV6Prefix <+: ip then .v4 (BitVec.ofNat 32 (bigEndian (ip.drop 12)))
  else .v6 (BitVec.ofNat 128 (bigEndian ip)) []

theorem parseAddr_ipString (hlen : ip.length = 4 ∨ ip.length = 16) :
    parseAddr (ipString ip) = .ok (ipAddr ip) := by
  have hne : ip ≠ [] := by
    rintro rfl
    simp at hlen
  unfold ipString ipAddr
  rw [if_neg hne]
  by_cases h4 : ip.length = 4
  · rw [if_pos h4, if_pos h4, parseAddr_string4 h4]
  · have h16 : ip.length = 16 := hlen.resolve_left h4
    rw [if_neg h4, if_neg h4, if_pos h16]
    by_cases hmapped : v4InV6Prefix <+: ip
    · rw [if_pos hmapped, if_pos hmapped, parseAddr_string4 (by rw [List.length_drop, h16])]
    · rw [if_neg hmapped, if_neg hmapped, parseAddr_string6 h16]

end Glider.Go
