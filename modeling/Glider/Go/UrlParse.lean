/-
URLs (`net/url`): `url.ParseRequestURI` and `url.Parse`, `URL.String` and `URL.RequestURI`.

What a host may consist of is left to a function `parseHost`; the path and the query do not depend
on it.

* `parseRequestURI_spec` — the URLs that come out of a request line.
* `URL.printable_relative` — without scheme and host they are printed without blanks and control
  characters.
* `URL.relative_eq_requestURI_iff` — when this is the form that is used in a request.
-/

import Glider.Go.Net

namespace Glider.Go

/-! ### Escaping -/

/-- The modes of `escape` that are used here. -/
inductive Encoding where
  | path
  | userPassword
  | host
deriving DecidableEq

def isLetter (b : UInt8) : Bool := 97 ≤ b && b ≤ 122 || 65 ≤ b && b ≤ 90

/-- `shouldEscape`. -/
def shouldEscape (c : UInt8) (mode : Encoding) : Bool :=
  if isLetter c || isDigit c then false
  else if mode = .host && (ascii "!$&'()*+,;=:[]<>\"").contains c then false
  else if (ascii "-_.~").contains c then false
  else if (ascii "$&+,/:;=?@").contains c then
    match mode with
    | .path => c = 63
    | .userPassword => c = 64 || c = 47 || c = 63 || c = 58
    | .host => true
  else true

def upperHex (d : Nat) : UInt8 := if d < 10 then (48 + d).toUInt8 else (55 + d).toUInt8

def escapeByte (mode : Encoding) (c : UInt8) : GoString :=
  if shouldEscape c mode then [37, upperHex (c.toNat / 16), upperHex (c.toNat % 16)] else [c]

/-- `escape`. -/
def escape (s : GoString) (mode : Encoding) : GoString := s.flatMap (escapeByte mode)

/-- `unescape`, in a path or a user name; `none` is an `EscapeError`. -/
def unescape : GoString → Option GoString
  | [] => some []
  | c :: rest =>
    if c = 37 then
      match rest with
      | a :: b :: rest =>
        match hexValue a, hexValue b with
        | some x, some y => (unescape rest).map ((x * 16 + y).toUInt8 :: ·)
        | _, _ => none
      | _ => none
    else (unescape rest).map (c :: ·)

/-- `validEncoded`, for a path. -/
def validEncoded (s : GoString) : Bool :=
  s.all fun c => (ascii "!$&'()*+,;=:@[]%").contains c || !shouldEscape c .path

/-! ### URLs -/

inductive UrlError where
  | controlCharacter
  | emptyUrl
  | missingScheme
  | invalidRequestURI
  | colonInFirstSegment
  | invalidUserinfo
  | host (e : String)
  | escape
deriving DecidableEq, Repr

structure Userinfo where
  username : GoString
  password : GoString := []
  passwordSet : Bool := false
deriving DecidableEq, Repr

/-- `Userinfo.String`. -/
def Userinfo.string (u : Userinfo) : GoString :=
  if u.username ≠ [] ∨ u.password ≠ [] then
    escape u.username .userPassword ++
      if u.passwordSet then colon :: escape u.password .userPassword else []
  else []

/-- `url.URL`, without a fragment; `opaq` is its field `Opaque`. -/
structure URL where
  scheme : GoString := []
  opaq : GoString := []
  user : Option Userinfo := none
  host : GoString := []
  path : GoString := []
  rawPath : GoString := []
  omitHost : Bool := false
  forceQuery : Bool := false
  rawQuery : GoString := []
deriving DecidableEq, Repr

namespace URL

/-- `EscapedPath`. -/
def escapedPath (u : URL) : GoString :=
  if u.rawPath ≠ [] ∧ validEncoded u.rawPath ∧ unescape u.rawPath = some u.path then u.rawPath
  else if u.path = ascii "*" then ascii "*"
  else Go.escape u.path .path

/-- The query, with its question mark. -/
def query (u : URL) : GoString :=
  if u.forceQuery ∨ u.rawQuery ≠ [] then 63 :: u.rawQuery else []

/-- User and host. -/
def authority (u : URL) : GoString :=
  if u.scheme ≠ [] ∨ u.host ≠ [] ∨ u.user ≠ none then
    if u.omitHost ∧ u.host = [] ∧ u.user = none then []
    else
      (if u.host ≠ [] ∨ u.path ≠ [] ∨ u.user ≠ none then ascii "//" else []) ++
      (match u.user with
        | some ui => ui.string ++ [64]
        | none => []) ++
      Go.escape u.host .host
  else []

/-- `String`. -/
def string (u : URL) : GoString :=
  let start := if u.scheme ≠ [] then u.scheme ++ [colon] else []
  if u.opaq ≠ [] then start ++ u.opaq ++ u.query
  else
    let start := start ++ u.authority
    let path := u.escapedPath
    let start :=
      if path ≠ [] ∧ path.head? ≠ some 47 ∧ u.host ≠ [] then start ++ [47] else start
    -- a colon in the first segment would end a scheme
    let start := if start = [] ∧ colon ∈ (cut path 47).1 then ascii "./" else start
    start ++ path ++ u.query

/-- `RequestURI`: the form that is used in a request. -/
def requestURI (u : URL) : GoString :=
  let result :=
    if u.opaq = [] then if u.escapedPath = [] then [47] else u.escapedPath
    else if ascii "//" <+: u.opaq then u.scheme ++ colon :: u.opaq
    else u.opaq
  result ++ u.query

/-- `setPath`. -/
def setPath (u : URL) (p : GoString) : Except UrlError URL :=
  match unescape p with
  | none => .error .escape
  | some path => .ok { u with path := path, rawPath := if p = Go.escape path .path then [] else p }

end URL

/-- The loop of `getScheme`: the scheme and what follows it. -/
def getSchemeLoop (rawURL : GoString) :
    (seen : GoString) → GoString → Except UrlError (GoString × GoString)
  | _, [] => .ok ([], rawURL)
  | seen, c :: rest =>
    if isLetter c then getSchemeLoop rawURL (seen ++ [c]) rest
    else if isDigit c || c = 43 || c = 45 || c = 46 then
      if seen = [] then .ok ([], rawURL) else getSchemeLoop rawURL (seen ++ [c]) rest
    else if c = colon then if seen = [] then .error .missingScheme else .ok (seen, rest)
    else .ok ([], rawURL)

/-- `strings.ToLower`, of ASCII text. -/
def lowerASCII (s : GoString) : GoString := s.map fun b => if 65 ≤ b && b ≤ 90 then b + 32 else b

/-- `validUserinfo`. -/
def validUserinfo (s : GoString) : Bool :=
  s.all fun b => isLetter b || isDigit b || (ascii "-._:~!$&'()*+,;=%@").contains b

section

variable (parseHost : GoString → Except String GoString)

def parseUserinfo (userinfo : GoString) : Except UrlError Userinfo :=
  if ¬ validUserinfo userinfo then .error .invalidUserinfo
  else
    match cut userinfo colon with
    | (name, _, false) =>
      match unescape name with
      | some username => .ok { username }
      | none => .error .escape
    | (name, pass, true) =>
      match unescape name, unescape pass with
      | some username, some password => .ok { username, password, passwordSet := true }
      | _, _ => .error .escape

/-- `parseAuthority`. -/
def parseAuthority (authority : GoString) : Except UrlError (Option Userinfo × GoString) :=
  match lastIndexByte authority 64 with
  | none =>
    match parseHost authority with
    | .error e => .error (.host e)
    | .ok host => .ok (none, host)
  | some i =>
    match parseHost (authority.drop (i + 1)) with
    | .error e => .error (.host e)
    | .ok host =>
      match parseUserinfo (authority.take i) with
      | .error e => .error e
      | .ok user => .ok (some user, host)

/-- The query of a URL, and what stands before it. -/
def cutQuery (u : URL) (rest : GoString) : GoString × URL :=
  if rest.getLast? = some 63 ∧ rest.count 63 = 1 then (rest.dropLast, { u with forceQuery := true })
  else
    let (rest, rawQuery, _) := cut rest 63
    (rest, { u with rawQuery })

/-- The part of `parse` after scheme and query. -/
def parseRest (viaRequest : Bool) (u : URL) (rest : GoString) : Except UrlError URL :=
  if rest.head? ≠ some 47 ∧ u.scheme ≠ [] then .ok { u with opaq := rest }
  else if rest.head? ≠ some 47 ∧ viaRequest then .error .invalidRequestURI
  else if rest.head? ≠ some 47 ∧ colon ∈ (cut rest 47).1 then .error .colonInFirstSegment
  else if (u.scheme ≠ [] ∨ ¬ viaRequest ∧ ¬ ascii "///" <+: rest) ∧ ascii "//" <+: rest then
    match parseAuthority parseHost ((rest.drop 2).takeWhile (· ≠ 47)) with
    | .error e => .error e
    | .ok (user, host) =>
      { u with user, host }.setPath ((rest.drop 2).dropWhile (· ≠ 47))
  else { u with omitHost := u.scheme ≠ [] ∧ rest.head? = some 47 }.setPath rest

/-- `parse`. -/
def parseURL (viaRequest : Bool) (rawURL : GoString) : Except UrlError URL :=
  if rawURL.any fun b => b < 32 || b = 127 then .error .controlCharacter
  else if rawURL = [] ∧ viaRequest then .error .emptyUrl
  else if rawURL = ascii "*" then .ok { path := ascii "*" }
  else
    match getSchemeLoop rawURL [] rawURL with
    | .error e => .error e
    | .ok (scheme, rest) =>
      match cutQuery { scheme := lowerASCII scheme } rest with
      | (rest, u) => parseRest parseHost viaRequest u rest

/-- `url.ParseRequestURI`. -/
def parseRequestURI (rawURL : GoString) : Except UrlError URL := parseURL parseHost true rawURL

/-- `url.Parse`; the fragment is checked and left out. -/
def parseURLReference (rawURL : GoString) : Except UrlError URL :=
  match cut rawURL 35 with
  | (rest, frag, _) =>
    match parseURL parseHost false rest with
    | .error e => .error e
    | .ok u => if unescape frag = none then .error .escape else .ok u

end

example : ((parseRequestURI .ok (ascii "http://u:p@h:8080/a%20b?c=d")).map fun u =>
    (u.string, u.requestURI)) =
      .ok (ascii "http://u:p@h:8080/a%20b?c=d", ascii "/a%20b?c=d") := by decide +kernel

/-! ### Printed bytes -/

/-- No blank and no control character. -/
def Printable (s : GoString) : Prop := ∀ b ∈ s, 32 < b ∧ b ≠ 127

theorem printable_append {s t : GoString} (hs : Printable s) (ht : Printable t) :
    Printable (s ++ t) :=
  fun b hb => (List.mem_append.mp hb).elim (hs b) (ht b)

theorem printable_nil : Printable [] := fun b hb => by cases hb

/-- A byte that need not be escaped. -/
theorem printable_of_not_shouldEscape {c : UInt8} {mode : Encoding}
    (h : shouldEscape c mode = false) : 32 < c ∧ c ≠ 127 := by
  have hmem : ∀ s : GoString, Printable s → s.contains c = true → 32 < c ∧ c ≠ 127 := fun s hs hc =>
    hs c (List.contains_iff_mem.mp hc)
  unfold shouldEscape at h
  split at h
  · rename_i halnum
    simp only [isLetter, isDigit, Bool.or_eq_true, Bool.and_eq_true, decide_eq_true_eq,
      UInt8.le_iff_toNat_le, UInt8.reduceToNat] at halnum
    refine ⟨UInt8.lt_iff_toNat_lt.mpr (by simp only [UInt8.reduceToNat]; omega), ?_⟩
    rintro rfl
    simp at halnum
  split at h
  · rename_i hhost
    rw [Bool.and_eq_true] at hhost
    exact hmem _ (by unfold Printable; decide +kernel) hhost.2
  split at h
  · rename_i hmark
    exact hmem _ (by unfold Printable; decide +kernel) hmark
  split at h
  · rename_i hreserved
    exact hmem _ (by unfold Printable; decide +kernel) hreserved
  · cases h

theorem printable_escape (s : GoString) (mode : Encoding) : Printable (escape s mode) := by
  have hhex : ∀ d < 16, 32 < upperHex d ∧ upperHex d ≠ 127 := by decide
  intro b hb
  obtain ⟨c, -, hc⟩ := List.mem_flatMap.mp hb
  have hlt : c.toNat < 256 := c.toNat_lt
  unfold escapeByte at hc
  split at hc
  · simp only [List.mem_cons, List.not_mem_nil, or_false] at hc
    obtain rfl | rfl | rfl := hc
    · decide
    · exact hhex _ (by omega)
    · exact hhex _ (by omega)
  · rename_i hkeep
    rw [List.mem_singleton.mp hc]
    exact printable_of_not_shouldEscape (Bool.eq_false_iff.mpr hkeep)

theorem printable_of_validEncoded {s : GoString} (h : validEncoded s = true) : Printable s := by
  intro b hb
  have hb := List.all_eq_true.mp h b hb
  rw [Bool.or_eq_true] at hb
  obtain hmem | hkeep := hb
  · have hlist : Printable (ascii "!$&'()*+,;=:@[]%") := by unfold Printable; decide +kernel
    exact hlist b (List.contains_iff_mem.mp hmem)
  · exact printable_of_not_shouldEscape (by simpa using hkeep)

theorem printable_userinfo (u : Userinfo) : Printable u.string := by
  unfold Userinfo.string
  split
  · refine printable_append (printable_escape _ _) ?_
    split
    · intro b hb
      obtain rfl | hb := List.mem_cons.mp hb
      · decide
      · exact printable_escape _ _ b hb
    · exact printable_nil
  · exact printable_nil

namespace URL

theorem printable_escapedPath (u : URL) : Printable u.escapedPath := by
  unfold escapedPath
  split
  · rename_i h
    exact printable_of_validEncoded h.2.1
  · split
    · unfold Printable
      decide +kernel
    · exact printable_escape _ _

/-! ### Paths -/

theorem unescape_cons_of_ne {c : UInt8} (hc : c ≠ 37) (rest : GoString) :
    unescape (c :: rest) = (unescape rest).map (c :: ·) := by
  conv => lhs; unfold unescape
  rw [if_neg hc]

theorem unescape_eq_nil {s : GoString} (h : unescape s = some []) : s = [] := by
  match s with
  | [] => rfl
  | c :: rest =>
    by_cases hc : c = 37
    · match rest with
      | [] | [_] => simp [unescape, hc] at h
      | a :: b :: rest =>
        unfold unescape at h
        rw [if_pos hc] at h
        dsimp only at h
        split at h
        · simp at h
        · cases h
    · rw [unescape_cons_of_ne hc] at h
      simp at h

theorem escape_eq_nil {s : GoString} {mode : Encoding} (h : Go.escape s mode = []) : s = [] := by
  cases s with
  | nil => rfl
  | cons c rest =>
    have hbyte := (List.append_eq_nil_iff.mp h).1
    unfold escapeByte at hbyte
    split at hbyte <;> cases hbyte

theorem escapedPath_eq_nil_iff (u : URL) : u.escapedPath = [] ↔ u.path = [] := by
  unfold escapedPath
  split
  · rename_i hraw
    refine ⟨fun h => absurd h hraw.1, fun h => ?_⟩
    rw [h] at hraw
    exact unescape_eq_nil hraw.2.2
  · split
    · rename_i hstar
      rw [hstar]
    · exact ⟨escape_eq_nil, fun h => by rw [h]; rfl⟩

/-- A path is empty or starts with a slash; so it is printed. -/
theorem escapedPath_setPath {u u' : URL} {p : GoString} (hp : p = [] ∨ p.head? = some 47)
    (h : u.setPath p = .ok u') : u'.escapedPath = [] ∨ u'.escapedPath.head? = some 47 := by
  unfold setPath at h
  split at h
  · cases h
  rename_i path hpath
  cases h
  obtain rfl | hhead := hp
  · cases hpath
    exact .inl rfl
  · refine .inr ?_
    cases p with
    | nil => cases hhead
    | cons c rest =>
      obtain rfl : c = 47 := Option.some.inj hhead
      rw [unescape_cons_of_ne (by decide), Option.map_eq_some_iff] at hpath
      obtain ⟨tail, -, rfl⟩ := hpath
      have hstar : ¬ 47 :: tail = ascii "*" := fun h => absurd (List.cons.inj h).1 (by decide)
      unfold escapedPath
      dsimp only
      by_cases hsame : 47 :: rest = Go.escape (47 :: tail) .path
      · rw [if_pos hsame, if_neg (fun h => h.1 rfl), if_neg hstar]
        rfl
      · rw [if_neg hsame]
        split
        · rfl
        · rfl

end URL

/-! ### Request lines -/

theorem getSchemeLoop_suffix {rawURL seen s scheme rest : GoString} (hs : s <:+ rawURL)
    (h : getSchemeLoop rawURL seen s = .ok (scheme, rest)) : rest <:+ rawURL := by
  induction s generalizing seen with
  | nil =>
    cases h
    exact List.suffix_rfl
  | cons c s ih =>
    have hs' : s <:+ rawURL := (List.suffix_cons c s).trans hs
    rw [getSchemeLoop] at h
    split at h
    · exact ih hs' h
    split at h
    · split at h
      · cases h
        exact List.suffix_rfl
      · exact ih hs' h
    split at h
    · split at h <;> cases h
      exact hs'
    · cases h
      exact List.suffix_rfl

theorem cutQuery_spec {u u' : URL} {s rest : GoString} (hu : u.rawQuery = [])
    (h : cutQuery u s = (rest, u')) :
    rest ⊆ s ∧ u'.rawQuery ⊆ s ∧
      u' = { u with forceQuery := u'.forceQuery, rawQuery := u'.rawQuery } := by
  unfold cutQuery at h
  split at h
  · cases h
    refine ⟨List.dropLast_subset s, ?_, rfl⟩
    dsimp only
    rw [hu]
    exact List.nil_subset s
  · obtain ⟨pre, post, rfl, hpre, hcut⟩ | ⟨-, hcut⟩ := cut_cases s 63
    · rw [hcut] at h
      cases h
      refine ⟨List.subset_append_left _ _, ?_, rfl⟩
      exact List.Subset.trans (List.subset_cons_self 63 _) (List.subset_append_right _ _)
    · rw [hcut] at h
      cases h
      exact ⟨List.Subset.refl _, List.nil_subset s, rfl⟩

/-- A URL from a request line. -/
structure RequestURL (rawURL : GoString) (u : URL) : Prop where
  query_subset : u.rawQuery ⊆ rawURL
  opaq_subset : u.opaq ⊆ rawURL
  opaq_head : u.opaq.head? ≠ some 47
  path_head : u.escapedPath = [] ∨ u.escapedPath = ascii "*" ∨ u.escapedPath.head? = some 47
  relative : u.scheme = [] → u.host = [] ∧ u.user = none ∧ u.path ≠ []

theorem setPath_spec {u u' : URL} {p : GoString} (h : u.setPath p = .ok u') :
    u' = { u with path := u'.path, rawPath := u'.rawPath } ∧ (u'.path = [] → p = []) := by
  unfold URL.setPath at h
  split at h <;> cases h
  rename_i path hpath
  refine ⟨rfl, fun hnil => ?_⟩
  dsimp only at hnil
  rw [hnil] at hpath
  exact URL.unescape_eq_nil hpath

theorem parseRest_spec {parseHost : GoString → Except String GoString} {rawURL rest : GoString}
    {u u' : URL} (hrest : rest ⊆ rawURL) (hquery : u.rawQuery ⊆ rawURL)
    (hu : u = { scheme := u.scheme, forceQuery := u.forceQuery, rawQuery := u.rawQuery })
    (h : parseRest parseHost true u rest = .ok u') : RequestURL rawURL u' := by
  have hopaq : u.opaq = [] ∧ u.host = [] ∧ u.user = none ∧ u.path = [] ∧ u.rawPath = [] := by
    rw [hu]
    exact ⟨rfl, rfl, rfl, rfl, rfl⟩
  unfold parseRest at h
  split at h
  · rename_i hrootless
    cases h
    refine ⟨hquery, hrest, hrootless.1, .inl ?_, fun hscheme => absurd hscheme hrootless.2⟩
    exact (URL.escapedPath_eq_nil_iff _).mpr hopaq.2.2.2.1
  split at h
  · cases h
  rename_i hslash
  have hhead : rest.head? = some 47 := by
    by_contra hne
    exact hslash ⟨hne, rfl⟩
  split at h
  · cases h
  split at h
  · rename_i hauthority
    have hscheme : u.scheme ≠ [] := hauthority.1.resolve_right fun h => h.1 rfl
    split at h
    · cases h
    rename_i user host hparse
    obtain ⟨heq, -⟩ := setPath_spec h
    have hafter : (rest.drop 2).dropWhile (· ≠ 47) = [] ∨
        ((rest.drop 2).dropWhile (· ≠ 47)).head? = some 47 := by
      cases hdrop : (rest.drop 2).dropWhile (· ≠ 47) with
      | nil => exact .inl rfl
      | cons c tail =>
        have hc := List.head?_dropWhile_not (fun b : UInt8 => decide (b ≠ 47)) (rest.drop 2)
        rw [hdrop] at hc
        simp at hc
        exact .inr (by rw [hc]; rfl)
    refine ⟨?_, ?_, ?_, ?_, ?_⟩
    · rw [heq]; exact hquery
    · rw [heq]; dsimp only; rw [hopaq.1]; exact List.nil_subset _
    · rw [heq]; dsimp only; rw [hopaq.1]; simp
    · exact (URL.escapedPath_setPath hafter h).imp_right .inr
    · intro hnil
      rw [heq] at hnil
      exact absurd hnil hscheme
  · obtain ⟨heq, hpath⟩ := setPath_spec h
    refine ⟨?_, ?_, ?_, ?_, ?_⟩
    · rw [heq]; exact hquery
    · rw [heq]; dsimp only; rw [hopaq.1]; exact List.nil_subset _
    · rw [heq]; dsimp only; rw [hopaq.1]; simp
    · exact (URL.escapedPath_setPath (.inr hhead) h).imp_right .inr
    · intro _
      refine ⟨by rw [heq]; exact hopaq.2.1, by rw [heq]; exact hopaq.2.2.1, fun hnil => ?_⟩
      rw [hpath hnil] at hhead
      cases hhead

/-- The URLs that come out of a request line. -/
theorem parseRequestURI_spec {parseHost : GoString → Except String GoString} {rawURL : GoString}
    {u : URL} (h : parseRequestURI parseHost rawURL = .ok u) :
    RequestURL rawURL u ∧ ∀ b ∈ rawURL, 32 ≤ b ∧ b ≠ 127 := by
  unfold parseRequestURI parseURL at h
  split at h
  · cases h
  rename_i hctl
  refine ⟨?_, fun b hb => ?_⟩
  swap
  · have hb' : ¬ (b < 32 || b = 127) = true := fun hb' => hctl (List.any_eq_true.mpr ⟨b, hb, hb'⟩)
    simp only [Bool.or_eq_true, decide_eq_true_eq, not_or] at hb'
    exact ⟨UInt8.not_lt.mp hb'.1, hb'.2⟩
  split at h
  · cases h
  split at h
  · cases h
    exact ⟨List.nil_subset _, List.nil_subset _, by simp, .inr (.inl (by decide)),
      fun _ => ⟨rfl, rfl, by decide⟩⟩
  split at h
  · cases h
  rename_i scheme rest hscheme
  have hsuffix := getSchemeLoop_suffix List.suffix_rfl hscheme
  cases hquery : cutQuery { scheme := lowerASCII scheme } rest with
  | mk rest' u₁ =>
    rw [hquery] at h
    obtain ⟨hrest, hraw, heq⟩ := cutQuery_spec rfl hquery
    refine parseRest_spec (List.Subset.trans hrest hsuffix.subset)
      (List.Subset.trans hraw hsuffix.subset) ?_ h
    rw [heq]

namespace URL

variable {rawURL : GoString} {u : URL}

/-- A URL from a request line, without its scheme and host. -/
theorem string_relative (h : RequestURL rawURL u) :
    { u with scheme := [], host := [] }.string =
      (if u.opaq ≠ [] then u.opaq
        else (match u.user with
          | some ui => ascii "//" ++ ui.string ++ [64]
          | none => []) ++ u.escapedPath) ++ u.query := by
  have hcolon : colon ∉ (cut u.escapedPath 47).1 := by
    obtain hpath | hpath | hpath := h.path_head
    · rw [hpath]; decide
    · rw [hpath]; decide
    · cases hescaped : u.escapedPath with
      | nil => rw [hescaped] at hpath; cases hpath
      | cons c tail =>
        rw [hescaped] at hpath
        obtain rfl : c = 47 := Option.some.inj hpath
        rw [show (47 : UInt8) :: tail = [] ++ 47 :: tail from rfl, cut_append (List.not_mem_nil)]
        exact List.not_mem_nil
  have hauthority : { u with scheme := [], host := [] }.authority =
      match u.user with
      | some ui => ascii "//" ++ ui.string ++ [64]
      | none => [] := by
    unfold authority
    cases huser : u.user with
    | none => simp
    | some ui => simp [Go.escape]
  have hescaped : { u with scheme := [], host := [] }.escapedPath = u.escapedPath := rfl
  have hquery : { u with scheme := [], host := [] }.query = u.query := rfl
  unfold string
  dsimp only
  rw [hauthority, hescaped, hquery]
  by_cases hopaq : u.opaq = []
  · simp [hopaq, hcolon]
  · simp [hopaq]

/-- The request target is in the form that is used in a request, unless there is a user or no
path. -/
theorem relative_eq_requestURI_iff (h : RequestURL rawURL u) :
    { u with scheme := [], host := [] }.string = u.requestURI ↔
      u.opaq ≠ [] ∨ u.user = none ∧ u.path ≠ [] := by
  have hslashes : ascii "//" = [47, 47] := by decide
  rw [string_relative h]
  unfold requestURI
  by_cases hopaq : u.opaq = []
  · rw [if_neg (not_not_intro hopaq), if_pos hopaq, List.append_left_inj]
    simp only [hopaq, ne_eq, not_true_eq_false, false_or, ← u.escapedPath_eq_nil_iff]
    cases huser : u.user with
    | none =>
      by_cases hpath : u.escapedPath = []
      · simp [hpath]
      · simp [hpath]
    | some ui =>
      -- the user makes the target longer
      refine ⟨fun heq => ?_, fun hnone => by cases hnone.1⟩
      dsimp only at heq
      have hlength := congrArg List.length heq
      rw [hslashes] at hlength
      by_cases hpath : u.escapedPath = []
      · rw [if_pos hpath] at hlength
        simp [hpath] at hlength
      · rw [if_neg hpath] at hlength
        simp only [List.length_append, List.length_cons, List.length_nil] at hlength
        omega
  · have hslash : ¬ ascii "//" <+: u.opaq := by
      rw [hslashes]
      rintro ⟨tail, htail⟩
      apply h.opaq_head
      rw [← htail]
      rfl
    rw [if_pos hopaq, if_neg hopaq, if_neg hslash]
    simp [hopaq]

/-- The printed request target has no blanks and no control characters. -/
theorem printable_relative (h : RequestURL rawURL u) (hraw : Printable rawURL) :
    Printable { u with scheme := [], host := [] }.string := by
  have hquery : Printable u.query := by
    unfold query
    split
    · intro b hb
      obtain rfl | hb := List.mem_cons.mp hb
      · decide
      · exact hraw b (h.query_subset hb)
    · exact printable_nil
  rw [string_relative h]
  refine printable_append ?_ hquery
  split
  · exact fun b hb => hraw b (h.opaq_subset hb)
  · refine printable_append ?_ u.printable_escapedPath
    split
    · refine printable_append (printable_append ?_ (printable_userinfo _)) ?_
      · unfold Printable
        decide +kernel
      · unfold Printable
        decide +kernel
    · exact printable_nil

end URL

end Glider.Go
