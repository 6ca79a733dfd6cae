/-
What the HTTP proxy dials for a request (`proxy/http/request.go`, `parseRequest`).

The target is the host of the request's URI, with `:80` if it has no colon anywhere. A URI in
origin form has no host, and the colons of an IPv6 address are taken for that of a port.

* `host_of_absolute`, `host_of_origin` — the host of the URI in both forms.
* `target_iff` — the target is the authority that was asked for exactly in absolute form with a
  port, or without one and with no IPv6 address.
-/

import Glider.Go.HostPort
import Glider.Http.Request

namespace Glider.Http

open Glider.Go

/-! ### Authorities -/

/-- The bytes of a host: no delimiter of a URI but the colons of an IPv6 address. -/
def HostByte (b : UInt8) : Prop :=
  b ≠ 47 ∧ b ≠ 63 ∧ b ≠ 64 ∧ b ≠ openBracket ∧ b ≠ closeBracket

/-- A host, without the brackets of an IPv6 address, and the text of a port if there is a
colon for it. -/
structure Authority where
  host : GoString
  port : Option GoString
  host_ne_nil : host ≠ []
  host_bytes : ∀ b ∈ host, HostByte b
  port_digits : ∀ p ∈ port, ∀ b ∈ p, isDigit b = true

namespace Authority

variable (a : Authority)

/-- An authority as it is written; a host with colons is an IPv6 address, in brackets. -/
def text : GoString :=
  match a.port with
  | some port => joinHostPort a.host port
  | none => if colon ∈ a.host then openBracket :: a.host ++ [closeBracket] else a.host

/-- The port that is asked for. -/
def requestedPort : GoString :=
  match a.port with
  | some port => if port = [] then ascii "80" else port
  | none => ascii "80"

/-- The authority has a port, or none and a host without colons. -/
def Plain : Prop :=
  match a.port with
  | some port => port ≠ []
  | none => colon ∉ a.host

theorem noBrackets_host : NoBrackets a.host :=
  ⟨fun h => (a.host_bytes _ h).2.2.2.1 rfl, fun h => (a.host_bytes _ h).2.2.2.2 rfl⟩

/-- A byte that is neither a digit nor a delimiter of a port or of an address occurs in no
authority. -/
theorem notMem_text {b : UInt8} (hhost : b ∉ a.host) (hdigit : isDigit b = false)
    (hopen : b ≠ openBracket) (hclose : b ≠ closeBracket) (hcolon : b ≠ colon) : b ∉ a.text := by
  have hport : ∀ p ∈ a.port, b ∉ p := by
    intro p hp hmem
    rw [a.port_digits p hp b hmem] at hdigit
    cases hdigit
  unfold text
  cases h : a.port with
  | some p =>
    have hp : b ∉ p := hport p (by rw [h]; rfl)
    dsimp only [joinHostPort]
    split <;> simp [hhost, hopen, hclose, hcolon, hp]
  | none =>
    dsimp only
    split <;> simp [hhost, hopen, hclose]

theorem slash_notMem_text : (47 : UInt8) ∉ a.text :=
  a.notMem_text (fun h => (a.host_bytes _ h).1 rfl) (by decide) (by decide) (by decide) (by decide)

theorem question_notMem_text : (63 : UInt8) ∉ a.text :=
  a.notMem_text (fun h => (a.host_bytes _ h).2.1 rfl) (by decide) (by decide) (by decide)
    (by decide)

theorem at_notMem_text : (64 : UInt8) ∉ a.text :=
  a.notMem_text (fun h => (a.host_bytes _ h).2.2.1 rfl) (by decide) (by decide) (by decide)
    (by decide)

end Authority

/-! ### Hosts of URIs -/

section

variable {parseHost : GoString → Except String GoString}

/-- The path of an absolute URI survives the cut of its query. -/
theorem cutQuery_absolute {u u' : URL} {auth path rest : GoString} (hauth : (63 : UInt8) ∉ auth)
    (h : cutQuery u (47 :: 47 :: auth ++ 47 :: path) = (rest, u')) :
    u'.scheme = u.scheme ∧ ∃ path', rest = 47 :: 47 :: auth ++ 47 :: path' := by
  unfold cutQuery at h
  split at h
  · rename_i hforce
    cases h
    refine ⟨rfl, path.dropLast, ?_⟩
    have hpath : path ≠ [] := by
      rintro rfl
      have hlast := hforce.1
      rw [List.getLast?_concat] at hlast
      cases hlast
    rw [List.dropLast_append_of_ne_nil (List.cons_ne_nil _ _), List.dropLast_cons_of_ne_nil hpath]
  · obtain ⟨pre, post, rfl, hpre, -⟩ | ⟨hpath, -⟩ := cut_cases path 63
    · have hcut : cut (47 :: 47 :: auth ++ 47 :: (pre ++ 63 :: post)) 63 =
          (47 :: 47 :: auth ++ 47 :: pre, post, true) := by
        rw [← List.cons_append, ← List.append_assoc]
        apply cut_append
        simp [hauth, hpre]
      rw [hcut] at h
      cases h
      exact ⟨rfl, pre, rfl⟩
    · have hcut : cut (47 :: 47 :: auth ++ 47 :: path) 63 =
          (47 :: 47 :: auth ++ 47 :: path, [], false) := by
        apply cut_of_not_mem
        simp [hauth, hpath]
      rw [hcut] at h
      cases h
      exact ⟨rfl, path, rfl⟩

theorem getSchemeLoop_http (rest : GoString) :
    getSchemeLoop (ascii "http:" ++ rest) [] (ascii "http:" ++ rest) =
      .ok (ascii "http", rest) := by
  rfl

theorem setPath_host {u u' : URL} {p : GoString} (h : u.setPath p = .ok u') :
    u'.host = u.host ∧ u'.scheme = u.scheme := by
  rw [(setPath_spec h).1]
  exact ⟨rfl, rfl⟩

/-- **The host of an absolute URI** is what `net/url` makes of its authority. -/
theorem host_of_absolute {auth path host : GoString} {u : URL} (hslash : (47 : UInt8) ∉ auth)
    (hquestion : (63 : UInt8) ∉ auth) (hat : (64 : UInt8) ∉ auth)
    (hhost : parseHost auth = .ok host)
    (h : parseRequestURI parseHost (ascii "http://" ++ auth ++ 47 :: path) = .ok u) :
    u.host = host := by
  have huri : ascii "http://" ++ auth ++ 47 :: path =
      ascii "http:" ++ (47 :: 47 :: auth ++ 47 :: path) := rfl
  rw [huri] at h
  unfold parseRequestURI parseURL at h
  split at h
  · cases h
  split at h
  · cases h
  split at h
  · rename_i hstar
    cases hstar
  rw [getSchemeLoop_http] at h
  dsimp only at h
  cases hquery : cutQuery { scheme := lowerASCII (ascii "http") }
      (47 :: 47 :: auth ++ 47 :: path) with
  | mk rest u₁ =>
    obtain ⟨hscheme, path', rfl⟩ := cutQuery_absolute hquestion hquery
    have hne : u₁.scheme ≠ [] := by
      rw [hscheme]
      decide
    have htake : ((47 :: 47 :: auth ++ 47 :: path').drop 2).takeWhile (· ≠ 47) = auth := by
      have hall : ∀ b ∈ auth, decide (b ≠ 47) = true := by
        intro b hb
        rw [decide_eq_true_eq]
        rintro rfl
        exact hslash hb
      have hdrop : (47 :: 47 :: auth ++ 47 :: path').drop 2 = auth ++ 47 :: path' := rfl
      rw [hdrop, List.takeWhile_append_of_pos hall, List.takeWhile_cons_of_neg (by decide),
        List.append_nil]
    have hauthority : parseAuthority parseHost auth = .ok (none, host) := by
      rw [parseAuthority, lastIndexByte_eq_none_iff.mpr hat]
      dsimp only
      rw [hhost]
    rw [hquery] at h
    simp only [parseRest, htake, hauthority] at h
    simp [hne] at h
    exact (setPath_host h).1

/-- **A URI in origin form has no host.** -/
theorem host_of_origin {path : GoString} {u : URL}
    (h : parseRequestURI parseHost (47 :: path) = .ok u) : u.host = [] := by
  apply ((parseRequestURI_spec h).1.relative _).1
  unfold parseRequestURI parseURL at h
  split at h
  · cases h
  split at h
  · cases h
  split at h
  · rename_i hstar
    cases hstar
  have hscheme : getSchemeLoop (47 :: path) [] (47 :: path) = .ok ([], 47 :: path) := rfl
  rw [hscheme] at h
  dsimp only at h
  cases hquery : cutQuery { scheme := lowerASCII [] } (47 :: path) with
  | mk rest u₁ =>
    have hnil : u₁.scheme = [] := by
      rw [(cutQuery_spec rfl hquery).2.2]
      rfl
    rw [hquery] at h
    unfold parseRest at h
    simp only [hnil, ne_eq, not_true_eq_false, and_false, if_false, false_and, or_self] at h
    split at h
    · cases h
    split at h
    · cases h
    · exact (setPath_host h).2

end

/-! ### Targets -/

/-- The form of a request, by its URI. -/
inductive Form where
  | absolute
  | origin
deriving DecidableEq, Repr

/-- The request asks for the authority: in its URI, or in its Host field. -/
inductive AsksFor (req : Request) (a : Authority) : Form → Prop where
  | absolute {path : GoString} (huri : req.uri = ascii "http://" ++ a.text ++ 47 :: path) :
    AsksFor req a .absolute
  | origin {path : GoString} (huri : req.uri = 47 :: path)
    (hhost : req.header.get (ascii "Host") = a.text) : AsksFor req a .origin

/-- The target splits into the host and the port that are asked for. -/
def DialsAuthority (req : Request) (a : Authority) : Prop :=
  splitHostPort req.target = .ok (a.host, a.requestedPort)

/-- An IPv6 address in brackets cannot be split without a port. -/
theorem splitHostPort_bracketed {host : GoString} (hcolon : colon ∈ host)
    (hbrackets : NoBrackets host) :
    splitHostPort (openBracket :: host ++ [closeBracket]) =
      .error ⟨missingPort, openBracket :: host ++ [closeBracket]⟩ := by
  have hmem : colon ∈ openBracket :: host ++ [closeBracket] := by simp [hcolon]
  obtain ⟨i, hlast⟩ :
      ∃ i, lastIndexByte (openBracket :: host ++ [closeBracket]) colon = some i := by
    cases hlast : lastIndexByte (openBracket :: host ++ [closeBracket]) colon with
    | some i => exact ⟨i, rfl⟩
    | none => exact absurd hmem (lastIndexByte_eq_none_iff.mp hlast)
  have hclose : indexByte (openBracket :: host ++ [closeBracket]) closeBracket =
      some (host.length + 1) := by
    have hpre : closeBracket ∉ openBracket :: host := by
      rw [List.mem_cons, not_or]
      exact ⟨by decide, hbrackets.2⟩
    exact indexByte_append hpre []
  have hend : host.length + 1 + 1 = (openBracket :: host ++ [closeBracket]).length := by simp
  have hfirst : (openBracket :: host ++ [closeBracket])[0]? = some openBracket := rfl
  rw [splitHostPort, hlast]
  dsimp only
  rw [splitHost, if_pos hfirst, hclose]
  dsimp only
  rw [if_pos hend]

/-- The target made of an authority. -/
theorem split_target_iff (a : Authority) :
    splitHostPort (if colon ∈ a.text then a.text else a.text ++ ascii ":80") =
        .ok (a.host, a.requestedPort) ↔ a.Plain := by
  have split : ∀ {port : GoString}, (∀ b ∈ port, isDigit b = true) →
      splitHostPort (joinHostPort a.host port) = .ok (a.host, port) := by
    intro port hdigits
    have hnot : ∀ c, isDigit c = false → c ∉ port := by
      intro c hc hmem
      rw [hdigits c hmem] at hc
      cases hc
    exact splitHostPort_joinHostPort a.noBrackets_host ⟨hnot _ rfl, hnot _ rfl⟩ (hnot _ rfl)
  unfold Authority.text Authority.requestedPort Authority.Plain
  cases hport : a.port with
  | some port =>
    have hcolon : colon ∈ joinHostPort a.host port := by
      unfold joinHostPort
      split <;> simp
    dsimp only
    rw [if_pos hcolon, split (a.port_digits port (by rw [hport]; rfl))]
    by_cases hnil : port = []
    · simp [hnil, ascii]
    · simp [hnil]
  | none =>
    dsimp only
    by_cases hcolon : colon ∈ a.host
    · -- an IPv6 address in brackets has a colon, so it gets no port
      have hmem : colon ∈ openBracket :: a.host ++ [closeBracket] := by simp [hcolon]
      rw [if_pos hcolon, if_pos hmem, splitHostPort_bracketed hcolon a.noBrackets_host]
      simp [hcolon]
    · have hjoin : a.host ++ ascii ":80" = joinHostPort a.host (ascii "80") := by
        rw [joinHostPort, if_neg hcolon]
        rfl
      rw [if_neg hcolon, if_neg hcolon, hjoin, split (by decide +kernel)]
      simp [hcolon]

/-- **The dial target.** For every request that is not CONNECT, in absolute or in origin form,
with an authority that `net/url` takes as it is written: the target is that authority, with 80
for a port that is not given, exactly in absolute form with a port, or with no port and
no IPv6 address. -/
theorem target_iff (parseHost : GoString → Except String GoString) (r r' : Source) (req : Request)
    (h : parseRequest parseHost r = .ok (req, r')) (hmethod : req.method ≠ ascii "CONNECT")
    (a : Authority) (taken : parseHost a.text = .ok a.text) (form : Form)
    (asks : AsksFor req a form) :
    DialsAuthority req a ↔ form = .absolute ∧ a.Plain := by
  obtain ⟨-, -, -, u, -, -, -, -, hparse, htarget, -⟩ := parseRequest_ok h hmethod
  unfold DialsAuthority
  rw [htarget]
  cases asks with
  | absolute huri =>
    rw [huri] at hparse
    have hhost : u.host = a.text := host_of_absolute a.slash_notMem_text a.question_notMem_text
      a.at_notMem_text taken hparse
    rw [hhost, split_target_iff]
    simp
  | origin huri _ =>
    rw [huri] at hparse
    have hempty : splitHostPort (ascii ":80") = .ok ([], ascii "80") := by decide
    rw [host_of_origin hparse]
    constructor
    · intro hsplit
      have hnil : ([], ascii "80") = (a.host, a.requestedPort) :=
        Except.ok.inj (hempty.symm.trans hsplit)
      exact absurd (congrArg Prod.fst hnil).symm a.host_ne_nil
    · rintro ⟨hform, -⟩
      cases hform

/-- A request for a URI, with a Host field. -/
def get (uri host : String) : Source :=
  ⟨ascii "GET " ++ ascii uri ++ ascii " HTTP/1.1\r\nHost: " ++ ascii host ++ ascii "\r\n\r\n", .eof⟩

/-- What `parseRequest` makes of it. -/
def got (uri host target ruri : String) : Request :=
  ⟨ascii "GET", ascii uri, ascii "HTTP/1.1", [],
    [(ascii "Host", ascii host), (ascii "Connection", ascii "close")], ascii target, ascii ruri⟩

theorem isHost_a : ascii "a" ≠ [] ∧ ∀ b ∈ ascii "a", HostByte b := by
  unfold HostByte
  decide +kernel

theorem isHost_loopback : ascii "::1" ≠ [] ∧ ∀ b ∈ ascii "::1", HostByte b := by
  unfold HostByte
  decide +kernel

/-- A host without a port. -/
def Authority.ofHost (host : GoString) (isHost : host ≠ [] ∧ ∀ b ∈ host, HostByte b) : Authority :=
  ⟨host, none, isHost.1, isHost.2, fun _ h => nomatch h⟩

/-- A name without a port. -/
def nameA : Authority := .ofHost (ascii "a") isHost_a

/-- The IPv6 loopback address without a port. -/
def loopback : Authority := .ofHost (ascii "::1") isHost_loopback

theorem target_absolute_name :
    parseRequest .ok (get "http://a/x" "a") = .ok (got "http://a/x" "a" "a:80" "/x", ⟨[], .eof⟩) ∧
      DialsAuthority (got "http://a/x" "a" "a:80" "/x") nameA := by
  have hparse : parseRequest .ok (get "http://a/x" "a") =
      .ok (got "http://a/x" "a" "a:80" "/x", ⟨[], .eof⟩) := by decide +kernel
  have hcolon : colon ∉ ascii "a" := by decide
  have asks : AsksFor (got "http://a/x" "a" "a:80" "/x") nameA .absolute :=
    @AsksFor.absolute _ _ (ascii "x") (by decide)
  exact ⟨hparse,
    (target_iff .ok _ _ _ hparse (by decide) nameA rfl .absolute asks).mpr ⟨rfl, hcolon⟩⟩

/-- A request in origin form is dialled without a host, and one for an IPv6 address without a
port: neither target is the authority that is asked for. -/
theorem target_lost :
    (parseRequest .ok (get "/x" "a") = .ok (got "/x" "a" ":80" "/x", ⟨[], .eof⟩) ∧
      AsksFor (got "/x" "a" ":80" "/x") nameA .origin ∧
      ¬ DialsAuthority (got "/x" "a" ":80" "/x") nameA) ∧
    parseRequest .ok (get "http://[::1]/x" "a") =
        .ok (got "http://[::1]/x" "a" "[::1]" "/x", ⟨[], .eof⟩) ∧
      AsksFor (got "http://[::1]/x" "a" "[::1]" "/x") loopback .absolute ∧
      ¬ DialsAuthority (got "http://[::1]/x" "a" "[::1]" "/x") loopback := by
  have origin : AsksFor (got "/x" "a" ":80" "/x") nameA .origin :=
    @AsksFor.origin _ _ (ascii "x") (by decide) (by decide +kernel)
  have absolute : AsksFor (got "http://[::1]/x" "a" "[::1]" "/x") loopback .absolute :=
    @AsksFor.absolute _ _ (ascii "x") (by decide)
  refine ⟨⟨by decide +kernel, origin, ?_⟩, by decide +kernel, absolute, ?_⟩
  · unfold DialsAuthority
    decide
  · unfold DialsAuthority
    decide

end Glider.Http
