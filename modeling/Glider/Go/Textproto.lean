/-
Lines and headers: `net/textproto`, over the bytes of a stream.

A `textproto.Reader` works on a `bufio.Reader`. Here it is a function of the bytes to come: a line
ends at a newline, with a carriage return before it dropped; a header line may go on in lines that
start with a blank; the header ends with an empty line. What the reader takes from the stream is
what it has returned and nothing beyond the newline of that line.

* `readMIMEHeader_ok` — a header that is read is some lines and an empty line.
* `IsHead.unique` — where the head of a stream ends does not depend on how it is read.
-/

import Glider.Go.Io
import Glider.Go.Net

namespace Glider.Go

def newline : UInt8 := 10

def carriageReturn : UInt8 := 13

def space : UInt8 := 32

/-! ### Lines -/

/-- The end of a line without its newline. -/
def dropCR (line : GoString) : GoString :=
  if line.getLast? = some carriageReturn then line.dropLast else line

/-- `ReadLine`. What is left at the end of the stream is a line too. -/
def readLine (r : Source) : Except IoErr (GoString × Source) :=
  match cut r.data newline with
  | (line, rest, true) => .ok (dropCR line, { r with data := rest })
  | (_, _, false) => if r.data = [] then .error r.fail else .ok (r.data, { r with data := [] })

def isBlank (b : UInt8) : Bool := b = 32 || b = 9

def trimLeft (s : GoString) : GoString := s.dropWhile isBlank

/-- `trim`. -/
def trim (s : GoString) : GoString := (trimLeft s).rdropWhile isBlank

/-- A line in three parts, cut at its first two spaces. -/
def cutTwice (line : GoString) : Option (GoString × GoString × GoString) :=
  match cut line space with
  | (first, rest, true) =>
    match cut rest space with
    | (second, third, true) => some (first, second, third)
    | (_, _, false) => none
  | (_, _, false) => none

/-- A line is put together again from its parts. -/
theorem cutTwice_eq_some_iff {line first second third : GoString} :
    cutTwice line = some (first, second, third) ↔
      line = first ++ space :: (second ++ space :: third) ∧ space ∉ first ∧ space ∉ second := by
  constructor
  · intro h
    unfold cutTwice at h
    obtain ⟨pre, post, rfl, hpre, hcut⟩ | ⟨-, hcut⟩ := cut_cases line space
    · rw [hcut] at h
      dsimp only at h
      obtain ⟨pre', post', rfl, hpre', hcut'⟩ | ⟨-, hcut'⟩ := cut_cases post space
      · rw [hcut'] at h
        cases h
        exact ⟨rfl, hpre, hpre'⟩
      · rw [hcut'] at h
        cases h
    · rw [hcut] at h
      cases h
  · rintro ⟨rfl, hfirst, hsecond⟩
    unfold cutTwice
    rw [cut_append hfirst]
    dsimp only
    rw [cut_append hsecond]

variable {line : GoString}

theorem ne_nil_of_cutTwice {parts : GoString × GoString × GoString}
    (h : cutTwice line = some parts) : line ≠ [] := by
  rintro rfl
  cases h

/-! ### Headers -/

/-- `ProtocolError`, by what is wrong. -/
inductive ProtocolError where
  | initialLine (line : GoString)
  | missingColon (line : GoString)
  | malformedLine (kv : GoString)
deriving DecidableEq, Repr

inductive ReadErr where
  | io (e : IoErr)
  | protocol (e : ProtocolError)
deriving DecidableEq, Repr

/-- `textproto.MIMEHeader`: the fields in the order they were added. As a map it gives for a key the
values of its fields. -/
abbrev MIMEHeader := List (GoString × GoString)

/-- The bytes of a token. -/
def validHeaderFieldByte (b : UInt8) : Bool :=
  isDigit b || 65 ≤ b && b ≤ 90 || 97 ≤ b && b ≤ 122 || (ascii "!#$%&'*+-.^_`|~").contains b

def validHeaderValueByte (b : UInt8) : Bool := b = 9 || 32 ≤ b && b ≠ 127

/-- The loop of `canonicalMIMEHeaderKey`: a letter is in upper case at the start and after a
dash. -/
def canonicalLoop : Bool → GoString → GoString
  | _, [] => []
  | upper, b :: rest =>
    let c :=
      if upper && 97 ≤ b && b ≤ 122 then b - 32
      else if !upper && 65 ≤ b && b ≤ 90 then b + 32
      else b
    c :: canonicalLoop (c = 45) rest

/-- `canonicalMIMEHeaderKey`. A key with a space in it is kept as it is. -/
def canonicalMIMEHeaderKey (a : GoString) : Option GoString :=
  if a = [] then none
  else if a.all validHeaderFieldByte then some (canonicalLoop true a)
  else if a.all (fun b => validHeaderFieldByte b || b = space) then some a
  else none

/-- `CanonicalMIMEHeaderKey`. -/
def canonicalKey (s : GoString) : GoString := (canonicalMIMEHeaderKey s).getD s

namespace MIMEHeader

/-- The values of a key, as it is in the map. -/
def values (h : MIMEHeader) (key : GoString) : List GoString :=
  (h.filter fun field => field.1 = key).map Prod.snd

/-- `Get`. -/
def get (h : MIMEHeader) (key : GoString) : GoString :=
  ((h.values (canonicalKey key)).head?).getD []

/-- `Del`. -/
def del (h : MIMEHeader) (key : GoString) : MIMEHeader :=
  h.filter fun field => field.1 ≠ canonicalKey key

/-- `Set`. -/
def set (h : MIMEHeader) (key value : GoString) : MIMEHeader :=
  h.del key ++ [(canonicalKey key, value)]

end MIMEHeader

/-- What `ReadLine` can do: take a line with its newline, take the rest of the stream, or fail
at its end. -/
theorem readLine_cases (r : Source) :
    (∃ line rest, r.data = line ++ newline :: rest ∧ newline ∉ line ∧
      readLine r = .ok (dropCR line, { r with data := rest })) ∨
    (r.data ≠ [] ∧ newline ∉ r.data ∧ readLine r = .ok (r.data, { r with data := [] })) ∨
    (r.data = [] ∧ readLine r = .error r.fail) := by
  unfold readLine
  obtain ⟨line, rest, hdata, hline, hcut⟩ | ⟨hnot, hcut⟩ := cut_cases r.data newline
  · exact .inl ⟨line, rest, hdata, hline, by rw [hcut]⟩
  · rw [hcut]
    by_cases hnil : r.data = []
    · exact .inr (.inr ⟨hnil, if_pos hnil⟩)
    · exact .inr (.inl ⟨hnil, hnot, if_neg hnil⟩)

variable {r r' : Source}

/-- A line has no newline in it. -/
theorem newline_notMem_of_readLine (h : readLine r = .ok (line, r')) : newline ∉ line := by
  obtain ⟨raw, rest, -, hraw, hread⟩ | ⟨-, hnot, hread⟩ | ⟨-, hread⟩ := readLine_cases r
  · cases hread.symm.trans h
    unfold dropCR
    split
    · exact fun hmem => hraw (List.dropLast_subset raw hmem)
    · exact hraw
  · cases hread.symm.trans h
    exact hnot
  · cases hread.symm.trans h

theorem readLine_length_lt (h : readLine r = .ok (line, r')) : r'.data.length < r.data.length := by
  obtain ⟨raw, rest, hdata, -, hread⟩ | ⟨hne, -, hread⟩ | ⟨-, hread⟩ := readLine_cases r
  · cases hread.symm.trans h
    rw [hdata, List.length_append, List.length_cons]
    dsimp only
    omega
  · cases hread.symm.trans h
    exact List.length_pos_iff.mpr hne
  · cases hread.symm.trans h

/-- The lines a header line goes on in, with what has been read of it. -/
def continuedLines (buf : GoString) (r : Source) : GoString × Source :=
  if (r.data.head?).any isBlank then
    match _ : readLine { r with data := trimLeft r.data } with
    | .error _ => (buf ++ [space], { r with data := [] })
    | .ok (line, rest) => continuedLines (buf ++ space :: trim line) rest
  else (buf, r)
termination_by r.data.length
decreasing_by
  have hlt := readLine_length_lt ‹_›
  have hle : (trimLeft r.data).length ≤ r.data.length := (List.dropWhile_suffix isBlank).length_le
  exact Nat.lt_of_lt_of_le hlt hle

/-- `readContinuedLineSlice`, with `mustHaveFieldNameColon`. -/
def readContinuedLine (r : Source) : Except ReadErr (GoString × Source) :=
  match readLine r with
  | .error e => .error (.io e)
  | .ok (line, r) =>
    if line = [] then .ok ([], r)
    else if colon ∉ line then .error (.protocol (.missingColon line))
    else .ok (continuedLines (trim line) r)

/-- The field in a header line. -/
def parseField (kv : GoString) : Option (GoString × GoString) :=
  match cut kv colon with
  | (k, v, true) =>
    match canonicalMIMEHeaderKey k with
    | some key => if v.all validHeaderValueByte then some (key, trimLeft v) else none
    | none => none
  | (_, _, false) => none

theorem trimLeft_suffix (s : GoString) : trimLeft s <:+ s := List.dropWhile_suffix isBlank

/-! ### The lines of a header -/

/-- A line of a stream, without its newline, that is not empty. -/
structure IsLine (l : GoString) : Prop where
  newline_notMem : newline ∉ l
  ne_nil : l ≠ []
  ne_cr : l ≠ [carriageReturn]

/-- An empty line, without its newline. -/
def IsBlankLine (l : GoString) : Prop := l = [] ∨ l = [carriageReturn]

/-- Lines of a stream. -/
def unlines (ls : List GoString) : GoString := ls.flatMap (· ++ [newline])

theorem unlines_cons (l : GoString) (ls : List GoString) (rest : GoString) :
    unlines (l :: ls) ++ rest = l ++ newline :: (unlines ls ++ rest) := by
  simp [unlines]

theorem unlines_append (ls ls' : List GoString) :
    unlines (ls ++ ls') = unlines ls ++ unlines ls' := by
  simp [unlines]

theorem split_unlines {lines : List GoString} (h : ∀ line ∈ lines, newline ∉ line) :
    split (unlines lines) newline = lines ++ [[]] := by
  induction lines with
  | nil => rfl
  | cons line lines ih =>
    have hcons := unlines_cons line lines []
    rw [List.append_nil, List.append_nil] at hcons
    rw [hcons, split_append, ih fun l hl => h l (List.mem_cons_of_mem _ hl),
      split_of_notMem (h line List.mem_cons_self)]
    rfl

/-- From `r` to `r'` some lines have been taken, unless the stream has come to its end. -/
def TakesLines (r r' : Source) : Prop :=
  r'.fail = r.fail ∧ (r'.data = [] ∨ ∃ ls, (∀ l ∈ ls, IsLine l) ∧ r.data = unlines ls ++ r'.data)

theorem TakesLines.refl (r : Source) : TakesLines r r :=
  ⟨rfl, .inr ⟨[], fun _ h => (by cases h), rfl⟩⟩

theorem TakesLines.trans {r r' r'' : Source} (h : TakesLines r r') (h' : TakesLines r' r'') :
    TakesLines r r'' := by
  refine ⟨h'.1.trans h.1, ?_⟩
  obtain hend' | ⟨ls', hls', hdata'⟩ := h'.2
  · exact .inl hend'
  · obtain hend | ⟨ls, hls, hdata⟩ := h.2
    · rw [hend] at hdata'
      exact .inl (List.append_eq_nil_iff.mp hdata'.symm).2
    · refine .inr ⟨ls ++ ls', fun l hl => ?_, ?_⟩
      · exact (List.mem_append.mp hl).elim (hls l) (hls' l)
      · rw [hdata, hdata', unlines, unlines, unlines, List.flatMap_append, List.append_assoc]

theorem TakesLines.length_le (h : TakesLines r r') : r'.data.length ≤ r.data.length := by
  obtain hend | ⟨ls, -, hdata⟩ := h.2
  · rw [hend]
    exact Nat.zero_le _
  · rw [hdata, List.length_append]
    exact Nat.le_add_left _ _

theorem newline_notMem_of_blank {s : GoString} (h : ∀ b ∈ s, isBlank b) : newline ∉ s := fun hmem =>
  absurd (h newline hmem) (by decide)

/-- One line, after blanks: it is not empty if it starts with one or what is read of it is not. -/
theorem readLine_takesLines (blanks : GoString) (hread : readLine r = .ok (line, r'))
    (hblanks : ∀ b ∈ blanks, isBlank b) (hne : blanks ≠ [] ∨ line ≠ []) :
    TakesLines { r with data := blanks ++ r.data } r' := by
  obtain ⟨raw, rest, hdata, hraw, hcall⟩ | ⟨-, -, hcall⟩ | ⟨-, hcall⟩ := readLine_cases r
  · cases hcall.symm.trans hread
    refine ⟨rfl, .inr ⟨[blanks ++ raw], fun l hl => ?_, ?_⟩⟩
    · obtain rfl := List.mem_singleton.mp hl
      refine ⟨?_, fun hnil => ?_, fun hcr => ?_⟩
      · rw [List.mem_append, not_or]
        exact ⟨newline_notMem_of_blank hblanks, hraw⟩
      · obtain ⟨rfl, rfl⟩ := List.append_eq_nil_iff.mp hnil
        exact hne.elim (fun h => h rfl) fun h => h rfl
      · cases blanks with
        | nil =>
          rw [List.nil_append] at hcr
          rw [hcr] at hne
          exact hne.elim (fun h => h rfl) fun h => h rfl
        | cons b bs =>
          cases (List.cons.inj hcr).1
          exact absurd (hblanks carriageReturn List.mem_cons_self) (by decide)
    · dsimp only
      rw [hdata, unlines_cons, List.append_assoc]
      rfl
  · cases hcall.symm.trans hread
    exact ⟨rfl, .inl rfl⟩
  · cases hcall.symm.trans hread

/-- The lines a header line goes on in start with a blank. -/
theorem continuedLines_takesLines {buf kv : GoString} (h : continuedLines buf r = (kv, r')) :
    buf <+: kv ∧ TakesLines r r' := by
  fun_induction continuedLines buf r with
  | case1 buf r hblank e hread =>
    cases h
    exact ⟨List.prefix_append _ _, rfl, .inl rfl⟩
  | case2 buf r hblank line rest hread ih =>
    obtain ⟨hbuf, htakes⟩ := ih h
    have hblanks : r.data.takeWhile isBlank ≠ [] := by
      cases hdata : r.data with
      | nil => simp [hdata] at hblank
      | cons b bs =>
        rw [hdata] at hblank
        simp only [List.head?_cons, Option.any_some] at hblank
        rw [List.takeWhile_cons_of_pos hblank]
        exact List.cons_ne_nil _ _
    have hline := readLine_takesLines _ hread (fun b hb => List.mem_takeWhile_imp hb) (.inl hblanks)
    dsimp only [trimLeft] at hline
    rw [List.takeWhile_append_dropWhile] at hline
    exact ⟨(List.prefix_append _ _).trans hbuf, hline.trans htakes⟩
  | case3 buf r hnot =>
    cases h
    exact ⟨List.prefix_rfl, .refl _⟩

theorem mem_dropWhile_of_not {p : UInt8 → Bool} {s : GoString} {b : UInt8} (hmem : b ∈ s)
    (hb : ¬ p b) : b ∈ s.dropWhile p := by
  rw [← List.takeWhile_append_dropWhile (p := p) (l := s), List.mem_append] at hmem
  exact hmem.resolve_left fun h => hb (List.mem_takeWhile_imp h)

theorem mem_trim {s : GoString} {b : UInt8} (hmem : b ∈ s) (hb : ¬ isBlank b) : b ∈ trim s := by
  unfold trim List.rdropWhile
  rw [List.mem_reverse]
  exact mem_dropWhile_of_not (List.mem_reverse.mpr (mem_dropWhile_of_not hmem hb)) hb

theorem dropCR_eq_nil (h : dropCR line = []) : line = [] ∨ line = [carriageReturn] := by
  unfold dropCR at h
  split at h
  · rename_i hlast
    obtain ⟨init, rfl⟩ := List.getLast?_eq_some_iff.mp hlast
    rw [List.dropLast_concat] at h
    exact .inr (by rw [h]; rfl)
  · exact .inl h

/-- A header line keeps its colon. -/
theorem continuedLines_ne_nil (hcolon : colon ∈ line) :
    continuedLines (trim line) r ≠ ([], r') := by
  intro h
  have hmem := mem_trim hcolon (by decide)
  rw [List.prefix_nil.mp (continuedLines_takesLines h).1] at hmem
  cases hmem

/-- What `readContinuedLineSlice` can take: an empty line, or lines that are not empty. -/
theorem readContinuedLine_ok {kv : GoString} (h : readContinuedLine r = .ok (kv, r')) :
    (kv = [] ∧ r'.fail = r.fail ∧ ∃ l, IsBlankLine l ∧ r.data = l ++ newline :: r'.data) ∨
      (kv ≠ [] ∧ TakesLines r r' ∧ r'.data.length < r.data.length) := by
  unfold readContinuedLine at h
  cases hread : readLine r with
  | error e =>
    rw [hread] at h
    cases h
  | ok res =>
    obtain ⟨line, mid⟩ := res
    rw [hread] at h
    dsimp only at h
    by_cases hline : line = []
    · rw [if_pos hline] at h
      cases h
      obtain ⟨raw, rest, hdata, -, hcall⟩ | ⟨hne, -, hcall⟩ | ⟨-, hcall⟩ := readLine_cases r
      · cases hcall.symm.trans hread
        exact .inl ⟨rfl, rfl, raw, dropCR_eq_nil hline, hdata⟩
      · cases hcall.symm.trans hread
        exact absurd hline hne
      · cases hcall.symm.trans hread
    · rw [if_neg hline] at h
      split at h
      · cases h
      rename_i hcolon
      have htakes := (continuedLines_takesLines (Except.ok.inj h)).2
      have hfirst := readLine_takesLines [] hread (fun _ hb => by cases hb) (.inr hline)
      refine .inr ⟨?_, hfirst.trans htakes, ?_⟩
      · rintro rfl
        exact continuedLines_ne_nil (Classical.not_not.mp hcolon) (Except.ok.inj h)
      · exact Nat.lt_of_le_of_lt htakes.length_le (readLine_length_lt hread)

theorem readContinuedLine_length_lt {kv : GoString} (h : readContinuedLine r = .ok (kv, r')) :
    r'.data.length < r.data.length := by
  obtain ⟨-, -, l, -, hdata⟩ | ⟨-, -, hlt⟩ := readContinuedLine_ok h
  · rw [hdata, List.length_append, List.length_cons]
    omega
  · exact hlt

/-- The loop of `ReadMIMEHeader`. -/
def readFields (h : MIMEHeader) (r : Source) : Except ReadErr (MIMEHeader × Source) :=
  match _ : readContinuedLine r with
  | .error e => .error e
  | .ok (kv, rest) =>
    if kv = [] then .ok (h, rest)
    else
      match parseField kv with
      | some field => readFields (h ++ [field]) rest
      | none => .error (.protocol (.malformedLine kv))
termination_by r.data.length
decreasing_by exact readContinuedLine_length_lt ‹_›

def errMessageTooLarge : IoErr := .text (ascii "message too large")

/-- `ReadMIMEHeader`. The first line cannot start with a blank. -/
def readMIMEHeader (r : Source) : Except ReadErr (MIMEHeader × Source) :=
  if (r.data.head?).any isBlank then
    match readLine r with
    | .error e => .error (.io e)
    | .ok (line, _) =>
      if 80 < line.length then .error (.io errMessageTooLarge)
      else .error (.protocol (.initialLine line))
  else readFields [] r

/-- A header that is read is some lines and an empty line. -/
theorem readFields_ok {h h' : MIMEHeader} (hread : readFields h r = .ok (h', r')) :
    r'.fail = r.fail ∧ ∃ ls l, (∀ l ∈ ls, IsLine l) ∧ IsBlankLine l ∧
      r.data = unlines ls ++ l ++ newline :: r'.data := by
  fun_induction readFields h r with
  | case1 h r e hline => cases hread
  | case2 h r rest hline =>
    cases hread
    obtain ⟨-, hfail, l, hl, hdata⟩ | ⟨hne, -, -⟩ := readContinuedLine_ok hline
    · exact ⟨hfail, [], l, fun _ h => (by cases h), hl, hdata⟩
    · exact absurd rfl hne
  | case3 h r kv rest hline hkv field hfield ih =>
    obtain ⟨hfail, ls, l, hls, hl, hrest⟩ := ih hread
    obtain ⟨hnil, -⟩ | ⟨-, htakes, -⟩ := readContinuedLine_ok hline
    · exact absurd hnil hkv
    refine ⟨hfail.trans htakes.1, ?_⟩
    obtain hend | ⟨ls', hls', hdata⟩ := htakes.2
    · rw [hend] at hrest
      exact absurd hrest (by simp)
    · refine ⟨ls' ++ ls, l, fun l hl => ?_, hl, ?_⟩
      · exact (List.mem_append.mp hl).elim (hls' l) (hls l)
      · rw [hdata, hrest]
        simp [unlines]
  | case4 h r kv rest hline hkv hfield => cases hread

theorem readMIMEHeader_ok {h : MIMEHeader} (hread : readMIMEHeader r = .ok (h, r')) :
    r'.fail = r.fail ∧ ∃ ls l, (∀ l ∈ ls, IsLine l) ∧ IsBlankLine l ∧
      r.data = unlines ls ++ l ++ newline :: r'.data := by
  unfold readMIMEHeader at hread
  split at hread
  · split at hread
    · cases hread
    · split at hread <;> cases hread
  · exact readFields_ok hread

/-! ### The head of a message -/

/-- Lines up to the first empty one: a start line and the header. -/
def IsHead (head : GoString) : Prop :=
  ∃ ls l, (∀ l ∈ ls, IsLine l) ∧ IsBlankLine l ∧ head = unlines ls ++ l ++ [newline]

theorem IsBlankLine.newline_notMem {l : GoString} (h : IsBlankLine l) : newline ∉ l := by
  obtain rfl | rfl := h
  all_goals decide

theorem IsBlankLine.not_isLine {l : GoString} (h : IsBlankLine l) : ¬ IsLine l := by
  intro hl
  exact h.elim hl.ne_nil hl.ne_cr

/-- A first line is where it is. -/
theorem line_inj {l l' rest rest' : GoString} (hl : newline ∉ l) (hl' : newline ∉ l')
    (h : l ++ newline :: rest = l' ++ newline :: rest') : l = l' ∧ rest = rest' := by
  have hcut := congrArg (cut · newline) h
  simp only [cut_append hl, cut_append hl', Prod.mk.injEq] at hcut
  exact ⟨hcut.1, hcut.2.1⟩

theorem unlines_blank_inj {ls ls' : List GoString} {l l' rest rest' : GoString}
    (hls : ∀ l ∈ ls, IsLine l) (hls' : ∀ l ∈ ls', IsLine l) (hl : IsBlankLine l)
    (hl' : IsBlankLine l')
    (h : unlines ls ++ (l ++ newline :: rest) = unlines ls' ++ (l' ++ newline :: rest')) :
    rest = rest' := by
  induction ls generalizing ls' with
  | nil =>
    cases ls' with
    | nil => exact (line_inj hl.newline_notMem hl'.newline_notMem h).2
    | cons k' ls' =>
      have hk' := hls' k' List.mem_cons_self
      rw [unlines_cons] at h
      obtain ⟨rfl, -⟩ := line_inj hl.newline_notMem hk'.newline_notMem h
      exact absurd hk' hl.not_isLine
  | cons k ls ih =>
    have hk := hls k List.mem_cons_self
    rw [unlines_cons] at h
    cases ls' with
    | nil =>
      obtain ⟨rfl, -⟩ := line_inj hk.newline_notMem hl'.newline_notMem h
      exact absurd hk hl'.not_isLine
    | cons k' ls' =>
      rw [unlines_cons] at h
      obtain ⟨-, h⟩ := line_inj hk.newline_notMem (hls' k' List.mem_cons_self).newline_notMem h
      exact ih (fun m hm => hls m (List.mem_cons_of_mem k hm))
        (fun m hm => hls' m (List.mem_cons_of_mem k' hm)) h

/-- The head of a stream is determined by the stream. -/
theorem IsHead.unique {head head' rest rest' : GoString} (h : IsHead head) (h' : IsHead head')
    (heq : head ++ rest = head' ++ rest') : head = head' ∧ rest = rest' := by
  obtain ⟨ls, l, hls, hl, rfl⟩ := h
  obtain ⟨ls', l', hls', hl', rfl⟩ := h'
  have hrest : rest = rest' := by
    simp only [List.append_assoc, List.singleton_append] at heq
    exact unlines_blank_inj hls hls' hl hl' heq
  subst hrest
  exact ⟨List.append_cancel_right heq, rfl⟩

/-- A start line that is not empty and a header make up a head. -/
theorem isHead_of_read {h : MIMEHeader} {r mid r' : Source} (hline : readLine r = .ok (line, mid))
    (hne : line ≠ []) (hheader : readMIMEHeader mid = .ok (h, r')) :
    ∃ head, r.data = head ++ r'.data ∧ IsHead head := by
  obtain ⟨-, ls, l, hls, hl, hmid⟩ := readMIMEHeader_ok hheader
  have htakes := readLine_takesLines [] hline (fun _ hb => by cases hb) (.inr hne)
  obtain hend | ⟨first, hfirst, hdata⟩ := htakes.2
  · rw [hend] at hmid
    exact absurd hmid (by simp)
  · refine ⟨unlines (first ++ ls) ++ l ++ [newline], ?_, first ++ ls, l, fun l hl => ?_, hl, rfl⟩
    · dsimp only [List.nil_append] at hdata
      rw [hdata, hmid]
      simp [unlines]
    · exact (List.mem_append.mp hl).elim (hfirst l) (hls l)

end Glider.Go
