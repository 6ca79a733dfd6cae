/-
Headers as the HTTP proxy rewrites and writes them (`proxy/http/http.go`), and how they are read
again.

* `readFields_isField` — what a field looks like that has been read.
* `readMIMEHeader_lines` — fields on a line each are read exactly if their values are valid.
* `readMIMEHeader_writeHeaders` — a header that is written is read back, up to blanks at the end of
  its values.
* `values_cleanHeaders` — the fields that are left.
-/

import Glider.Go.Textproto

namespace Glider.Http

open Glider.Go

def crlf : GoString := [carriageReturn, newline]

/-- `parseStartLine`: the three parts of `GET /foo HTTP/1.1`. -/
def parseStartLine (line : GoString) : Option (GoString × GoString × GoString) := cutTwice line

/-- The fields that `cleanHeaders` deletes. -/
def hopByHop : List GoString :=
  [ascii "Proxy-Connection", ascii "Connection", ascii "Keep-Alive", ascii "Proxy-Authenticate",
    ascii "Proxy-Authorization", ascii "TE", ascii "Trailers", ascii "Transfer-Encoding",
    ascii "Upgrade"]

/-- `cleanHeaders`. -/
def cleanHeaders (header : MIMEHeader) : MIMEHeader := hopByHop.foldl MIMEHeader.del header

/-- `writeStartLine`. -/
def writeStartLine (s1 s2 s3 : GoString) : GoString :=
  s1 ++ space :: (s2 ++ space :: s3) ++ crlf

def writeField (field : GoString × GoString) : GoString :=
  field.1 ++ colon :: space :: field.2 ++ crlf

/-- `writeHeaders`, with the fields of the map in some order. -/
def writeHeaders (fields : MIMEHeader) : GoString := fields.flatMap writeField ++ crlf

/-! ### What is in a header -/

section

variable (h : MIMEHeader) (k key v : GoString)

theorem values_del : (h.del k).values key = if key = canonicalKey k then [] else h.values key := by
  unfold MIMEHeader.values MIMEHeader.del
  rw [List.filter_filter]
  split
  · rename_i heq
    rw [List.map_eq_nil_iff, List.filter_eq_nil_iff]
    intro field _
    simp [heq]
  · rename_i hne
    congr 1
    apply List.filter_congr
    intro field _
    by_cases hkey : field.1 = key
    · simp [hkey, hne]
    · simp [hkey]

theorem values_set :
    (h.set k v).values key = if key = canonicalKey k then [v] else h.values key := by
  have happend : (h.set k v).values key =
      (h.del k).values key ++ MIMEHeader.values [(canonicalKey k, v)] key := by
    unfold MIMEHeader.set MIMEHeader.values
    rw [List.filter_append, List.map_append]
  rw [happend, values_del]
  split
  · rename_i heq
    simp [MIMEHeader.values, heq]
  · rename_i hne
    simp [MIMEHeader.values, Ne.symm hne]

theorem values_foldl_del (ks : List GoString) :
    (ks.foldl MIMEHeader.del h).values key =
      if key ∈ ks.map canonicalKey then [] else h.values key := by
  induction ks generalizing h with
  | nil => rfl
  | cons k ks ih =>
    rw [List.foldl_cons, ih, values_del, List.map_cons]
    by_cases hmem : key ∈ ks.map canonicalKey
    · rw [if_pos hmem, if_pos (List.mem_cons_of_mem _ hmem)]
    · rw [if_neg hmem]
      by_cases heq : key = canonicalKey k
      · rw [if_pos heq, if_pos (heq ▸ List.mem_cons_self)]
      · rw [if_neg heq, if_neg (by simp [heq, hmem])]

end

theorem values_cleanHeaders (h : MIMEHeader) (key : GoString) :
    (cleanHeaders h).values key = if key ∈ hopByHop.map canonicalKey then [] else h.values key :=
  values_foldl_del h key hopByHop

variable {field : GoString × GoString} {h : MIMEHeader}

theorem mem_of_mem_del {k : GoString} (hmem : field ∈ h.del k) :
    field ∈ h := (List.mem_filter.mp hmem).1

theorem mem_of_mem_cleanHeaders (hmem : field ∈ cleanHeaders h) : field ∈ h := by
  unfold cleanHeaders at hmem
  generalize hopByHop = ks at hmem
  induction ks generalizing h with
  | nil => exact hmem
  | cons k ks ih => exact mem_of_mem_del (ih hmem)

/-! ### Fields -/

/-- A field as it comes out of a header. -/
structure IsField (field : GoString × GoString) : Prop where
  key_canonical : canonicalMIMEHeaderKey field.1 = some field.1
  key_head : ∀ b ∈ field.1.head?, isBlank b = false
  value_valid : field.2.all validHeaderValueByte = true
  value_head : ∀ b ∈ field.2.head?, isBlank b = false

/-- A letter in the case it has at its place in a key. -/
def canonicalByte (upper : Bool) (b : UInt8) : UInt8 :=
  if upper && 97 ≤ b && b ≤ 122 then b - 32
  else if !upper && 65 ≤ b && b ≤ 90 then b + 32
  else b

theorem canonicalLoop_cons (upper : Bool) (b : UInt8) (rest : GoString) :
    canonicalLoop upper (b :: rest) =
      canonicalByte upper b :: canonicalLoop (canonicalByte upper b = 45) rest := rfl

theorem canonicalByte_spec (upper : Bool) (b : UInt8) :
    canonicalByte upper (canonicalByte upper b) = canonicalByte upper b ∧
      (validHeaderFieldByte b = true → validHeaderFieldByte (canonicalByte upper b) = true) := by
  have hall : ∀ upper : Bool, ∀ n < 256,
      canonicalByte upper (canonicalByte upper (UInt8.ofNat n)) =
          canonicalByte upper (UInt8.ofNat n) ∧
        (validHeaderFieldByte (UInt8.ofNat n) = true →
          validHeaderFieldByte (canonicalByte upper (UInt8.ofNat n)) = true) := by
    decide +kernel
  have hb := hall upper b.toNat b.toNat_lt
  rwa [UInt8.ofNat_toNat] at hb

theorem canonicalLoop_idem (upper : Bool) (s : GoString) :
    canonicalLoop upper (canonicalLoop upper s) = canonicalLoop upper s := by
  induction s generalizing upper with
  | nil => rfl
  | cons b s ih => rw [canonicalLoop_cons, canonicalLoop_cons, (canonicalByte_spec upper b).1, ih]

theorem all_canonicalLoop {upper : Bool} {s : GoString} (h : s.all validHeaderFieldByte = true) :
    (canonicalLoop upper s).all validHeaderFieldByte = true := by
  induction s generalizing upper with
  | nil => rfl
  | cons b s ih =>
    rw [List.all_cons, Bool.and_eq_true] at h
    rw [canonicalLoop_cons, List.all_cons, (canonicalByte_spec upper b).2 h.1, ih h.2]
    rfl

variable {b : UInt8}

theorem isBlank_of_validHeaderFieldByte (h : validHeaderFieldByte b = true) :
    isBlank b = false := by
  by_contra hne
  rw [Bool.not_eq_false, isBlank, Bool.or_eq_true, decide_eq_true_eq, decide_eq_true_eq] at hne
  obtain rfl | rfl := hne <;> exact absurd h (by decide)

/-- The key of a field, from text that does not start with a blank. -/
theorem canonicalMIMEHeaderKey_spec {k key : GoString} (hk : ∀ b ∈ k.head?, isBlank b = false)
    (h : canonicalMIMEHeaderKey k = some key) :
    canonicalMIMEHeaderKey key = some key ∧ ∀ b ∈ key.head?, isBlank b = false := by
  unfold canonicalMIMEHeaderKey at h
  split at h
  · cases h
  rename_i hne
  split at h
  · rename_i hvalid
    cases h
    have hall : (canonicalLoop true k).all validHeaderFieldByte = true := all_canonicalLoop hvalid
    have hne' : canonicalLoop true k ≠ [] := by
      cases k with
      | nil => exact absurd rfl hne
      | cons b k => exact List.cons_ne_nil _ _
    refine ⟨?_, fun b hb => ?_⟩
    · unfold canonicalMIMEHeaderKey
      rw [if_neg hne', if_pos hall, canonicalLoop_idem]
    · exact isBlank_of_validHeaderFieldByte (List.all_eq_true.mp hall b (List.mem_of_head? hb))
  · rename_i hinvalid
    split at h <;> cases h
    rename_i hspaces
    refine ⟨?_, hk⟩
    unfold canonicalMIMEHeaderKey
    rw [if_neg hne, if_neg hinvalid, if_pos hspaces]

theorem head_trimLeft (s : GoString) : ∀ b ∈ (trimLeft s).head?, isBlank b = false := by
  intro b hb
  have hnot := List.head?_dropWhile_not isBlank s
  rw [show s.dropWhile isBlank = trimLeft s from rfl, Option.mem_def.mp hb] at hnot
  exact hnot

theorem head_of_prefix_ne_nil {s t : GoString} (h : s <+: t) (hs : s ≠ []) : t.head? = s.head? := by
  obtain ⟨u, rfl⟩ := h
  cases s with
  | nil => exact absurd rfl hs
  | cons b s => rfl

theorem head_trim (s : GoString) : ∀ b ∈ (trim s).head?, isBlank b = false := by
  intro b hb
  have hne : trim s ≠ [] := by
    intro hnil
    rw [hnil] at hb
    cases hb
  have hpre : trim s <+: trimLeft s := List.rdropWhile_prefix isBlank _
  exact head_trimLeft s b (head_of_prefix_ne_nil hpre hne ▸ hb)

theorem parseField_isField {kv : GoString} (hkv : ∀ b ∈ kv.head?, isBlank b = false)
    (h : parseField kv = some field) : IsField field := by
  unfold parseField at h
  obtain ⟨pre, post, rfl, hpre, hcut⟩ | ⟨-, hcut⟩ := cut_cases kv colon
  · rw [hcut] at h
    dsimp only at h
    split at h
    · rename_i key hkey
      split at h <;> cases h
      rename_i hvalid
      have hhead : ∀ b ∈ pre.head?, isBlank b = false := by
        intro b hb
        refine hkv b ?_
        rw [List.head?_append, Option.mem_def.mp hb]
        rfl
      obtain ⟨hcanonical, hkeyhead⟩ := canonicalMIMEHeaderKey_spec hhead hkey
      refine ⟨hcanonical, hkeyhead, ?_, head_trimLeft post⟩
      exact List.all_eq_true.mpr fun b hb =>
        List.all_eq_true.mp hvalid b ((trimLeft_suffix post).subset hb)
    · cases h
  · rw [hcut] at h
    cases h

variable {r r' : Source}

theorem readContinuedLine_head {kv : GoString} (h : readContinuedLine r = .ok (kv, r')) :
    ∀ b ∈ kv.head?, isBlank b = false := by
  unfold readContinuedLine at h
  split at h
  · cases h
  rename_i line mid hline
  split at h
  · cases h
    intro b hb
    cases hb
  split at h
  · cases h
  rename_i hcolon
  have hpre := (continuedLines_takesLines (Except.ok.inj h)).1
  have hne : trim line ≠ [] := by
    intro hnil
    have hmem := mem_trim (Classical.not_not.mp hcolon) (by decide)
    rw [hnil] at hmem
    cases hmem
  rw [head_of_prefix_ne_nil hpre hne]
  exact head_trim line

/-- The fields of a header that has been read. -/
theorem readFields_isField {h h' : MIMEHeader} (hread : readFields h r = .ok (h', r'))
    (hfields : ∀ field ∈ h, IsField field) : ∀ field ∈ h', IsField field := by
  fun_induction readFields h r with
  | case1 h r e hline => cases hread
  | case2 h r rest hline =>
    cases hread
    exact hfields
  | case3 h r kv rest hline hkv field hfield ih =>
    refine ih hread fun f hf => ?_
    obtain hf | hf := List.mem_append.mp hf
    · exact hfields f hf
    · rw [List.mem_singleton.mp hf]
      exact parseField_isField (readContinuedLine_head hline) hfield
  | case4 h r kv rest hline hkv hfield => cases hread

theorem readMIMEHeader_isField (hread : readMIMEHeader r = .ok (h, r')) :
    ∀ field ∈ h, IsField field := by
  unfold readMIMEHeader at hread
  split at hread
  · split at hread
    · cases hread
    · split at hread <;> cases hread
  · exact readFields_isField hread fun _ hf => by cases hf

/-! ### Reading what has been written -/

/-- A field without the blanks at its end. -/
def trimValue (field : GoString × GoString) : GoString × GoString :=
  (field.1, field.2.rdropWhile isBlank)

theorem readLine_crlf {line : GoString} (h : newline ∉ line) (rest : GoString) (fail : IoErr) :
    readLine ⟨line ++ crlf ++ rest, fail⟩ = .ok (line, ⟨rest, fail⟩) := by
  have hparts : line ++ crlf ++ rest = (line ++ [carriageReturn]) ++ newline :: rest := by
    simp [crlf]
  have hnot : newline ∉ line ++ [carriageReturn] := by
    rw [List.mem_append, not_or]
    exact ⟨h, by decide⟩
  have hdrop : dropCR (line ++ [carriageReturn]) = line := by
    unfold dropCR
    rw [if_pos (List.getLast?_concat), List.dropLast_concat]
  unfold readLine
  dsimp only
  rw [hparts, cut_append hnot]
  dsimp only
  rw [hdrop]

theorem trimLeft_of_head {s : GoString} (h : ∀ b ∈ s.head?, isBlank b = false) :
    trimLeft s = s := by
  cases s with
  | nil => rfl
  | cons b s =>
    unfold trimLeft
    rw [List.dropWhile_cons_of_neg (by simp [h b rfl])]

/-- Blanks at the end go no further than a byte that is none. -/
theorem rdropWhile_append_cons (hb : isBlank b = false) (s t : GoString) :
    (s ++ b :: t).rdropWhile isBlank = s ++ b :: t.rdropWhile isBlank := by
  unfold List.rdropWhile
  rw [List.reverse_append, List.reverse_cons, List.append_assoc, List.dropWhile_append]
  split
  · rename_i hempty
    rw [List.isEmpty_iff.mp hempty, List.singleton_append,
      List.dropWhile_cons_of_neg (by simp [hb])]
    simp
  · simp

theorem isBlank_valid (h : isBlank b = true) : validHeaderValueByte b = true := by
  rw [isBlank, Bool.or_eq_true, decide_eq_true_eq, decide_eq_true_eq] at h
  obtain rfl | rfl := h <;> decide

/-- Blanks at the end are valid in a value. -/
theorem all_rdropWhile_blank (s : GoString) :
    (s.rdropWhile isBlank).all validHeaderValueByte = s.all validHeaderValueByte := by
  have hblanks : (s.rtakeWhile isBlank).all validHeaderValueByte = true :=
    List.all_eq_true.mpr fun b hb => isBlank_valid (List.mem_rtakeWhile_imp hb)
  conv => rhs; rw [← List.rdropWhile_append_rtakeWhile (p := isBlank) (l := s)]
  rw [List.all_append, hblanks, Bool.and_true]

theorem trimLeft_space (s : GoString) : trimLeft (space :: s) = trimLeft s :=
  List.dropWhile_cons_of_pos (by decide)

/-- Blanks can be taken off at either end first. -/
theorem trimLeft_rdropWhile (s : GoString) :
    trimLeft (s.rdropWhile isBlank) = (trimLeft s).rdropWhile isBlank := by
  induction s with
  | nil => rfl
  | cons b s ih =>
    cases hb : isBlank b with
    | false =>
      have hcons : (b :: s).rdropWhile isBlank = b :: s.rdropWhile isBlank :=
        rdropWhile_append_cons hb [] s
      unfold trimLeft
      rw [hcons, List.dropWhile_cons_of_neg (by simp [hb]),
        List.dropWhile_cons_of_neg (by simp [hb]), hcons]
    | true =>
      have hcons : trimLeft ((b :: s).rdropWhile isBlank) = trimLeft (s.rdropWhile isBlank) := by
        unfold trimLeft List.rdropWhile
        rw [List.reverse_cons, List.dropWhile_append]
        split
        · rename_i hempty
          rw [List.isEmpty_iff.mp hempty, List.dropWhile_cons_of_pos hb]
          rfl
        · rw [List.reverse_append, List.reverse_singleton, List.singleton_append,
            List.dropWhile_cons_of_pos hb]
      have hdrop : trimLeft (b :: s) = trimLeft s := List.dropWhile_cons_of_pos hb
      rw [hcons, ih, hdrop]

/-- A field that takes one line: a key that can be read, and a value without a newline. -/
structure OneLine (field : GoString × GoString) : Prop where
  key_valid : canonicalMIMEHeaderKey field.1 = some (canonicalKey field.1)
  key_head : ∀ b ∈ field.1.head?, isBlank b = false
  value_newline : newline ∉ field.2

/-- A field as it is read from its line. -/
def readBack (field : GoString × GoString) : GoString × GoString :=
  (canonicalKey field.1, trim field.2)

section

variable (hfield : OneLine field)
include hfield

theorem OneLine.key_ne_nil : field.1 ≠ [] := by
  intro hnil
  have hkey := hfield.key_valid
  rw [hnil] at hkey
  cases hkey

/-- The bytes of a key. -/
theorem OneLine.mem_key {b : UInt8} (hb : b ∈ field.1) :
    (validHeaderFieldByte b || b = space) = true := by
  have hkey := hfield.key_valid
  unfold canonicalMIMEHeaderKey at hkey
  split at hkey
  · cases hkey
  split at hkey
  · rename_i hvalid
    rw [List.all_eq_true.mp hvalid b hb]
    rfl
  split at hkey
  · rename_i hspaces
    exact List.all_eq_true.mp hspaces b hb
  · cases hkey

theorem OneLine.colon_notMem_key : colon ∉ field.1 := fun h =>
  absurd (hfield.mem_key h) (by decide)

theorem OneLine.newline_notMem : newline ∉ field.1 ++ colon :: space :: field.2 := by
  intro h
  simp only [List.mem_append, List.mem_cons] at h
  obtain h | h | h | h := h
  · exact absurd (hfield.mem_key h) (by decide)
  · exact absurd h (by decide)
  · exact absurd h (by decide)
  · exact hfield.value_newline h

/-- A line that has been written. -/
theorem readContinuedLine_writeField {tail : GoString} (htail : ∀ b ∈ tail.head?, isBlank b = false)
    (fail : IoErr) :
    readContinuedLine ⟨writeField field ++ tail, fail⟩ =
      .ok (field.1 ++ colon :: (space :: field.2).rdropWhile isBlank, ⟨tail, fail⟩) := by
  have htrim : trim (field.1 ++ colon :: space :: field.2) =
      field.1 ++ colon :: (space :: field.2).rdropWhile isBlank := by
    unfold trim
    rw [trimLeft_of_head, rdropWhile_append_cons (by decide)]
    intro b hb
    rw [head_of_prefix_ne_nil (List.prefix_append _ _) hfield.key_ne_nil] at hb
    exact hfield.key_head b hb
  have hcontinued : ∀ buf, continuedLines buf ⟨tail, fail⟩ = (buf, ⟨tail, fail⟩) := by
    intro buf
    rw [continuedLines, if_neg]
    dsimp only
    cases hhead : tail.head? with
    | none => simp
    | some b => simp [htail b hhead]
  unfold readContinuedLine writeField
  rw [readLine_crlf hfield.newline_notMem]
  dsimp only
  rw [if_neg (by simp), if_neg (by simp), htrim, hcontinued]

/-- A line is a field if its value is valid. -/
theorem parseField_written :
    parseField (field.1 ++ colon :: (space :: field.2).rdropWhile isBlank) =
      if field.2.all validHeaderValueByte then some (readBack field) else none := by
  have hall : ((space :: field.2).rdropWhile isBlank).all validHeaderValueByte =
      field.2.all validHeaderValueByte := by
    rw [all_rdropWhile_blank, List.all_cons]
    rfl
  unfold parseField
  rw [cut_append hfield.colon_notMem_key]
  dsimp only
  rw [hfield.key_valid]
  dsimp only
  rw [hall, trimLeft_rdropWhile, trimLeft_space]
  rfl

/-- One line, and then the others. -/
theorem readFields_writeField {tail : GoString} (htail : ∀ b ∈ tail.head?, isBlank b = false)
    (h : MIMEHeader) (fail : IoErr) :
    (field.2.all validHeaderValueByte = true →
      readFields h ⟨writeField field ++ tail, fail⟩ =
        readFields (h ++ [readBack field]) ⟨tail, fail⟩) ∧
    (field.2.all validHeaderValueByte = false →
      ∃ e, readFields h ⟨writeField field ++ tail, fail⟩ = .error e) := by
  have hline := readContinuedLine_writeField hfield htail fail
  have hparse := parseField_written hfield
  rw [readFields.eq_def]
  split
  · rename_i hread
    cases hline.symm.trans hread
  · rename_i hread
    cases hline.symm.trans hread
    rw [if_neg (by simp), hparse]
    constructor
    · intro hvalid
      rw [if_pos hvalid]
    · intro hinvalid
      rw [if_neg (by rw [hinvalid]; exact Bool.false_ne_true)]
      exact ⟨_, rfl⟩

end

variable {fields : MIMEHeader}

/-- A header, or its end, does not start with a blank. -/
theorem head_writeHeaders (hfields : ∀ field ∈ fields, OneLine field) (rest : GoString) :
    ∀ b ∈ (writeHeaders fields ++ rest).head?, isBlank b = false := by
  cases fields with
  | nil =>
    intro b hb
    cases hb
    decide
  | cons field fields =>
    have hfield := hfields field List.mem_cons_self
    intro b hb
    have hstart : field.1 <+: writeHeaders (field :: fields) ++ rest := by
      unfold writeHeaders writeField
      simp only [List.flatMap_cons, List.append_assoc]
      exact List.prefix_append _ _
    rw [head_of_prefix_ne_nil hstart hfield.key_ne_nil] at hb
    exact hfield.key_head b hb

theorem readFields_writeHeaders (hfields : ∀ field ∈ fields, OneLine field) (h : MIMEHeader)
    (rest : GoString) (fail : IoErr) :
    ((∀ field ∈ fields, field.2.all validHeaderValueByte = true) →
      readFields h ⟨writeHeaders fields ++ rest, fail⟩ =
        .ok (h ++ fields.map readBack, ⟨rest, fail⟩)) ∧
    ((∃ field ∈ fields, field.2.all validHeaderValueByte = false) →
      ∃ e, readFields h ⟨writeHeaders fields ++ rest, fail⟩ = .error e) := by
  induction fields generalizing h with
  | nil =>
    have hend : readContinuedLine ⟨writeHeaders [] ++ rest, fail⟩ = .ok ([], ⟨rest, fail⟩) := by
      unfold readContinuedLine
      rw [show writeHeaders [] ++ rest = [] ++ crlf ++ rest from rfl,
        readLine_crlf List.not_mem_nil]
      rfl
    constructor
    · intro _
      unfold readFields
      split
      · rename_i hline
        cases hend.symm.trans hline
      · rename_i hline
        cases hend.symm.trans hline
        rw [if_pos rfl, List.map_nil, List.append_nil]
    · rintro ⟨field, hmem, -⟩
      cases hmem
  | cons field fields ih =>
    have hfields' : ∀ f ∈ fields, OneLine f := fun f hf => hfields f (List.mem_cons_of_mem field hf)
    have hparts : writeHeaders (field :: fields) ++ rest =
        writeField field ++ (writeHeaders fields ++ rest) := by simp [writeHeaders]
    obtain ⟨hnext, hstop⟩ := readFields_writeField (hfields field List.mem_cons_self)
      (head_writeHeaders hfields' rest) h fail
    obtain ⟨hok, herror⟩ := ih hfields' (h ++ [readBack field])
    rw [hparts]
    constructor
    · intro hvalid
      rw [hnext (hvalid field List.mem_cons_self),
        hok fun f hf => hvalid f (List.mem_cons_of_mem field hf), List.map_cons, List.append_assoc]
      rfl
    · rintro ⟨f, hmem, hinvalid⟩
      cases hvalid : field.2.all validHeaderValueByte with
      | false => exact hstop hvalid
      | true =>
        rw [hnext hvalid]
        rcases List.mem_cons.mp hmem with rfl | hmem
        · exact absurd hvalid (by rw [hinvalid]; exact Bool.false_ne_true)
        · exact herror ⟨f, hmem, hinvalid⟩

/-- A header of lines can be read exactly if its values are valid. -/
theorem readMIMEHeader_lines (hfields : ∀ field ∈ fields, OneLine field) (rest : GoString)
    (fail : IoErr) :
    ((∀ field ∈ fields, field.2.all validHeaderValueByte = true) →
      readMIMEHeader ⟨writeHeaders fields ++ rest, fail⟩ =
        .ok (fields.map readBack, ⟨rest, fail⟩)) ∧
    ((∃ field ∈ fields, field.2.all validHeaderValueByte = false) →
      ∃ e, readMIMEHeader ⟨writeHeaders fields ++ rest, fail⟩ = .error e) := by
  have hhead : ¬ ((writeHeaders fields ++ rest).head?).any isBlank = true := by
    have hblank := head_writeHeaders hfields rest
    cases hb : (writeHeaders fields ++ rest).head? with
    | none => simp
    | some b => simp [hblank b hb]
  unfold readMIMEHeader
  rw [if_neg hhead]
  exact readFields_writeHeaders hfields [] rest fail

theorem IsField.oneLine (hfield : IsField field) : OneLine field where
  key_valid := by rw [canonicalKey, hfield.key_canonical, Option.getD_some]
  key_head := hfield.key_head
  value_newline := fun h => absurd (List.all_eq_true.mp hfield.value_valid _ h) (by decide)

theorem IsField.readBack_eq (hfield : IsField field) : readBack field = trimValue field := by
  rw [readBack, trimValue, canonicalKey, hfield.key_canonical, trim,
    trimLeft_of_head hfield.value_head]
  rfl

/-- **A header that is written is read back**, up to blanks at the end of its values. -/
theorem readMIMEHeader_writeHeaders (hfields : ∀ field ∈ fields, IsField field) (rest : GoString)
    (fail : IoErr) :
    readMIMEHeader ⟨writeHeaders fields ++ rest, fail⟩ =
      .ok (fields.map trimValue, ⟨rest, fail⟩) := by
  have hread := (readMIMEHeader_lines (fun f hf => (hfields f hf).oneLine) rest fail).1
    fun f hf => (hfields f hf).value_valid
  rw [hread, List.map_congr_left fun f hf => (hfields f hf).readBack_eq]

/-- The values of a key, in a header that has been read back. -/
theorem values_map_trimValue (fields : MIMEHeader) (key : GoString) :
    MIMEHeader.values (fields.map trimValue) key =
      (MIMEHeader.values fields key).map (List.rdropWhile isBlank) := by
  unfold MIMEHeader.values
  rw [List.filter_map, List.map_map, List.map_map]
  rfl

end Glider.Http
