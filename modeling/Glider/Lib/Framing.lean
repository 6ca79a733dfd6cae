/-
Self-delimiting codes: an item is encoded so that its end can be found from its
beginning, and a stream is the concatenation of its items.

* `decodeAll_eq_some` — decoding a whole stream succeeds exactly on the concatenations of
  encodings, and returns the items.

The decoder reads with fuel, one unit for each item, so that it can be evaluated; the
length of the stream is always enough.
-/

namespace Glider.Lib

/-- A code for `φ` over the alphabet `β`, with the reader of one item. The reader accepts
exactly the encodings, whatever follows them. -/
structure Framing (β φ : Type) where
  encode : φ → List β
  next : List β → Option (φ × List β)
  encode_ne_nil : ∀ f, encode f ≠ []
  next_encode : ∀ f rest, next (encode f ++ rest) = some (f, rest)
  encode_of_next : ∀ {bytes f rest}, next bytes = some (f, rest) → bytes = encode f ++ rest

namespace Framing

variable {β φ : Type} (C : Framing β φ)

/-- The concatenation of the encodings. -/
def encodeAll (fs : List φ) : List β := fs.flatMap C.encode

/-- Read items until the stream is empty. -/
def decodeFuel : Nat → List β → Option (List φ)
  | _, [] => some []
  | 0, _ :: _ => none
  | n + 1, b :: bytes =>
    match C.next (b :: bytes) with
    | some (f, rest) => (decodeFuel n rest).map (f :: ·)
    | none => none

def decodeAll (bytes : List β) : Option (List φ) := C.decodeFuel bytes.length bytes

@[simp] theorem encodeAll_nil : C.encodeAll [] = [] := rfl

@[simp] theorem encodeAll_cons (f : φ) (fs : List φ) :
    C.encodeAll (f :: fs) = C.encode f ++ C.encodeAll fs := rfl

theorem encodeAll_append (fs gs : List φ) :
    C.encodeAll (fs ++ gs) = C.encodeAll fs ++ C.encodeAll gs := List.flatMap_append

theorem length_le_encodeAll (fs : List φ) : fs.length ≤ (C.encodeAll fs).length := by
  induction fs with
  | nil => exact Nat.le_refl 0
  | cons f fs ih =>
    have := List.length_pos_iff.mpr (C.encode_ne_nil f)
    rw [encodeAll_cons, List.length_append, List.length_cons]
    omega

theorem decodeFuel_encodeAll {n : Nat} (fs : List φ) (hn : fs.length ≤ n) :
    C.decodeFuel n (C.encodeAll fs) = some fs := by
  induction fs generalizing n with
  | nil =>
    cases n <;> rfl
  | cons f fs ih =>
    obtain ⟨m, rfl⟩ := Nat.exists_eq_succ_of_ne_zero (Nat.ne_of_gt (Nat.lt_of_lt_of_le
      (Nat.succ_pos fs.length) hn))
    obtain ⟨b, bytes, hbytes⟩ := List.exists_cons_of_ne_nil (C.encode_ne_nil f)
    have hnext := C.next_encode f (C.encodeAll fs)
    rw [encodeAll_cons, hbytes, List.cons_append]
    rw [hbytes, List.cons_append] at hnext
    simp only [decodeFuel, hnext]
    rw [ih (Nat.le_of_succ_le_succ hn)]
    rfl

theorem encodeAll_of_decodeFuel {n : Nat} {bytes : List β} {fs : List φ}
    (h : C.decodeFuel n bytes = some fs) : bytes = C.encodeAll fs := by
  induction n generalizing bytes fs with
  | zero =>
    cases bytes with
    | nil =>
      cases h
      rfl
    | cons b bytes => cases h
  | succ n ih =>
    cases bytes with
    | nil =>
      cases h
      rfl
    | cons b bytes =>
      simp only [decodeFuel] at h
      split at h
      · rename_i f rest hnext
        obtain ⟨gs, hrest, rfl⟩ := Option.map_eq_some_iff.mp h
        rw [C.encode_of_next hnext, ih hrest]
        rfl
      · cases h

/-- **A stream decodes to its items**, and nothing else decodes. -/
theorem decodeAll_eq_some {bytes : List β} {fs : List φ} :
    C.decodeAll bytes = some fs ↔ bytes = C.encodeAll fs := by
  constructor
  · exact C.encodeAll_of_decodeFuel
  · rintro rfl
    exact C.decodeFuel_encodeAll fs (C.length_le_encodeAll fs)

/-- No stream of items is a beginning of another one, but by its items. -/
theorem prefix_of_encodeAll {fs gs : List φ} (h : C.encodeAll fs <+: C.encodeAll gs) :
    fs <+: gs := by
  induction fs generalizing gs with
  | nil => exact List.nil_prefix
  | cons f fs ih =>
    obtain ⟨rest, hrest⟩ := h
    rw [encodeAll_cons, List.append_assoc] at hrest
    cases gs with
    | nil =>
      have hnil := (List.append_eq_nil_iff.mp hrest).1
      exact absurd hnil (C.encode_ne_nil f)
    | cons g gs =>
      have hnext := C.next_encode f (C.encodeAll fs ++ rest)
      rw [hrest, encodeAll_cons, C.next_encode] at hnext
      obtain ⟨rfl, htail⟩ := Prod.mk.inj (Option.some.inj hnext)
      exact (List.prefix_cons_inj g).mpr (ih ⟨rest, htail.symm⟩)

end Framing

end Glider.Lib
