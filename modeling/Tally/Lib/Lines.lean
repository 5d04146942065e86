import Mathlib.Algebra.Group.Int.Defs
import Mathlib.Algebra.GroupWithZero.Nat
import Mathlib.Data.List.Basic
import Mathlib.Data.List.Infix

/-!
# Bytes, UTF-8 text and lines

A file is a list of bytes. Text is encoded as UTF-8, and a file of lines is split at the byte of the
line feed, which occurs in the encoding of no other character. So the lines of a file are the
encodings of the lines of its text (`split_encode`), whichever of the two is taken apart first.
-/

namespace Tally.Lib

/-! ## Lists with terminators -/

section Split

variable {α : Type} [DecidableEq α]

/-- The pieces that a terminator ends, and what is left after the last one. -/
def split (sep : α) : List α → List (List α) × List α
  | [] => ([], [])
  | a :: rest =>
    let (pieces, tail) := split sep rest
    if a = sep then ([] :: pieces, tail)
    else match pieces with
      | [] => ([], a :: tail)
      | piece :: pieces => ((a :: piece) :: pieces, tail)

def terminate (sep : α) (pieces : List (List α)) : List α := pieces.flatMap (· ++ [sep])

/-- The pieces of `str::split_terminator`: the tail counts unless it is empty. -/
def pieces (sep : α) (l : List α) : List (List α) :=
  let (pieces, tail) := split sep l
  if tail.isEmpty then pieces else pieces ++ [tail]

/-- The length up to the last terminator. -/
def completeLen (sep : α) (l : List α) : Nat := l.length - (split sep l).2.length

variable {sep : α}

omit [DecidableEq α] in
@[simp] theorem terminate_nil : terminate sep [] = [] := rfl

omit [DecidableEq α] in
@[simp] theorem terminate_cons (piece : List α) (pieces : List (List α)) :
    terminate sep (piece :: pieces) = piece ++ sep :: terminate sep pieces := by
  simp [terminate]

omit [DecidableEq α] in
@[simp] theorem terminate_append (a b : List (List α)) :
    terminate sep (a ++ b) = terminate sep a ++ terminate sep b :=
  List.flatMap_append

theorem terminate_split (sep : α) (l : List α) : terminate sep (split sep l).1 ++ (split sep l).2 = l := by
  induction l with
  | nil => rfl
  | cons a rest ih =>
    rw [split]
    rcases hsplit : split sep rest with ⟨pieces, tail⟩
    rw [hsplit] at ih
    dsimp only at ih ⊢
    split
    · next ha => rw [terminate_cons, List.nil_append, List.cons_append, ih, ha]
    · cases pieces with
      | nil => simpa using ih
      | cons piece pieces => simpa using ih

theorem not_mem_split (sep : α) (l : List α) :
    (∀ piece ∈ (split sep l).1, sep ∉ piece) ∧ sep ∉ (split sep l).2 := by
  induction l with
  | nil => simp [split]
  | cons a rest ih =>
    rw [split]
    rcases hsplit : split sep rest with ⟨pieces, tail⟩
    rw [hsplit] at ih
    dsimp only at ih ⊢
    split
    · simpa using ih
    next ha =>
      have ha : sep ≠ a := fun h => ha h.symm
      cases pieces with
      | nil => simpa [ha] using ih
      | cons piece pieces => simpa [ha] using ih

theorem split_of_not_mem {tail : List α} (h : sep ∉ tail) : split sep tail = ([], tail) := by
  induction tail with
  | nil => rfl
  | cons a rest ih =>
    rw [List.mem_cons, not_or] at h
    rw [split, ih h.2]
    simp [Ne.symm h.1]

theorem split_append_sep {piece : List α} (h : sep ∉ piece) (rest : List α) :
    split sep (piece ++ sep :: rest) = (piece :: (split sep rest).1, (split sep rest).2) := by
  induction piece with
  | nil => simp [split]
  | cons a piece ih =>
    rw [List.mem_cons, not_or] at h
    rw [List.cons_append, split, ih h.2]
    simp [Ne.symm h.1]

/-- A list is taken apart in one way. -/
theorem split_terminate {pieces : List (List α)} {tail : List α}
    (h : ∀ piece ∈ pieces, sep ∉ piece) (htail : sep ∉ tail) :
    split sep (terminate sep pieces ++ tail) = (pieces, tail) := by
  induction pieces with
  | nil => exact split_of_not_mem htail
  | cons piece pieces ih =>
    rw [terminate_cons, List.append_assoc, List.cons_append,
      split_append_sep (h piece List.mem_cons_self),
      ih fun p hp => h p (List.mem_cons_of_mem _ hp)]

theorem split_terminated {pieces : List (List α)} (h : ∀ piece ∈ pieces, sep ∉ piece) :
    split sep (terminate sep pieces) = (pieces, []) := by
  simpa using split_terminate h (List.not_mem_nil (a := sep))

/-- The list ends with the terminator, or is empty. -/
def Terminated (sep : α) (l : List α) : Prop := l = [] ∨ l.getLast? = some sep

omit [DecidableEq α] in
theorem getLast?_terminate_concat (pieces : List (List α)) (piece : List α) :
    (terminate sep (pieces ++ [piece])).getLast? = some sep := by
  simp [terminate_append]

theorem terminated_iff {l : List α} : Terminated sep l ↔ (split sep l).2 = [] := by
  constructor
  · rintro (rfl | hlast)
    · rfl
    · by_contra htail
      rw [← terminate_split sep l, List.getLast?_append_of_ne_nil _ htail] at hlast
      exact (not_mem_split sep l).2 (List.mem_of_getLast? hlast)
  · intro htail
    have hsplit := terminate_split sep l
    rw [htail, List.append_nil] at hsplit
    rcases List.eq_nil_or_concat (split sep l).1 with hnil | ⟨pieces, piece, hconcat⟩
    · rw [hnil] at hsplit
      exact .inl hsplit.symm
    · rw [← hsplit, hconcat, List.concat_eq_append]
      exact .inr (getLast?_terminate_concat pieces piece)

/-- A list that ends with the terminator, or is empty, is taken apart independently of what
follows. -/
theorem split_append {l : List α} (h : (split sep l).2 = []) (more : List α) :
    split sep (l ++ more) = ((split sep l).1 ++ (split sep more).1, (split sep more).2) := by
  obtain ⟨hl, -⟩ := not_mem_split sep l
  obtain ⟨hmore, htail⟩ := not_mem_split sep more
  have hjoin : l ++ more =
      terminate sep ((split sep l).1 ++ (split sep more).1) ++ (split sep more).2 := by
    rw [terminate_append, List.append_assoc, terminate_split]
    nth_rewrite 1 [← terminate_split sep l]
    rw [h, List.append_nil]
  rw [hjoin]
  refine split_terminate (fun piece hpiece => ?_) htail
  rcases List.mem_append.mp hpiece with hp | hp
  · exact hl piece hp
  · exact hmore piece hp

theorem pieces_of_complete {l : List α} (h : (split sep l).2 = []) : pieces sep l = (split sep l).1 := by
  unfold pieces
  rcases hsplit : split sep l with ⟨ps, tail⟩
  rw [hsplit] at h
  subst h
  rfl

/-- What `completeLen` leaves: the pieces with their terminators. -/
theorem take_completeLen (sep : α) (l : List α) :
    l.take (completeLen sep l) = terminate sep (split sep l).1 := by
  have hsplit := terminate_split sep l
  have hlength : completeLen sep l = (terminate sep (split sep l).1).length := by
    rw [completeLen]
    nth_rewrite 1 [← hsplit]
    rw [List.length_append, Nat.add_sub_cancel]
  nth_rewrite 2 [← hsplit]
  rw [hlength, List.take_left]

/-! ### The complete part -/

omit [DecidableEq α] in
theorem terminated_concat (l : List α) : Terminated sep (l ++ [sep]) := .inr (by simp)

omit [DecidableEq α] in
theorem Terminated.append {a b : List α} (ha : Terminated sep a) (hb : Terminated sep b) :
    Terminated sep (a ++ b) := by
  rcases hb with rfl | hlast
  · rwa [List.append_nil]
  · refine .inr ?_
    rw [List.getLast?_append_of_ne_nil, hlast]
    rintro rfl
    cases hlast

omit [DecidableEq α] in
theorem Terminated.of_append {a b : List α} (h : Terminated sep (a ++ b)) : Terminated sep b := by
  by_cases hb : b = []
  · exact .inl hb
  · rcases h with hnil | hlast
    · exact absurd (List.append_eq_nil_iff.mp hnil).2 hb
    · rw [List.getLast?_append_of_ne_nil _ hb] at hlast
      exact .inr hlast

/-- Every list is a part that ends with the terminator, and what is left. -/
theorem exists_complete (sep : α) (l : List α) :
    ∃ body tail, l = body ++ tail ∧ Terminated sep body ∧ sep ∉ tail := by
  refine ⟨terminate sep (split sep l).1, (split sep l).2, (terminate_split sep l).symm, ?_,
    (not_mem_split sep l).2⟩
  rw [terminated_iff, split_terminated (not_mem_split sep l).1]

theorem completeLen_append {body tail : List α} (hbody : Terminated sep body) (htail : sep ∉ tail) :
    completeLen sep (body ++ tail) = body.length := by
  rw [completeLen, split_append (terminated_iff.mp hbody), split_of_not_mem htail,
    List.length_append, Nat.add_sub_cancel]

omit [DecidableEq α] in
theorem terminated_append_iff {body tail : List α} (hbody : Terminated sep body)
    (htail : sep ∉ tail) : Terminated sep (body ++ tail) ↔ tail = [] := by
  constructor
  · rintro (hnil | hlast)
    · exact (List.append_eq_nil_iff.mp hnil).2
    · by_contra hne
      rw [List.getLast?_append_of_ne_nil _ hne] at hlast
      exact htail (List.mem_of_getLast? hlast)
  · rintro rfl
    rwa [List.append_nil]

omit [DecidableEq α] in
/-- A part that ends with the terminator is within the complete part. -/
theorem Terminated.prefix_complete {part body tail : List α} (hpart : Terminated sep part)
    (htail : sep ∉ tail) (h : part <+: body ++ tail) : part <+: body := by
  rcases List.prefix_or_prefix_of_prefix h (List.prefix_append body tail) with hbody | ⟨rest, rfl⟩
  · exact hbody
  · have hrest : rest <+: tail := List.prefix_append_right_inj body |>.mp h
    have hnil : rest = [] := by
      by_contra hne
      rcases hpart with hnil | hlast
      · exact hne (List.append_eq_nil_iff.mp hnil).2
      · rw [List.getLast?_append_of_ne_nil _ hne] at hlast
        exact htail (hrest.subset (List.mem_of_getLast? hlast))
    rw [hnil, List.append_nil]

end Split

/-! ## UTF-8 -/

abbrev Bytes := List UInt8

/-- The line feed. -/
def lf : UInt8 := 10

def encode (text : List Char) : Bytes := text.flatMap String.utf8EncodeChar

/-- `str::from_utf8`. -/
def decode (bytes : Bytes) : Option (List Char) :=
  bytes.toByteArray.utf8Decode?.map Array.toList

@[simp] theorem encode_nil : encode [] = [] := rfl

@[simp] theorem encode_append (a b : List Char) : encode (a ++ b) = encode a ++ encode b :=
  List.flatMap_append

theorem decode_encode (text : List Char) : decode (encode text) = some text := by
  have hbytes : (encode text).toByteArray = text.utf8Encode := rfl
  rw [decode, hbytes, List.utf8Decode?_utf8Encode]
  rfl

theorem decode_eq_some_iff {bytes : Bytes} {text : List Char} :
    decode bytes = some text ↔ bytes = encode text := by
  refine ⟨fun h => ?_, fun h => h ▸ decode_encode text⟩
  obtain ⟨chars, hchars, rfl⟩ := Option.map_eq_some_iff.mp h
  have hsome : bytes.toByteArray.utf8Decode?.isSome := by rw [hchars]; rfl
  obtain ⟨l, hl⟩ := ByteArray.isSome_utf8Decode?_iff.mp hsome
  have hencode : bytes = encode l := by
    have hdata := congrArg (fun b => b.data.toList) hl
    simpa [List.utf8Encode, List.toList_data_toByteArray, encode] using hdata
  have hdecode := decode_encode l
  rw [← hencode, h] at hdecode
  rw [hencode, Option.some.inj hdecode]

theorem encode_inj {a b : List Char} : encode a = encode b ↔ a = b := by
  refine ⟨fun h => ?_, fun h => h ▸ rfl⟩
  have hdecode := decode_encode a
  rw [h, decode_encode] at hdecode
  exact (Option.some.inj hdecode).symm

/-- The bytes below 128 stand for their own characters only. -/
theorem toNat_eq_of_mem_utf8EncodeChar {c : Char} {byte : UInt8} (hbyte : byte.toNat < 128)
    (h : byte ∈ String.utf8EncodeChar c) : c.toNat = byte.toNat := by
  have hne : ∀ {n : Nat}, 128 ≤ n → n < 256 → byte ≠ UInt8.ofNat n := by
    intro n hlow hhigh heq
    have htoNat := congrArg UInt8.toNat heq
    rw [UInt8.toNat_ofNat_of_lt' hhigh] at htoNat
    omega
  unfold String.utf8EncodeChar at h
  dsimp only at h
  split at h
  · next hv =>
    rw [List.mem_singleton] at h
    have htoNat := congrArg UInt8.toNat h
    rw [UInt8.toNat_ofNat_of_lt' (by change c.val.toNat < 256; omega)] at htoNat
    exact htoNat.symm
  · exfalso
    split at h
    · simp only [List.mem_cons, List.not_mem_nil, or_false] at h
      rcases h with h | h <;> exact hne (by omega) (by omega) h
    · split at h
      · simp only [List.mem_cons, List.not_mem_nil, or_false] at h
        rcases h with h | h | h <;> exact hne (by omega) (by omega) h
      · simp only [List.mem_cons, List.not_mem_nil, or_false] at h
        rcases h with h | h | h | h <;> exact hne (by omega) (by omega) h

/-- No other character has the byte of the line feed in its encoding. -/
theorem lf_mem_utf8EncodeChar {c : Char} (h : lf ∈ String.utf8EncodeChar c) : c = '\n' :=
  Char.toNat_inj.mp (toNat_eq_of_mem_utf8EncodeChar (by decide) h)

theorem lf_not_mem_encode {text : List Char} (h : '\n' ∉ text) : lf ∉ encode text := by
  intro hmem
  obtain ⟨c, hc, hlf⟩ := List.mem_flatMap.mp hmem
  rw [lf_mem_utf8EncodeChar hlf] at hc
  exact h hc

/-- Text whose bytes begin with those of another text begins with that text. -/
theorem prefix_of_encode_prefix {a b : List Char} (h : encode a <+: encode b) : a <+: b := by
  obtain ⟨rest, hrest⟩ := h
  refine List.isPrefix_of_utf8Encode_append_eq_utf8Encode rest.toByteArray ?_
  have hbytes := congrArg List.toByteArray hrest
  rwa [List.toByteArray_append] at hbytes

theorem encode_terminate (lines : List (List Char)) :
    encode (terminate '\n' lines) = terminate lf (lines.map encode) := by
  induction lines with
  | nil => rfl
  | cons line lines ih =>
    rw [terminate_cons, encode_append, List.map_cons, terminate_cons, ← ih]
    rfl

/-- The lines of a file are the encodings of the lines of its text. -/
theorem split_encode (text : List Char) :
    split lf (encode text) =
      ((split '\n' text).1.map encode, encode (split '\n' text).2) := by
  obtain ⟨hlines, htail⟩ := not_mem_split '\n' text
  have htext := terminate_split '\n' text
  nth_rewrite 1 [← htext]
  rw [encode_append, encode_terminate]
  refine split_terminate (fun piece hpiece => ?_) (lf_not_mem_encode htail)
  obtain ⟨line, hline, rfl⟩ := List.mem_map.mp hpiece
  exact lf_not_mem_encode (hlines line hline)

/-! ## Lines of text -/

/-- Unicode `White_Space`, the characters `str::trim` removes. -/
def isWhitespace (c : Char) : Bool :=
  let n := c.toNat
  (0x9 ≤ n && n ≤ 0xD) || n == 0x20 || n == 0x85 || n == 0xA0 || n == 0x1680 ||
    (0x2000 ≤ n && n ≤ 0x200A) || n == 0x2028 || n == 0x2029 || n == 0x202F || n == 0x205F ||
    n == 0x3000

/-- `line.trim().is_empty()`. -/
def blank (line : List Char) : Bool := line.all isWhitespace

def debugChar (c : Char) : List Char :=
  let n := c.toNat
  if c = '\x00' then ['\x5c', '0']
  else if c = '\t' then ['\x5c', 't']
  else if c = '\r' then ['\x5c', 'r']
  else if c = '\n' then ['\x5c', 'n']
  else if c = '\x22' || c = '\x5c' then ['\x5c', c]
  else if n < 0x20 || (0x7F ≤ n && n ≤ 0x9F) || n == 0xAD || (isWhitespace c && c != ' ') then
    ['\x5c', 'u', '\x7b'] ++ Nat.toDigits 16 n ++ ['\x7d']
  else [c]

/-- A text as `Debug` shows it. The tables of the library have more characters that are not printed, all of
them beyond Latin-1. -/
def debugText (text : String) : String :=
  String.ofList (['\x22'] ++ text.toList.flatMap debugChar ++ ['\x22'])

/-- `text.lines()` of a line: a carriage return before the line feed is not part of it. -/
def stripCr (line : List Char) : List Char :=
  if line.getLast? = some '\r' then line.dropLast else line

/-! ## Paths -/

/-- A path of the platform, any bytes. -/
structure PathBuf where
  bytes : Bytes
  deriving DecidableEq

namespace PathBuf

/-- `Path::to_str`. -/
def toStr (path : PathBuf) : Option String := (decode path.bytes).map String.ofList

/-- `PathBuf::from` of a text. -/
def ofString (text : String) : PathBuf := ⟨encode text.toList⟩

def isAbsolute (path : PathBuf) : Bool := path.bytes.head? == some 47

end PathBuf

end Tally.Lib
