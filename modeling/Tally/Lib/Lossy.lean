import Tally.Lib.Ascii

/-!
# Lossy UTF-8

Bytes that need not be UTF-8 are read as text: each longest beginning of a character that goes no
further stands as one replacement character. Text is cut to a number of bytes from either end, at the
boundary of a character.
-/

namespace Tally.Lib

/-! ## Reading -/

def replacementChar : Char := Char.ofNat 0xFFFD

def isContinuation (byte : UInt8) : Bool := byte &&& 0xC0 == 0x80

/-- The second bytes that can follow the first byte of three or four. -/
def isSecond (first second : UInt8) : Bool :=
  if first == 0xE0 then 0xA0 ≤ second && second ≤ 0xBF
  else if first == 0xED then 0x80 ≤ second && second ≤ 0x9F
  else if first == 0xF0 then 0x90 ≤ second && second ≤ 0xBF
  else if first == 0xF4 then 0x80 ≤ second && second ≤ 0x8F
  else 0x80 ≤ second && second ≤ 0xBF

/-- The low bits of a byte. -/
def lowBits (byte : UInt8) (bits : Nat) : Nat := byte.toNat % 2 ^ bits

/-- What the bytes after a first byte make of it, and how many of them belong to it. -/
def readUnit (first : UInt8) (rest : Bytes) : Char × Nat :=
  if first < 0x80 then (Char.ofNat first.toNat, 0)
  else if 0xC2 ≤ first && first ≤ 0xDF then
    match rest with
    | second :: _ =>
      if isContinuation second then (Char.ofNat (lowBits first 5 * 64 + lowBits second 6), 1)
      else (replacementChar, 0)
    | [] => (replacementChar, 0)
  else if 0xE0 ≤ first && first ≤ 0xEF then
    match rest with
    | second :: third :: _ =>
      if !isSecond first second then (replacementChar, 0)
      else if isContinuation third then
        (Char.ofNat (lowBits first 4 * 4096 + lowBits second 6 * 64 + lowBits third 6), 2)
      else (replacementChar, 1)
    | [second] => (replacementChar, if isSecond first second then 1 else 0)
    | [] => (replacementChar, 0)
  else if 0xF0 ≤ first && first ≤ 0xF4 then
    match rest with
    | second :: third :: fourth :: _ =>
      if !isSecond first second then (replacementChar, 0)
      else if !isContinuation third then (replacementChar, 1)
      else if isContinuation fourth then
        (Char.ofNat (lowBits first 3 * 262144 + lowBits second 6 * 4096 + lowBits third 6 * 64 +
          lowBits fourth 6), 3)
      else (replacementChar, 2)
    | [second, third] =>
      (replacementChar, if !isSecond first second then 0 else if isContinuation third then 2 else 1)
    | [second] => (replacementChar, if isSecond first second then 1 else 0)
    | [] => (replacementChar, 0)
  else (replacementChar, 0)

/-- Read the bytes after some that belong to the character before them. -/
def lossyAfter : Nat → Bytes → List Char
  | _, [] => []
  | skip + 1, _ :: rest => lossyAfter skip rest
  | 0, first :: rest => (readUnit first rest).1 :: lossyAfter (readUnit first rest).2 rest

/-- `String::from_utf8_lossy`. -/
def fromUtf8Lossy (bytes : Bytes) : List Char := lossyAfter 0 bytes

/-- `Path::to_string_lossy`. -/
def PathBuf.toStringLossy (path : PathBuf) : String := String.ofList (fromUtf8Lossy path.bytes)

example : fromUtf8Lossy [0x61, 0xC3, 0xA9, 0xE2, 0x82, 0x62, 0xFF, 0xF0, 0x9F, 0x98, 0x80] =
    ['a', 'é', replacementChar, 'b', replacementChar, '😀'] := by decide

theorem fromUtf8Lossy_ascii {bytes : Bytes} (h : ∀ byte ∈ bytes, byte.toNat < 128) :
    fromUtf8Lossy bytes = bytes.map fun byte => Char.ofNat byte.toNat := by
  unfold fromUtf8Lossy
  induction bytes with
  | nil => rfl
  | cons first rest ih =>
    have hfirst : first < 0x80 := UInt8.lt_iff_toNat_lt.mpr (h first List.mem_cons_self)
    have hunit : readUnit first rest = (Char.ofNat first.toNat, 0) := by
      rw [readUnit.eq_def, if_pos hfirst]
    rw [lossyAfter, hunit, List.map_cons, ih fun byte hbyte => h byte (List.mem_cons_of_mem _ hbyte)]

theorem isContinuation_ascii {byte : UInt8} (h : byte.toNat < 128) : isContinuation byte = false := by
  have hall : ∀ n < 128, isContinuation (UInt8.ofNat n) = false := by decide
  rw [← UInt8.ofNat_toNat (x := byte)]
  exact hall _ h

/-! ## Cutting -/

/-- `str::len`. -/
def byteLen (text : List Char) : Nat := (encode text).length

@[simp] theorem byteLen_append (a b : List Char) : byteLen (a ++ b) = byteLen a + byteLen b := by
  rw [byteLen, encode_append, List.length_append]
  rfl

theorem byteLen_cons (c : Char) (text : List Char) : byteLen (c :: text) = c.utf8Size + byteLen text := by
  rw [byteLen, encode, List.flatMap_cons, List.length_append, String.length_utf8EncodeChar]
  rfl

/-- The longest beginning within a number of bytes. -/
def takeWithin : Nat → List Char → List Char
  | _, [] => []
  | room, c :: text => if c.utf8Size ≤ room then c :: takeWithin (room - c.utf8Size) text else []

/-- The longest end within a number of bytes. -/
def endWithin (room : Nat) : List Char → List Char
  | [] => []
  | c :: text => if byteLen (c :: text) ≤ room then c :: text else endWithin room text

theorem byteLen_takeWithin_le (room : Nat) (text : List Char) : byteLen (takeWithin room text) ≤ room := by
  induction text generalizing room with
  | nil => exact Nat.zero_le _
  | cons c text ih =>
    rw [takeWithin]
    split
    · have := ih (room - c.utf8Size)
      rw [byteLen_cons]
      omega
    · exact Nat.zero_le _

theorem takeWithin_isPrefix (room : Nat) (text : List Char) : takeWithin room text <+: text := by
  induction text generalizing room with
  | nil => exact List.prefix_rfl
  | cons c text ih =>
    rw [takeWithin]
    split
    · exact List.prefix_cons_inj c |>.mpr (ih _)
    · exact List.nil_prefix

theorem byteLen_endWithin_le (room : Nat) (text : List Char) : byteLen (endWithin room text) ≤ room := by
  induction text with
  | nil => exact Nat.zero_le _
  | cons c text ih =>
    rw [endWithin]
    split
    · assumption
    · exact ih

theorem endWithin_suffix (room : Nat) (text : List Char) : endWithin room text <:+ text := by
  induction text with
  | nil => exact List.suffix_rfl
  | cons c text ih =>
    rw [endWithin]
    split
    · exact List.suffix_rfl
    · exact ih.trans (List.suffix_cons c text)

/-- If every character is a byte, the end is as long as there is room. -/
theorem byteLen_endWithin_eq {room : Nat} {text : List Char} (hbytes : ∀ c ∈ text, c.utf8Size = 1)
    (h : room ≤ byteLen text) : byteLen (endWithin room text) = room := by
  induction text with
  | nil => exact (Nat.le_zero.mp h).symm
  | cons c text ih =>
    rw [endWithin]
    split
    · omega
    · next hlong =>
      have hc := hbytes c List.mem_cons_self
      rw [byteLen_cons, hc] at hlong
      exact ih (fun other hother => hbytes other (List.mem_cons_of_mem _ hother)) (by omega)

end Tally.Lib
