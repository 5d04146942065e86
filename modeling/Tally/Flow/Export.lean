import Tally.Flow.Spec

/-!
# The meta export

A flow is a module with one export, its `meta`, and runs as a script (`dialect.rs`). To make the script
of the module `strip_meta_export` blanks the word `export`. It looks for the first free-standing word
in what it takes for code: it reads quoted text and comments flatly, without knowing regular
expressions or the substitutions of templates. `Flat` says which texts it reads through, and
`scan_eq_some_iff` that it finds the word behind one.
-/

namespace Tally.Flow

open Tally.Lib

/-! ## The scanner -/

def slash : UInt8 := 0x2f

def star : UInt8 := 0x2a

def backslash : UInt8 := 0x5c

/-- An apostrophe, a quotation mark or a backtick. -/
def isQuote (byte : UInt8) : Bool := byte == 0x27 || byte == 0x22 || byte == 0x60

/-- `identifier_byte`. -/
def identifierByte (byte : UInt8) : Bool :=
  (0x30 ≤ byte && byte ≤ 0x39) || (0x61 ≤ byte && byte ≤ 0x7a) || (0x41 ≤ byte && byte ≤ 0x5a) ||
    byte == 0x5f || byte == 0x24

/-- The bytes of `export`. -/
def exportWord : Bytes := [0x65, 0x78, 0x70, 0x6f, 0x72, 0x74]

/-- The word `export` stands free at the beginning of a text, behind the byte before it. -/
def standsFree (previous : Option UInt8) (text : Bytes) : Bool :=
  exportWord.isPrefixOf text && previous.all (fun byte => !identifierByte byte) &&
    text[6]?.all (fun byte => !identifierByte byte)

/-- The variables of the loop. -/
structure Scan where
  index : Nat := 0
  quote : Option UInt8 := none
  lineComment : Bool := false
  blockComment : Bool := false
  deriving DecidableEq

inductive Round
  | next (scan : Scan)
  | found (index : Nat)
  deriving DecidableEq

/-- One round of the loop, at a byte and what is behind it. -/
def Scan.round (scan : Scan) (bytes : Bytes) (byte : UInt8) (rest : Bytes) : Round :=
  if scan.lineComment = true then
    .next { scan with lineComment := byte != lf, index := scan.index + 1 }
  else if scan.blockComment = true then
    if byte = star ∧ rest.head? = some slash then
      .next { scan with blockComment := false, index := scan.index + 2 }
    else .next { scan with index := scan.index + 1 }
  else match scan.quote with
  | some active =>
    if byte = backslash then .next { scan with index := min (scan.index + 2) bytes.length }
    else .next { scan with quote := if byte = active then none else some active
                           index := scan.index + 1 }
  | none =>
    if isQuote byte = true then .next { scan with quote := some byte, index := scan.index + 1 }
    else if byte = slash ∧ rest.head? = some slash then
      .next { scan with lineComment := true, index := scan.index + 2 }
    else if byte = slash ∧ rest.head? = some star then
      .next { scan with blockComment := true, index := scan.index + 2 }
    else if standsFree (bytes.take scan.index).getLast? (byte :: rest) = true then
      .found scan.index
    else .next { scan with index := scan.index + 1 }

/-- The loop. A round takes a byte or more. -/
def scanFrom (bytes : Bytes) : Nat → Scan → Option Nat
  | 0, _ => none
  | fuel + 1, scan =>
    match bytes.drop scan.index with
    | [] => none
    | byte :: rest =>
      match scan.round bytes byte rest with
      | .found index => some index
      | .next scan => scanFrom bytes fuel scan

def findExport (bytes : Bytes) : Option Nat := scanFrom bytes (bytes.length + 1) {}

/-- `output[index..index + 6].fill(b' ')`. -/
def blanked (bytes : Bytes) (index : Nat) : Bytes :=
  bytes.take index ++ List.replicate 6 0x20 ++ bytes.drop (index + 6)

/-- `strip_meta_export`. -/
def stripMetaExport (source : String) : Except FlowError String :=
  let bytes := encode source.toList
  match findExport bytes with
  | none =>
    .error ((FlowError.new "FlowMetaError" "meta-missing" "could not locate the meta export token").at
      ⟨1, 1⟩)
  | some index =>
    match decode (blanked bytes index) with
    | some output => .ok (String.ofList output)
    | none =>
      .error ((FlowError.new "FlowSyntaxError" "script-encoding"
        "script is not UTF-8 after export normalization").at ⟨1, 1⟩)

/-! ## Flat reading -/

/-- Text that a quote goes through: an escape is two bytes, and none of the others is the quote. -/
def closed (mark : UInt8) : Bytes → Bool
  | [] => true
  | [byte] => byte != backslash && byte != mark
  | byte :: next :: rest =>
    if byte = backslash then closed mark rest else byte != mark && closed mark (next :: rest)

/-- Text without the end of a comment. -/
def withoutEnd : Bytes → Bool
  | [] => true
  | [_] => true
  | byte :: next :: rest => !(byte == star && next == slash) && withoutEnd (next :: rest)

/-- A comment starts here. -/
def startsComment : Bytes → Bool
  | byte :: next :: _ => byte == slash && (next == slash || next == star)
  | _ => false

/-- Behind a byte, a text is read up to a rest of it: as quoted texts, comments and other bytes, none
of which is the beginning of a free-standing `export`. -/
inductive Flat : Option UInt8 → Bytes → Bytes → Prop
  | done {previous rest} : Flat previous rest rest
  | code {previous byte more rest} : isQuote byte = false → startsComment (byte :: more) = false →
      standsFree previous (byte :: more) = false → Flat (some byte) more rest →
      Flat previous (byte :: more) rest
  | quoted {previous mark body more rest} : isQuote mark = true → closed mark body = true →
      Flat (some mark) more rest → Flat previous (mark :: (body ++ mark :: more)) rest
  | line {previous body more rest} : lf ∉ body → Flat (some lf) more rest →
      Flat previous (slash :: slash :: (body ++ lf :: more)) rest
  | block {previous body more rest} : withoutEnd body = true → Flat (some slash) more rest →
      Flat previous (slash :: star :: (body ++ star :: slash :: more)) rest

/-! ## Rounds -/

theorem not_startsComment {byte next : UInt8} {rest : Bytes}
    (h : startsComment (byte :: rest) = false) (hnext : next = slash ∨ next = star) :
    ¬ (byte = slash ∧ rest.head? = some next) := by
  rintro ⟨rfl, hhead⟩
  cases rest with
  | nil => cases hhead
  | cons head tail =>
    cases hhead
    rcases hnext with rfl | rfl
    · exact absurd h (by simp [startsComment])
    · exact absurd h (by simp [startsComment])

variable {bytes before text rest more body : Bytes} {byte mark : UInt8} {k : Nat}

theorem Scan.round_index {scan next : Scan} (hindex : scan.index < bytes.length)
    (h : scan.round bytes byte rest = .next next) : scan.index < next.index := by
  unfold Scan.round at h
  split at h
  · cases h
    exact Nat.lt_succ_self _
  · split at h
    · split at h
      · cases h
        exact Nat.lt_add_of_pos_right (by decide)
      · cases h
        exact Nat.lt_succ_self _
    · split at h
      · split at h
        · cases h
          exact lt_min (Nat.lt_add_of_pos_right (by decide)) hindex
        · cases h
          exact Nat.lt_succ_self _
      · split at h
        · cases h
          exact Nat.lt_succ_self _
        · split at h
          · cases h
            exact Nat.lt_add_of_pos_right (by decide)
          · split at h
            · cases h
              exact Nat.lt_add_of_pos_right (by decide)
            · split at h
              · cases h
              · cases h
                exact Nat.lt_succ_self _

theorem index_lt_of_drop {index : Nat} (h : bytes.drop index = byte :: rest) :
    index < bytes.length := by
  by_contra hle
  rw [List.drop_eq_nil_of_le (Nat.le_of_not_lt hle)] at h
  cases h

/-- A round for each byte that is left is enough. -/
theorem scanFrom_fuel (bytes : Bytes) (fuel : Nat) (scan : Scan)
    (h : bytes.length < fuel + scan.index) :
    scanFrom bytes fuel scan = scanFrom bytes (fuel + 1) scan := by
  induction fuel generalizing scan with
  | zero =>
    have hnil : bytes.drop scan.index = [] := List.drop_eq_nil_of_le (by omega)
    simp only [scanFrom, hnil]
  | succ fuel ih =>
    rw [scanFrom, scanFrom]
    cases hdrop : bytes.drop scan.index with
    | nil => rfl
    | cons byte rest =>
      have hindex := index_lt_of_drop hdrop
      dsimp only
      cases hround : scan.round bytes byte rest with
      | found index => rfl
      | next scan' =>
        have := Scan.round_index hindex hround
        exact ih scan' (by omega)

/-- What the loop finds from here on. -/
def foundFrom (bytes : Bytes) (scan : Scan) : Option Nat := scanFrom bytes (bytes.length + 1) scan

theorem foundFrom_end {scan : Scan} (h : bytes.drop scan.index = []) : foundFrom bytes scan = none := by
  rw [foundFrom, scanFrom, h]

theorem foundFrom_found {scan : Scan} (h : bytes.drop scan.index = byte :: rest)
    (hround : scan.round bytes byte rest = .found k) : foundFrom bytes scan = some k := by
  rw [foundFrom, scanFrom, h]
  dsimp only
  rw [hround]

theorem foundFrom_next {scan next : Scan} (h : bytes.drop scan.index = byte :: rest)
    (hround : scan.round bytes byte rest = .next next) :
    foundFrom bytes scan = foundFrom bytes next := by
  have hindex := index_lt_of_drop h
  have hlt := Scan.round_index hindex hround
  rw [foundFrom, scanFrom, h]
  dsimp only
  rw [hround]
  exact scanFrom_fuel bytes bytes.length next (by omega)

/-! ## Reading through -/

section

variable {i : Nat}

theorem round_quote_end (hmark : mark ≠ backslash) :
    Scan.round { index := i, quote := some mark } bytes mark rest = .next { index := i + 1 } := by
  simp only [Scan.round, Bool.false_eq_true, if_false, if_neg hmark, if_true]

theorem round_quote_escape (hlength : i + 2 ≤ bytes.length) :
    Scan.round { index := i, quote := some mark } bytes backslash rest =
      .next { index := i + 2, quote := some mark } := by
  simp only [Scan.round, Bool.false_eq_true, if_false, if_true, Nat.min_eq_left hlength]

theorem round_quote_byte (hescape : byte ≠ backslash) (hmark : byte ≠ mark) :
    Scan.round { index := i, quote := some mark } bytes byte rest =
      .next { index := i + 1, quote := some mark } := by
  simp only [Scan.round, Bool.false_eq_true, if_false, if_neg hescape, if_neg hmark]

theorem round_line (byte : UInt8) (rest : Bytes) :
    Scan.round { index := i, lineComment := true } bytes byte rest =
      .next { index := i + 1, lineComment := byte != lf } := rfl

theorem round_block_end (h : byte = star ∧ rest.head? = some slash) :
    Scan.round { index := i, blockComment := true } bytes byte rest = .next { index := i + 2 } := by
  simp only [Scan.round, Bool.false_eq_true, if_false, if_true, if_pos h]

theorem round_block_byte (h : ¬ (byte = star ∧ rest.head? = some slash)) :
    Scan.round { index := i, blockComment := true } bytes byte rest =
      .next { index := i + 1, blockComment := true } := by
  simp only [Scan.round, Bool.false_eq_true, if_false, if_true, if_neg h]

theorem round_quote_open (h : isQuote byte = true) :
    Scan.round { index := i } bytes byte rest = .next { index := i + 1, quote := some byte } := by
  simp only [Scan.round, Bool.false_eq_true, if_false, h, if_true]

theorem round_line_open :
    Scan.round { index := i } bytes slash (slash :: rest) =
      .next { index := i + 2, lineComment := true } := rfl

theorem round_block_open :
    Scan.round { index := i } bytes slash (star :: rest) =
      .next { index := i + 2, blockComment := true } := rfl

theorem round_found (hquote : isQuote byte = false) (hcomment : startsComment (byte :: rest) = false)
    (h : standsFree (bytes.take i).getLast? (byte :: rest) = true) :
    Scan.round { index := i } bytes byte rest = .found i := by
  have hline : ¬ (byte = slash ∧ rest.head? = some slash) := not_startsComment hcomment (.inl rfl)
  have hblock : ¬ (byte = slash ∧ rest.head? = some star) := not_startsComment hcomment (.inr rfl)
  simp only [Scan.round, Bool.false_eq_true, if_false, hquote, if_neg hline, if_neg hblock, h, if_true]

theorem round_code (hquote : isQuote byte = false) (hcomment : startsComment (byte :: rest) = false)
    (h : standsFree (bytes.take i).getLast? (byte :: rest) = false) :
    Scan.round { index := i } bytes byte rest = .next { index := i + 1 } := by
  have hline : ¬ (byte = slash ∧ rest.head? = some slash) := not_startsComment hcomment (.inl rfl)
  have hblock : ¬ (byte = slash ∧ rest.head? = some star) := not_startsComment hcomment (.inr rfl)
  simp only [Scan.round, Bool.false_eq_true, if_false, hquote, if_neg hline, if_neg hblock, h]

end

theorem drop_before (h : bytes = before ++ text) : bytes.drop before.length = text := by
  rw [h, List.drop_left]

/-- A quote is read up to its mark. -/
theorem quote_through (hbytes : bytes = before ++ (body ++ mark :: more))
    (hmark : mark ≠ backslash) (hbody : closed mark body = true) :
    foundFrom bytes { index := before.length, quote := some mark } =
      foundFrom bytes { index := (before ++ body).length + 1 } := by
  induction body using closed.induct generalizing before with
  | case1 =>
    rw [foundFrom_next (drop_before hbytes) (round_quote_end hmark), List.append_nil]
  | case2 byte =>
    simp only [closed, Bool.and_eq_true, bne_iff_ne] at hbody
    have hnext : bytes = (before ++ [byte]) ++ mark :: more := by simpa using hbytes
    have hdrop := drop_before hnext
    rw [List.length_append, List.length_singleton] at hdrop
    rw [foundFrom_next (drop_before hbytes) (round_quote_byte hbody.1 hbody.2),
      foundFrom_next hdrop (round_quote_end hmark), List.length_append, List.length_singleton]
  | case3 next rest ih =>
    rw [closed, if_pos rfl] at hbody
    have hnext : bytes = (before ++ [backslash, next]) ++ (rest ++ mark :: more) := by
      simpa using hbytes
    have hlength : before.length + 2 ≤ bytes.length := by
      rw [hnext, List.length_append, List.length_append]
      exact Nat.le_add_right_of_le (Nat.le_refl _)
    have hread := ih hnext hbody
    rw [List.length_append] at hread
    rw [foundFrom_next (drop_before hbytes) (round_quote_escape hlength)]
    simpa [Nat.add_assoc, Nat.add_comm, Nat.add_left_comm] using hread
  | case4 byte next rest hbyte ih =>
    rw [closed, if_neg hbyte, Bool.and_eq_true, bne_iff_ne] at hbody
    have hnext : bytes = (before ++ [byte]) ++ ((next :: rest) ++ mark :: more) := by
      simpa using hbytes
    have hread := ih hnext hbody.2
    rw [List.length_append] at hread
    rw [foundFrom_next (drop_before hbytes) (round_quote_byte hbyte hbody.1)]
    simpa [Nat.add_assoc, Nat.add_comm, Nat.add_left_comm] using hread

/-- A comment to the end of a line is read up to the line feed. -/
theorem line_through (hbytes : bytes = before ++ (body ++ lf :: more)) (hbody : lf ∉ body) :
    foundFrom bytes { index := before.length, lineComment := true } =
      foundFrom bytes { index := (before ++ body).length + 1 } := by
  induction body generalizing before with
  | nil =>
    rw [foundFrom_next (drop_before hbytes) (round_line lf more), List.append_nil]
    rfl
  | cons byte rest ih =>
    have hbyte : (byte != lf) = true := bne_iff_ne.mpr fun heq => hbody (heq ▸ List.mem_cons_self)
    have hnext : bytes = (before ++ [byte]) ++ (rest ++ lf :: more) := by simpa using hbytes
    have hread := ih hnext fun hmem => hbody (List.mem_cons_of_mem byte hmem)
    rw [List.length_append] at hread
    rw [foundFrom_next (drop_before hbytes) (round_line byte _), hbyte]
    simpa [Nat.add_assoc, Nat.add_comm, Nat.add_left_comm] using hread

/-- A comment is read up to its end. -/
theorem block_through (hbytes : bytes = before ++ (body ++ star :: slash :: more))
    (hbody : withoutEnd body = true) :
    foundFrom bytes { index := before.length, blockComment := true } =
      foundFrom bytes { index := (before ++ body).length + 2 } := by
  induction body using withoutEnd.induct generalizing before with
  | case1 =>
    rw [foundFrom_next (drop_before hbytes) (round_block_end ⟨rfl, rfl⟩), List.append_nil]
  | case2 byte =>
    have hnext : bytes = (before ++ [byte]) ++ star :: slash :: more := by simpa using hbytes
    have hdrop := drop_before hnext
    rw [List.length_append, List.length_singleton] at hdrop
    have hopen : ¬ (byte = star ∧ (star :: slash :: more).head? = some slash) :=
      fun h => absurd (Option.some.inj h.2) (by decide)
    rw [foundFrom_next (drop_before hbytes) (round_block_byte hopen),
      foundFrom_next hdrop (round_block_end ⟨rfl, rfl⟩), List.length_append, List.length_singleton]
  | case3 byte next rest ih =>
    rw [withoutEnd, Bool.and_eq_true, Bool.not_eq_true', Bool.and_eq_false_iff,
      beq_eq_false_iff_ne, beq_eq_false_iff_ne] at hbody
    have hnext : bytes = (before ++ [byte]) ++ ((next :: rest) ++ star :: slash :: more) := by
      simpa using hbytes
    have hopen : ¬ (byte = star ∧ (next :: (rest ++ star :: slash :: more)).head? = some slash) := by
      rintro ⟨hstar, hslash⟩
      rcases hbody.1 with h | h
      · exact h hstar
      · exact h (Option.some.inj hslash)
    have hread := ih hnext hbody.2
    rw [List.length_append] at hread
    rw [foundFrom_next (drop_before hbytes) (round_block_byte hopen)]
    simpa [Nat.add_assoc, Nat.add_comm, Nat.add_left_comm] using hread

theorem isQuote_ne_backslash (h : isQuote mark = true) : mark ≠ backslash := by
  rintro rfl
  exact absurd h (by decide)

/-- What is read flatly is gone through. -/
theorem Flat.foundFrom {previous : Option UInt8} (h : Flat previous text rest)
    (hbytes : bytes = before ++ text) (hprevious : before.getLast? = previous) :
    ∃ middle, text = middle ++ rest ∧
      foundFrom bytes { index := before.length } =
        foundFrom bytes { index := (before ++ middle).length } := by
  induction h generalizing before with
  | done => exact ⟨[], rfl, by rw [List.append_nil]⟩
  | @code previous byte more rest hquote hcomment hfree h ih =>
    have hnext : bytes = (before ++ [byte]) ++ more := by simpa using hbytes
    obtain ⟨middle, rfl, hread⟩ := ih hnext List.getLast?_concat
    refine ⟨byte :: middle, rfl, ?_⟩
    have htake : (bytes.take before.length).getLast? = previous := by
      rw [hbytes, List.take_left, hprevious]
    rw [foundFrom_next (drop_before hbytes) (round_code hquote hcomment (htake ▸ hfree))]
    rw [List.length_append, List.length_singleton] at hread
    rw [hread, List.append_assoc]
    rfl
  | @quoted previous mark body more rest hmark hbody h ih =>
    have hopen : bytes = (before ++ [mark]) ++ (body ++ mark :: more) := by simpa using hbytes
    have hnext : bytes = ((before ++ mark :: body) ++ [mark]) ++ more := by simpa using hbytes
    obtain ⟨middle, rfl, hread⟩ := ih hnext List.getLast?_concat
    refine ⟨mark :: (body ++ mark :: middle), by simp, ?_⟩
    have hthrough := quote_through hopen (isQuote_ne_backslash hmark) hbody
    rw [List.length_append, List.length_singleton] at hthrough
    rw [foundFrom_next (drop_before hbytes) (round_quote_open hmark), hthrough]
    simpa [Nat.add_assoc, Nat.add_comm, Nat.add_left_comm] using hread
  | @line previous body more rest hbody h ih =>
    have hopen : bytes = (before ++ [slash, slash]) ++ (body ++ lf :: more) := by simpa using hbytes
    have hnext : bytes = ((before ++ slash :: slash :: body) ++ [lf]) ++ more := by
      simpa using hbytes
    obtain ⟨middle, rfl, hread⟩ := ih hnext List.getLast?_concat
    refine ⟨slash :: slash :: (body ++ lf :: middle), by simp, ?_⟩
    have hthrough := line_through hopen hbody
    rw [List.length_append] at hthrough
    rw [foundFrom_next (drop_before hbytes) round_line_open]
    refine hthrough.trans ?_
    simpa [Nat.add_assoc, Nat.add_comm, Nat.add_left_comm] using hread
  | @block previous body more rest hbody h ih =>
    have hopen : bytes = (before ++ [slash, star]) ++ (body ++ star :: slash :: more) := by
      simpa using hbytes
    have hnext : bytes = ((before ++ slash :: star :: (body ++ [star])) ++ [slash]) ++ more := by
      simpa using hbytes
    obtain ⟨middle, rfl, hread⟩ := ih hnext List.getLast?_concat
    refine ⟨slash :: star :: (body ++ star :: slash :: middle), by simp, ?_⟩
    have hthrough := block_through hopen hbody
    rw [List.length_append] at hthrough
    rw [foundFrom_next (drop_before hbytes) round_block_open]
    refine hthrough.trans ?_
    simpa [Nat.add_assoc, Nat.add_comm, Nat.add_left_comm] using hread

/-! ## What was read -/

theorem closed_cons (hescape : byte ≠ backslash) (hmark : byte ≠ mark) (h : closed mark body = true) :
    closed mark (byte :: body) = true := by
  cases body with
  | nil => simp [closed, hescape, hmark]
  | cons next rest => rw [closed, if_neg hescape, bne_iff_ne.mpr hmark, h, Bool.and_self]

theorem withoutEnd_cons (hopen : ¬ (byte = star ∧ body.head? = some slash))
    (h : withoutEnd body = true) : withoutEnd (byte :: body) = true := by
  cases body with
  | nil => rfl
  | cons next rest =>
    rw [withoutEnd, h, Bool.and_true, Bool.not_eq_true', Bool.and_eq_false_iff, beq_eq_false_iff_ne,
      beq_eq_false_iff_ne]
    rw [List.head?_cons, Option.some.injEq, not_and_or] at hopen
    exact hopen

/-- A quote that the loop comes out of has its mark. -/
theorem quote_of_found (hbytes : bytes = before ++ text) (hmark : mark ≠ backslash)
    (h : foundFrom bytes { index := before.length, quote := some mark } = some k) :
    ∃ body more, text = body ++ mark :: more ∧ closed mark body = true ∧
      foundFrom bytes { index := (before ++ body).length + 1 } = some k := by
  induction hlength : text.length using Nat.strong_induction_on generalizing before text with
  | _ length ih =>
  cases text with
  | nil => cases (foundFrom_end (drop_before hbytes)).symm.trans h
  | cons byte rest =>
    rw [List.length_cons] at hlength
    rcases eq_or_ne byte mark with rfl | hbyte
    · rw [foundFrom_next (drop_before hbytes) (round_quote_end hmark)] at h
      exact ⟨[], rest, rfl, rfl, by rwa [List.append_nil]⟩
    · rcases eq_or_ne byte backslash with rfl | hescape
      · cases rest with
        | nil =>
          -- the escape is the last byte of the text
          have hround : Scan.round { index := before.length, quote := some mark } bytes backslash [] =
              .next { index := min (before.length + 2) bytes.length, quote := some mark } := by
            simp only [Scan.round, Bool.false_eq_true, if_false, if_true]
          rw [foundFrom_next (drop_before hbytes) hround, foundFrom_end] at h
          · cases h
          · apply List.drop_eq_nil_of_le
            rw [hbytes, List.length_append, List.length_singleton]
            exact le_min (by omega) (Nat.le_refl _)
        | cons next rest =>
          have hnext : bytes = (before ++ [backslash, next]) ++ rest := by simpa using hbytes
          have hroom : before.length + 2 ≤ bytes.length := by
            rw [hnext, List.length_append, List.length_append]
            exact Nat.le_add_right_of_le (Nat.le_refl _)
          rw [foundFrom_next (drop_before hbytes) (round_quote_escape hroom)] at h
          rw [List.length_cons] at hlength
          obtain ⟨body, more, rfl, hbody, hfound⟩ := ih rest.length (by omega) hnext
            (by rwa [List.length_append]) rfl
          refine ⟨backslash :: next :: body, more, rfl, by rwa [closed, if_pos rfl], ?_⟩
          rwa [List.append_assoc] at hfound
      · have hnext : bytes = (before ++ [byte]) ++ rest := by simpa using hbytes
        rw [foundFrom_next (drop_before hbytes) (round_quote_byte hescape hbyte)] at h
        obtain ⟨body, more, rfl, hbody, hfound⟩ := ih rest.length (by omega) hnext
          (by rwa [List.length_append]) rfl
        refine ⟨byte :: body, more, rfl, closed_cons hescape hbyte hbody, ?_⟩
        rwa [List.append_assoc] at hfound

/-- A comment to the end of a line that the loop comes out of has its line feed. -/
theorem line_of_found (hbytes : bytes = before ++ text)
    (h : foundFrom bytes { index := before.length, lineComment := true } = some k) :
    ∃ body more, text = body ++ lf :: more ∧ lf ∉ body ∧
      foundFrom bytes { index := (before ++ body).length + 1 } = some k := by
  induction text generalizing before with
  | nil => cases (foundFrom_end (drop_before hbytes)).symm.trans h
  | cons byte rest ih =>
    rw [foundFrom_next (drop_before hbytes) (round_line byte rest)] at h
    rcases eq_or_ne byte lf with rfl | hbyte
    · exact ⟨[], rest, rfl, List.not_mem_nil, by rwa [List.append_nil]⟩
    · have hnext : bytes = (before ++ [byte]) ++ rest := by simpa using hbytes
      rw [bne_iff_ne.mpr hbyte] at h
      obtain ⟨body, more, rfl, hbody, hfound⟩ := ih hnext (by rwa [List.length_append])
      refine ⟨byte :: body, more, rfl, ?_, by rwa [List.append_assoc] at hfound⟩
      rw [List.mem_cons, not_or]
      exact ⟨hbyte.symm, hbody⟩

/-- A comment that the loop comes out of has its end. -/
theorem block_of_found (hbytes : bytes = before ++ text)
    (h : foundFrom bytes { index := before.length, blockComment := true } = some k) :
    ∃ body more, text = body ++ star :: slash :: more ∧ withoutEnd body = true ∧
      foundFrom bytes { index := (before ++ body).length + 2 } = some k := by
  induction text generalizing before with
  | nil => cases (foundFrom_end (drop_before hbytes)).symm.trans h
  | cons byte rest ih =>
    by_cases hend : byte = star ∧ rest.head? = some slash
    · rw [foundFrom_next (drop_before hbytes) (round_block_end hend)] at h
      obtain ⟨rfl, hhead⟩ := hend
      obtain ⟨more, rfl⟩ := List.head?_eq_some_iff.mp hhead
      exact ⟨[], more, rfl, rfl, by rwa [List.append_nil]⟩
    · have hnext : bytes = (before ++ [byte]) ++ rest := by simpa using hbytes
      rw [foundFrom_next (drop_before hbytes) (round_block_byte hend)] at h
      obtain ⟨body, more, rfl, hbody, hfound⟩ := ih hnext (by rwa [List.length_append])
      refine ⟨byte :: body, more, rfl, withoutEnd_cons ?_ hbody, by rwa [List.append_assoc] at hfound⟩
      rintro ⟨hstar, hslash⟩
      obtain ⟨tail, rfl⟩ := List.head?_eq_some_iff.mp hslash
      exact hend ⟨hstar, rfl⟩

/-- The loop finds a word only behind what it read flatly. -/
theorem flat_of_found (hbytes : bytes = before ++ text)
    (h : foundFrom bytes { index := before.length } = some k) :
    ∃ middle rest, text = middle ++ rest ∧ k = (before ++ middle).length ∧
      Flat before.getLast? text rest ∧ standsFree (before ++ middle).getLast? rest = true := by
  induction hlength : text.length using Nat.strong_induction_on generalizing before text with
  | _ length ih =>
  cases text with
  | nil => cases (foundFrom_end (drop_before hbytes)).symm.trans h
  | cons byte rest =>
    have htake : (bytes.take before.length).getLast? = before.getLast? := by
      rw [hbytes, List.take_left]
    rw [List.length_cons] at hlength
    cases hquote : isQuote byte with
    | true =>
      have hopen : bytes = (before ++ [byte]) ++ rest := by simpa using hbytes
      rw [foundFrom_next (drop_before hbytes) (round_quote_open hquote)] at h
      obtain ⟨body, more, rfl, hbody, hfound⟩ := quote_of_found hopen (isQuote_ne_backslash hquote)
        (by rwa [List.length_append])
      have hnext : bytes = ((before ++ byte :: body) ++ [byte]) ++ more := by simpa using hbytes
      rw [List.length_append, List.length_cons] at hlength
      obtain ⟨middle, last, rfl, rfl, hflat, hfree⟩ := ih more.length (by omega) hnext
        (by simpa [Nat.add_assoc] using hfound) rfl
      rw [List.getLast?_concat] at hflat
      refine ⟨byte :: (body ++ byte :: middle), last, by simp, by simp, .quoted hquote hbody hflat, ?_⟩
      simpa using hfree
    | false =>
      cases hcomment : startsComment (byte :: rest) with
      | true =>
        cases rest with
        | nil => cases hcomment
        | cons next rest =>
          rw [startsComment, Bool.and_eq_true, Bool.or_eq_true, beq_iff_eq, beq_iff_eq,
            beq_iff_eq] at hcomment
          rw [List.length_cons] at hlength
          obtain ⟨rfl, rfl | rfl⟩ := hcomment
          · have hopen : bytes = (before ++ [slash, slash]) ++ rest := by simpa using hbytes
            rw [foundFrom_next (drop_before hbytes) round_line_open] at h
            obtain ⟨body, more, rfl, hbody, hfound⟩ := line_of_found hopen
              (by rwa [List.length_append])
            have hnext : bytes = ((before ++ slash :: slash :: body) ++ [lf]) ++ more := by
              simpa using hbytes
            rw [List.length_append, List.length_cons] at hlength
            obtain ⟨middle, last, rfl, rfl, hflat, hfree⟩ := ih more.length (by omega) hnext
              (by simpa [Nat.add_assoc] using hfound) rfl
            rw [List.getLast?_concat] at hflat
            refine ⟨slash :: slash :: (body ++ lf :: middle), last, by simp, by simp,
              .line hbody hflat, ?_⟩
            simpa using hfree
          · have hopen : bytes = (before ++ [slash, star]) ++ rest := by simpa using hbytes
            rw [foundFrom_next (drop_before hbytes) round_block_open] at h
            obtain ⟨body, more, rfl, hbody, hfound⟩ := block_of_found hopen
              (by rwa [List.length_append])
            have hnext : bytes = ((before ++ slash :: star :: (body ++ [star])) ++ [slash]) ++ more := by
              simpa using hbytes
            rw [List.length_append, List.length_cons, List.length_cons] at hlength
            obtain ⟨middle, last, rfl, rfl, hflat, hfree⟩ := ih more.length (by omega) hnext
              (by simpa [Nat.add_assoc] using hfound) rfl
            rw [List.getLast?_concat] at hflat
            refine ⟨slash :: star :: (body ++ star :: slash :: middle), last, by simp, by simp,
              .block hbody hflat, ?_⟩
            simpa using hfree
      | false =>
        cases hfree : standsFree before.getLast? (byte :: rest) with
        | true =>
          rw [foundFrom_found (drop_before hbytes) (round_found hquote hcomment (htake ▸ hfree))] at h
          cases h
          exact ⟨[], byte :: rest, rfl, by rw [List.append_nil], .done, by rwa [List.append_nil]⟩
        | false =>
          have hnext : bytes = (before ++ [byte]) ++ rest := by simpa using hbytes
          rw [foundFrom_next (drop_before hbytes) (round_code hquote hcomment (htake ▸ hfree))] at h
          obtain ⟨middle, last, rfl, rfl, hflat, hlast⟩ := ih rest.length (by omega) hnext
            (by rwa [List.length_append]) rfl
          rw [List.getLast?_concat] at hflat
          refine ⟨byte :: middle, last, rfl, by simp, .code hquote hcomment hfree hflat, ?_⟩
          simpa using hlast

/-! ## The word that is found -/

theorem standsFree_cons {previous : Option UInt8} (h : standsFree previous text = true) :
    ∃ tail, text = exportWord ++ tail := by
  rw [standsFree, Bool.and_eq_true, Bool.and_eq_true] at h
  obtain ⟨tail, rfl⟩ := List.isPrefixOf_iff_prefix.mp h.1.1
  exact ⟨tail, rfl⟩

/-- The word is found at a place exactly where it stands free there, behind what is read flatly. -/
theorem findExport_eq_some_iff :
    findExport (before ++ rest) = some before.length ↔
      Flat none (before ++ rest) rest ∧ standsFree before.getLast? rest = true := by
  constructor
  · intro h
    obtain ⟨middle, last, hsplit, hlength, hflat, hfree⟩ :=
      flat_of_found (List.nil_append (before ++ rest)).symm h
    obtain ⟨rfl, rfl⟩ := List.append_inj hsplit hlength
    exact ⟨hflat, hfree⟩
  · rintro ⟨hflat, hfree⟩
    obtain ⟨middle, hsplit, hread⟩ :=
      hflat.foundFrom (List.nil_append (before ++ rest)).symm rfl
    have hmiddle : middle = before := List.append_cancel_right hsplit.symm
    subst hmiddle
    obtain ⟨tail, rfl⟩ := standsFree_cons hfree
    refine hread.trans (foundFrom_found (drop_before rfl) (round_found rfl rfl ?_))
    rw [List.nil_append, List.take_left]
    exact hfree

/-- Only the word is blanked. -/
theorem blanked_append (before more : Bytes) :
    blanked (before ++ exportWord ++ more) before.length =
      before ++ List.replicate 6 0x20 ++ more := by
  have hdrop : (before ++ exportWord ++ more).drop (before.length + 6) = more :=
    List.drop_left' (List.length_append ..)
  have htake : (before ++ exportWord ++ more).take before.length = before := by
    rw [List.append_assoc, List.take_left]
  rw [blanked, hdrop, htake]

theorem getElem?_blanked_lt {index i : Nat} (h : i < index) (hindex : index ≤ bytes.length) :
    (blanked bytes index)[i]? = bytes[i]? := by
  rw [blanked, List.append_assoc, List.getElem?_append_left (by rw [List.length_take]; omega),
    List.getElem?_take_of_lt h]

theorem getElem?_blanked_self {index : Nat} (hindex : index ≤ bytes.length) :
    (blanked bytes index)[index]? = some 0x20 := by
  have hlength : (bytes.take index).length = index := by rw [List.length_take]; omega
  rw [blanked, List.append_assoc, List.getElem?_append_right (by omega), hlength, Nat.sub_self]
  rfl

/-- Two words that are blanked to the same text are one. -/
theorem blanked_inj {a b : Bytes} {more' : Bytes} (ha : bytes = a ++ exportWord ++ more)
    (hb : bytes = b ++ exportWord ++ more')
    (h : blanked bytes a.length = blanked bytes b.length) : a.length = b.length := by
  have hbyte : ∀ {c d : Bytes}, bytes = c ++ exportWord ++ d →
      c.length ≤ bytes.length ∧ bytes[c.length]? = some 0x65 := by
    rintro c d rfl
    refine ⟨by simp [List.length_append], ?_⟩
    rw [List.append_assoc, List.getElem?_append_right (Nat.le_refl _), Nat.sub_self]
    rfl
  obtain ⟨hale, habyte⟩ := hbyte ha
  obtain ⟨hble, hbbyte⟩ := hbyte hb
  rcases Nat.lt_trichotomy a.length b.length with hlt | heq | hlt
  · have hself := getElem?_blanked_self hale
    rw [h, getElem?_blanked_lt hlt hble, habyte] at hself
    exact absurd (Option.some.inj hself) (by decide)
  · exact heq
  · have hself := getElem?_blanked_self hble
    rw [← h, getElem?_blanked_lt hlt hale, hbbyte] at hself
    exact absurd (Option.some.inj hself) (by decide)

end Tally.Flow
