import Tally.Lib.Json
import Tally.Lib.Result

/-!
# Logs of records

A log is a file of lines to which records are appended, one line each. A write that is stopped leaves
the beginning of a line behind, which has no line feed and is cut off before the next write. So a log
always consists of the lines of its records and perhaps the beginning of one more (`Holds`), and a
reader of its complete lines finds the records (`Holds.readRecords_eq`).
-/

namespace Tally.Lib

theorem blank_object (fields : Fields) : blank (render (.object fields)) = false := by
  obtain ⟨rest, hrest⟩ := exists_render_object fields
  rw [hrest]
  rfl

/-- The text of an object ends with its brace. -/
theorem stripCr_render (value : Value) : stripCr (render value) = render value := by
  rw [stripCr, if_neg]
  intro hlast
  exact not_mem_render rfl value (List.mem_of_getLast? hlast)

/-! ## Writing -/

def lineBytes (text : List Char) : Bytes := encode text ++ [lf]

def writeLines (texts : List (List Char)) : Bytes := texts.flatMap lineBytes

@[simp] theorem writeLines_nil : writeLines [] = [] := rfl

@[simp] theorem writeLines_append (a b : List (List Char)) :
    writeLines (a ++ b) = writeLines a ++ writeLines b :=
  List.flatMap_append

@[simp] theorem writeLines_singleton (text : List Char) : writeLines [text] = lineBytes text := by
  simp [writeLines]

theorem writeLines_eq_terminate (texts : List (List Char)) :
    writeLines texts = terminate lf (texts.map encode) := by
  rw [writeLines, terminate, List.flatMap_map]
  rfl

/-- `iter().rposition(|byte| *byte == b'\n')`. -/
def rposition (bytes : Bytes) : Option Nat :=
  (bytes.reverse.findIdx? (· = lf)).map fun index => bytes.length - 1 - index

/-- The length of the complete lines of a file. -/
def completePrefix (bytes : Bytes) : Nat :=
  if bytes = [] ∨ bytes.getLast? = some lf then bytes.length
  else (rposition bytes).elim 0 (· + 1)

/-- The file without a line that was not finished. -/
def truncateTail (file : Bytes) : Bytes := file.take (completePrefix file)

theorem rposition_append {body tail : Bytes} (h : lf ∉ tail) :
    rposition (body ++ lf :: tail) = some body.length := by
  have hfind : (body ++ lf :: tail).reverse.findIdx? (· = lf) = some tail.length := by
    rw [List.reverse_append, List.reverse_cons, List.append_assoc, List.findIdx?_append]
    have hnone : tail.reverse.findIdx? (· = lf) = none := by
      rw [List.findIdx?_eq_none_iff]
      intro byte hbyte
      simp only [decide_eq_false_iff_not]
      rintro rfl
      exact h (List.mem_reverse.mp hbyte)
    rw [hnone, List.singleton_append, List.findIdx?_cons]
    simp
  rw [rposition, hfind]
  simp only [Option.map_some, List.length_append, List.length_cons, Option.some.injEq]
  omega

theorem rposition_eq_none {bytes : Bytes} (h : lf ∉ bytes) : rposition bytes = none := by
  rw [rposition, Option.map_eq_none_iff, List.findIdx?_eq_none_iff]
  intro byte hbyte
  simp only [decide_eq_false_iff_not]
  rintro rfl
  exact h (List.mem_reverse.mp hbyte)

/-- A list is empty or ends with its last terminator, as far as it is terminated. -/
theorem completePrefix_append {body tail : Bytes} (hbody : Terminated lf body) (htail : lf ∉ tail) :
    completePrefix (body ++ tail) = body.length := by
  rw [completePrefix]
  split
  · next hend =>
    cases tail with
    | nil => simp
    | cons byte rest =>
      rcases hend with hend | hend
      · simp at hend
      · rw [List.getLast?_append_of_ne_nil _ (List.cons_ne_nil byte rest)] at hend
        exact absurd (List.mem_of_getLast? hend) htail
  · rcases hbody with rfl | hlast
    · rw [List.nil_append, rposition_eq_none htail]
      rfl
    · obtain ⟨front, rfl⟩ := List.getLast?_eq_some_iff.mp hlast
      rw [List.append_assoc, List.singleton_append, rposition_append htail]
      simp

theorem completePrefix_eq (bytes : Bytes) : completePrefix bytes = completeLen lf bytes := by
  obtain ⟨body, tail, rfl, hbody, htail⟩ := exists_complete lf bytes
  rw [completePrefix_append hbody htail, completeLen_append hbody htail]

/-- The file has these lines, and perhaps the beginning of another one. -/
def Holds (file : Bytes) (texts : List (List Char)) : Prop :=
  (∀ text ∈ texts, '\n' ∉ text) ∧ ∃ torn, lf ∉ torn ∧ file = writeLines texts ++ torn

variable {file : Bytes} {texts : List (List Char)} {text : List Char}

namespace Holds

theorem nil : Holds [] [] := ⟨nofun, [], nofun, rfl⟩

theorem of_writeLines (h : ∀ text ∈ texts, '\n' ∉ text) : Holds (writeLines texts) texts :=
  ⟨h, [], nofun, (List.append_nil _).symm⟩

theorem split_eq (h : Holds file texts) : (split lf file).1 = texts.map encode := by
  obtain ⟨hplain, torn, htorn, rfl⟩ := h
  have hpieces : ∀ piece ∈ texts.map encode, lf ∉ piece := by
    intro piece hpiece
    obtain ⟨text, htext, rfl⟩ := List.mem_map.mp hpiece
    exact lf_not_mem_encode (hplain text htext)
  rw [writeLines_eq_terminate, split_terminate hpieces htorn]

theorem truncateTail_eq (h : Holds file texts) : truncateTail file = writeLines texts := by
  rw [truncateTail, completePrefix_eq, take_completeLen, h.split_eq, writeLines_eq_terminate]

/-- A write after the tail was cut off, stopped or not. -/
theorem append_take (h : Holds file texts) (htext : '\n' ∉ text) (n : Nat) :
    Holds (truncateTail file ++ (lineBytes text).take n)
      (if (lineBytes text).length ≤ n then texts ++ [text] else texts) := by
  have hplain := h.1
  rw [h.truncateTail_eq]
  split
  · next hlen =>
    refine ⟨?_, [], nofun, ?_⟩
    · intro other hother
      rcases List.mem_append.mp hother with hother | hother
      · exact hplain other hother
      · rwa [List.mem_singleton.mp hother]
    · rw [List.take_of_length_le hlen, writeLines_append, writeLines_singleton, List.append_nil]
  · next hlen =>
    refine ⟨hplain, (lineBytes text).take n, ?_, rfl⟩
    have hle : n ≤ (encode text).length := by
      rw [lineBytes, List.length_append, List.length_singleton] at hlen
      omega
    rw [lineBytes, List.take_append_of_le_length hle]
    exact fun hmem => lf_not_mem_encode htext (List.mem_of_mem_take hmem)

end Holds

/-! ## Reading -/

/-- What is wrong with a log. -/
inductive LogError
  | io (message : String)
  | malformed (line : Nat) (reason : String)
  deriving DecidableEq

/-- The records of complete lines from a number on; blank lines are left out. -/
def readRecords {Record : Type} (parse : List Char → Except String Record) :
    Nat → List Bytes → Except LogError (List Record)
  | _, [] => .ok []
  | number, piece :: rest =>
    match decode piece with
    | none => .error (.io "stream did not contain valid UTF-8")
    | some text =>
      if blank (stripCr text) then readRecords parse (number + 1) rest
      else match parse (stripCr text) with
        | .error reason => .error (.malformed number reason)
        | .ok record => do
          let records ← readRecords parse (number + 1) rest
          return record :: records

/-- The records with the numbers of their lines. -/
def readNumbered {Record : Type} (parse : List Char → Except String Record) :
    Nat → List Bytes → Except LogError (List (Nat × Record))
  | _, [] => .ok []
  | number, piece :: rest =>
    match decode piece with
    | none => .error (.io "stream did not contain valid UTF-8")
    | some text =>
      if blank (stripCr text) then readNumbered parse (number + 1) rest
      else match parse (stripCr text) with
        | .error reason => .error (.malformed number reason)
        | .ok record => do
          let records ← readNumbered parse (number + 1) rest
          return (number, record) :: records

/-- The records of the complete lines of a file. -/
def readLog {Record : Type} (parse : List Char → Except String Record) (file : Bytes) :
    Except LogError (List Record) :=
  readRecords parse 1 (split lf file).1

variable {Record : Type} {parse : List Char → Except String Record} {line : Record → List Char}
  {records : List Record}

/-- A record whose line a reader takes for it. -/
def ReadsBack (parse : List Char → Except String Record) (line : Record → List Char)
    (record : Record) : Prop :=
  parse (line record) = .ok record ∧ blank (line record) = false ∧
    stripCr (line record) = line record

theorem readNumbered_lines (h : ∀ record ∈ records, ReadsBack parse line record) (number : Nat) :
    ∃ numbered, readNumbered parse number ((records.map line).map encode) = .ok numbered ∧
      numbered.map Prod.snd = records := by
  induction records generalizing number with
  | nil => exact ⟨[], rfl, rfl⟩
  | cons record records ih =>
    obtain ⟨hparse, hblank, hstrip⟩ := h record (List.mem_cons_self ..)
    obtain ⟨numbered, hrest, hrecords⟩ :=
      ih (fun other hother => h other (List.mem_cons_of_mem _ hother)) (number + 1)
    refine ⟨(number, record) :: numbered, ?_, by rw [List.map_cons, hrecords]⟩
    rw [List.map_cons, List.map_cons, readNumbered, decode_encode]
    dsimp only
    rw [hstrip, hblank, if_neg Bool.false_ne_true, hparse]
    dsimp only
    rw [hrest]
    rfl

theorem readRecords_eq (number : Nat) (pieces : List Bytes) :
    readRecords parse number pieces = (readNumbered parse number pieces).map (List.map Prod.snd) := by
  induction pieces generalizing number with
  | nil => rfl
  | cons piece pieces ih =>
    rw [readRecords, readNumbered]
    cases decode piece with
    | none => rfl
    | some text =>
      dsimp only
      split
      · exact ih (number + 1)
      · cases parse (stripCr text) with
        | error reason => rfl
        | ok record =>
          dsimp only
          rw [ih (number + 1)]
          cases readNumbered parse (number + 1) pieces <;> rfl

theorem Holds.readNumbered_eq (h : Holds file (records.map line))
    (hreads : ∀ record ∈ records, ReadsBack parse line record) :
    ∃ numbered, readNumbered parse 1 (split lf file).1 = .ok numbered ∧
      numbered.map Prod.snd = records := by
  rw [h.split_eq]
  exact readNumbered_lines hreads 1

theorem Holds.readLog_eq (h : Holds file (records.map line))
    (hreads : ∀ record ∈ records, ReadsBack parse line record) : readLog parse file = .ok records := by
  obtain ⟨numbered, hnumbered, rfl⟩ := h.readNumbered_eq hreads
  rw [readLog, readRecords_eq, hnumbered]
  rfl

end Tally.Lib
