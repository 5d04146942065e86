import Tally.Journal.Check
import Tally.Lib.Lossy

/-!
# Excerpts of captures

What a failed record shows of a capture (`captures.rs`): all of it where it is short, else the first
block of lines that names an error and the end. The room for the excerpt is counted in bytes of the
capture; in the line of the record its text is escaped, and replacement characters take three bytes.
-/

namespace Tally.Executor

open Tally.Lib Tally.Journal

def captureExcerptTruncationMarker : List Char := "[... earlier captured stderr omitted ...]\n".toList

def captureExcerptGapMarker : List Char :=
  "[... captured stderr omitted between the first error and the tail ...]\n".toList

def captureExcerptBlockTruncationMarker : List Char := "[... first error block truncated ...]\n".toList

structure CaptureExcerpt where
  text : String
  truncated : Bool

/-! ## Blocks -/

/-- `line.trim_start()`. -/
def trimStart (line : List Char) : List Char := line.dropWhile isWhitespace

def isExcerptErrorMarker (line : List Char) : Bool :=
  "error:".toList.isPrefixOf (trimStart line) || "error[".toList.isPrefixOf (trimStart line) ||
    "fatal:".toList.isPrefixOf (trimStart line)

/-- `text.split_inclusive('\n')`. -/
def splitInclusive (text : List Char) : List (List Char) :=
  (split '\n' text).1.map (· ++ ['\n']) ++
    if (split '\n' text).2 = [] then [] else [(split '\n' text).2]

/-- What is before the block, the block as far as it has been read, and the lines to come. -/
def findBlock (before : List Char) : Option (List Char) → List (List Char) →
    Option (List Char × List Char × List Char)
  | none, [] => none
  | some block, [] => some (before, block, [])
  | none, line :: rest =>
    if isExcerptErrorMarker line then findBlock before (some line) rest
    else findBlock (before ++ line) none rest
  | some block, line :: rest =>
    if blank line || isExcerptErrorMarker line then some (before, block, (line :: rest).flatten)
    else findBlock before (some (block ++ line)) rest

/-- The text before the first block that names an error, the block and the text after it. -/
def firstErrorBlock (text : List Char) : Option (List Char × List Char × List Char) :=
  findBlock [] none (splitInclusive text)

/-! ## Composition -/

def fitWindowTail (text : List Char) (budget : Nat) : List Char := endWithin budget text

/-- What stands before the tail. -/
def excerptHead (probe : List Char) (windowsContiguous : Bool) (maxBytes : Nat) : List Char :=
  match firstErrorBlock probe with
  | some (before, block, after) =>
    let text := if before = [] then [] else captureExcerptTruncationMarker
    let text :=
      if maxBytes / 2 < byteLen block then
        text ++ takeWithin (maxBytes / 2) block ++ captureExcerptBlockTruncationMarker
      else text ++ block
    let text := if text.getLast? = some '\n' then text else text ++ ['\n']
    if !windowsContiguous || after ≠ [] then text ++ captureExcerptGapMarker else text
  | none => captureExcerptTruncationMarker

def composeCaptureExcerpt (probe tail : List Char) (windowsContiguous : Bool) (maxBytes : Nat) :
    CaptureExcerpt :=
  let head := excerptHead probe windowsContiguous maxBytes
  let text := head ++ fitWindowTail tail (maxBytes - byteLen head)
  let text := if maxBytes < byteLen text then fitWindowTail text maxBytes else text
  { text := String.ofList text, truncated := true }

def excerptTextOf (bytes : Bytes) : List Char :=
  (fromUtf8Lossy bytes).map fun c => if c = '\x00' then replacementChar else c

/-- `read_capture_window`: a character that begins before the window is left out. -/
def readCaptureWindow (content : Bytes) (start length : Nat) : Bytes :=
  let bytes := (content.drop start).take length
  if 0 < start then bytes.dropWhile isContinuation else bytes

def probeLen (content : Bytes) : Nat :=
  min captureExcerptMaxBytes (content.length - captureExcerptMaxBytes)

def probeText (content : Bytes) : List Char :=
  excerptTextOf (readCaptureWindow content 0 (probeLen content))

def tailText (content : Bytes) : List Char :=
  excerptTextOf (readCaptureWindow content (content.length - captureExcerptMaxBytes)
    captureExcerptMaxBytes)

def windowsContiguous (content : Bytes) : Bool :=
  probeLen content = content.length - captureExcerptMaxBytes

/-- `read_capture_excerpt` of a file with the content. -/
def readCaptureExcerpt (content : Bytes) : Except String CaptureExcerpt :=
  if content.length ≤ captureExcerptMaxBytes then
    .ok { text := String.ofList (excerptTextOf content), truncated := false }
  else do
    let excerpt := composeCaptureExcerpt (probeText content) (tailText content)
      (windowsContiguous content) captureExcerptMaxBytes
    ensure (byteLen excerpt.text.toList ≤ captureExcerptMaxBytes)
      ("capture excerpt exceeded the " ++ toString captureExcerptMaxBytes ++ " byte bound")
    return excerpt

/-! ## What is shown -/

/-- The three parts of a text make it up. -/
theorem findBlock_append {before before' block after : List Char} {found : Option (List Char)}
    {lines : List (List Char)} (h : findBlock before found lines = some (before', block, after)) :
    before' ++ block ++ after = before ++ found.getD [] ++ lines.flatten := by
  induction lines generalizing before found with
  | nil =>
    cases found with
    | none => cases h
    | some =>
      cases h
      rfl
  | cons line rest ih =>
    cases found with
    | none =>
      rw [findBlock] at h
      split at h
      · rw [ih h]
        simp
      · rw [ih h]
        simp
    | some begun =>
      rw [findBlock] at h
      split at h
      · cases h
        rfl
      · rw [ih h]
        simp

theorem flatten_splitInclusive (text : List Char) : (splitInclusive text).flatten = text := by
  have hterminate : ((split '\n' text).1.map (· ++ ['\n'])).flatten = terminate '\n' (split '\n' text).1 :=
    (List.flatMap_def ..).symm
  unfold splitInclusive
  rw [List.flatten_append, hterminate]
  have hsplit := terminate_split '\n' text
  split
  · next hnil =>
    rw [hnil] at hsplit
    exact hsplit
  · simpa using hsplit

theorem firstErrorBlock_append {text before block after : List Char}
    (h : firstErrorBlock text = some (before, block, after)) : before ++ block ++ after = text := by
  have happend := findBlock_append h
  rwa [flatten_splitInclusive] at happend

/-- The block and its markers leave room for a tail. -/
theorem byteLen_excerptHead_le (probe : List Char) (contiguous : Bool) :
    byteLen (excerptHead probe contiguous captureExcerptMaxBytes) ≤ captureExcerptMaxBytes := by
  have htruncation : byteLen captureExcerptTruncationMarker = 42 := by decide
  have hgap : byteLen captureExcerptGapMarker = 71 := by decide
  have hblock : byteLen captureExcerptBlockTruncationMarker = 38 := by decide
  have hmax : captureExcerptMaxBytes = 32768 := rfl
  have hnewline : byteLen ['\n'] = 1 := rfl
  have hnil : byteLen [] = 0 := rfl
  unfold excerptHead
  split
  · next before block after _ =>
    have htake := byteLen_takeWithin_le (captureExcerptMaxBytes / 2) block
    simp only
    split_ifs <;> simp only [byteLen_append, List.nil_append] <;> omega
  · omega

theorem mem_excerptHead {probe : List Char} {contiguous : Bool} {maxBytes : Nat} {c : Char}
    (h : c ∈ excerptHead probe contiguous maxBytes) :
    c ∈ captureExcerptTruncationMarker ++ captureExcerptGapMarker ++
        captureExcerptBlockTruncationMarker ++ ['\n'] ∨ c ∈ probe := by
  unfold excerptHead at h
  generalize captureExcerptTruncationMarker = truncation at h ⊢
  generalize captureExcerptGapMarker = gap at h ⊢
  generalize captureExcerptBlockTruncationMarker = cut at h ⊢
  split at h
  · next before block after hblock =>
    have htake (room : Nat) (hc : c ∈ takeWithin room block) : c ∈ block :=
      (takeWithin_isPrefix room block).subset hc
    rw [← firstErrorBlock_append hblock]
    simp only [List.mem_append]
    simp only at h
    split_ifs at h <;> simp only [List.mem_append, List.nil_append] at h <;> grind
  · exact .inl (by simp [h])

theorem nul_not_mem_excerptTextOf (bytes : Bytes) : '\x00' ∉ excerptTextOf bytes := by
  intro hmem
  obtain ⟨c, -, hc⟩ := List.mem_map.mp hmem
  split at hc
  · exact absurd hc (by decide)
  · next hne => exact hne hc

/-- The text that is shown of a capture. -/
def shownText (content : Bytes) : List Char :=
  if content.length ≤ captureExcerptMaxBytes then excerptTextOf content
  else
    let head := excerptHead (probeText content) (windowsContiguous content) captureExcerptMaxBytes
    head ++ fitWindowTail (tailText content) (captureExcerptMaxBytes - byteLen head)

theorem readCaptureExcerpt_eq (content : Bytes) :
    ∃ excerpt, readCaptureExcerpt content = .ok excerpt ∧ excerpt.text.toList = shownText content := by
  unfold readCaptureExcerpt shownText
  by_cases hshort : content.length ≤ captureExcerptMaxBytes
  · rw [if_pos hshort, if_pos hshort]
    exact ⟨_, rfl, String.toList_ofList⟩
  · rw [if_neg hshort, if_neg hshort]
    have hhead := byteLen_excerptHead_le (probeText content) (windowsContiguous content)
    have htail := byteLen_endWithin_le (captureExcerptMaxBytes - byteLen (excerptHead (probeText content)
      (windowsContiguous content) captureExcerptMaxBytes)) (tailText content)
    have hlength : byteLen (excerptHead (probeText content) (windowsContiguous content)
        captureExcerptMaxBytes ++ fitWindowTail (tailText content) (captureExcerptMaxBytes -
          byteLen (excerptHead (probeText content) (windowsContiguous content)
            captureExcerptMaxBytes))) ≤ captureExcerptMaxBytes := by
      rw [byteLen_append, fitWindowTail]
      omega
    have htext : (composeCaptureExcerpt (probeText content) (tailText content)
        (windowsContiguous content) captureExcerptMaxBytes).text.toList =
          excerptHead (probeText content) (windowsContiguous content) captureExcerptMaxBytes ++
            fitWindowTail (tailText content) (captureExcerptMaxBytes -
              byteLen (excerptHead (probeText content) (windowsContiguous content)
                captureExcerptMaxBytes)) := by
      simp only [composeCaptureExcerpt, if_neg (Nat.not_lt.mpr hlength), String.toList_ofList]
    refine ⟨_, ?_, htext⟩
    rw [ensure_bind_ok_iff]
    exact ⟨htext ▸ hlength, rfl⟩

theorem nul_not_mem_shownText (content : Bytes) : '\x00' ∉ shownText content := by
  unfold shownText
  split
  · exact nul_not_mem_excerptTextOf content
  · intro hmem
    rcases List.mem_append.mp hmem with hmem | hmem
    · rcases mem_excerptHead hmem with hmem | hmem
      · exact absurd hmem (by decide)
      · exact nul_not_mem_excerptTextOf _ hmem
    · exact nul_not_mem_excerptTextOf _ ((endWithin_suffix _ _).subset hmem)

/-! ## Reports -/

section Reports

variable [FloatTexts]

/-- A failure can be reported with the excerpt of its capture: the excerpt is within its bound and has
no NUL, and a failed record whose other fields and framing are within their margin is accepted with it
and can be sent in both forms. -/
def Reportable (content : Bytes) : Prop :=
  ∃ excerpt, readCaptureExcerpt content = .ok excerpt ∧
    byteLen excerpt.text.toList ≤ captureExcerptMaxBytes ∧ '\x00' ∉ excerpt.text.toList ∧
    ∀ fields : TallyFields, fields.event = .failed →
      validateFields (fields.withTail none none) = .ok () →
      stdoutSize (fields.withTail (some "") (some excerpt.truncated)) ≤ captureExcerptFramingMargin →
      validateFields (fields.withTail (some excerpt.text) (some excerpt.truncated)) = .ok () ∧
      (∃ line, renderStdoutRecord (fields.withTail (some excerpt.text) (some excerpt.truncated)) =
        .ok line ∧ line.length ≤ maxStdoutRecordBytes) ∧
      ∃ packet, encodeNativeRecord (fields.withTail (some excerpt.text) (some excerpt.truncated)) =
        .ok packet ∧ packet.length ≤ maxNativeRecordBytes

omit [FloatTexts] in
/-- In JSON, what is shown of a capture is within the bound of an excerpt: the text of a short
capture, or the markers, the block and the end of a long one. -/
def FitsEscaped (content : Bytes) : Prop :=
  if content.length ≤ captureExcerptMaxBytes then
    width (excerptTextOf content) ≤ captureExcerptMaxBytes
  else
    let head := excerptHead (probeText content) (windowsContiguous content) captureExcerptMaxBytes
    width head + width (fitWindowTail (tailText content) (captureExcerptMaxBytes - byteLen head)) ≤
      captureExcerptMaxBytes

omit [FloatTexts] in
theorem fitsEscaped_iff (content : Bytes) :
    FitsEscaped content ↔ width (shownText content) ≤ captureExcerptMaxBytes := by
  unfold FitsEscaped shownText
  split
  · exact Iff.rfl
  · rw [width_append]

omit [FloatTexts] in
/-- A line feed is wider in JSON. -/
theorem byteLen_lt_width {text : List Char} (h : '\n' ∈ text) : byteLen text < width text := by
  obtain ⟨before, after, rfl⟩ := List.append_of_mem h
  have hbefore := length_encode_le_width before
  have hafter := length_encode_le_width after
  have hwide : escapedWidth '\n' = 2 := by decide
  have hsize : Char.utf8Size '\n' = 1 := by decide
  rw [byteLen_append, byteLen_cons, width_append, width_cons, hwide, hsize, byteLen, byteLen]
  omega

omit [FloatTexts] in
theorem newline_mem_excerptHead (probe : List Char) (contiguous : Bool) (maxBytes : Nat) :
    '\n' ∈ excerptHead probe contiguous maxBytes := by
  unfold excerptHead
  split
  · -- the block ends with a line feed, or is given one
    dsimp only
    generalize (if maxBytes / 2 < _ then _ else _ : List Char) = text
    have hline : '\n' ∈ if text.getLast? = some '\n' then text else text ++ ['\n'] := by
      split
      · next hlast => exact List.mem_of_getLast? hlast
      · exact List.mem_append_right _ List.mem_cons_self
    split
    · exact List.mem_append_left _ hline
    · exact hline
  · decide

omit [FloatTexts] in
theorem tailText_ascii {content : Bytes} (hlong : captureExcerptMaxBytes < content.length)
    (hascii : ∀ byte ∈ content, byte ≠ 0 ∧ byte.toNat < 128) :
    byteLen (tailText content) = captureExcerptMaxBytes ∧
      ∀ c ∈ tailText content, c.utf8Size = 1 := by
  have hpos : 0 < content.length - captureExcerptMaxBytes := Nat.sub_pos_of_lt hlong
  generalize hwindow : (content.drop (content.length - captureExcerptMaxBytes)).take
    captureExcerptMaxBytes = window
  have hmem : ∀ byte ∈ window, byte ≠ 0 ∧ byte.toNat < 128 := by
    intro byte hbyte
    rw [← hwindow] at hbyte
    exact hascii byte (List.mem_of_mem_drop (List.mem_of_mem_take hbyte))
  have hlength : window.length = captureExcerptMaxBytes := by
    rw [← hwindow, List.length_take, List.length_drop]
    omega
  have hread : readCaptureWindow content (content.length - captureExcerptMaxBytes)
      captureExcerptMaxBytes = window := by
    rw [readCaptureWindow, if_pos hpos, hwindow]
    cases window with
    | nil => rfl
    | cons first rest =>
      rw [List.dropWhile_cons, isContinuation_ascii (hmem first List.mem_cons_self).2,
        if_neg Bool.false_ne_true]
  have htext : tailText content = window.map fun byte => Char.ofNat byte.toNat := by
    rw [tailText, hread, excerptTextOf, fromUtf8Lossy_ascii fun byte hbyte => (hmem byte hbyte).2,
      List.map_map]
    refine List.map_congr_left fun byte hbyte => if_neg ?_
    intro hnul
    dsimp only at hnul
    have hnat := toNat_ofNat (hmem byte hbyte).2
    rw [hnul] at hnat
    exact (hmem byte hbyte).1 (UInt8.toNat_inj.mp hnat.symm)
  rw [htext]
  constructor
  · rw [byteLen, encode_of_ascii fun byte hbyte => (hmem byte hbyte).2, hlength]
  · intro c hc
    obtain ⟨byte, hbyte, rfl⟩ := List.mem_map.mp hc
    have hnat := toNat_ofNat (hmem byte hbyte).2
    have hone := String.length_utf8EncodeChar (Char.ofNat byte.toNat)
    rw [encode_ascii (hnat.symm ▸ (hmem byte hbyte).2)] at hone
    exact hone.symm

omit [FloatTexts] in
/-- Of a long capture of ASCII text as much is shown as there is room for, and a line feed among it is
escaped. -/
theorem not_fitsEscaped_ascii {content : Bytes} (hlong : captureExcerptMaxBytes < content.length)
    (hascii : ∀ byte ∈ content, byte ≠ 0 ∧ byte.toNat < 128) : ¬FitsEscaped content := by
  rw [fitsEscaped_iff, shownText, if_neg (Nat.not_le_of_lt hlong), width_append, Nat.not_le]
  obtain ⟨hlength, hbytes⟩ := tailText_ascii hlong hascii
  have hhead := byteLen_excerptHead_le (probeText content) (windowsContiguous content)
  have hwide := byteLen_lt_width
    (newline_mem_excerptHead (probeText content) (windowsContiguous content) captureExcerptMaxBytes)
  generalize excerptHead (probeText content) (windowsContiguous content) captureExcerptMaxBytes = head
    at hhead hwide ⊢
  have htail := byteLen_endWithin_eq hbytes
    (show captureExcerptMaxBytes - byteLen head ≤ byteLen (tailText content) by omega)
  have hescaped := length_encode_le_width (fitWindowTail (tailText content)
    (captureExcerptMaxBytes - byteLen head))
  rw [← byteLen, fitWindowTail, htail] at hescaped
  rw [fitWindowTail]
  omega

omit [FloatTexts] in
/-- A failed record with a message. -/
def failedRecord (message : String) : TallyFields where
  syslogIdentifier := journalIdentifier
  event := .failed
  taskUuid := "0"
  taskRef := none
  journalScope := none
  projectionScope := none
  priority := .low
  source := .manual
  message := message
  agent := some "cc"
  sessionRef := none
  unit := some "u"
  exitCode := some 1
  stderrTail := none
  stderrTruncated := none
  gpuSeconds := none
  contextTokens := none
  contextWindow := none
  artifactHash := none
  evidence := none
  attempt := some 1
  leaseEpoch := some 1
  laborClass := some .fresh
  jobId := none
  parent := none
  pools := none
  executor := none

omit [FloatTexts] in
theorem validateFields_failedRecord {message : String} (hne : message ≠ "")
    (hnul : '\x00' ∉ message.toList) :
    validateFields ((failedRecord message).withTail none none) = .ok () := by
  rw [validateFields_eq_ok]
  refine ⟨rfl, ?_, rfl, rfl, ?_, ?_, rfl, rfl⟩
  · rw [checkPresence_withTail, checkPresence, forM_eq_ok]
    intro entry hentry
    rw [ensure_eq_ok]
    simp only [tallyFieldMatrix, List.mem_cons, List.not_mem_nil, or_false] at hentry
    rcases hentry with rfl | rfl | rfl | rfl | rfl | rfl | rfl | rfl | rfl | rfl | rfl | rfl | rfl | rfl |
      rfl | rfl | rfl | rfl | rfl | rfl | rfl | rfl | rfl | rfl | rfl | rfl | rfl <;>
      simp [required, fieldPresent, failedRecord, journalIdentifier, isSomeNonempty, hne,
        TallyEvent.isEvidence]
  · intro field hfield
    simp only [stringFields, TallyFields.withTail, failedRecord, Option.toList_some, Option.toList_none,
      List.map_cons, List.map_nil, List.append_nil, List.cons_append, List.nil_append, Option.getD_none,
      List.mem_cons, List.not_mem_nil, or_false] at hfield
    rcases hfield with rfl | rfl | rfl | rfl | rfl
    · rfl
    · rfl
    · simp [checkText, hnul, ensure, bind, Except.bind]
    · rfl
    · rfl
  · intro code hcode
    cases hcode
    decide

theorem stdoutSize_failedRecord (message : String) (truncated : Bool) :
    stdoutSize ((failedRecord message).withTail (some "") (some truncated)) =
      stdoutSize ((failedRecord "").withTail (some "") (some truncated)) + width message.toList := by
  have hmessage := memberSize_string FieldName.message.text message
  simp only [stdoutSize_eq]
  unfold members TallyFields.withTail failedRecord
  simp only [fieldsSize_append, fieldsSize_cons, fieldsSize_nil]
  omega

theorem stdoutSize_failedRecord_lt (truncated : Bool) :
    stdoutSize ((failedRecord "").withTail (some "") (some truncated)) < captureExcerptFramingMargin := by
  rw [stdoutSize_eq]
  unfold members TallyFields.withTail failedRecord
  simp only [optionalMember, Option.toList_none, Option.toList_some, List.map_nil, List.map_cons,
    List.cons_append, List.nil_append, List.append_nil]
  cases truncated <;> decide

omit [FloatTexts] in
theorem width_replicate (c : Char) (n : Nat) : width (List.replicate n c) = n * escapedWidth c := by
  rw [width, List.map_replicate, List.sum_replicate, smul_eq_mul]

/-- There are records that use their whole margin. -/
theorem exists_failedRecord (truncated : Bool) :
    ∃ fields : TallyFields, fields.event = .failed ∧
      validateFields (fields.withTail none none) = .ok () ∧
      stdoutSize (fields.withTail (some "") (some truncated)) = captureExcerptFramingMargin := by
  have hbase := stdoutSize_failedRecord_lt truncated
  generalize hsize : stdoutSize ((failedRecord "").withTail (some "") (some truncated)) = base at hbase
  have hx : escapedWidth 'x' = 1 := by decide
  refine ⟨failedRecord (String.ofList (List.replicate (captureExcerptFramingMargin - base) 'x')), rfl, ?_,
    ?_⟩
  · apply validateFields_failedRecord
    · intro hempty
      have hlist := congrArg String.toList hempty
      rw [String.toList_ofList] at hlist
      have hlength := congrArg List.length hlist
      rw [List.length_replicate] at hlength
      change _ = 0 at hlength
      omega
    · rw [String.toList_ofList]
      intro hnul
      exact absurd (List.eq_of_mem_replicate hnul) (by decide)
  · rw [stdoutSize_failedRecord, hsize, String.toList_ofList, width_replicate, hx]
    omega

/-- An excerpt with which failures can be reported is within its bound in JSON too. -/
theorem width_le_of_reportable {content : Bytes} (h : Reportable content) :
    width (shownText content) ≤ captureExcerptMaxBytes := by
  obtain ⟨excerpt, hread, -, -, hrecords⟩ := h
  obtain ⟨shown, hshown, htext⟩ := readCaptureExcerpt_eq content
  obtain rfl : excerpt = shown := Except.ok.inj (hread.symm.trans hshown)
  obtain ⟨fields, hevent, hvalid, hsize⟩ := exists_failedRecord excerpt.truncated
  obtain ⟨-, ⟨line, hline, -⟩, -⟩ := hrecords fields hevent hvalid hsize.le
  obtain ⟨-, hrendered, -⟩ := renderStdoutRecord_eq_ok.mp hline
  rw [stdoutSize_withTail, hsize, htext] at hrendered
  have hmargin : maxStdoutRecordBytes = captureExcerptMaxBytes + captureExcerptFramingMargin := rfl
  omega

/-- Failures can be reported with the captures whose excerpt is within its bound in JSON, and with no
others. -/
theorem reportable_iff_fitsEscaped (content : Bytes) : Reportable content ↔ FitsEscaped content := by
  rw [fitsEscaped_iff]
  constructor
  · exact width_le_of_reportable
  · intro hwidth
    obtain ⟨excerpt, hread, htext⟩ := readCaptureExcerpt_eq content
    have hlength : byteLen excerpt.text.toList ≤ captureExcerptMaxBytes :=
      htext ▸ (length_encode_le_width _).trans hwidth
    have hnul : '\x00' ∉ excerpt.text.toList := htext ▸ nul_not_mem_shownText content
    refine ⟨excerpt, hread, hlength, hnul, ?_⟩
    intro fields hevent hrest hmargin
    have hvalid := validateFields_withTail excerpt.truncated hevent hnul hlength hrest
    have hsize : stdoutSize (fields.withTail (some excerpt.text) (some excerpt.truncated)) ≤
        maxStdoutRecordBytes := by
      have hbounds : maxStdoutRecordBytes = captureExcerptMaxBytes + captureExcerptFramingMargin := rfl
      rw [stdoutSize_withTail, htext]
      omega
    refine ⟨hvalid, ⟨_, renderStdoutRecord_eq_ok.mpr ⟨hvalid, hsize, rfl⟩, ?_⟩, ?_⟩
    · rw [List.length_append]
      exact hsize
    · exact encodeNativeRecord_eq_ok hvalid hsize

end Reports

namespace ExcerptSample

local instance floatTexts : FloatTexts where
  json _ := .ofNat 0
  display _ := "0"
  display_le _ := by decide

/-- A capture of empty lines. -/
def emptyLines : Bytes := List.replicate 32768 lf

theorem excerptTextOf_lines (n : Nat) : excerptTextOf (List.replicate n lf) = List.replicate n '\n' := by
  induction n with
  | zero => rfl
  | succ n ih =>
    rw [List.replicate_succ, List.replicate_succ, ← ih]
    rfl

theorem not_reportable_emptyLines : ¬Reportable emptyLines := by
  intro h
  have hwidth := width_le_of_reportable h
  have hshort : emptyLines.length ≤ captureExcerptMaxBytes := by
    rw [emptyLines, List.length_replicate]
    decide
  rw [shownText, if_pos hshort, emptyLines, excerptTextOf_lines, width_replicate] at hwidth
  exact absurd hwidth (by decide)

end ExcerptSample

end Tally.Executor
