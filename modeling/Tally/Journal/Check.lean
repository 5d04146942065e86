import Tally.Journal.Size

/-!
# The check of a record with a captured tail

The tail adds three conditions to those of the rest of a failed record: that it is short enough, that
it has no NUL, and that it comes with its flag.
-/

namespace Tally.Journal

open Tally.Lib

theorem validateFields_eq_ok {fields : TallyFields} :
    validateFields fields = .ok () ↔
      fields.syslogIdentifier = journalIdentifier ∧ checkPresence fields = .ok () ∧
      checkPools fields = .ok () ∧ checkScope fields = .ok () ∧
      (∀ field ∈ stringFields fields, checkText field.1 field.2 = .ok ()) ∧
      (∀ code ∈ fields.exitCode, 0 ≤ code) ∧ checkStderr fields = .ok () ∧
      checkNumbers fields = .ok () := by
  unfold validateFields
  rw [unit_bind_ok_iff, unit_bind_ok_iff, unit_bind_ok_iff, unit_bind_ok_iff, unit_bind_ok_iff,
    unit_bind_ok_iff, unit_bind_ok_iff, ensure_eq_ok, ensure_eq_ok, forM_eq_ok]

/-- Only fields that are never required depend on the tail. -/
theorem checkPresence_withTail (fields : TallyFields) (tail : Option String) (truncated : Option Bool) :
    checkPresence (fields.withTail tail truncated) = .ok () ↔ checkPresence fields = .ok () := by
  unfold checkPresence
  rw [forM_eq_ok, forM_eq_ok]
  refine forall₂_congr fun entry hentry => ?_
  rw [ensure_eq_ok, ensure_eq_ok]
  refine imp_congr_right fun hrequired => ?_
  obtain ⟨name, requirement⟩ := entry
  cases name with
  | stderrTail | stderrTruncated =>
    have hconditional : requirement = .conditional := by
      simpa [tallyFieldMatrix] using hentry
    rw [hconditional] at hrequired
    exact absurd hrequired (by simp [required])
  | _ => exact Iff.rfl

theorem mem_stringFields_withTail {fields : TallyFields} {tail : String} {truncated : Bool}
    {field : FieldName × String}
    (h : field ∈ stringFields (fields.withTail (some tail) (some truncated))) :
    field = (.stderrTail, tail) ∨ field ∈ stringFields (fields.withTail none none) := by
  unfold stringFields TallyFields.withTail at *
  simp only [List.mem_append, Option.toList_some, Option.toList_none, List.map_cons, List.map_nil,
    List.mem_singleton, List.not_mem_nil, or_false] at h ⊢
  tauto

theorem checkText_stderrTail {tail : String} (h : '\x00' ∉ tail.toList) :
    checkText .stderrTail tail = .ok () := by
  simp [checkText, h, ensure, bind, Except.bind]

theorem checkStderr_withTail {fields : TallyFields} {tail : String} {truncated : Bool}
    (hevent : fields.event = .failed) :
    checkStderr (fields.withTail (some tail) (some truncated)) = .ok () ↔
      (encode tail.toList).length ≤ captureExcerptMaxBytes := by
  simp [checkStderr, TallyFields.withTail, hevent]

/-- A failed record passes the check with a tail that is short enough and has no NUL. -/
theorem validateFields_withTail {fields : TallyFields} {tail : String} (truncated : Bool)
    (hevent : fields.event = .failed) (hnul : '\x00' ∉ tail.toList)
    (hlength : (encode tail.toList).length ≤ captureExcerptMaxBytes)
    (hrest : validateFields (fields.withTail none none) = .ok ()) :
    validateFields (fields.withTail (some tail) (some truncated)) = .ok () := by
  rw [validateFields_eq_ok] at hrest ⊢
  obtain ⟨hident, hpresence, hpools, hscope, htext, hexit, -, hnumbers⟩ := hrest
  refine ⟨hident, ?_, hpools, hscope, ?_, hexit, (checkStderr_withTail hevent).mpr hlength, hnumbers⟩
  · exact (checkPresence_withTail fields _ _).mpr ((checkPresence_withTail fields none none).mp hpresence)
  · intro field hfield
    rcases mem_stringFields_withTail hfield with rfl | hfield
    · exact checkText_stderrTail hnul
    · exact htext field hfield

/-! ## Sending -/

section Sending

variable [FloatTexts]

omit [FloatTexts] in
theorem carriageReturn_not_mem_encode {text : List Char} (h : '\r' ∉ text) :
    carriageReturn ∉ encode text := by
  intro hmem
  obtain ⟨c, hc, hbyte⟩ := List.mem_flatMap.mp hmem
  have hchar : c = '\r' := Char.toNat_inj.mp (toNat_eq_of_mem_utf8EncodeChar (by decide) hbyte)
  exact h (hchar ▸ hc)

/-- A line is made of a record that passes the check, if it is not too long. -/
theorem renderStdoutRecord_eq_ok {fields : TallyFields} {line : Bytes} :
    renderStdoutRecord fields = .ok line ↔
      validateFields fields = .ok () ∧ stdoutSize fields ≤ maxStdoutRecordBytes ∧
        line = encode (render (.object (members fields))) ++ [lf] := by
  have hplain : lf ∉ encode (render (.object (members fields))) ∧
      carriageReturn ∉ encode (render (.object (members fields))) :=
    ⟨lf_not_mem_encode (newline_not_mem_render _), carriageReturn_not_mem_encode (not_mem_render rfl _)⟩
  unfold renderStdoutRecord stdoutSize
  generalize encode (render (.object (members fields))) = bytes at hplain ⊢
  rw [unit_bind_ok_iff, ensure_bind_ok_iff, ensure_bind_ok_iff, List.length_append]
  constructor
  · rintro ⟨hvalid, -, hsize, hline⟩
    exact ⟨hvalid, hsize, (Except.ok.inj hline).symm⟩
  · rintro ⟨hvalid, hsize, rfl⟩
    exact ⟨hvalid, hplain, hsize, rfl⟩

theorem encodeNativeRecord_eq_ok {fields : TallyFields} (hvalid : validateFields fields = .ok ())
    (hsize : stdoutSize fields ≤ maxStdoutRecordBytes) :
    ∃ packet, encodeNativeRecord fields = .ok packet ∧ packet.length ≤ maxNativeRecordBytes := by
  have hpacket := (length_flatMap_nativeField (nativeFields fields)).trans_le (b := nativeSize _)
    (c := maxNativeRecordBytes) <| by
    have hle := nativeSize_le fields
    rw [stdoutSize_eq] at hsize
    have hstdout : maxStdoutRecordBytes = 49152 := rfl
    have hnative : maxNativeRecordBytes = 65536 := rfl
    omega
  refine ⟨_, ?_, hpacket⟩
  unfold encodeNativeRecord
  rw [unit_bind_ok_iff, ensure_bind_ok_iff]
  exact ⟨hvalid, hpacket, rfl⟩

end Sending

end Tally.Journal
