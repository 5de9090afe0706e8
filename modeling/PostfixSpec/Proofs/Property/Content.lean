import PostfixSpec.Proofs.Text.Blank
import PostfixSpec.Proofs.Text.Malformed
import PostfixSpec.Property

/-!
# What the content of a property file gives

A property file that can be opened is read by its bytes alone. They are malformed, or they encode a text;
the text is blank, or something stands between its blanks. What is read is that, with unified line ends.
It has no blanks at its ends and no carriage returns any more, so nothing happens to it when it is
written to a file and read once more.
-/

namespace PostfixSpec

open Text Text.Utf8

/-! ### Reports of malformed bytes -/

namespace Text.Utf8.DecodeError

variable {error : DecodeError}

theorem message_of_one (h : error.length = 1) :
    error.message = "'utf-8' codec can't decode " ++ ("byte 0x" ++
      String.ofList (hex 2 error.first.toNat) ++ " in position " ++ toString error.start) ++ ": " ++
        error.fault.message := by
  unfold message
  rw [if_pos h]

theorem message_of_ne_one (h : error.length ≠ 1) :
    error.message = "'utf-8' codec can't decode " ++ ("bytes in position " ++ toString error.start ++
      "-" ++ toString (error.start + error.length - 1)) ++ ": " ++ error.fault.message := by
  unfold message
  rw [if_neg h]
  rfl

/-- Every report says at which place the malformed bytes begin. -/
theorem exists_message (error : DecodeError) :
    ∃ what rest, error.message = what ++ " in position " ++ toString error.start ++ rest ∧
      rest.toList.head? ∈ [some ':', some '-'] := by
  by_cases hone : error.length = 1
  · refine ⟨"'utf-8' codec can't decode " ++ ("byte 0x" ++ String.ofList (hex 2 error.first.toNat)),
      ": " ++ error.fault.message, ?_, ?_⟩
    · rw [message_of_one hone]
      simp only [String.append_assoc]
    · rw [String.toList_append]
      exact List.mem_cons_self
  · refine ⟨"'utf-8' codec can't decode " ++ "bytes",
      "-" ++ toString (error.start + error.length - 1) ++ ": " ++ error.fault.message, ?_, ?_⟩
    · have hopening : "bytes in position " = "bytes" ++ " in position " := by decide
      rw [message_of_ne_one hone, hopening]
      simp only [String.append_assoc]
    · simp only [String.toList_append, List.append_assoc]
      exact List.mem_cons_of_mem _ List.mem_cons_self

end Text.Utf8.DecodeError

namespace Property

/-! ### Reading by bytes -/

section

variable {reader : File.Reader} {path : File.Path} {bytes : List UInt8} {cs : List Char}
  {text : String}

theorem read_eq_ofBytes (hnull : path.hasNull = false) (hfile : reader path = .ok bytes) :
    read reader path = ofBytes bytes := by
  rw [read, hnull, hfile]
  rfl

/-- A path with a null character leads to no text. -/
theorem not_hasNull_of_read (h : read reader path = .ok text) : path.hasNull = false := by
  refine eq_false_of_ne_true fun hnull => ?_
  rw [read, if_pos hnull] at h
  exact nomatch h

theorem ofBytes_eq_ofChars (h : encode cs = bytes) : ofBytes bytes = ofChars cs := by
  rw [ofBytes, decode_eq_ok_iff.mpr h]

theorem ofChars_of_blank (h : ∀ c ∈ cs, isBlank c = true) : ofChars cs = .error .empty := by
  have hnone := strip_eq_nil_iff.mpr ((sameLines_unifyLineEnds cs).forall_isBlank_iff.mpr h)
  simp only [ofChars, hnone]
  rfl

theorem ofChars_of_not_blank (h : ¬ ∀ c ∈ cs, isBlank c = true) :
    ofChars cs = .ok (String.ofList (strip (unifyLineEnds cs))) := by
  have hsome : ¬ (strip (unifyLineEnds cs)).isEmpty := by
    rwa [List.isEmpty_iff, strip_eq_nil_iff, (sameLines_unifyLineEnds cs).forall_isBlank_iff]
  exact if_neg hsome

theorem ofChars_ne_malformed (error : DecodeError) : ofChars cs ≠ .error (.malformed error) := by
  by_cases h : ∀ c ∈ cs, isBlank c = true
  · rw [ofChars_of_blank h]
    exact nofun
  · rw [ofChars_of_not_blank h]
    exact nofun

theorem ofChars_eq_empty_iff : ofChars cs = .error .empty ↔ ∀ c ∈ cs, isBlank c = true := by
  refine ⟨fun h => ?_, ofChars_of_blank⟩
  by_contra hblank
  rw [ofChars_of_not_blank hblank] at h
  exact nomatch h

theorem ofBytes_eq_malformed_iff {error : DecodeError} :
    ofBytes bytes = .error (.malformed error) ↔ decode bytes = .error error := by
  rw [ofBytes]
  cases decode bytes with
  | error error' => simp
  | ok cs => simp [ofChars_ne_malformed]

/-- A text is read if the bytes encode it with blanks around it and line ends of any kind. -/
theorem exists_chars_of_ofBytes (h : ofBytes bytes = .ok text) :
    ∃ cs, encode cs = bytes ∧ (¬ ∀ c ∈ cs, isBlank c = true) ∧
      strip (unifyLineEnds cs) = text.toList := by
  cases hdecode : decode bytes with
  | error error =>
      rw [ofBytes, hdecode] at h
      exact nomatch h
  | ok cs =>
      have hcs := decode_eq_ok_iff.mp hdecode
      rw [ofBytes_eq_ofChars hcs] at h
      have hblank : ¬ ∀ c ∈ cs, isBlank c = true := by
        intro hblank
        rw [ofChars_of_blank hblank] at h
        exact nomatch h
      rw [ofChars_of_not_blank hblank] at h
      refine ⟨cs, hcs, hblank, ?_⟩
      rw [← Except.ok.inj h, String.toList_ofList]

end

/-! ### Outcomes -/

/-- **The outcomes of reading a file.** Let a path lead to a file with some bytes. If they encode no text,
they are reported as malformed, and only then; the place of the report is the length of the longest
beginning that encodes a text. If they encode a text that is blank throughout, the file is said to be
empty. If they encode any other text, what stands between its blanks is read, with a line feed alone at
the end of every line. -/
theorem read_outcome {reader : File.Reader} {path : File.Path} {bytes : List UInt8}
    (hnull : path.hasNull = false) (hfile : reader path = .ok bytes) :
    ((∃ error, read reader path = .error (.malformed error)) ↔ ¬ WellFormed bytes) ∧
    (∀ error, read reader path = .error (.malformed error) →
      IsGreatest {n | ∃ front, front <+: bytes ∧ WellFormed front ∧ front.length = n} error.start ∧
      ∃ what rest, (PropertyError.malformed error).message
          = what ++ " in position " ++ toString error.start ++ rest ∧
        rest.toList.head? ∈ [some ':', some '-']) ∧
    PropertyError.empty.message = "Property file is empty" ∧
    ∀ cs, encode cs = bytes →
      (∀ error, read reader path ≠ .error (.malformed error)) ∧
      (read reader path = .error .empty ↔ ∀ c ∈ cs, isBlank c = true) ∧
      (read reader path ≠ .error .empty → ∃ unified kept, SameLines unified cs ∧
        Stripped unified kept ∧ read reader path = .ok (String.ofList kept)) := by
  rw [read_eq_ofBytes hnull hfile]
  simp only [ofBytes_eq_malformed_iff]
  refine ⟨?_, fun error h => ⟨isGreatest_start h, error.exists_message⟩, rfl, fun cs hcs => ?_⟩
  · constructor
    · rintro ⟨error, h⟩ ⟨cs, hcs⟩
      rw [decode_eq_ok_iff.mpr hcs] at h
      exact nomatch h
    · intro h
      cases hdecode : decode bytes with
      | error error => exact ⟨error, rfl⟩
      | ok cs => exact absurd ⟨cs, decode_eq_ok_iff.mp hdecode⟩ h
  · rw [ofBytes_eq_ofChars hcs, ne_eq, ofChars_eq_empty_iff]
    refine ⟨ofChars_ne_malformed, Iff.rfl, fun h => ?_⟩
    exact ⟨_, _, sameLines_unifyLineEnds cs, stripped_strip _, ofChars_of_not_blank h⟩

/-- Two blanks stand before a sequence that is cut short: the report is about the third byte behind them,
although nothing but blanks precedes it. The same blanks with a lone carriage return are an empty file. -/
theorem read_outcome_truncated :
    (read (fun _ => .ok [0x20, 0xc2, 0x85, 0xe2, 0x82]) (.ofString "spec")
        = .error (.malformed ⟨3, 2, 0xe2, .truncated⟩) ∧
      IsGreatest {n | ∃ front, front <+: [0x20, 0xc2, 0x85, 0xe2, 0x82] ∧ WellFormed front ∧
        front.length = n} 3) ∧
    read (fun _ => .ok [0x20, 0xc2, 0x85, 0x0d]) (.ofString "spec") = .error .empty := by
  have hnull : (File.Path.ofString "spec").hasNull = false := by decide +kernel
  constructor
  · have hread : read (fun _ => .ok [0x20, 0xc2, 0x85, 0xe2, 0x82]) (.ofString "spec")
        = .error (.malformed ⟨3, 2, 0xe2, .truncated⟩) := by
      decide +kernel
    obtain ⟨-, hmalformed, -⟩ :=
      @read_outcome (fun _ => .ok [0x20, 0xc2, 0x85, 0xe2, 0x82]) _ _ hnull rfl
    exact ⟨hread, (hmalformed _ hread).1⟩
  · obtain ⟨-, -, -, htext⟩ := @read_outcome (fun _ => .ok [0x20, 0xc2, 0x85, 0x0d]) _ _ hnull rfl
    exact (htext [' ', '\u0085', '\r'] (by decide +kernel)).2.1.mpr (List.all_eq_true.mp (by decide))

/-! ### Reading once more -/

/-- Whether a file with some bytes is read as a text, wherever it stands. -/
def ReadsAs (bytes : List UInt8) (text : String) : Prop :=
  ∀ (reader : File.Reader) (path : File.Path), path.hasNull = false → reader path = .ok bytes →
    read reader path = .ok text

theorem readsAs_encode {cs : List Char} {text : String} (hblank : ¬ ∀ c ∈ cs, isBlank c = true)
    (h : strip (unifyLineEnds cs) = text.toList) : ReadsAs (encode cs) text := by
  intro reader path hnull hfile
  rw [read_eq_ofBytes hnull hfile, ofBytes_eq_ofChars rfl, ofChars_of_not_blank hblank, h,
    String.ofList_toList]

/-- **Reading normalises.** A text that is read from a file is not empty, has no carriage returns, and
has no blanks at its ends. It is read again from a file that holds it, from the first file with more
blanks around, and, if the first file ends its lines with line feeds alone, from a file with the same
lines ended in any way. -/
theorem read_normalises {reader : File.Reader} {path : File.Path} {bytes : List UInt8} {text : String}
    (hfile : reader path = .ok bytes) (hread : read reader path = .ok text) :
    ('\r' ∉ text.toList ∧ text ≠ "" ∧ (∀ c ∈ text.toList.head?, isBlank c = false) ∧
      ∀ c ∈ text.toList.getLast?, isBlank c = false) ∧
    ReadsAs (encode text.toList) text ∧
    (∀ before after : List Char, (∀ c ∈ before ++ after, isBlank c = true) →
      ReadsAs (encode before ++ bytes ++ encode after) text) ∧
    ∀ cs ds, encode cs = bytes → SameLines cs ds → ReadsAs (encode ds) text := by
  rw [read_eq_ofBytes (not_hasNull_of_read hread) hfile] at hread
  obtain ⟨cs, rfl, hblank, hstrip⟩ := exists_chars_of_ofBytes hread
  have hlines := sameLines_unifyLineEnds cs
  have hstripped := strip_eq_iff.mp hstrip
  have hreturn : '\r' ∉ text.toList := by
    obtain ⟨before, after, haround, -⟩ := hstripped.around
    intro hmem
    refine hlines.not_mem_return ?_
    rw [haround]
    exact List.mem_append_left _ (List.mem_append_right _ hmem)
  have hkept : ¬ ∀ c ∈ text.toList, isBlank c = true := by
    rw [← strip_eq_nil_iff, hstripped.self.strip_eq, ← hstrip, strip_eq_nil_iff,
      hlines.forall_isBlank_iff]
    exact hblank
  refine ⟨⟨hreturn, ?_, hstripped.first, hstripped.last⟩, ?_, ?_, ?_⟩
  · rintro rfl
    exact hkept nofun
  · apply readsAs_encode hkept
    rw [(sameLines_self hreturn).unifyLineEnds_eq, hstripped.self.strip_eq]
  · intro before after hall
    obtain ⟨hbefore, hafter⟩ := List.forall_mem_append.mp hall
    rw [← encode_append, ← encode_append]
    refine readsAs_encode (fun h => hblank fun c hc => h c ?_) ?_
    · exact List.mem_append_left _ (List.mem_append_right _ hc)
    · rw [strip_unifyLineEnds_surround hbefore hafter, hstrip]
  · intro cs' ds hcs' hspelled
    have hsame : decode (encode cs) = .ok cs' := decode_eq_ok_iff.mpr hcs'
    rw [decode_encode] at hsame
    cases hsame
    apply readsAs_encode (fun h => hblank (hspelled.forall_isBlank_iff.mpr h))
    rw [hspelled.unifyLineEnds_eq, ← hstrip,
      (sameLines_self hspelled.not_mem_return).unifyLineEnds_eq]

/-- The carriage return at the end of the blanks in front and the line feed at the beginning of the
content are one line end, and both are dropped with the blanks. -/
theorem read_normalises_mixed :
    read (fun _ => .ok (encode "\np &\n\nq\u3000".toList)) (.ofString "spec") = .ok "p &\n\nq" ∧
    ReadsAs (encode "\u2028\r".toList ++ encode "\np &\n\nq\u3000".toList ++ encode " \t".toList)
      "p &\n\nq" ∧
    ReadsAs (encode "\rp &\n\rq\u3000".toList) "p &\n\nq" := by
  have hread : read (fun _ => .ok (encode "\np &\n\nq\u3000".toList)) (.ofString "spec")
      = .ok "p &\n\nq" := by
    decide +kernel
  obtain ⟨-, -, haround, hspelled⟩ := read_normalises rfl hread
  have hblank : ∀ c ∈ "\u2028\r".toList ++ " \t".toList, isBlank c = true :=
    List.all_eq_true.mp (by decide +kernel)
  refine ⟨hread, haround _ _ hblank, ?_⟩
  exact hspelled _ _ rfl (unifyLineEnds_eq_iff.mp (by decide +kernel))

end Property

end PostfixSpec
