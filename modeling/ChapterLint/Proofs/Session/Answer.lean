import Mathlib.Data.List.TakeWhile
import ChapterLint.Proofs.Json.Zero
import ChapterLint.Proofs.Text.Utf8
import ChapterLint.Session

/-!
# Answers to questions about documents

A question is answered if four checks pass, one after the other: there is an input, it is text, the
chapter is known, the text is a tree. `Passes` and `FirstFailure` say this of the input itself,
without the steps of the program, and `answer_of_parse` and `answer_of_firstFailure` say that the
answer follows them. There is no fifth way to fail: what is written never holds a zero character,
so a host can always take it (`toHost_toText`).
-/

namespace ChapterLint

namespace Session

/-! ## Texts that a host can take -/

theorem zeroAt?_eq_none_iff {cs : List Char} : zeroAt? cs = none ↔ '\x00' ∉ cs := by
  induction cs with
  | nil => simp [zeroAt?]
  | cons c cs ih =>
    rw [zeroAt?, List.mem_cons, not_or, ← ih]
    split_ifs with hc
    · simp [hc]
    · simp [Ne.symm hc]

/-- A host can take a text exactly if it holds no zero character. -/
theorem toHost_eq_ok_iff {text out : String} :
    toHost text = .ok out ↔ '\x00' ∉ text.toList ∧ out = text := by
  unfold toHost
  rw [← zeroAt?_eq_none_iff]
  cases zeroAt? text.toList with
  | none => simp [eq_comm]
  | some i => simp

/-- A host can take every document. -/
theorem toHost_toText (j : Json) : toHost j.toText = .ok j.toText := by
  refine toHost_eq_ok_iff.2 ⟨?_, rfl⟩
  rw [Json.toText, String.toList_ofList]
  exact j.zero_notMem_render

/-! ## The checks -/

/-- The input is the bytes of a text, the chapter is one of four, and the text is a tree. -/
def Passes (input : Option (List UInt8)) (chapter : Int) : Prop :=
  ∃ text, input = some (Utf8.encode text) ∧ (1 ≤ chapter ∧ chapter ≤ 4) ∧
    ∃ root, Node.parse text = .ok root

/-- The first check that fails, with its failure. -/
inductive FirstFailure : Option (List UInt8) → Int → Failure → Prop
  | noInput (chapter : Int) : FirstFailure none chapter (.noInput "the syntax tree")
  | notText (chapter : Int) {bytes : List UInt8} {f : Utf8.Fault}
      (hbytes : ∀ text, bytes ≠ Utf8.encode text) (hf : Utf8.decode bytes = .error f) :
      FirstFailure (some bytes) chapter (.notText f.message)
  | unknownChapter (text : String) {chapter : Int} (hchapter : ¬ (1 ≤ chapter ∧ chapter ≤ 4)) :
      FirstFailure (some (Utf8.encode text)) chapter (.unknownChapter chapter)
  | noTree {text : String} {chapter : Int} {f : Failure} (hchapter : 1 ≤ chapter ∧ chapter ≤ 4)
      (hf : Node.parse text = .error f) : FirstFailure (some (Utf8.encode text)) chapter f

theorem chapterOf_number (c : Chapter) : chapterOf c.number = .ok c := by
  rw [chapterOf, Chapter.ofInt?_number]

theorem exists_chapter {n : Int} (h : 1 ≤ n ∧ n ≤ 4) : ∃ c : Chapter, n = c.number := by
  obtain rfl | rfl | rfl | rfl : n = 1 ∨ n = 2 ∨ n = 3 ∨ n = 4 := by omega
  · exact ⟨.source1, rfl⟩
  · exact ⟨.source2, rfl⟩
  · exact ⟨.source3, rfl⟩
  · exact ⟨.source4, rfl⟩

theorem number_bounds (c : Chapter) : 1 ≤ (c.number : Int) ∧ (c.number : Int) ≤ 4 := by
  cases c <;> decide

theorem chapterOf_of_outside {n : Int} (h : ¬ (1 ≤ n ∧ n ≤ 4)) :
    chapterOf n = .error (.unknownChapter n) := by
  have hnone : Chapter.ofInt? n = none := by
    cases hc : Chapter.ofInt? n with
    | none => rfl
    | some c => exact absurd (Chapter.ofInt?_eq_some hc ▸ number_bounds c) h
  rw [chapterOf, hnone]

theorem takeWhile_of_zeroFree {bytes : List UInt8} (h : 0 ∉ bytes) :
    bytes.takeWhile (· ≠ 0) = bytes := by
  rw [List.takeWhile_eq_self_iff]
  intro b hb
  exact decide_eq_true fun he => h (he ▸ hb)

theorem inputText_encode {text : String} (h : 0 ∉ Utf8.encode text) :
    inputText (some (Utf8.encode text)) = .ok text := by
  rw [inputText, takeWhile_of_zeroFree h, Utf8.decode_eq_ok_iff.2 rfl]
  rfl

theorem inputText_of_fault {bytes : List UInt8} (h : 0 ∉ bytes) {f : Utf8.Fault}
    (hf : Utf8.decode bytes = .error f) :
    inputText (some bytes) = .error (.notText f.message) := by
  rw [inputText, takeWhile_of_zeroFree h, hf]
  rfl

/-- An input that passes is answered with the document for its tree. -/
theorem answer_of_parse {text : String} (hzero : 0 ∉ Utf8.encode text) {root : Node}
    (hroot : Node.parse text = .ok root) (question : Question) (c : Chapter) :
    answer question (some (Utf8.encode text)) c.number =
      .ok ((reply question { chapter := c } root).1.toText,
        (reply question { chapter := c } root).2) := by
  refine bind_eq_ok_iff.2 ⟨text, inputText_encode hzero, ?_⟩
  refine bind_eq_ok_iff.2 ⟨c, chapterOf_number c, ?_⟩
  refine bind_eq_ok_iff.2 ⟨root, hroot, ?_⟩
  exact bind_eq_ok_iff.2 ⟨_, toHost_toText _, rfl⟩

/-- The first check that fails decides the failure. -/
theorem answer_of_firstFailure {input : Option (List UInt8)} {chapter : Int} {f : Failure}
    (h : FirstFailure input chapter f) (hzero : ∀ bytes ∈ input, 0 ∉ bytes)
    (question : Question) : answer question input chapter = .error f := by
  cases h with
  | noInput => rfl
  | notText _ hbytes hf =>
    rw [answer, inputText_of_fault (hzero _ rfl) hf]
    rfl
  | unknownChapter text hchapter =>
    rw [answer, inputText_encode (hzero _ rfl), chapterOf_of_outside hchapter]
    rfl
  | noTree hchapter hf =>
    obtain ⟨c, rfl⟩ := exists_chapter hchapter
    rw [answer, inputText_encode (hzero _ rfl), chapterOf_number]
    show Node.parse _ >>= _ = _
    rw [hf]
    rfl

theorem firstFailure_iff_eq {input : Option (List UInt8)} {chapter : Int} {f g : Failure}
    (h : FirstFailure input chapter f) (hzero : ∀ bytes ∈ input, 0 ∉ bytes) :
    FirstFailure input chapter g ↔ g = f := by
  refine ⟨fun hg => ?_, fun hg => hg ▸ h⟩
  have hanswers := (answer_of_firstFailure hg hzero .lint).symm.trans
    (answer_of_firstFailure h hzero .lint)
  exact Except.error.inj hanswers

theorem firstFailure_of_fault {bytes : List UInt8} {f : Utf8.Fault}
    (h : Utf8.decode bytes = .error f) (chapter : Int) :
    FirstFailure (some bytes) chapter (.notText f.message) := by
  refine .notText chapter (fun text htext => ?_) h
  rw [Utf8.decode_eq_ok_iff.2 htext] at h
  cases h

/-- Every input passes or has a first check that fails. -/
theorem passes_or_firstFailure (input : Option (List UInt8)) (chapter : Int) :
    Passes input chapter ∨ ∃ f, FirstFailure input chapter f := by
  cases input with
  | none => exact .inr ⟨_, .noInput chapter⟩
  | some bytes =>
    cases hbytes : Utf8.decode bytes with
    | error f => exact .inr ⟨_, firstFailure_of_fault hbytes chapter⟩
    | ok text =>
      rw [Utf8.decode_eq_ok_iff.1 hbytes]
      by_cases hchapter : 1 ≤ chapter ∧ chapter ≤ 4
      · cases hroot : Node.parse text with
        | ok root => exact .inl ⟨text, rfl, hchapter, root, hroot⟩
        | error f => exact .inr ⟨f, .noTree hchapter hroot⟩
      · exact .inr ⟨_, .unknownChapter text hchapter⟩

/-! ## What a host sees -/

theorem step_document_of_ok (s : Session) {question : Question} {input : Option (List UInt8)}
    {chapter : Int} {out : String} {journal : List Event}
    (h : answer question input chapter = .ok (out, journal)) :
    s.step (.document question input chapter) = (some out, s, journal) := by
  rw [step, h]

theorem step_document_of_error (s : Session) {question : Question} {input : Option (List UInt8)}
    {chapter : Int} {f : Failure} (h : answer question input chapter = .error f) :
    s.step (.document question input chapter) =
      (none, ⟨s.errors ++ [f.message]⟩, [.failed f.message]) := by
  rw [step, h]
  rfl

/-- **Exactly the inputs that pass are answered.** A host asks about a document, with no input or
with bytes of which none is zero. It gets a text exactly if the input passes all checks, and then
the recorded texts stay as they are. Otherwise it gets nothing, and one text is recorded, that of
the one check that fails first. Writing the answer is no check: whatever the tree holds, the host
can take the text. -/
theorem step_document_checks (s : Session) (question : Question) (input : Option (List UInt8))
    (chapter : Int) (hzero : ∀ bytes ∈ input, 0 ∉ bytes) :
    let r := s.step (.document question input chapter)
    (r.1.isSome = true ↔ Passes input chapter) ∧
      (Passes input chapter → r.2.1.errors = s.errors) ∧
      (¬ Passes input chapter → r.1 = none ∧
        ∃ f, (∀ g, FirstFailure input chapter g ↔ g = f) ∧
          r.2.1.errors = s.errors ++ [f.message]) ∧
      ∀ (context : Context) (root : Node),
        toHost (reply question context root).1.toText =
          .ok (reply question context root).1.toText := by
  intro r
  have hhost := fun (context : Context) (root : Node) =>
    toHost_toText (reply question context root).1
  rcases passes_or_firstFailure input chapter with hpasses | ⟨f, hfirst⟩
  · obtain ⟨text, rfl, hchapter, root, hroot⟩ := id hpasses
    obtain ⟨c, rfl⟩ := exists_chapter hchapter
    have hr := s.step_document_of_ok (answer_of_parse (hzero _ rfl) hroot question c)
    simp only [r, hr, Option.isSome_some, true_iff]
    exact ⟨hpasses, fun _ => trivial, fun hnot => absurd hpasses hnot, hhost⟩
  · have hanswer := answer_of_firstFailure hfirst hzero question
    have hnot : ¬ Passes input chapter := by
      rintro ⟨text, rfl, hchapter, root, hroot⟩
      obtain ⟨c, rfl⟩ := exists_chapter hchapter
      rw [answer_of_parse (hzero _ rfl) hroot] at hanswer
      cases hanswer
    have hr := s.step_document_of_error hanswer
    simp only [r, hr, Option.isSome_none, Bool.false_eq_true, false_iff]
    exact ⟨hnot, fun hpasses => absurd hpasses hnot,
      fun _ => ⟨trivial, f, fun g => firstFailure_iff_eq hfirst hzero, rfl⟩, hhost⟩

/-- A node of no known kind is answered in the fourth chapter. A byte that begins no character is
met before a chapter that is none. -/
theorem step_document_unknown_node :
    let s : Session := ⟨["old"]⟩
    let node := Utf8.encode "[\"A\"]"
    let stray : List UInt8 := [0x7B, 0xFF]
    ((∀ bytes ∈ some node, 0 ∉ bytes) ∧ ∀ bytes ∈ some stray, 0 ∉ bytes) ∧
      (s.step (.document .outline (some node) 4)).1.isSome = true ∧
      (s.step (.document .outline (some node) 4)).2.1.errors = ["old"] ∧
      (s.step (.document .lint (some stray) 9)).1 = none ∧
      (s.step (.document .lint (some stray) 9)).2.1.errors =
        ["old", "UTF-8 conversion error: invalid utf-8 sequence of 1 bytes from index 1"] := by
  intro s node stray
  have hnode : ∀ bytes ∈ some node, 0 ∉ bytes := by
    rintro bytes ⟨rfl⟩
    decide +kernel
  have hstray : ∀ bytes ∈ some stray, 0 ∉ bytes := by
    rintro bytes ⟨rfl⟩
    decide
  have hpasses : Passes (some node) 4 := ⟨_, rfl, by decide, .unknown, rfl⟩
  have hnot : ¬ Passes (some stray) 9 := fun ⟨_, _, hchapter, _⟩ => absurd hchapter.2 (by decide)
  have hfirst : FirstFailure (some stray) 9 (.notText (Utf8.Fault.invalid 1 1).message) :=
    firstFailure_of_fault rfl 9
  obtain ⟨hsome, hkept, -, -⟩ := step_document_checks s .outline (some node) 4 hnode
  obtain ⟨-, -, hrefused, -⟩ := step_document_checks s .lint (some stray) 9 hstray
  obtain ⟨hnone, f, hf, herrors⟩ := hrefused hnot
  refine ⟨⟨hnode, hstray⟩, hsome.2 hpasses, hkept hpasses, hnone, ?_⟩
  rw [herrors, ← (hf _).1 hfirst]
  decide +kernel

end Session

end ChapterLint
