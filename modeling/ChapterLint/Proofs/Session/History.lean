import ChapterLint.Proofs.Session.Answer
import ChapterLint.Proofs.Tree.Document
import ChapterLint.Proofs.Tree.Wording

/-!
# Histories of calls

A host that gets no answer asks for the last error. What is recorded after a history of calls is the
texts that its calls record, one after the other (`errors_run`), and a call is answered as the
history before it demands (`getElem?_replies_run`). So the last error is that of the last call that
failed, with one exception: a host cannot take a text with a zero character, and gets nothing
although there was a failure. Only a failure that shows a word with a zero character is worded so.
-/

namespace ChapterLint

namespace Call

/-- How a question about a document fails, if it does. -/
def failure? : Call → Option Failure
  | .document question input chapter =>
    match Session.answer question input chapter with
    | .ok _ => none
    | .error f => some f
  | .lastError | .recordError _ => none

/-- The text that a call records, if it records one. -/
def recorded? : Call → Option String
  | .recordError text => some text
  | call => call.failure?.map Failure.message

/-- The failure of the last of the calls that failed. -/
def lastFailure? (calls : List Call) : Option Failure := (calls.filterMap failure?).getLast?

end Call

namespace Session

/-! ## What is recorded -/

/-- A call leaves what was recorded, and adds the text that it records. -/
theorem errors_step (s : Session) (call : Call) :
    (s.step call).2.1.errors = s.errors ++ call.recorded?.toList := by
  cases call with
  | document question input chapter =>
    cases h : answer question input chapter with
    | ok a =>
      rw [s.step_document_of_ok h]
      simp [Call.recorded?, Call.failure?, h]
    | error f =>
      rw [s.step_document_of_error h]
      simp [Call.recorded?, Call.failure?, h]
  | lastError => simp [step, Call.recorded?, Call.failure?]
  | recordError text => simp [step, note, Call.recorded?]

/-- What is recorded after a history is what its calls record. -/
theorem errors_run (s : Session) (calls : List Call) :
    (s.run calls).2.1.errors = s.errors ++ calls.filterMap Call.recorded? := by
  induction calls generalizing s with
  | nil => simp [run]
  | cons call calls ih =>
    have hrest := ih (s.step call).2.1
    rw [errors_step, List.append_assoc] at hrest
    rw [run, hrest]
    cases hcall : call.recorded? with
    | none => simp [hcall]
    | some text => simp [hcall]

/-- A call is answered in the session that the calls before it have left. -/
theorem getElem?_replies_run (s : Session) (calls : List Call) (i : Nat) :
    (s.run calls).1[i]? =
      calls[i]?.map fun call => ((s.run (calls.take i)).2.1.step call).1 := by
  induction calls generalizing s i with
  | nil => simp [run]
  | cons call calls ih =>
    cases i with
    | zero => simp [run]
    | succ i =>
      have hrest := ih (s.step call).2.1 i
      rw [run, List.getElem?_cons_succ, List.getElem?_cons_succ, hrest, List.take_succ_cons, run]

/-! ## Zero characters -/

/-- A question fails for its input, for its chapter or for its tree, and never for its answer. -/
theorem answer_eq_error {question : Question} {input : Option (List UInt8)} {chapter : Int}
    {f : Failure} (h : answer question input chapter = .error f) :
    inputText input = .error f ∨ chapterOf chapter = .error f ∨
      ∃ text, Node.parse text = .error f := by
  rcases bind_eq_error_iff.1 h with hinput | ⟨text, -, h⟩
  · exact .inl hinput
  rcases bind_eq_error_iff.1 h with hchapter | ⟨c, -, h⟩
  · exact .inr (.inl hchapter)
  rcases bind_eq_error_iff.1 h with hparse | ⟨root, -, h⟩
  · exact .inr (.inr ⟨text, hparse⟩)
  rcases bind_eq_error_iff.1 h with hhost | ⟨out, -, h⟩
  · rw [toHost_toText] at hhost
    cases hhost
  · cases h

theorem zero_notMem_message_ofBytes (e : Utf8.Fault) :
    '\x00' ∉ (Failure.ofBytes e).message.toList := by
  have hmessage : (Failure.ofBytes e).message = "UTF-8 conversion error: " ++ e.message := rfl
  have hdetail : '\x00' ∉ e.message.toList := by
    unfold Utf8.Fault.message
    split <;> simp [Json.zero_notMem_toDigits]
  rw [hmessage, String.toList_append, List.mem_append, not_or]
  exact ⟨by decide, hdetail⟩

theorem zero_notMem_message_of_inputText {input : Option (List UInt8)} {f : Failure}
    (h : inputText input = .error f) :
    '\x00' ∉ f.message.toList ∧ ∀ detail, f ≠ .malformedTree detail := by
  unfold inputText at h
  split at h
  · cases h
    exact ⟨by decide +kernel, nofun⟩
  · next bytes =>
    cases hbytes : Utf8.decode (bytes.takeWhile (· ≠ 0)) with
    | ok text =>
      rw [hbytes] at h
      cases h
    | error e =>
      rw [hbytes] at h
      cases h
      exact ⟨zero_notMem_message_ofBytes e, nofun⟩

theorem zero_notMem_message_of_chapterOf {n : Int} {f : Failure} (h : chapterOf n = .error f) :
    '\x00' ∉ f.message.toList ∧ ∀ detail, f ≠ .malformedTree detail := by
  unfold chapterOf at h
  split at h
  · cases h
  · cases h
    exact ⟨zero_notMem_unknownChapterMessage n, nofun⟩

/-- A question fails with a wording that holds a zero character exactly if the failure shows a word
that holds one. -/
theorem zero_mem_message_iff_of_answer {question : Question} {input : Option (List UInt8)}
    {chapter : Int} {f : Failure} (h : answer question input chapter = .error f) :
    '\x00' ∈ f.message.toList ↔ f.ShowsZero := by
  rcases answer_eq_error h with hinput | hchapter | ⟨text, hparse⟩
  · obtain ⟨hzero, hf⟩ := zero_notMem_message_of_inputText hinput
    exact iff_of_false hzero (Failure.not_showsZero hf)
  · obtain ⟨hzero, hf⟩ := zero_notMem_message_of_chapterOf hchapter
    exact iff_of_false hzero (Failure.not_showsZero hf)
  · exact Node.zero_mem_message_iff hparse

/-! ## The last error -/

theorem lastError_eq_some_iff {s : Session} {text : String} :
    s.lastError = some text ↔ s.errors.getLast? = some text ∧ '\x00' ∉ text.toList := by
  have htaken : ∀ last, (toHost last).toOption = some text ↔ toHost last = .ok text := by
    intro last
    cases toHost last with
    | ok out => simp [Except.toOption]
    | error f => simp [Except.toOption]
  simp only [lastError, Option.bind_eq_some_iff, htaken, toHost_eq_ok_iff]
  constructor
  · rintro ⟨last, hlast, hzero, rfl⟩
    exact ⟨hlast, hzero⟩
  · rintro ⟨hlast, hzero⟩
    exact ⟨text, hlast, hzero, rfl⟩

/-- Where a host records nothing itself, only failures are recorded. -/
theorem filterMap_recorded? {calls : List Call} (h : ∀ text, Call.recordError text ∉ calls) :
    calls.filterMap Call.recorded? = (calls.filterMap Call.failure?).map Failure.message := by
  rw [List.map_filterMap]
  refine List.filterMap_congr fun call hcall => ?_
  cases call with
  | document question input chapter => rfl
  | lastError => rfl
  | recordError text => exact absurd hcall (h text)

theorem getLast?_errors_run {calls : List Call} (h : ∀ text, Call.recordError text ∉ calls) :
    (run {} calls).2.1.errors.getLast? = (Call.lastFailure? calls).map Failure.message := by
  rw [errors_run, filterMap_recorded? h]
  exact List.getLast?_map

theorem zero_mem_message_iff_of_lastFailure? {calls : List Call} {f : Failure}
    (h : Call.lastFailure? calls = some f) : '\x00' ∈ f.message.toList ↔ f.ShowsZero := by
  obtain ⟨call, -, hcall⟩ := List.mem_filterMap.1 (List.mem_of_getLast? h)
  cases call with
  | document question input chapter =>
    unfold Call.failure? at hcall
    cases hanswer : answer question input chapter with
    | ok a => simp [hanswer] at hcall
    | error g =>
      obtain rfl : g = f := by simpa [hanswer] using hcall
      exact zero_mem_message_iff_of_answer hanswer
  | lastError => cases hcall
  | recordError text => cases hcall

/-- **The last error is that of the last failure.** In every history of questions about documents
and about the last error, a question about the last error is answered with the wording of the last
failure before it. It is answered with nothing exactly if there was no failure, or if the last one
shows a word with a zero character, which no host can take. -/
theorem replies_lastError {calls : List Call} (hcalls : ∀ text, Call.recordError text ∉ calls)
    {i : Nat} (hi : calls[i]? = some .lastError) :
    ∃ reply, (run {} calls).1[i]? = some reply ∧
      (∀ text, reply = some text ↔ ∃ f, Call.lastFailure? (calls.take i) = some f ∧
        ¬ f.ShowsZero ∧ text = f.message) ∧
      (reply = none ↔ ∀ f, Call.lastFailure? (calls.take i) = some f → f.ShowsZero) := by
  have hbefore : ∀ text, Call.recordError text ∉ calls.take i :=
    fun text hmem => hcalls text (List.mem_of_mem_take hmem)
  have htext : ∀ text, (run {} (calls.take i)).2.1.lastError = some text ↔
      ∃ f, Call.lastFailure? (calls.take i) = some f ∧ ¬ f.ShowsZero ∧ text = f.message := by
    intro text
    rw [lastError_eq_some_iff, getLast?_errors_run hbefore, Option.map_eq_some_iff]
    constructor
    · rintro ⟨⟨f, hf, rfl⟩, hzero⟩
      exact ⟨f, hf, mt (zero_mem_message_iff_of_lastFailure? hf).2 hzero, rfl⟩
    · rintro ⟨f, hf, hzero, rfl⟩
      exact ⟨⟨f, hf, rfl⟩, mt (zero_mem_message_iff_of_lastFailure? hf).1 hzero⟩
  refine ⟨(run {} (calls.take i)).2.1.lastError, ?_, htext, ?_⟩
  · rw [getElem?_replies_run, hi]
    rfl
  · rw [Option.eq_none_iff_forall_ne_some]
    constructor
    · intro hnone f hf
      by_contra hzero
      exact hnone f.message ((htext _).2 ⟨f, hf, hzero, rfl⟩)
    · intro hzero text hreply
      obtain ⟨f, hf, hshows, -⟩ := (htext text).1 hreply
      exact hshows (hzero f hf)

/-- Of two failures the later one counts, also after an answer. -/
theorem replies_lastError_unknown_chapter :
    let node := some (Utf8.encode "[\"A\"]")
    let calls : List Call :=
      [.document .lint none 1, .document .outline node 9, .document .lint node 1, .lastError]
    ((∀ text, Call.recordError text ∉ calls) ∧ calls[3]? = some .lastError) ∧
      (run {} calls).1[3]? = some (some "Unknown chapter: 9") := by
  intro node calls
  have hcalls : ∀ text, Call.recordError text ∉ calls := by simp [calls]
  have hlast : Call.lastFailure? (calls.take 3) = some (.unknownChapter 9) := by decide +kernel
  have hshows : ¬ (Failure.unknownChapter 9).ShowsZero := Failure.not_showsZero nofun
  obtain ⟨reply, hreply, htext, -⟩ := replies_lastError hcalls (i := 3) rfl
  refine ⟨⟨hcalls, rfl⟩, ?_⟩
  rw [hreply, (htext _).2 ⟨_, hlast, hshows, rfl⟩]
  decide +kernel

/-- A variable declaration whose kind is a zero character. -/
def zeroWord : Json :=
  .record [("type", .text "VariableDeclaration"), ("declarations", .array []),
    ("kind", .text "\x00"), ("loc", Span.document ⟨⟨1, 0⟩, ⟨1, 6⟩⟩)]

/-- There is a failure after which a host that asks for the last error gets nothing. -/
theorem replies_lastError_zeroWord :
    ¬ ∀ calls : List Call, (∀ text, Call.recordError text ∉ calls) →
      ∀ i, calls[i]? = some .lastError →
        (run {} calls).1[i]? = some ((Call.lastFailure? (calls.take i)).map Failure.message) := by
  intro h
  have hcalls : ∀ text, Call.recordError text ∉
      [Call.document .lint (some (Utf8.encode zeroWord.toText)) 1, .lastError] := by simp
  have hreply := h _ hcalls 1 rfl
  revert hreply
  decide +kernel

end Session

end ChapterLint
