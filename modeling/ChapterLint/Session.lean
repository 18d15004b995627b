import ChapterLint.Failure
import ChapterLint.Json.Render
import ChapterLint.Lint.Linter
import ChapterLint.Outline.Extractor

/-!
# Sessions with a host

A host hands documents over as bytes, ended by a zero byte or missing altogether, and takes
texts back that must not hold a zero character. A request that fails is answered with nothing,
and its wording is recorded; the host may ask for the last one.
-/

namespace ChapterLint

/-- What is kept between the calls of a host: the recorded texts, oldest first. -/
structure Session where
  errors : List String := []
deriving DecidableEq, Repr

/-- What a host asks of a document. -/
inductive Question where
  | lint
  | outline
deriving DecidableEq, Repr

/-- A call of a host. -/
inductive Call where
  | document (question : Question) (input : Option (List UInt8)) (chapter : Int)
  | lastError
  | recordError (text : String)
deriving DecidableEq, Repr

namespace Session

/-- Records a text. -/
def note (s : Session) (text : String) : Session × List Event :=
  (⟨s.errors ++ [text]⟩, [.failed text])

/-- The place, in bytes, of the first zero character. -/
def zeroAt? : List Char → Option Nat
  | [] => none
  | c :: cs => if c = '\x00' then some 0 else (zeroAt? cs).map (c.utf8Size + ·)

/-- A text that a host can take. -/
def toHost (text : String) : Except Failure String :=
  match zeroAt? text.toList with
  | none => .ok text
  | some i =>
    .error (.unwritable ("nul byte found in provided data at position: " ++ toString i))

/-- The text of the input, up to a zero byte. -/
def inputText (input : Option (List UInt8)) : Except Failure String :=
  match input with
  | none => .error (.noInput "the syntax tree")
  | some bytes => (Utf8.decode (bytes.takeWhile (· ≠ 0))).mapError .ofBytes

/-- The chapter of a number. -/
def chapterOf (n : Int) : Except Failure Chapter :=
  match Chapter.ofInt? n with
  | some c => .ok c
  | none => .error (.unknownChapter n)

/-- The document that answers a question about a tree. -/
def reply (question : Question) (context : Context) (root : Node) : Json × List Event :=
  match question with
  | .lint =>
    let (report, journal) := Registry.builtin.lint context root
    (report.toJson, journal)
  | .outline => root.outline context

/-- The answer to a question, or the first failure: the input is missing, is no text, the
chapter is unknown, the text is no tree. -/
def answer (question : Question) (input : Option (List UInt8)) (chapter : Int) :
    Except Failure (String × List Event) := do
  let text ← inputText input
  let chapter ← chapterOf chapter
  let root ← Node.parse text
  let (document, journal) := reply question { chapter := chapter } root
  let out ← toHost document.toText
  return (out, journal)

/-- The last recorded text, unless a host cannot take it. -/
def lastError (s : Session) : Option String :=
  s.errors.getLast?.bind fun text => (toHost text).toOption

/-- Answers a call. -/
def step (s : Session) : Call → Option String × Session × List Event
  | .document question input chapter =>
    match answer question input chapter with
    | .ok (text, journal) => (some text, s, journal)
    | .error f =>
      let (s, journal) := s.note f.message
      (none, s, journal)
  | .lastError => (s.lastError, s, [])
  | .recordError text =>
    let (s, journal) := s.note text
    (none, s, journal)

/-- Answers calls one after the other. -/
def run (s : Session) : List Call → List (Option String) × Session × List Event
  | [] => ([], s, [])
  | call :: calls =>
    let (reply, s, journal) := s.step call
    let (replies, s, rest) := s.run calls
    (reply :: replies, s, journal ++ rest)

end Session

end ChapterLint
