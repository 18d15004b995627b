import ChapterLint.Json.Fault

/-!
# Reading JSON text

The text is read by a machine that takes one character at a time and keeps the open arrays and
objects on a stack. Reading a text piece by piece is therefore reading it at once, and wherever
the text stops being JSON the stack holds all that was read before.

1. Numerals and strings have states of their own, `NumeralState` and `StringState`.
2. `Scan.step` is the machine; `Scan.finish` closes it at the end of the text.
3. `Json.ofText` reads a whole text: a document and whether anything but blanks follows it.
4. `readText` takes what is wanted from the document of a text. What follows the document is looked
   at last.
-/

namespace ChapterLint

/-- The blanks between the tokens of JSON. -/
def isJsonBlank (c : Char) : Bool := c = ' ' || c = '\t' || c = '\n' || c = '\r'

/-- The value of a decimal digit. -/
def decimalDigit? (c : Char) : Option Nat :=
  if '0' ≤ c ∧ c ≤ '9' then some (c.toNat - '0'.toNat) else none

/-- The value of a hexadecimal digit of either case. -/
def hexDigit? (c : Char) : Option Nat :=
  if '0' ≤ c ∧ c ≤ '9' then some (c.toNat - '0'.toNat)
  else if 'a' ≤ c ∧ c ≤ 'f' then some (c.toNat - 'a'.toNat + 10)
  else if 'A' ≤ c ∧ c ≤ 'F' then some (c.toNat - 'A'.toNat + 10)
  else none

/-! ## Numerals -/

/-- How far a numeral has been read. -/
inductive NumeralState where
  | sign
  | zero (negative : Bool)
  | whole (negative : Bool) (n : Nat)
  | point (negative : Bool) (n : Nat)
  | fraction (negative : Bool) (n : Nat) (digits : List Nat)
  | mark (negative : Bool) (n : Nat) (digits : List Nat)
  | power (negative : Bool) (n : Nat) (digits : List Nat) (below : Bool) (e : Option Nat)

namespace NumeralState

/-- The numeral read so far, where it may end. Fraction digits are kept last first. -/
def numeral? : NumeralState → Option Numeral
  | .zero s => some ⟨s, 0, [], none⟩
  | .whole s n => some ⟨s, n, [], none⟩
  | .fraction s n ds => some ⟨s, n, ds.reverse, none⟩
  | .power s n ds below (some e) => some ⟨s, n, ds.reverse, some (if below then -e else e)⟩
  | _ => none

/-- What a character does to a numeral. -/
inductive Step where
  | more (state : NumeralState)
  | over (n : Numeral)
  | bad

/-- The numeral is over, if it may be. -/
def close (state : NumeralState) : Step :=
  match state.numeral? with
  | some n => .over n
  | none => .bad

/-- Reads one more character. A digit after a leading zero is refused. -/
def step (state : NumeralState) (c : Char) : Step :=
  match state, decimalDigit? c with
  | .sign, some 0 => .more (.zero true)
  | .sign, some d => .more (.whole true d)
  | .zero _, some _ => .bad
  | .zero s, none => afterDigits s 0 [] true
  | .whole s n, some d => .more (.whole s (n * 10 + d))
  | .whole s n, none => afterDigits s n [] true
  | .point s n, some d => .more (.fraction s n [d])
  | .fraction s n ds, some d => .more (.fraction s n (d :: ds))
  | .fraction s n ds, none => afterDigits s n ds false
  | .mark s n ds, some d => .more (.power s n ds false (some d))
  | .mark s n ds, none =>
    if c = '+' then .more (.power s n ds false none)
    else if c = '-' then .more (.power s n ds true none)
    else .bad
  | .power s n ds b e, some d => .more (.power s n ds b (some (e.getD 0 * 10 + d)))
  | _, none => state.close
where
  /-- After a digit a point may follow, if none did, and an exponent. -/
  afterDigits (s : Bool) (n : Nat) (ds : List Nat) (mayPoint : Bool) : Step :=
    if c = '.' ∧ mayPoint then .more (.point s n)
    else if c = 'e' ∨ c = 'E' then .more (.mark s n ds)
    else state.close

end NumeralState

/-! ## Strings -/

/-- How far a string has been read. The code points read are kept last first; halves of
surrogate pairs count as code points. -/
inductive StringState where
  | plain (codes : List Nat)
  | escape (codes : List Nat)
  | hex (codes : List Nat) (count : Nat) (value : Nat)

/-- The code point is the first half of a surrogate pair. -/
def isHighHalf (n : Nat) : Bool := 0xD800 ≤ n && n < 0xDC00

/-- The code point is the second half of a surrogate pair. -/
def isLowHalf (n : Nat) : Bool := 0xDC00 ≤ n && n < 0xE000

/-- The code point that a surrogate pair stands for. -/
def joinHalves (high low : Nat) : Nat := 0x10000 + (high - 0xD800) * 0x400 + (low - 0xDC00)

/-- The characters of a list of code points, where every half stands in a pair. -/
def charsOfCodes : List Nat → Option (List Char)
  | [] => some []
  | [n] => if isHighHalf n || isLowHalf n then none else some [Char.ofNat n]
  | n :: m :: rest =>
    if isHighHalf n && isLowHalf m then
      (charsOfCodes rest).map (Char.ofNat (joinHalves n m) :: ·)
    else if isHighHalf n || isLowHalf n then none
    else (charsOfCodes (m :: rest)).map (Char.ofNat n :: ·)

namespace StringState

/-- The text of the code points read, if it is one. -/
def text? (codes : List Nat) : Option String := (charsOfCodes codes.reverse).map String.ofList

/-- The character that a backslash and a letter stand for. -/
def escaped? (c : Char) : Option Char :=
  if c = '"' ∨ c = '\\' ∨ c = '/' then some c
  else if c = 'b' then some '\x08'
  else if c = 'f' then some '\x0c'
  else if c = 'n' then some '\n'
  else if c = 'r' then some '\r'
  else if c = 't' then some '\t'
  else none

/-- What a character does to a string. -/
inductive Step where
  | more (state : StringState)
  | over (s : Option String)
  | bad

/-- Reads one more character. Control characters are refused. -/
def step (state : StringState) (c : Char) : Step :=
  match state with
  | .plain codes =>
    if c = '"' then .over (text? codes)
    else if c = '\\' then .more (.escape codes)
    else if c.toNat < 0x20 then .bad
    else .more (.plain (c.toNat :: codes))
  | .escape codes =>
    if c = 'u' then .more (.hex codes 0 0)
    else
      match escaped? c with
      | some e => .more (.plain (e.toNat :: codes))
      | none => .bad
  | .hex codes count value =>
    match hexDigit? c with
    | none => .bad
    | some d =>
      if count = 3 then .more (.plain ((value * 16 + d) :: codes))
      else .more (.hex codes (count + 1) (value * 16 + d))

end StringState

/-! ## The machine -/

/-- An open array or object: the items or members read, last first, and a key whose value is
awaited. -/
inductive Frame where
  | array (items : List Json)
  | object (members : List (Option String × Json))
  | member (members : List (Option String × Json)) (key : Option String)

/-- Closes a frame over one last value that is cut short. -/
def Frame.fill (j : Json) : Frame → Json
  | .array items => .array (items.reverse ++ [j])
  | .object members => .object (members.reverse ++ [(none, j)])
  | .member members key => .object (members.reverse ++ [(key, j)])

/-- What is awaited, or being read, in the innermost frame. -/
inductive Mode where
  | value
  | firstValue
  | key
  | firstKey
  | colon
  | next
  | word (left : List Char) (j : Json)
  | numeral (state : NumeralState)
  | string (state : StringState)

/-- The state of the machine. -/
inductive Scan where
  | reading (stack : List Frame) (mode : Mode)
  | complete (j : Json)
  | trailing (j : Json)
  | broken (j : Json)

namespace Scan

/-- Nothing has been read. -/
def start : Scan := .reading [] .value

/-- The text stops being JSON inside the given frames. -/
def stop (stack : List Frame) : Scan := .broken (stack.foldl Frame.fill .cut)

/-- A value is complete. -/
def put (j : Json) : List Frame → Scan
  | [] => .complete j
  | .array items :: rest => .reading (.array (j :: items) :: rest) .next
  | .member members key :: rest => .reading (.object ((key, j) :: members) :: rest) .next
  | stack => stop stack

/-- A string is complete: a key between the members of an object, else a value. -/
def putString (s : Option String) : List Frame → Scan
  | .object members :: rest => .reading (.member members s :: rest) .colon
  | stack => put (.string s) stack

/-- A value begins. -/
def opening? (stack : List Frame) (c : Char) : Option Scan :=
  if c = '"' then some (.reading stack (.string (.plain [])))
  else if c = '[' then some (.reading (.array [] :: stack) .firstValue)
  else if c = '{' then some (.reading (.object [] :: stack) .firstKey)
  else if c = 'n' then some (.reading stack (.word "ull".toList .null))
  else if c = 't' then some (.reading stack (.word "rue".toList (.bool true)))
  else if c = 'f' then some (.reading stack (.word "alse".toList (.bool false)))
  else if c = '-' then some (.reading stack (.numeral .sign))
  else
    match decimalDigit? c with
    | some 0 => some (.reading stack (.numeral (.zero false)))
    | some d => some (.reading stack (.numeral (.whole false d)))
    | none => none

/-- An array or object is closed. -/
def closing? (c : Char) : List Frame → Option Scan
  | .array items :: rest => if c = ']' then some (put (.array items.reverse) rest) else none
  | .object members :: rest =>
    if c = '}' then some (put (.object members.reverse) rest) else none
  | _ => none

/-- Reads a character after a complete value. -/
def afterValue (scan : Scan) (c : Char) : Scan :=
  match scan with
  | .reading stack .next =>
    if isJsonBlank c then scan
    else if c = ',' then
      match stack with
      | .array _ :: _ => .reading stack .value
      | .object _ :: _ => .reading stack .key
      | _ => stop stack
    else (closing? c stack).getD (stop stack)
  | .complete j => if isJsonBlank c then scan else .trailing j
  | _ => scan

/-- Reads one character. -/
def step (scan : Scan) (c : Char) : Scan :=
  match scan with
  | .reading stack .value =>
    if isJsonBlank c then scan else (opening? stack c).getD (stop stack)
  | .reading stack .firstValue =>
    if isJsonBlank c then scan
    else ((opening? stack c).or (closing? c stack)).getD (stop stack)
  | .reading stack .key =>
    if isJsonBlank c then scan
    else if c = '"' then .reading stack (.string (.plain []))
    else stop stack
  | .reading stack .firstKey =>
    if isJsonBlank c then scan
    else if c = '"' then .reading stack (.string (.plain []))
    else (closing? c stack).getD (stop stack)
  | .reading stack .colon =>
    if isJsonBlank c then scan
    else if c = ':' then .reading stack .value
    else stop stack
  | .reading stack (.word (l :: left) j) =>
    if c = l then
      if left.isEmpty then put j stack else .reading stack (.word left j)
    else stop stack
  | .reading stack (.word [] _) => stop stack
  | .reading stack (.numeral state) =>
    match state.step c with
    | .more state => .reading stack (.numeral state)
    | .over n => afterValue (put (.number n) stack) c
    | .bad => stop stack
  | .reading stack (.string state) =>
    match state.step c with
    | .more state => .reading stack (.string state)
    | .over s => putString s stack
    | .bad => stop stack
  | scan => afterValue scan c

/-- Reads characters one after the other. -/
def run (scan : Scan) (cs : List Char) : Scan := cs.foldl step scan

theorem run_append (scan : Scan) (cs ds : List Char) :
    scan.run (cs ++ ds) = (scan.run cs).run ds := List.foldl_append

/-- The end of the text ends a numeral. -/
def endNumeral : Scan → Scan
  | .reading stack (.numeral state) =>
    match state.numeral? with
    | some n => put (.number n) stack
    | none => stop stack
  | scan => scan

end Scan

/-- A text as it was read. -/
structure Reading where
  document : Json
  /-- Something other than blanks follows the document. -/
  trailing : Bool

/-- What has been read at the end of the text. -/
def Scan.finish (scan : Scan) : Reading :=
  match scan.endNumeral with
  | .reading stack _ => ⟨stack.foldl Frame.fill .cut, false⟩
  | .complete j => ⟨j, false⟩
  | .trailing j => ⟨j, true⟩
  | .broken j => ⟨j, false⟩

/-- Reads a whole text. -/
def Json.ofText (s : String) : Reading := (Scan.start.run s.toList).finish

/-- Reads the document of a text, and refuses the text if something else follows it. -/
def readText {α : Type} (read : Json → Except Fault α) (s : String) : Except Fault α := do
  let r := Json.ofText s
  let x ← read r.document
  if r.trailing then throw .notJson else return x

end ChapterLint
