/-!
# Text from bytes

UTF-8 is read byte by byte. Bytes that are no text are refused where the first bad sequence
starts: either a byte cannot continue the sequence, and then the bytes before it count, or the
bytes end inside the sequence.
-/

namespace ChapterLint

namespace Utf8

/-- Why bytes are no text. -/
inductive Fault where
  | invalid (length : Nat) (index : Nat)
  | incomplete (index : Nat)
deriving DecidableEq, Repr

/-- The wording of a fault. -/
def Fault.message : Fault → String
  | .invalid n i =>
    "invalid utf-8 sequence of " ++ toString n ++ " bytes from index " ++ toString i
  | .incomplete i => "incomplete utf-8 byte sequence from index " ++ toString i

/-- A sequence begun: where, how many bytes and which code so far, how many bytes are missing,
and the bounds of the next one. -/
structure Open where
  start : Nat
  count : Nat
  code : Nat
  missing : Nat
  low : Nat
  high : Nat

/-- What a first byte from `0x80` on begins. Overlong forms, surrogates and codes beyond the
last plane are excluded by the bounds of the second byte. -/
def Open.ofByte? (start b : Nat) : Option Open :=
  if 0xC2 ≤ b ∧ b ≤ 0xDF then some ⟨start, 1, b - 0xC0, 1, 0x80, 0xBF⟩
  else if b = 0xE0 then some ⟨start, 1, 0, 2, 0xA0, 0xBF⟩
  else if b = 0xED then some ⟨start, 1, 0xD, 2, 0x80, 0x9F⟩
  else if 0xE1 ≤ b ∧ b ≤ 0xEF then some ⟨start, 1, b - 0xE0, 2, 0x80, 0xBF⟩
  else if b = 0xF0 then some ⟨start, 1, 0, 3, 0x90, 0xBF⟩
  else if 0xF1 ≤ b ∧ b ≤ 0xF3 then some ⟨start, 1, b - 0xF0, 3, 0x80, 0xBF⟩
  else if b = 0xF4 then some ⟨start, 1, 4, 3, 0x80, 0x8F⟩
  else none

/-- Reads bytes from an index on, inside a begun sequence or between sequences. -/
def decodeFrom (index : Nat) : Option Open → List UInt8 → Except Fault (List Char)
  | none, [] => .ok []
  | some o, [] => .error (.incomplete o.start)
  | none, b :: bs =>
    if b.toNat < 0x80 then
      (decodeFrom (index + 1) none bs).map (Char.ofNat b.toNat :: ·)
    else
      match Open.ofByte? index b.toNat with
      | some o => decodeFrom (index + 1) (some o) bs
      | none => .error (.invalid 1 index)
  | some o, b :: bs =>
    if o.low ≤ b.toNat ∧ b.toNat ≤ o.high then
      let code := o.code * 64 + (b.toNat - 0x80)
      if o.missing = 1 then
        (decodeFrom (index + 1) none bs).map (Char.ofNat code :: ·)
      else
        decodeFrom (index + 1) (some ⟨o.start, o.count + 1, code, o.missing - 1, 0x80, 0xBF⟩) bs
    else .error (.invalid o.count o.start)

/-- The text of bytes, or the first fault in them. -/
def decode (bytes : List UInt8) : Except Fault String :=
  (decodeFrom 0 none bytes).map String.ofList

end Utf8

end ChapterLint
