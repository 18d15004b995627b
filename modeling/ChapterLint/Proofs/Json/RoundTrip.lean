import Mathlib.Tactic.IntervalCases
import ChapterLint.Json.Render
import ChapterLint.Json.Scan

/-!
# Reading back what is written

A document with plain numerals is read back from its text as it was, and nothing follows it
(`Json.ofText_toText`). The scanner takes one character at a time, so each piece of the text has
a lemma about the run over that piece, whatever the open frames are:

1. the digits of a number (`run_toDigits`) and the characters of a string (`run_renderChar`,
   `run_renderString`);
2. a value (`readable_of_isPlain`), the items of an array (`run_renderItems`) and the members of an
   object (`run_renderMembers`), by recursion on the document.

A numeral is over only when the next character comes. `Scan.HasRead` therefore allows, beside the
state in which a value has been put into its frame, that of a numeral whose end is not yet seen.
-/

namespace ChapterLint

/-! ## Plain documents -/

namespace Json

mutual

/-- The document is sound and its numerals have neither fraction nor exponent. -/
def isPlain : Json → Bool
  | .number n => n.isPlain && n.number?.isSome
  | .string s => s.isSome
  | .array items => arePlain items
  | .object members => membersPlain members
  | .cut => false
  | _ => true

/-- All items are plain. -/
def arePlain : List Json → Bool
  | [] => true
  | j :: js => isPlain j && arePlain js

/-- All members are plain, and their keys are text. -/
def membersPlain : List (Option String × Json) → Bool
  | [] => true
  | (k, j) :: ms => k.isSome && isPlain j && membersPlain ms

end

mutual

theorem isSound_of_isPlain : ∀ {j : Json}, j.isPlain = true → j.isSound = true
  | .null, _ | .bool _, _ => rfl
  | .number n, h => by
    rw [isPlain, Bool.and_eq_true] at h
    exact h.2
  | .string _, h => h
  | .array _, h => areSound_of_arePlain h
  | .object _, h => membersSound_of_membersPlain h

theorem areSound_of_arePlain : ∀ {js : List Json}, arePlain js = true → areSound js = true
  | [], _ => rfl
  | j :: js, h => by
    rw [arePlain, Bool.and_eq_true] at h
    rw [areSound, isSound_of_isPlain h.1, areSound_of_arePlain h.2]
    rfl

theorem membersSound_of_membersPlain : ∀ {ms : List (Option String × Json)},
    membersPlain ms = true → membersSound ms = true
  | [], _ => rfl
  | (k, j) :: ms, h => by
    rw [membersPlain, Bool.and_eq_true, Bool.and_eq_true] at h
    rw [membersSound, h.1.1, isSound_of_isPlain h.1.2, membersSound_of_membersPlain h.2]
    rfl

end

end Json

/-! ## Digits -/

theorem decimalDigit?_digitChar {d : Nat} (h : d < 10) :
    decimalDigit? (Nat.digitChar d) = some d := by
  have hall : ∀ d < 10, decimalDigit? (Nat.digitChar d) = some d := by decide
  exact hall d h

theorem hexDigit?_digitChar {d : Nat} (h : d < 16) : hexDigit? (Nat.digitChar d) = some d := by
  have hall : ∀ d < 16, hexDigit? (Nat.digitChar d) = some d := by decide
  exact hall d h

namespace Scan

theorem run_nil (scan : Scan) : scan.run [] = scan := rfl

theorem run_cons (scan : Scan) (c : Char) (cs : List Char) :
    scan.run (c :: cs) = (scan.step c).run cs := rfl

/-- Digits behind a first one that is not zero make up their number. -/
theorem run_toDigits {scan : Scan} {stack : List Frame} {s : Bool}
    (hfirst : ∀ d, 0 < d → d < 10 →
      scan.step (Nat.digitChar d) = .reading stack (.numeral (.whole s d)))
    {n : Nat} (hn : 0 < n) :
    scan.run (Nat.toDigits 10 n) = .reading stack (.numeral (.whole s n)) := by
  induction n using Nat.strongRecOn with
  | ind n ih =>
    by_cases hlt : n < 10
    · rw [Nat.toDigits_of_lt_base hlt, run_cons, hfirst n hn hlt, run_nil]
    · have hdigit := decimalDigit?_digitChar (Nat.mod_lt n (show 0 < 10 by decide))
      rw [Nat.toDigits_of_base_le (by decide) (Nat.le_of_not_lt hlt), run_append,
        ih (n / 10) (by omega) (by omega), run_cons, run_nil]
      simp only [step, NumeralState.step, hdigit]
      rw [Nat.div_add_mod' n 10]

/-! ## Strings -/

theorem run_renderChar (stack : List Frame) (codes : List Nat) (c : Char) :
    (Scan.reading stack (.string (.plain codes))).run (Json.renderChar c) =
      .reading stack (.string (.plain (c.toNat :: codes))) := by
  unfold Json.renderChar
  split_ifs with hquote hback hb ht hn hf hr hcontrol
  · subst hquote; rfl
  · subst hback; rfl
  · subst hb; rfl
  · subst ht; rfl
  · subst hn; rfl
  · subst hf; rfl
  · subst hr; rfl
  · have hhigh := hexDigit?_digitChar (d := c.toNat / 16) (by omega)
    have hlow := hexDigit?_digitChar (d := c.toNat % 16) (by omega)
    have hzero : hexDigit? '0' = some 0 := rfl
    have hcode : c.toNat / 16 * 16 + c.toNat % 16 = c.toNat := Nat.div_add_mod' _ _
    simp [run_cons, run_nil, step, StringState.step, hzero, hhigh, hlow, hcode]
  · simp [run_cons, run_nil, step, StringState.step, hquote, hback, hcontrol]

theorem run_flatMap_renderChar (stack : List Frame) (codes : List Nat) (cs : List Char) :
    (Scan.reading stack (.string (.plain codes))).run (cs.flatMap Json.renderChar) =
      .reading stack (.string (.plain ((cs.map Char.toNat).reverse ++ codes))) := by
  induction cs generalizing codes with
  | nil => rfl
  | cons c cs ih =>
    rw [List.flatMap_cons, run_append, run_renderChar, ih, List.map_cons, List.reverse_cons,
      List.append_assoc, List.singleton_append]

end Scan

/-- A character is no half of a surrogate pair. -/
theorem not_isHalf_toNat (c : Char) : isHighHalf c.toNat = false ∧ isLowHalf c.toNat = false := by
  have hvalid : c.toNat < 0xD800 ∨ 0xDFFF < c.toNat ∧ c.toNat < 0x110000 := c.valid
  simp only [isHighHalf, isLowHalf, Bool.and_eq_false_iff, decide_eq_false_iff_not]
  omega

theorem charsOfCodes_map_toNat (cs : List Char) : charsOfCodes (cs.map Char.toNat) = some cs := by
  induction cs with
  | nil => rfl
  | cons c cs ih =>
    obtain ⟨hhigh, hlow⟩ := not_isHalf_toNat c
    cases cs with
    | nil => simp [charsOfCodes, hhigh, hlow, Char.ofNat_toNat]
    | cons d cs =>
      rw [List.map_cons] at ih
      simp [charsOfCodes, hhigh, hlow, ih, Char.ofNat_toNat]

theorem StringState.text?_reverse_map_toNat (s : String) :
    text? (s.toList.map Char.toNat).reverse = some s := by
  rw [text?, List.reverse_reverse, charsOfCodes_map_toNat, Option.map_some, String.ofList_toList]

namespace Scan

/-- A string is read behind its first quote. -/
theorem run_renderString (stack : List Frame) (s : String) :
    (Scan.reading stack (.string (.plain []))).run
        (s.toList.flatMap Json.renderChar ++ ['"']) = putString (some s) stack := by
  rw [run_append, run_flatMap_renderChar, List.append_nil, run_cons, run_nil]
  simp [step, StringState.step, StringState.text?_reverse_map_toNat]

/-! ## Values -/

/-- A value is awaited: in the text, in an array, or behind the key of a member. -/
structure AwaitsValue (stack : List Frame) (scan : Scan) : Prop where
  frame : ∀ members rest, stack ≠ .object members :: rest
  mode : scan = .reading stack .value ∨ scan = .reading stack .firstValue

theorem AwaitsValue.step {stack : List Frame} {scan next : Scan} (h : AwaitsValue stack scan)
    {c : Char} (hc : isJsonBlank c = false) (hopen : opening? stack c = some next) :
    scan.step c = next := by
  rcases h.mode with rfl | rfl
  · simp [Scan.step, hc, hopen]
  · simp [Scan.step, hc, hopen]

/-- A document has been read inside the open frames: it has been put into the innermost one, or it
is a numeral that only the next character ends. -/
inductive HasRead (stack : List Frame) : Json → Scan → Prop
  | put (j : Json) : HasRead stack j (put j stack)
  | numeral {state : NumeralState} {n : Numeral} (hnow : state.numeral? = some n)
      (hnext : ∀ c ∈ [',', ']', '}'], state.step c = .over n) :
      HasRead stack (.number n) (.reading stack (.numeral state))

theorem step_put (j : Json) (stack : List Frame) (c : Char) :
    (put j stack).step c = afterValue (put j stack) c := by
  cases stack with
  | nil => rfl
  | cons frame rest => cases frame <;> rfl

theorem HasRead.step {stack : List Frame} {j : Json} {scan : Scan} (h : HasRead stack j scan)
    {c : Char} (hc : c ∈ [',', ']', '}']) : scan.step c = afterValue (Scan.put j stack) c := by
  cases h with
  | put j => exact step_put j stack c
  | numeral hnow hnext => simp [Scan.step, hnext c hc]

theorem HasRead.finish {j : Json} {scan : Scan} (h : HasRead [] j scan) :
    scan.finish = ⟨j, false⟩ := by
  cases h with
  | put j => rfl
  | numeral hnow hnext => simp [Scan.finish, endNumeral, hnow, Scan.put]

theorem hasRead_zero (stack : List Frame) (s : Bool) :
    HasRead stack (.number ⟨s, 0, [], none⟩) (.reading stack (.numeral (.zero s))) := by
  refine .numeral rfl ?_
  simp only [List.forall_mem_cons]
  exact ⟨rfl, rfl, rfl, List.forall_mem_nil _⟩

theorem hasRead_whole (stack : List Frame) (s : Bool) (n : Nat) :
    HasRead stack (.number ⟨s, n, [], none⟩) (.reading stack (.numeral (.whole s n))) := by
  refine .numeral rfl ?_
  simp only [List.forall_mem_cons]
  exact ⟨rfl, rfl, rfl, List.forall_mem_nil _⟩

/-- The first digit of a number that is not zero begins a numeral. -/
theorem opening?_digitChar (stack : List Frame) {d : Nat} (hpos : 0 < d) (hlt : d < 10) :
    isJsonBlank (Nat.digitChar d) = false ∧
      opening? stack (Nat.digitChar d) = some (.reading stack (.numeral (.whole false d))) := by
  interval_cases d <;> exact ⟨rfl, rfl⟩

theorem step_sign_digitChar (stack : List Frame) {d : Nat} (hpos : 0 < d) (hlt : d < 10) :
    (Scan.reading stack (.numeral .sign)).step (Nat.digitChar d) =
      .reading stack (.numeral (.whole true d)) := by
  interval_cases d <;> rfl

/-- The state behind the whole part of a numeral. -/
def wholeState (negative : Bool) (n : Nat) : NumeralState :=
  if n = 0 then .zero negative else .whole negative n

theorem wholeState_of_pos (negative : Bool) {n : Nat} (hn : 0 < n) :
    wholeState negative n = .whole negative n := if_neg (Nat.ne_of_gt hn)

/-- The whole part of a numeral is read wherever a value is awaited. -/
theorem run_whole {stack : List Frame} {scan : Scan} (h : AwaitsValue stack scan)
    (negative : Bool) (n : Nat) :
    scan.run ((if negative then ['-'] else []) ++ Nat.toDigits 10 n) =
      .reading stack (.numeral (wholeState negative n)) := by
  rw [run_append]
  cases negative with
  | false =>
    rw [if_neg Bool.false_ne_true, run_nil]
    rcases Nat.eq_zero_or_pos n with rfl | hpos
    · rw [Nat.toDigits_of_lt_base (by decide), run_cons, run_nil, h.step rfl rfl]
      rfl
    · rw [wholeState_of_pos false hpos, run_toDigits (fun d hd hlt => ?_) hpos]
      obtain ⟨hblank, hopen⟩ := opening?_digitChar stack hd hlt
      exact h.step hblank hopen
  | true =>
    rw [if_pos rfl, run_cons, run_nil, h.step rfl rfl]
    rcases Nat.eq_zero_or_pos n with rfl | hpos
    · rw [Nat.toDigits_of_lt_base (by decide)]
      rfl
    · rw [wholeState_of_pos true hpos]
      exact run_toDigits (fun d hd hlt => step_sign_digitChar stack hd hlt) hpos

theorem hasRead_renderNumeral {stack : List Frame} {scan : Scan} (h : AwaitsValue stack scan)
    {n : Numeral} (hn : n.isPlain = true) :
    HasRead stack (.number n) (scan.run (Json.renderNumeral n)) := by
  obtain ⟨negative, whole, fraction, exponent⟩ := n
  obtain ⟨rfl, rfl⟩ : fraction = [] ∧ exponent = none := by simpa [Numeral.isPlain] using hn
  have hrender : Json.renderNumeral ⟨negative, whole, [], none⟩ =
      (if negative then ['-'] else []) ++ Nat.toDigits 10 whole := by simp [Json.renderNumeral]
  rw [hrender, run_whole h]
  rcases Nat.eq_zero_or_pos whole with rfl | hpos
  · exact hasRead_zero stack negative
  · rw [wholeState_of_pos negative hpos]
    exact hasRead_whole stack negative whole

/-! ## Documents -/

theorem putString_eq_put {stack : List Frame} (h : ∀ members rest, stack ≠ .object members :: rest)
    (s : Option String) : putString s stack = put (.string s) stack := by
  cases stack with
  | nil => rfl
  | cons frame rest =>
    cases frame with
    | object members => exact absurd rfl (h members rest)
    | _ => rfl

theorem renderString_some (s : String) :
    Json.renderString (some s) = '"' :: (s.toList.flatMap Json.renderChar ++ ['"']) := rfl

/-- A key and its colon are read where a member is awaited. -/
theorem run_renderKey {mode : Mode} (h : mode = .key ∨ mode = .firstKey) (stack : List Frame)
    (before : List (Option String × Json)) (key : String) (rest : List Char) :
    (Scan.reading (.object before :: stack) mode).run
        (Json.renderString (some key) ++ ':' :: rest) =
      (Scan.reading (.member before (some key) :: stack) .value).run rest := by
  have hquote : (Scan.reading (.object before :: stack) mode).step '"' =
      .reading (.object before :: stack) (.string (.plain [])) := by
    rcases h with rfl | rfl <;> rfl
  rw [renderString_some, List.cons_append, run_cons, hquote, run_append, run_renderString, run_cons]
  rfl

/-- The document is read wherever a value is awaited. -/
def Readable (j : Json) : Prop :=
  ∀ stack scan, AwaitsValue stack scan → HasRead stack j (scan.run j.render)

theorem readable_of_run {j : Json}
    (h : ∀ stack scan, AwaitsValue stack scan → scan.run j.render = put j stack) : Readable j := by
  intro stack scan hscan
  rw [h stack scan hscan]
  exact .put j

/-- The items of an array are read up to its end, behind those read before. -/
theorem run_renderItems {items : List Json} (hne : items ≠ []) (h : ∀ j ∈ items, Readable j)
    {stack : List Frame} {before : List Json} {scan : Scan}
    (hscan : AwaitsValue (.array before :: stack) scan) :
    scan.run (Json.renderItems items) = put (.array (before.reverse ++ items)) stack := by
  induction items generalizing before scan with
  | nil => exact absurd rfl hne
  | cons j js ih =>
    obtain ⟨hj, hjs⟩ := List.forall_mem_cons.1 h
    have hread := hj _ _ hscan
    cases js with
    | nil =>
      have hclose : afterValue (put j (.array before :: stack)) ']' =
          put (.array (j :: before).reverse) stack := rfl
      rw [Json.renderItems, run_append, run_cons, run_nil, hread.step (by simp), hclose,
        List.reverse_cons]
    | cons k js =>
      have hcomma : afterValue (put j (.array before :: stack)) ',' =
          .reading (.array (j :: before) :: stack) .value := rfl
      rw [Json.renderItems, run_append, run_cons, hread.step (by simp), hcomma,
        ih (List.cons_ne_nil k js) hjs ⟨by simp, .inl rfl⟩, List.reverse_cons, List.append_assoc,
        List.singleton_append]
      simp

/-- The members of an object are read up to its end, behind those read before. -/
theorem run_renderMembers {members : List (Option String × Json)} (hne : members ≠ [])
    (h : ∀ m ∈ members, m.1.isSome ∧ Readable m.2) {stack : List Frame}
    {before : List (Option String × Json)} {mode : Mode} (hmode : mode = .key ∨ mode = .firstKey) :
    (Scan.reading (.object before :: stack) mode).run (Json.renderMembers members) =
      put (.object (before.reverse ++ members)) stack := by
  induction members generalizing before mode with
  | nil => exact absurd rfl hne
  | cons m ms ih =>
    obtain ⟨⟨hkey, hj⟩, hms⟩ := List.forall_mem_cons.1 h
    obtain ⟨key, j⟩ := m
    obtain ⟨key, rfl⟩ := Option.isSome_iff_exists.1 hkey
    have hread := hj (.member before (some key) :: stack) _ ⟨by simp, .inl rfl⟩
    cases ms with
    | nil =>
      have hclose : afterValue (put j (.member before (some key) :: stack)) '}' =
          put (.object ((some key, j) :: before).reverse) stack := rfl
      rw [Json.renderMembers, List.append_assoc, List.cons_append, run_renderKey hmode, run_append,
        run_cons, run_nil, hread.step (by simp), hclose, List.reverse_cons]
    | cons n ms =>
      have hcomma : afterValue (put j (.member before (some key) :: stack)) ',' =
          .reading (.object ((some key, j) :: before) :: stack) .key := rfl
      rw [Json.renderMembers, List.append_assoc, List.cons_append, run_renderKey hmode, run_append,
        run_cons, hread.step (by simp), hcomma, ih (List.cons_ne_nil n ms) hms (.inl rfl),
        List.reverse_cons, List.append_assoc, List.singleton_append]
      simp

mutual

/-- A plain document is read wherever a value is awaited. -/
theorem readable_of_isPlain : ∀ {j : Json}, j.isPlain = true → Readable j
  | .null, _ => readable_of_run fun stack scan hscan => by
    rw [Json.render, show "null".toList = 'n' :: "ull".toList from rfl, run_cons,
      hscan.step rfl rfl]
    rfl
  | .bool true, _ => readable_of_run fun stack scan hscan => by
    rw [Json.render, show "true".toList = 't' :: "rue".toList from rfl, run_cons,
      hscan.step rfl rfl]
    rfl
  | .bool false, _ => readable_of_run fun stack scan hscan => by
    rw [Json.render, show "false".toList = 'f' :: "alse".toList from rfl, run_cons,
      hscan.step rfl rfl]
    rfl
  | .number n, h => fun stack scan hscan => by
    rw [Json.isPlain, Bool.and_eq_true] at h
    rw [Json.render]
    exact hasRead_renderNumeral hscan h.1
  | .string (some s), _ => readable_of_run fun stack scan hscan => by
    rw [Json.render, renderString_some, run_cons, hscan.step rfl rfl, run_renderString,
      putString_eq_put hscan.frame]
  | .array items, h => readable_of_run fun stack scan hscan => by
    rw [Json.render, run_cons, hscan.step rfl rfl]
    by_cases hne : items = []
    · subst hne
      rfl
    · exact run_renderItems hne (readable_of_arePlain h) ⟨by simp, .inr rfl⟩
  | .object members, h => readable_of_run fun stack scan hscan => by
    rw [Json.render, run_cons, hscan.step rfl rfl]
    by_cases hne : members = []
    · subst hne
      rfl
    · exact run_renderMembers hne (readable_of_membersPlain h) (.inr rfl)

theorem readable_of_arePlain : ∀ {js : List Json}, Json.arePlain js = true →
    ∀ j ∈ js, Readable j
  | [], _ => List.forall_mem_nil _
  | j :: js, h => by
    rw [Json.arePlain, Bool.and_eq_true] at h
    exact List.forall_mem_cons.2 ⟨readable_of_isPlain h.1, readable_of_arePlain h.2⟩

theorem readable_of_membersPlain : ∀ {ms : List (Option String × Json)},
    Json.membersPlain ms = true → ∀ m ∈ ms, m.1.isSome ∧ Readable m.2
  | [], _ => List.forall_mem_nil _
  | (key, j) :: ms, h => by
    rw [Json.membersPlain, Bool.and_eq_true, Bool.and_eq_true] at h
    exact List.forall_mem_cons.2
      ⟨⟨h.1.1, readable_of_isPlain h.1.2⟩, readable_of_membersPlain h.2⟩

end

end Scan

/-- **What is written is read back.** A plain document is read from its text as it was, with nothing
behind it. -/
theorem Json.ofText_toText {j : Json} (h : j.isPlain = true) :
    Json.ofText j.toText = ⟨j, false⟩ := by
  rw [Json.ofText, Json.toText, String.toList_ofList]
  exact (Scan.readable_of_isPlain h _ _ ⟨by simp, .inl rfl⟩).finish

end ChapterLint
