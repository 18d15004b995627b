import ChapterLint.Proofs.Json.RoundTrip

/-!
# Numbers as texts write them

A `NumberToken` is any number that JSON allows, of any length, in its spelling: the whole part has
no leading zero, the fraction has at least one digit, and so has the exponent, which may have a sign
and leading zeros of its own. Wherever a value is awaited the machine reads the whole token
(`NumberToken.exists_run`), and what may follow a value ends it (`NumeralState.step_of_delimiter`).
-/

namespace ChapterLint

/-- What a text writes for a power of ten: a letter of either case, a sign, which is a minus if it
is `true`, and digits. -/
structure PowerToken where
  capital : Bool
  sign : Option Bool
  first : Fin 10
  rest : List (Fin 10)

/-- What a text writes for a number. An empty `fraction` is an absent one. -/
structure NumberToken where
  negative : Bool
  whole : Nat
  fraction : List (Fin 10)
  power : Option PowerToken

/-- The characters of digits. -/
def digitChars (ds : List (Fin 10)) : List Char := ds.map fun d => Nat.digitChar d.val

namespace PowerToken

/-- The characters of a sign. -/
def signChars : Option Bool → List Char
  | none => []
  | some false => ['+']
  | some true => ['-']

/-- The characters of a power. -/
def text (p : PowerToken) : List Char :=
  (if p.capital then 'E' else 'e') :: (signChars p.sign ++ digitChars (p.first :: p.rest))

/-- The exponent that the digits make up. -/
def exponent (p : PowerToken) : Int :=
  let e : Nat := p.rest.foldl (fun e d => e * 10 + d.val) p.first.val
  if p.sign = some true then -e else e

end PowerToken

namespace NumberToken

/-- The characters of a fraction. -/
def fractionChars (ds : List (Fin 10)) : List Char :=
  if ds.isEmpty then [] else '.' :: digitChars ds

/-- The characters of a number. -/
def text (x : NumberToken) : List Char :=
  (if x.negative then ['-'] else []) ++ Nat.toDigits 10 x.whole ++
    (fractionChars x.fraction ++ (x.power.map PowerToken.text).getD [])

/-- The numeral that is kept of a number. -/
def numeral (x : NumberToken) : Numeral :=
  ⟨x.negative, x.whole, x.fraction.map Fin.val, x.power.map PowerToken.exponent⟩

/-- The number is written with digits alone, but for a sign. -/
def IsInteger (x : NumberToken) : Prop := x.fraction = [] ∧ x.power = none

/-- The number is written with digits alone. -/
def IsPlain (x : NumberToken) : Prop := x.negative = false ∧ x.fraction = [] ∧ x.power = none

end NumberToken

/-! ## The end of a number -/

/-- What may follow a value. -/
def isDelimiter (c : Char) : Bool := isJsonBlank c || c = ',' || c = ']' || c = '}'

theorem mem_of_isDelimiter {c : Char} (h : isDelimiter c = true) :
    c ∈ [' ', '\t', '\n', '\r', ',', ']', '}'] := by
  simpa [isDelimiter, isJsonBlank, or_assoc] using h

/-- A delimiter ends a numeral that may be over. -/
theorem NumeralState.step_of_delimiter {state : NumeralState} {n : Numeral}
    (hstate : state.numeral? = some n) {c : Char} (hc : isDelimiter c = true) :
    state.step c = .over n := by
  have hnone : decimalDigit? c = none ∧ c ≠ '.' ∧ c ≠ 'e' ∧ c ≠ 'E' := by
    have hmem := mem_of_isDelimiter hc
    simp only [List.mem_cons, List.not_mem_nil, or_false] at hmem
    rcases hmem with rfl | rfl | rfl | rfl | rfl | rfl | rfl <;> decide
  obtain ⟨hdigit, hpoint, hsmall, hcapital⟩ := hnone
  have hclose : state.close = .over n := by rw [close, hstate]
  cases state with
  | sign | point | mark => cases hstate
  | zero | whole | fraction => simpa [step, step.afterDigits, hdigit, hpoint, hsmall, hcapital]
  | power => simpa [step, hdigit]

/-! ## The parts of a number -/

namespace Scan

variable {stack : List Frame}

/-- The digits of a number have been read, and of its fraction those given, last first. -/
inductive AfterDigits (s : Bool) (n : Nat) : List Nat → NumeralState → Prop
  | whole : AfterDigits s n [] (wholeState s n)
  | fraction (ds : List Nat) : AfterDigits s n ds (.fraction s n ds)

theorem AfterDigits.numeral? {s : Bool} {n : Nat} {ds : List Nat} {state : NumeralState}
    (h : AfterDigits s n ds state) : state.numeral? = some ⟨s, n, ds.reverse, none⟩ := by
  cases h with
  | whole =>
    unfold wholeState
    split_ifs with hn
    · rw [hn]
      rfl
    · rfl
  | fraction ds => rfl

/-- The letter of a power may follow. -/
theorem AfterDigits.step_mark {s : Bool} {n : Nat} {ds : List Nat} {state : NumeralState}
    (h : AfterDigits s n ds state) (capital : Bool) :
    state.step (if capital then 'E' else 'e') = .more (.mark s n ds) := by
  cases h with
  | whole =>
    unfold wholeState
    by_cases hn : n = 0
    · subst hn
      cases capital <;> rfl
    · rw [if_neg hn]
      cases capital <;> rfl
  | fraction ds => cases capital <;> rfl

theorem run_fraction (s : Bool) (n : Nat) (ds : List Nat) (digits : List (Fin 10)) :
    (Scan.reading stack (.numeral (.fraction s n ds))).run (digitChars digits) =
      .reading stack (.numeral (.fraction s n ((digits.map Fin.val).reverse ++ ds))) := by
  induction digits generalizing ds with
  | nil => rfl
  | cons d digits ih =>
    have hstep : (Scan.reading stack (.numeral (.fraction s n ds))).step (Nat.digitChar d) =
        .reading stack (.numeral (.fraction s n (d.val :: ds))) := by
      simp only [step, NumeralState.step, decimalDigit?_digitChar d.isLt]
    rw [digitChars, List.map_cons, run_cons, hstep]
    exact (ih (d.val :: ds)).trans (by simp)

theorem exists_run_fractionChars (stack : List Frame) (s : Bool) (n : Nat)
    (digits : List (Fin 10)) :
    ∃ state, AfterDigits s n (digits.map Fin.val).reverse state ∧
      (Scan.reading stack (.numeral (wholeState s n))).run (NumberToken.fractionChars digits) =
        .reading stack (.numeral state) := by
  cases digits with
  | nil => exact ⟨_, .whole, rfl⟩
  | cons d digits =>
    have hpoint : (wholeState s n).step '.' = .more (.point s n) := by
      unfold wholeState
      split_ifs with hn
      · rw [hn]
        rfl
      · rfl
    have hfirst : (Scan.reading stack (.numeral (.point s n))).step (Nat.digitChar d) =
        .reading stack (.numeral (.fraction s n [d.val])) := by
      simp only [step, NumeralState.step, decimalDigit?_digitChar d.isLt]
    refine ⟨_, .fraction _, ?_⟩
    rw [NumberToken.fractionChars, if_neg (by simp), run_cons]
    simp only [step, hpoint]
    rw [digitChars, List.map_cons, run_cons, hfirst]
    exact (run_fraction s n [d.val] digits).trans (by simp)

theorem run_power (s : Bool) (n : Nat) (ds : List Nat) (below : Bool) (e : Nat)
    (digits : List (Fin 10)) :
    (Scan.reading stack (.numeral (.power s n ds below (some e)))).run (digitChars digits) =
      .reading stack (.numeral (.power s n ds below
        (some (digits.foldl (fun e d => e * 10 + d.val) e)))) := by
  induction digits generalizing e with
  | nil => rfl
  | cons d digits ih =>
    have hstep : (Scan.reading stack (.numeral (.power s n ds below (some e)))).step
        (Nat.digitChar d) =
          .reading stack (.numeral (.power s n ds below (some (e * 10 + d.val)))) := by
      simp only [step, NumeralState.step, decimalDigit?_digitChar d.isLt, Option.getD_some]
    rw [digitChars, List.map_cons, run_cons, hstep, List.foldl_cons]
    exact ih (e * 10 + d.val)

/-- A sign and the first digit of a power. -/
theorem run_signChars (s : Bool) (n : Nat) (ds : List Nat) (sign : Option Bool) (d : Fin 10) :
    (Scan.reading stack (.numeral (.mark s n ds))).run
        (PowerToken.signChars sign ++ [Nat.digitChar d]) =
      .reading stack (.numeral (.power s n ds (sign = some true) (some d.val))) := by
  have hdigit := decimalDigit?_digitChar d.isLt
  rcases sign with _ | _ | _ <;>
    simp [PowerToken.signChars, run_cons, run_nil, step, NumeralState.step, hdigit,
      show decimalDigit? '+' = none by decide, show decimalDigit? '-' = none by decide]

theorem run_powerText (stack : List Frame) {s : Bool} {n : Nat} {ds : List Nat}
    {state : NumeralState} (h : AfterDigits s n ds state) (p : PowerToken) :
    ∃ state', state'.numeral? = some ⟨s, n, ds.reverse, some p.exponent⟩ ∧
      (Scan.reading stack (.numeral state)).run p.text = .reading stack (.numeral state') := by
  have hsplit : p.text = (if p.capital then 'E' else 'e') ::
      (PowerToken.signChars p.sign ++ [Nat.digitChar p.first] ++ digitChars p.rest) := by
    simp [PowerToken.text, digitChars]
  refine ⟨.power s n ds (p.sign = some true)
    (some (p.rest.foldl (fun e d => e * 10 + d.val) p.first.val)), ?_, ?_⟩
  · simp [NumeralState.numeral?, PowerToken.exponent]
  · rw [hsplit, run_cons]
    simp only [step, h.step_mark]
    rw [run_append, run_signChars, run_power]

end Scan

/-- Wherever a value is awaited, a number is read up to its end. -/
theorem NumberToken.exists_run {stack : List Frame} {scan : Scan}
    (h : Scan.AwaitsValue stack scan) (x : NumberToken) :
    ∃ state, state.numeral? = some x.numeral ∧
      scan.run x.text = .reading stack (.numeral state) := by
  obtain ⟨state, hstate, hrun⟩ :=
    Scan.exists_run_fractionChars stack x.negative x.whole x.fraction
  rw [text, Scan.run_append, Scan.run_whole h, Scan.run_append, hrun, numeral]
  cases x.power with
  | none =>
    refine ⟨state, ?_, rfl⟩
    rw [hstate.numeral?, List.reverse_reverse]
    rfl
  | some p =>
    have hpower := Scan.run_powerText stack hstate p
    rwa [List.reverse_reverse] at hpower

end ChapterLint
