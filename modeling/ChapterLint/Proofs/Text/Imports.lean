import Mathlib.Computability.Language
import Mathlib.Data.List.TakeWhile
import Mathlib.Order.Bounds.Basic
import ChapterLint.ImportLine

/-!
# Which lines import

A line imports from a module if some piece of it is a word of the language `pattern`, a product of
fixed words, runs of white space, a run without a closing brace and quotes. Words of the pattern may
start in many places of a line, hold one another, and repeat pieces of the pattern in the name of
the module. The search still tries each place of the line only once, because there is one way to
take a factor of the pattern off the front of a text.

`Reads` says this of a reader and a language. It holds of the readers of words and quotes, it is
kept when characters are skipped before a word that does not start with one of them (`Reads.skip`),
and readers one after the other read the product of their languages (`Reads.mul`). The search does
not look for white space around the names in braces: a run without a closing brace takes it up
(`runs_absorb`).
-/

namespace ChapterLint

namespace ImportLine

/-! ## Readers of languages -/

/-- A reader leaves exactly what follows a word of a language at the start of a text. -/
def Reads (read : List Char → Option (List Char)) (L : Language Char) : Prop :=
  ∀ cs rest, read cs = some rest ↔ ∃ w ∈ L, w ++ rest = cs

/-- The language of one word. -/
def word (w : String) : Language Char := {w.toList}

/-- The language of one quote, of either kind. -/
def quote : Language Char := {w | ∃ c, (c = '"' ∨ c = '\x27') ∧ w = [c]}

/-- The runs of characters of a class, the empty one among them. -/
def runs (p : Char → Bool) : Language Char := {w | ∀ c ∈ w, p c = true}

variable {read next : List Char → Option (List Char)} {L M : Language Char} {p : Char → Bool}

theorem mem_quote {cs : List Char} : cs ∈ quote ↔ ∃ c, (c = '"' ∨ c = '\x27') ∧ cs = [c] := Iff.rfl

theorem mem_runs {cs : List Char} : cs ∈ runs p ↔ ∀ c ∈ cs, p c = true := Iff.rfl

theorem reads_afterWord? (w : String) : Reads (afterWord? w) (word w) := by
  intro cs rest
  unfold afterWord?
  rw [List.isPrefixOf?_eq_some_iff_append_eq]
  constructor
  · intro h
    exact ⟨w.toList, rfl, h⟩
  · rintro ⟨_, rfl, h⟩
    exact h

theorem reads_afterQuote? : Reads afterQuote? quote := by
  intro cs rest
  cases cs with
  | nil => simp [afterQuote?, mem_quote]
  | cons c cs =>
    show (if c = '"' ∨ c = '\x27' then some cs else none) = some rest ↔ _
    constructor
    · intro h
      split_ifs at h with hc
      cases h
      exact ⟨[c], ⟨c, hc, rfl⟩, rfl⟩
    · rintro ⟨_, ⟨c', hc', rfl⟩, h⟩
      obtain ⟨rfl, rfl⟩ := List.cons_eq_cons.1 h
      exact if_pos hc'

namespace Reads

/-- One reader after the other. -/
theorem mul (h : Reads read L) (h' : Reads next M) :
    Reads (fun cs => read cs >>= next) (L * M) := by
  intro cs rest
  show (read cs).bind next = some rest ↔ _
  rw [Option.bind_eq_some_iff]
  constructor
  · rintro ⟨mid, hread, hnext⟩
    obtain ⟨w, hw, rfl⟩ := (h cs mid).1 hread
    obtain ⟨v, hv, rfl⟩ := (h' mid rest).1 hnext
    exact ⟨w ++ v, Language.append_mem_mul hw hv, List.append_assoc w v rest⟩
  · rintro ⟨_, hmem, rfl⟩
    obtain ⟨w, hw, v, hv, rfl⟩ := Language.mem_mul.1 hmem
    exact ⟨v ++ rest, (h _ _).2 ⟨w, hw, (List.append_assoc w v rest).symm⟩, (h' _ _).2 ⟨v, hv, rfl⟩⟩

/-- Characters of a class are skipped before words that start with none of it. -/
theorem skip (h : Reads read L) (hL : ∀ w ∈ L, ∃ c v, w = c :: v ∧ p c = false) :
    Reads (fun cs => read (cs.dropWhile p)) (runs p * L) := by
  intro cs rest
  show read (cs.dropWhile p) = some rest ↔ _
  rw [h]
  constructor
  · rintro ⟨w, hw, hcs⟩
    have hrun : cs.takeWhile p ∈ runs p := fun c hc => List.mem_takeWhile_imp hc
    refine ⟨cs.takeWhile p ++ w, Language.append_mem_mul hrun hw, ?_⟩
    rw [List.append_assoc, hcs, List.takeWhile_append_dropWhile]
  · rintro ⟨_, hmem, rfl⟩
    obtain ⟨v, hv, w, hw, rfl⟩ := Language.mem_mul.1 hmem
    obtain ⟨c, w', rfl, hc⟩ := hL w hw
    refine ⟨c :: w', hw, ?_⟩
    rw [List.append_assoc, List.dropWhile_append_of_pos hv, List.cons_append,
      List.dropWhile_cons_of_neg (by rw [hc]; exact Bool.false_ne_true)]

theorem isSome_iff (h : Reads read L) (cs : List Char) :
    (read cs).isSome = true ↔ ∃ w ∈ L, w <+: cs := by
  rw [Option.isSome_iff_exists]
  constructor
  · rintro ⟨rest, hrest⟩
    obtain ⟨w, hw, happend⟩ := (h cs rest).1 hrest
    exact ⟨w, hw, rest, happend⟩
  · rintro ⟨w, hw, rest, happend⟩
    exact ⟨rest, (h cs rest).2 ⟨w, hw, happend⟩⟩

end Reads

/-! ## The pattern -/

/-- The words `import { … } from "module";`, with white space where there may be some. -/
def pattern (module : String) : Language Char :=
  word "import" * runs isBlank * word "\x7b" * runs isBlank * runs (· ≠ '\x7d') * runs isBlank *
    word "\x7d" * runs isBlank * word "from" * runs isBlank * quote * word module * quote * word ";"

theorem runs_absorb {q : Char → Bool} (h : ∀ c, p c = true → q c = true) :
    runs p * runs q * runs p = runs q := by
  ext w
  constructor
  · intro hw
    obtain ⟨_, hvu, u', hu', rfl⟩ := Language.mem_mul.1 hw
    obtain ⟨v, hv, u, hu, rfl⟩ := Language.mem_mul.1 hvu
    rw [mem_runs] at hv hu hu' ⊢
    simp only [List.mem_append]
    rintro c ((hc | hc) | hc)
    · exact h c (hv c hc)
    · exact hu c hc
    · exact h c (hu' c hc)
  · intro hw
    have hempty : ([] : List Char) ∈ runs p := fun c hc => absurd hc List.not_mem_nil
    have hfront : [] ++ w ∈ runs p * runs q := Language.append_mem_mul hempty hw
    have hboth : [] ++ w ++ [] ∈ runs p * runs q * runs p := Language.append_mem_mul hfront hempty
    rwa [List.nil_append, List.append_nil] at hboth

/-- The pattern without the white space around what the braces hold, as it is read. -/
theorem pattern_eq_mul (module : String) :
    pattern module = word "import" * ((runs isBlank * word "\x7b") *
      ((runs (· ≠ '\x7d') * word "\x7d") * ((runs isBlank * word "from") *
        ((runs isBlank * quote) * (word module * (quote * word ";")))))) := by
  have hblank : ∀ c, isBlank c = true → decide (c ≠ '\x7d') = true := by
    intro c hc
    rw [decide_eq_true_iff]
    rintro rfl
    exact absurd hc (by decide)
  have habsorb : ∀ M, runs isBlank * (runs (· ≠ '\x7d') * (runs isBlank * M)) =
      runs (· ≠ '\x7d') * M := by
    intro M
    rw [← mul_assoc, ← mul_assoc, runs_absorb hblank]
  unfold pattern
  simp only [mul_assoc, habsorb]

/-- A word is found behind characters that it does not start with. -/
theorem reads_wordAfter {w : String} (hw : ∃ c v, w.toList = c :: v ∧ p c = false) :
    Reads (fun cs => afterWord? w (cs.dropWhile p)) (runs p * word w) := by
  refine (reads_afterWord? w).skip ?_
  rintro _ rfl
  exact hw

theorem reads_quoteAfterBlanks :
    Reads (fun cs => afterQuote? (afterBlanks cs)) (runs isBlank * quote) := by
  refine reads_afterQuote?.skip ?_
  rintro _ ⟨c, rfl | rfl, rfl⟩
  · exact ⟨_, _, rfl, by decide⟩
  · exact ⟨_, _, rfl, by decide⟩

theorem startsImport_iff (module : String) (cs : List Char) :
    startsImport module cs = true ↔ ∃ w ∈ pattern module, w <+: cs := by
  have hbrace : Reads (fun cs => afterWord? "\x7b" (afterBlanks cs))
      (runs isBlank * word "\x7b") := reads_wordAfter ⟨_, _, rfl, by decide⟩
  have hnames : Reads (fun cs => afterWord? "\x7d" (cs.dropWhile (· ≠ '\x7d')))
      (runs (· ≠ '\x7d') * word "\x7d") := reads_wordAfter ⟨_, _, rfl, by decide⟩
  have hfrom : Reads (fun cs => afterWord? "from" (afterBlanks cs))
      (runs isBlank * word "from") := reads_wordAfter ⟨_, _, rfl, by decide⟩
  have hend : Reads (fun cs => afterQuote? cs >>= afterWord? ";") (quote * word ";") :=
    reads_afterQuote?.mul (reads_afterWord? ";")
  rw [pattern_eq_mul]
  exact ((reads_afterWord? "import").mul (hbrace.mul (hnames.mul (hfrom.mul
    (reads_quoteAfterBlanks.mul ((reads_afterWord? module).mul hend)))))).isSome_iff cs

/-! ## Lines with an import -/

theorem hasImport_iff (module : String) (line : List Char) :
    hasImport module line = true ↔ ∃ w ∈ pattern module, w <:+: line := by
  induction line with
  | nil =>
    unfold hasImport
    rw [startsImport_iff]
    simp only [List.prefix_nil, List.infix_nil]
  | cons c cs ih =>
    unfold hasImport
    rw [Bool.or_eq_true, startsImport_iff, ih]
    simp only [List.infix_cons_iff, and_or_left, exists_or]

theorem lines_eq_splitOn (cs : List Char) : lines cs = cs.splitOn '\n' := by
  induction cs with
  | nil => rfl
  | cons c cs ih =>
    unfold lines
    rw [List.splitOn_cons_eq_if_modifyHead, ih]
    by_cases hc : c = '\n'
    · rw [if_pos hc, if_pos (beq_iff_eq.2 hc)]
    · rw [if_neg hc, if_neg (mt beq_iff_eq.1 hc)]
      cases hsplit : cs.splitOn '\n' with
      | nil => exact absurd hsplit (List.splitOn_ne_nil _ _)
      | cons l ls => rfl

/-- A piece of a line is an import from a module: `import` and an opening brace, what is no closing
brace and a closing brace, `from` and the module in quotes, and a semicolon. White space may stand
behind `import`, before `from` and behind it. -/
def ImportsFrom (module : String) (line : List Char) : Prop :=
  ∃ (w₁ b w₂ w₃ : List Char) (q₁ q₂ : Char),
    (∀ c ∈ w₁, isBlank c = true) ∧ '\x7d' ∉ b ∧ (∀ c ∈ w₂, isBlank c = true) ∧
      (∀ c ∈ w₃, isBlank c = true) ∧ (q₁ = '"' ∨ q₁ = '\x27') ∧ (q₂ = '"' ∨ q₂ = '\x27') ∧
      "import".toList ++ w₁ ++ ['\x7b'] ++ b ++ ['\x7d'] ++ w₂ ++ "from".toList ++ w₃ ++ [q₁] ++
        module.toList ++ [q₂] ++ [';'] <:+: line

theorem importsFrom_iff (module : String) (line : List Char) :
    ImportsFrom module line ↔ ∃ w ∈ pattern module, w <:+: line := by
  rw [pattern_eq_mul]
  constructor
  · rintro ⟨w₁, b, w₂, w₃, q₁, q₂, hw₁, hb, hw₂, hw₃, hq₁, hq₂, hpiece⟩
    have hbody : b ∈ runs (· ≠ '\x7d') := fun c hc => decide_eq_true fun he => hb (he ▸ hc)
    have hbrace : w₁ ++ ['\x7b'] ∈ runs isBlank * word "\x7b" := Language.append_mem_mul hw₁ rfl
    have hnames : b ++ ['\x7d'] ∈ runs (· ≠ '\x7d') * word "\x7d" :=
      Language.append_mem_mul hbody rfl
    have hfrom : w₂ ++ "from".toList ∈ runs isBlank * word "from" := Language.append_mem_mul hw₂ rfl
    have hopen : w₃ ++ [q₁] ∈ runs isBlank * quote := Language.append_mem_mul hw₃ ⟨q₁, hq₁, rfl⟩
    have hclose : [q₂] ++ [';'] ∈ quote * word ";" := Language.append_mem_mul ⟨q₂, hq₂, rfl⟩ rfl
    refine ⟨_, Language.append_mem_mul rfl (Language.append_mem_mul hbrace (Language.append_mem_mul
      hnames (Language.append_mem_mul hfrom (Language.append_mem_mul hopen
        (Language.append_mem_mul rfl hclose))))), ?_⟩
    simpa only [List.append_assoc] using hpiece
  · rintro ⟨_, hall, hpiece⟩
    obtain ⟨_, rfl, _, hrest₁, rfl⟩ := Language.mem_mul.1 hall
    obtain ⟨_, hbrace, _, hrest₂, rfl⟩ := Language.mem_mul.1 hrest₁
    obtain ⟨w₁, hw₁, _, rfl, rfl⟩ := Language.mem_mul.1 hbrace
    obtain ⟨_, hnames, _, hrest₃, rfl⟩ := Language.mem_mul.1 hrest₂
    obtain ⟨b, hb, _, rfl, rfl⟩ := Language.mem_mul.1 hnames
    obtain ⟨_, hfrom, _, hrest₄, rfl⟩ := Language.mem_mul.1 hrest₃
    obtain ⟨w₂, hw₂, _, rfl, rfl⟩ := Language.mem_mul.1 hfrom
    obtain ⟨_, hopen, _, hrest₅, rfl⟩ := Language.mem_mul.1 hrest₄
    obtain ⟨w₃, hw₃, _, ⟨q₁, hq₁, rfl⟩, rfl⟩ := Language.mem_mul.1 hopen
    obtain ⟨_, rfl, _, hclose, rfl⟩ := Language.mem_mul.1 hrest₅
    obtain ⟨_, ⟨q₂, hq₂, rfl⟩, _, rfl, rfl⟩ := Language.mem_mul.1 hclose
    have hbody : '\x7d' ∉ b := fun hc => of_decide_eq_true (hb _ hc) rfl
    refine ⟨w₁, b, w₂, w₃, q₁, q₂, hw₁, hbody, hw₂, hw₃, hq₁, hq₂, ?_⟩
    simp only [List.append_assoc] at hpiece ⊢
    exact hpiece

/-- **The first line that imports.** For every program and every module name, the search gives the
least number, counted from zero, of a line with an import from the module, and gives none exactly if
no line has one. -/
theorem find?_least_import (code module : String) :
    let lines := code.toList.splitOn '\n'
    (∀ i, find? code module = some i ↔
        IsLeast {i | ∃ line, lines[i]? = some line ∧ ImportsFrom module line} i) ∧
      (find? code module = none ↔ ∀ line ∈ lines, ¬ ImportsFrom module line) := by
  intro lines
  have hline : ∀ line, ImportsFrom module line ↔ hasImport module line = true := fun line => by
    rw [importsFrom_iff, hasImport_iff]
  unfold find?
  rw [lines_eq_splitOn]
  refine ⟨fun i => ?_, ?_⟩
  · rw [List.findIdx?_eq_some_iff_getElem]
    constructor
    · rintro ⟨hi, hfound, hbefore⟩
      refine ⟨⟨lines[i], List.getElem?_eq_getElem hi, (hline _).2 hfound⟩, ?_⟩
      rintro j ⟨line, hget, himports⟩
      obtain ⟨hj, rfl⟩ := List.getElem?_eq_some_iff.1 hget
      by_contra hji
      exact hbefore j (Nat.lt_of_not_le hji) ((hline _).1 himports)
    · rintro ⟨⟨line, hget, himports⟩, hleast⟩
      obtain ⟨hi, rfl⟩ := List.getElem?_eq_some_iff.1 hget
      refine ⟨hi, (hline _).1 himports, fun j hji hfound => ?_⟩
      have hj : j < lines.length := Nat.lt_trans hji hi
      have hle : i ≤ j := hleast ⟨lines[j], List.getElem?_eq_getElem hj, (hline _).2 hfound⟩
      omega
  · rw [List.findIdx?_eq_none_iff]
    refine forall₂_congr fun line _ => ?_
    rw [hline, Bool.not_eq_true]

-- the first `import` of the second line leads nowhere, and the quotes need not be of one kind
example : find? "f();\nimport import\x7bg\x7dfrom 'a.b\";" "a.b" = some 1 := by decide

end ImportLine

end ChapterLint
