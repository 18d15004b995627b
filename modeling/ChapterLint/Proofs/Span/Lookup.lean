import Mathlib.Algebra.Ring.Nat
import Mathlib.Data.List.Forall2
import ChapterLint.Proofs.Json.Members
import ChapterLint.Span.Excerpt

/-!
# The lines that a span looks up

The text under a span is put together from the first line, the last line and the lines between
them, each looked up by its number. A lookup fails outside of the document, with the number and
how many lines there are.

1. `lineAt_eq_ok_iff` and `lineAt_of_not_hasLine` say what one lookup gives.
2. The numbers between two lines are machine numbers. In a document with fewer than `2 ^ 32 - 1`
   lines the number after one of its lines is still a number, so counting up from it never wraps
   (`map_toNat_linesBetween`), and what is between two lines of the document is a line of it
   (`HasLine.of_between`).
3. Hence only the two ends of a span can be outside, and the first of them is looked at first.
-/

namespace ChapterLint

/-- A document has a line of the given number. -/
def HasLine (lines : List String) (n : UInt32) : Prop := 1 ≤ n.toNat ∧ n.toNat ≤ lines.length

instance (lines : List String) (n : UInt32) : Decidable (HasLine lines n) :=
  inferInstanceAs (Decidable (_ ∧ _))

variable {lines : List String} {n first last : UInt32}

/-! ## One lookup -/

theorem lineAt_eq_ok_iff {line : String} :
    lineAt lines n = .ok line ↔ 1 ≤ n.toNat ∧ lines[n.toNat - 1]? = some line := by
  unfold lineAt
  cases n.toNat with
  | zero => simp
  | succ i =>
    rw [Nat.add_sub_cancel]
    cases hline : lines[i]? with
    | none => simp [hline]
    | some line' => simp [hline]

theorem HasLine.exists_getElem? (h : HasLine lines n) :
    ∃ line, lines[n.toNat - 1]? = some line := by
  obtain ⟨hpos, hle⟩ := h
  have hlt : n.toNat - 1 < lines.length := by omega
  exact ⟨lines[n.toNat - 1], List.getElem?_eq_getElem hlt⟩

theorem HasLine.exists_lineAt (h : HasLine lines n) : ∃ line, lineAt lines n = .ok line := by
  obtain ⟨line, hline⟩ := h.exists_getElem?
  exact ⟨line, lineAt_eq_ok_iff.2 ⟨h.1, hline⟩⟩

theorem hasLine_of_lineAt {line : String} (h : lineAt lines n = .ok line) : HasLine lines n := by
  obtain ⟨hpos, hget⟩ := lineAt_eq_ok_iff.1 h
  have hlt : n.toNat - 1 < lines.length := (List.getElem?_eq_some_iff.1 hget).1
  exact ⟨hpos, by omega⟩

theorem lineAt_of_not_hasLine (h : ¬ HasLine lines n) :
    lineAt lines n = .error (.lineOutside n.toNat lines.length) := by
  unfold HasLine at h
  unfold lineAt
  cases hn : n.toNat with
  | zero => rfl
  | succ i =>
    have hnone : lines[i]? = none := List.getElem?_eq_none (by omega)
    simp only [hnone]

/-! ## The lines between -/

/-- Counting up does not wrap before the last line. -/
theorem map_toNat_linesBetween (h : first.toNat < 2 ^ 32 - 1) :
    (linesBetween first last).map UInt32.toNat =
      List.range' (first.toNat + 1) (last.toNat - (first.toNat + 1)) := by
  have hnext : (first + 1).toNat = first.toNat + 1 := by
    simp only [UInt32.toNat_add, UInt32.toNat_ofNat]
    omega
  unfold linesBetween
  rw [hnext, List.map_map, List.range'_eq_map_range]
  refine List.map_congr_left fun i hi => ?_
  have hlast : last.toNat < 2 ^ 32 := last.toNat_lt
  have hi' : i < last.toNat - (first.toNat + 1) := List.mem_range.1 hi
  show (first + 1 + UInt32.ofNat i).toNat = first.toNat + 1 + i
  rw [UInt32.toNat_add, hnext, UInt32.toNat_ofNat']
  omega

theorem between_of_mem_linesBetween (h : first.toNat < 2 ^ 32 - 1)
    (hn : n ∈ linesBetween first last) : first < n ∧ n < last := by
  have hmem : n.toNat ∈ (linesBetween first last).map UInt32.toNat := List.mem_map_of_mem hn
  rw [map_toNat_linesBetween h, List.mem_range'_1] at hmem
  rw [UInt32.lt_iff_toNat_lt, UInt32.lt_iff_toNat_lt]
  omega

/-- What is between two lines of a document is a line of it. -/
theorem HasLine.of_between (hlast : HasLine lines last) (h : first < n) (h' : n < last) :
    HasLine lines n := by
  have hle : last.toNat ≤ lines.length := hlast.2
  rw [UInt32.lt_iff_toNat_lt] at h h'
  exact ⟨by omega, by omega⟩

/-- The lookups between two lines of a document give what is between them. -/
theorem mapM_lineAt_linesBetween (hlines : lines.length < 2 ^ 32 - 1) (hfirst : HasLine lines first)
    (hlast : HasLine lines last) :
    (linesBetween first last).mapM (lineAt lines) =
      .ok ((lines.take (last.toNat - 1)).drop first.toNat) := by
  have hbound : first.toNat < 2 ^ 32 - 1 := Nat.lt_of_le_of_lt hfirst.2 hlines
  have hle : last.toNat ≤ lines.length := hlast.2
  -- a lookup sees only the value of a number
  have hvalues : List.Forall₂ (fun i line => 1 ≤ i ∧ lines[i - 1]? = some line)
      ((linesBetween first last).map UInt32.toNat)
      ((lines.take (last.toNat - 1)).drop first.toNat) := by
    rw [map_toNat_linesBetween hbound, List.forall₂_iff_get]
    refine ⟨?_, fun i hi hi' => ?_⟩
    · rw [List.length_range', List.length_drop, List.length_take]
      omega
    · rw [List.length_range'] at hi
      have hin : first.toNat + i < lines.length := by omega
      have hindex : first.toNat + 1 + 1 * i - 1 = first.toNat + i := by omega
      rw [List.get_eq_getElem, List.get_eq_getElem, List.getElem_range', hindex, List.getElem_drop,
        List.getElem_take]
      exact ⟨by omega, List.getElem?_eq_getElem hin⟩
  rw [mapM_eq_ok_iff]
  exact (List.forall₂_map_left_iff.1 hvalues).imp fun _ _ => lineAt_eq_ok_iff.2

/-! ## The text under a span -/

namespace Span

variable {s : Span}

theorem excerpt_of_first_outside (h : ¬ HasLine lines s.first.line) :
    s.excerpt lines = .error (.lineOutside s.first.line.toNat lines.length) := by
  unfold excerpt
  rw [lineAt_of_not_hasLine h]
  rfl

theorem excerpt_of_last_outside (h : HasLine lines s.first.line)
    (h' : ¬ HasLine lines s.last.line) :
    s.excerpt lines = .error (.lineOutside s.last.line.toNat lines.length) := by
  obtain ⟨top, htop⟩ := h.exists_lineAt
  have hne : s.first.line ≠ s.last.line := fun heq => h' (heq ▸ h)
  unfold excerpt
  rw [htop, lineAt_of_not_hasLine h']
  show (if s.first.line = s.last.line then _ else _) = _
  rw [if_neg hne]
  rfl

/-- Inside one line, the text between the two columns. -/
theorem excerpt_of_same_line {line : String} (h : s.first.line = s.last.line)
    (hline : lineAt lines s.first.line = .ok line) :
    s.excerpt lines = .ok (lineBetween line s.first.column.toNat s.last.column.toNat) := by
  unfold excerpt
  rw [hline]
  exact if_pos h

/-- Over several lines, the rest of the first, the lines between and the start of the last. -/
theorem excerpt_of_lines {top bottom : String} (hlines : lines.length < 2 ^ 32 - 1)
    (h : s.first.line ≠ s.last.line) (htop : lineAt lines s.first.line = .ok top)
    (hbottom : lineAt lines s.last.line = .ok bottom) :
    s.excerpt lines = .ok ("\n".intercalate (lineFrom top s.first.column.toNat ::
      (lines.take (s.last.line.toNat - 1)).drop s.first.line.toNat ++
        [lineBetween bottom 0 s.last.column.toNat])) := by
  have hfirst := hasLine_of_lineAt htop
  have hlast := hasLine_of_lineAt hbottom
  unfold excerpt
  rw [htop, hbottom, mapM_lineAt_linesBetween hlines hfirst hlast]
  exact if_neg h

theorem exists_excerpt (hlines : lines.length < 2 ^ 32 - 1) (hfirst : HasLine lines s.first.line)
    (hlast : HasLine lines s.last.line) : ∃ text, s.excerpt lines = .ok text := by
  obtain ⟨top, htop⟩ := hfirst.exists_lineAt
  obtain ⟨bottom, hbottom⟩ := hlast.exists_lineAt
  by_cases h : s.first.line = s.last.line
  · exact ⟨_, excerpt_of_same_line h htop⟩
  · exact ⟨_, excerpt_of_lines hlines h htop hbottom⟩

/-- **Only the ends of a span can be outside.** In a document of fewer than `2 ^ 32 - 1` lines and
for any two positions, in either order: there is no text under the span exactly if the document
lacks the first line or the last; then the failure names the first line if it is lacking, else the
last, and how many lines there are. Once the two ends are found, the other lookups are of lines
strictly between them, and none of these fails. -/
theorem excerpt_eq_error_iff_outside (lines : List String) (hlines : lines.length < 2 ^ 32 - 1)
    (s : Span) :
    ((∃ e, s.excerpt lines = .error e) ↔
        ¬ HasLine lines s.first.line ∨ ¬ HasLine lines s.last.line) ∧
      (∀ e, s.excerpt lines = .error e →
        e = .lineOutside (if HasLine lines s.first.line then s.last.line else s.first.line).toNat
          lines.length) ∧
      (HasLine lines s.first.line → HasLine lines s.last.line →
        ∀ n ∈ linesBetween s.first.line s.last.line,
          s.first.line < n ∧ n < s.last.line ∧ ∃ line, lineAt lines n = .ok line) := by
  by_cases hfirst : HasLine lines s.first.line
  · by_cases hlast : HasLine lines s.last.line
    · obtain ⟨text, htext⟩ := exists_excerpt hlines hfirst hlast
      refine ⟨?_, fun e he => ?_, fun _ _ n hn => ?_⟩
      · simp [htext, hfirst, hlast]
      · rw [htext] at he
        cases he
      · have hbound : s.first.line.toNat < 2 ^ 32 - 1 := Nat.lt_of_le_of_lt hfirst.2 hlines
        obtain ⟨habove, hbelow⟩ := between_of_mem_linesBetween hbound hn
        exact ⟨habove, hbelow, (hlast.of_between habove hbelow).exists_lineAt⟩
    · have herror := excerpt_of_last_outside hfirst hlast
      refine ⟨?_, fun e he => ?_, fun _ h => absurd h hlast⟩
      · simp [herror, hlast]
      · rw [herror] at he
        rw [if_pos hfirst]
        exact (Except.error.inj he).symm
  · have herror := excerpt_of_first_outside hfirst
    refine ⟨?_, fun e he => ?_, fun h => absurd h hfirst⟩
    · simp [herror, hfirst]
    · rw [herror] at he
      rw [if_neg hfirst]
      exact (Except.error.inj he).symm

/-- A reversed span whose first line is there and whose last line is the number zero. -/
theorem excerpt_reversed_to_zero :
    let lines := ["if (x) \x7b", "\x7d"]
    let s : Span := ⟨⟨2, 1⟩, ⟨0, 5⟩⟩
    lines.length < 2 ^ 32 - 1 ∧ HasLine lines s.first.line ∧ ¬ HasLine lines s.last.line ∧
      s.excerpt lines = .error (.lineOutside 0 2) := by
  intro lines s
  have hlines : lines.length < 2 ^ 32 - 1 := by decide
  have hlast : ¬ HasLine lines s.last.line := by decide
  obtain ⟨hfails, hnames, -⟩ := excerpt_eq_error_iff_outside lines hlines s
  obtain ⟨e, he⟩ := hfails.2 (.inr hlast)
  have hzero : e = .lineOutside 0 2 := (hnames e he).trans (by decide)
  exact ⟨hlines, by decide, hlast, hzero ▸ he⟩

end Span

end ChapterLint
