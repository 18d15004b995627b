import ChapterLint.Proofs.Span.Lookup
import ChapterLint.Proofs.Tree.Nesting

/-!
# The text under a span is a slice

Positions count lines and columns. `Position.offset` counts the characters of the document before a
position instead, and the text under a span is then one slice of the document, whether the span
stays in a line or runs over several.

A document cut off at a position is a document again (`take_offset_joined`): its last line is the
start of the one that was cut. What is left of a document behind a position starts with the rest of
a line (`drop_offset_joined`). The slice under a span is what is left behind its first position of
the document cut off at its last, and a cut behind a position does not move it (`offset_cut`).
-/

namespace ChapterLint

/-! ## Documents and their lines -/

/-- The text of a document: its lines, with line feeds between them. -/
def joined (lines : List String) : List Char := ['\n'].intercalate (lines.map String.toList)

/-- The text of lines that are all followed by others. -/
def ended (lines : List String) : List Char := lines.flatMap fun line => line.toList ++ ['\n']

theorem joined_singleton (line : String) : joined [line] = line.toList := List.intercalate_singleton

theorem ofList_joined (lines : List String) :
    String.ofList (joined lines) = "\n".intercalate lines := by
  have htext : ("\n".intercalate lines).toList = joined lines := String.toList_intercalate
  rw [← htext, String.ofList_toList]

/-- A text is that of its lines. -/
theorem joined_splitOn (text : List Char) :
    joined ((text.splitOn '\n').map String.ofList) = text := by
  have hid : String.toList ∘ String.ofList = id := funext fun l => String.toList_ofList
  unfold joined
  rw [List.map_map, hid, List.map_id, List.intercalate_splitOn]

theorem joined_append_cons (front : List String) (line : String) (back : List String) :
    joined (front ++ line :: back) = ended front ++ joined (line :: back) := by
  unfold joined ended
  induction front with
  | nil => rfl
  | cons l front ih =>
    have hne : (front ++ line :: back).map String.toList ≠ [] := by simp
    rw [List.cons_append, List.map_cons, List.intercalate_cons_of_ne_nil hne, ih, List.flatMap_cons,
      ← List.append_assoc]

/-- The start of the first line is the start of the text. -/
theorem joined_cons_split (line : String) (c : Nat) (back : List String) :
    joined (line :: back) = line.toList.take c ++ joined (lineFrom line c :: back) := by
  have hline : line.toList.take c ++ (lineFrom line c).toList = line.toList := by
    unfold lineFrom
    rw [String.toList_ofList, List.take_append_drop]
  cases back with
  | nil => rw [joined_singleton, joined_singleton, hline]
  | cons l back =>
    unfold joined
    simp only [List.map_cons, List.intercalate_cons_cons]
    rw [← List.append_assoc, ← List.append_assoc, hline]

theorem toList_lineBetween_zero (line : String) (c : Nat) :
    (lineBetween line 0 c).toList = line.toList.take c := by
  unfold lineBetween
  rw [String.toList_ofList, List.drop_zero, Nat.sub_zero]

theorem lineFrom_lineBetween_zero (line : String) (start stop : Nat) :
    lineFrom (lineBetween line 0 stop) start = lineBetween line start stop := by
  unfold lineFrom
  rw [toList_lineBetween_zero, List.drop_take]
  rfl

/-! ## Positions in a document -/

namespace Position

/-- The line of a position. -/
def lineIn (lines : List String) (p : Position) : String := lines[p.line.toNat - 1]?.getD ""

/-- How many characters of a document stand before a position: the lines before its line, each with
a line feed, and of its line as many characters as its column says, if there are as many. -/
def offset (lines : List String) (p : Position) : Nat :=
  ((lines.take (p.line.toNat - 1)).map fun line => line.length + 1).sum +
    min p.column.toNat (p.lineIn lines).length

/-- The lines of a document up to a position. -/
def cut (lines : List String) (p : Position) : List String :=
  lines.take (p.line.toNat - 1) ++ [lineBetween (p.lineIn lines) 0 p.column.toNat]

variable {lines : List String} {p q : Position}

theorem lineAt_eq_lineIn (h : HasLine lines p.line) :
    lineAt lines p.line = .ok (p.lineIn lines) := by
  obtain ⟨line, hline⟩ := h.exists_getElem?
  unfold lineIn
  rw [hline]
  exact lineAt_eq_ok_iff.2 ⟨h.1, hline⟩

theorem lineIn_congr (h : p.line = q.line) : p.lineIn lines = q.lineIn lines := by
  unfold lineIn
  rw [h]

theorem take_lineIn_drop (h : HasLine lines p.line) :
    lines.take (p.line.toNat - 1) ++ p.lineIn lines :: lines.drop p.line.toNat = lines := by
  obtain ⟨hpos, hle⟩ := h
  have hlt : p.line.toNat - 1 < lines.length := by omega
  have hline : p.lineIn lines = lines[p.line.toNat - 1] := by
    unfold lineIn
    rw [List.getElem?_eq_getElem hlt, Option.getD_some]
  have hdrop := List.drop_eq_getElem_cons hlt
  rw [Nat.sub_add_cancel hpos] at hdrop
  rw [hline, ← hdrop, List.take_append_drop]

theorem offset_eq_length (lines : List String) (p : Position) :
    p.offset lines = (ended (lines.take (p.line.toNat - 1)) ++
      (p.lineIn lines).toList.take p.column.toNat).length := by
  unfold offset ended
  rw [List.length_append, List.length_flatMap, List.length_take]
  simp only [List.length_append, List.length_singleton, String.length_toList]

/-- The text of a document before and behind a position. -/
theorem joined_eq_append (h : HasLine lines p.line) :
    joined lines = (ended (lines.take (p.line.toNat - 1)) ++
        (p.lineIn lines).toList.take p.column.toNat) ++
      joined (lineFrom (p.lineIn lines) p.column.toNat :: lines.drop p.line.toNat) := by
  conv_lhs => rw [← take_lineIn_drop h]
  rw [joined_append_cons, joined_cons_split _ p.column.toNat, List.append_assoc]

/-- The text up to a position is that of a document. -/
theorem take_offset_joined (h : HasLine lines p.line) :
    (joined lines).take (p.offset lines) = joined (p.cut lines) := by
  unfold cut
  rw [joined_eq_append h, offset_eq_length, List.take_left, joined_append_cons, joined_singleton,
    toList_lineBetween_zero]

/-- The text behind a position starts with the rest of its line. -/
theorem drop_offset_joined (h : HasLine lines p.line) :
    (joined lines).drop (p.offset lines) =
      joined (lineFrom (p.lineIn lines) p.column.toNat :: lines.drop p.line.toNat) := by
  rw [joined_eq_append h, offset_eq_length, List.drop_left]

theorem offset_le_length_joined (h : HasLine lines p.line) :
    p.offset lines ≤ (joined lines).length := by
  rw [joined_eq_append h, List.length_append, ← offset_eq_length]
  exact Nat.le_add_right _ _

/-! ## Cutting behind a position -/

theorem length_take_pred (h : HasLine lines q.line) :
    (lines.take (q.line.toNat - 1)).length = q.line.toNat - 1 := by
  obtain ⟨-, hle⟩ := h
  rw [List.length_take]
  omega

theorem line_le_of_le (h : p ≤ q) : p.line.toNat ≤ q.line.toNat := by
  rcases h with hline | ⟨hline, -⟩
  · exact Nat.le_of_lt hline
  · rw [hline]

theorem hasLine_cut (hp : HasLine lines p.line) (hq : HasLine lines q.line) (h : p ≤ q) :
    HasLine (q.cut lines) p.line := by
  have hle := line_le_of_le h
  have hpos := hp.1
  refine ⟨hpos, ?_⟩
  unfold Position.cut
  rw [List.length_append, length_take_pred hq, List.length_singleton]
  omega

theorem lineIn_cut_of_lt (hp : HasLine lines p.line) (hq : HasLine lines q.line)
    (h : p.line < q.line) : p.lineIn (q.cut lines) = p.lineIn lines := by
  have hlt : p.line.toNat - 1 < q.line.toNat - 1 := by
    have hpos := hp.1
    have hnat : p.line.toNat < q.line.toNat := h
    omega
  unfold lineIn cut
  rw [List.getElem?_append_left (by rwa [length_take_pred hq]), List.getElem?_take_of_lt hlt]

theorem lineIn_cut_of_eq (hq : HasLine lines q.line) (h : p.line = q.line) :
    p.lineIn (q.cut lines) = lineBetween (q.lineIn lines) 0 q.column.toNat := by
  have hlength := length_take_pred hq
  unfold cut
  rw [lineIn, h, List.getElem?_append_right (Nat.le_of_eq hlength), hlength, Nat.sub_self]
  rfl

/-- Behind an earlier line, a cut leaves the lines up to it and the start of the line it cuts. -/
theorem drop_cut_of_lt (hq : HasLine lines q.line) (h : p.line < q.line) :
    (q.cut lines).drop p.line.toNat = (lines.take (q.line.toNat - 1)).drop p.line.toNat ++
      [lineBetween (q.lineIn lines) 0 q.column.toNat] := by
  have hlt : p.line.toNat < q.line.toNat := h
  unfold cut
  rw [List.drop_append_of_le_length (by rw [length_take_pred hq]; omega)]

/-- Behind the line it cuts, a cut leaves nothing. -/
theorem drop_cut_of_eq (hq : HasLine lines q.line) (h : p.line = q.line) :
    (q.cut lines).drop p.line.toNat = [] := by
  have hpos : 1 ≤ q.line.toNat := hq.1
  unfold cut
  rw [List.drop_eq_nil_iff, List.length_append, length_take_pred hq, h, List.length_singleton]
  omega

/-- A cut behind a position does not move it. -/
theorem offset_cut (hp : HasLine lines p.line) (hq : HasLine lines q.line) (h : p ≤ q) :
    p.offset (q.cut lines) = p.offset lines := by
  have hle := line_le_of_le h
  have hbefore : (q.cut lines).take (p.line.toNat - 1) = lines.take (p.line.toNat - 1) := by
    unfold cut
    rw [List.take_append_of_le_length (by rw [length_take_pred hq]; omega), List.take_take,
      Nat.min_eq_left (by omega)]
  unfold offset
  rw [hbefore]
  rcases h with hline | ⟨hline, hcolumn⟩
  · rw [lineIn_cut_of_lt hp hq hline]
  · have hc : p.column.toNat ≤ q.column.toNat := hcolumn
    rw [lineIn_cut_of_eq hq hline, lineIn_congr hline, ← String.length_toList,
      toList_lineBetween_zero, List.length_take, String.length_toList]
    omega

theorem offset_le_offset (hp : HasLine lines p.line) (hq : HasLine lines q.line) (h : p ≤ q) :
    p.offset lines ≤ q.offset lines := by
  have hcut := offset_le_length_joined (hasLine_cut hp hq h)
  rw [offset_cut hp hq h, ← take_offset_joined hq, List.length_take] at hcut
  exact hcut.trans (Nat.min_le_left _ _)

end Position

/-! ## The slice under a span -/

namespace Span

variable {lines : List String} {s : Span}

/-- The slice of a document between two positions: the rest of the first line of the document cut
off at the last position, and the lines after it. -/
theorem slice_joined (hfirst : HasLine lines s.first.line) (hlast : HasLine lines s.last.line)
    (hle : s.first ≤ s.last) :
    ((joined lines).take (s.last.offset lines)).drop (s.first.offset lines) =
      joined (lineFrom (s.first.lineIn (s.last.cut lines)) s.first.column.toNat ::
        (s.last.cut lines).drop s.first.line.toNat) := by
  rw [Position.take_offset_joined hlast, ← Position.offset_cut hfirst hlast hle]
  exact Position.drop_offset_joined (Position.hasLine_cut hfirst hlast hle)

theorem excerpt_eq_slice_joined (hlines : lines.length < 2 ^ 32 - 1)
    (hfirst : HasLine lines s.first.line) (hlast : HasLine lines s.last.line)
    (hle : s.first ≤ s.last) :
    s.excerpt lines = .ok (String.ofList
      (((joined lines).take (s.last.offset lines)).drop (s.first.offset lines))) := by
  rw [slice_joined hfirst hlast hle]
  have htop := Position.lineAt_eq_lineIn hfirst
  have hbottom := Position.lineAt_eq_lineIn hlast
  rcases hle with hline | ⟨hline, -⟩
  · have hne : s.first.line ≠ s.last.line := UInt32.ne_of_lt hline
    rw [excerpt_of_lines hlines hne htop hbottom, Position.lineIn_cut_of_lt hfirst hlast hline,
      Position.drop_cut_of_lt hlast hline, ofList_joined, List.cons_append]
  · rw [excerpt_of_same_line hline htop, Position.lineIn_cut_of_eq hlast hline,
      Position.drop_cut_of_eq hlast hline, lineFrom_lineBetween_zero, joined_singleton,
      String.ofList_toList, Position.lineIn_congr hline]

/-- **The text under a span is a slice.** Let a document have fewer than `2 ^ 32 - 1` lines, and let
a span have its two ends, in their order, on lines of the document. Then the offsets of the ends are
in the same order and inside the document, and the text under the span is that of the document from
the one to the other. -/
theorem excerpt_eq_slice (doc : String) (s : Span) :
    let lines := (doc.toList.splitOn '\n').map String.ofList
    lines.length < 2 ^ 32 - 1 → HasLine lines s.first.line → HasLine lines s.last.line →
      s.first ≤ s.last →
      s.first.offset lines ≤ s.last.offset lines ∧ s.last.offset lines ≤ doc.length ∧
        s.excerpt lines = .ok (String.ofList
          ((doc.toList.take (s.last.offset lines)).drop (s.first.offset lines))) := by
  intro lines hlines hfirst hlast hle
  have hdoc : joined lines = doc.toList := joined_splitOn doc.toList
  refine ⟨Position.offset_le_offset hfirst hlast hle, ?_, ?_⟩
  · rw [← String.length_toList, ← hdoc]
    exact Position.offset_le_length_joined hlast
  · rw [excerpt_eq_slice_joined hlines hfirst hlast hle, hdoc]

/-- A span over two lines, from behind a character of two bytes to a column past the end. -/
theorem excerpt_eq_slice_pastEnd :
    let doc := "é = [1,\n 2];\nf(é);"
    let s : Span := ⟨⟨1, 4⟩, ⟨2, 99⟩⟩
    let lines := (doc.toList.splitOn '\n').map String.ofList
    (lines.length < 2 ^ 32 - 1 ∧ HasLine lines s.first.line ∧ HasLine lines s.last.line ∧
        s.first ≤ s.last) ∧
      s.first.offset lines = 4 ∧ s.last.offset lines = 12 ∧
      s.excerpt lines = .ok "[1,\n 2];" := by
  intro doc s lines
  have hlines : lines.length < 2 ^ 32 - 1 := by decide
  have hfirst : HasLine lines s.first.line := by decide
  have hlast : HasLine lines s.last.line := by decide
  have hle : s.first ≤ s.last := by decide
  obtain ⟨-, -, hslice⟩ := excerpt_eq_slice doc s hlines hfirst hlast hle
  exact ⟨⟨hlines, hfirst, hlast, hle⟩, by decide, by decide, hslice.trans (by decide)⟩

end Span

end ChapterLint
