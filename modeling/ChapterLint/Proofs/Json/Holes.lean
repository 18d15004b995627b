import ChapterLint.Proofs.Json.Surroundings
import ChapterLint.Proofs.Json.Tokens

/-!
# Texts with a place for a number

A text with a place for a number stands for one document with a hole: whatever number is written
there, the rest is read alike.

1. `Json.plug` fills the hole of a document, which is where it is cut; likewise for the states of
   the machine. A step of the machine does not look into what it has read, so it commutes with
   filling the hole, unless the text stops being JSON with any filling (`Scan.tracks_step`).
2. A `Template` is a text with a place where a value is awaited, and `Template.document` is its
   document with a hole. If the text is a tree with one number, then for every number it is the text
   of the document with this number in its hole (`Template.run_text`).
-/

namespace ChapterLint

/-! ## Filling a hole -/

namespace Json

mutual

/-- Puts a document where the first one is cut. -/
def plug : Json → Json → Json
  | .array items, k => .array (plugItems items k)
  | .object members, k => .object (plugMembers members k)
  | .cut, k => k
  | .null, _ => .null
  | .bool b, _ => .bool b
  | .number n, _ => .number n
  | .string s, _ => .string s

/-- Puts a document where items are cut. -/
def plugItems : List Json → Json → List Json
  | [], _ => []
  | j :: js, k => plug j k :: plugItems js k

/-- Puts a document where members are cut. -/
def plugMembers : List (Option String × Json) → Json → List (Option String × Json)
  | [], _ => []
  | (key, j) :: ms, k => (key, plug j k) :: plugMembers ms k

end

theorem plugItems_eq_map (js : List Json) (k : Json) :
    plugItems js k = js.map fun j => j.plug k := by
  induction js with
  | nil => rfl
  | cons j js ih => rw [plugItems, List.map_cons, ih]

theorem plugMembers_eq_map (ms : List (Option String × Json)) (k : Json) :
    plugMembers ms k = ms.map fun m => (m.1, m.2.plug k) := by
  induction ms with
  | nil => rfl
  | cons m ms ih => rw [plugMembers, List.map_cons, ih]

theorem plug_array (items : List Json) (k : Json) :
    (Json.array items).plug k = .array (items.map fun j => j.plug k) := by
  rw [plug, plugItems_eq_map]

theorem plug_object (members : List (Option String × Json)) (k : Json) :
    (Json.object members).plug k = .object (members.map fun m => (m.1, m.2.plug k)) := by
  rw [plug, plugMembers_eq_map]

mutual

/-- What is not cut has no hole. -/
theorem plug_of_isWhole (k : Json) : ∀ {j : Json}, j.isWhole = true → j.plug k = j
  | .null, _ | .bool _, _ | .number _, _ | .string _, _ => by rw [plug]
  | .array items, h => by rw [plug, plugItems_of_areWhole k h]
  | .object members, h => by rw [plug, plugMembers_of_membersWhole k h]

theorem plugItems_of_areWhole (k : Json) : ∀ {js : List Json}, areWhole js = true →
    plugItems js k = js
  | [], _ => rfl
  | j :: js, h => by
    rw [areWhole, Bool.and_eq_true] at h
    rw [plugItems, plug_of_isWhole k h.1, plugItems_of_areWhole k h.2]

theorem plugMembers_of_membersWhole (k : Json) : ∀ {ms : List (Option String × Json)},
    membersWhole ms = true → plugMembers ms k = ms
  | [], _ => rfl
  | (key, j) :: ms, h => by
    rw [membersWhole, Bool.and_eq_true] at h
    rw [plugMembers, plug_of_isWhole k h.1, plugMembers_of_membersWhole k h.2]

end

end Json

/-- Fills the holes of an open array or object. -/
def Frame.plug (k : Json) : Frame → Frame
  | .array items => .array (items.map fun j => j.plug k)
  | .object members => .object (members.map fun m => (m.1, m.2.plug k))
  | .member members key => .member (members.map fun m => (m.1, m.2.plug k)) key

/-- Fills the holes of a value that is being read. -/
def Mode.plug (k : Json) : Mode → Mode
  | .word left j => .word left (j.plug k)
  | mode => mode

namespace Scan

/-- Fills the holes of what has been read. A text that is no JSON is left as it is. -/
def plug (k : Json) : Scan → Scan
  | .reading stack mode => .reading (stack.map (Frame.plug k)) (mode.plug k)
  | .complete j => .complete (j.plug k)
  | .trailing j => .trailing (j.plug k)
  | .broken j => .broken j

/-- The second state is the first one with its holes filled, or both are lost. -/
def Tracks (k : Json) (a b : Scan) : Prop := b = a.plug k ∨ a.Lost ∧ b.Lost

variable {k : Json}

theorem tracks_stop (stack stack' : List Frame) : Tracks k (stop stack) (stop stack') :=
  .inr ⟨lost_stop stack, lost_stop stack'⟩

theorem tracks_put (j : Json) (stack : List Frame) :
    Tracks k (put j stack) (put (j.plug k) (stack.map (Frame.plug k))) := by
  cases stack with
  | nil => exact .inl rfl
  | cons frame rest =>
    cases frame with
    | array items => exact .inl rfl
    | object members => exact tracks_stop _ _
    | member members key => exact .inl rfl

theorem tracks_putString (s : Option String) (stack : List Frame) :
    Tracks k (putString s stack) (putString s (stack.map (Frame.plug k))) := by
  cases stack with
  | nil => exact tracks_put (.string s) []
  | cons frame rest =>
    cases frame with
    | array items => exact tracks_put (.string s) (.array items :: rest)
    | object members => exact .inl rfl
    | member members key => exact tracks_put (.string s) (.member members key :: rest)

/-- How a value begins does not depend on what was read before. -/
theorem opening?_plug (stack : List Frame) (c : Char) :
    opening? (stack.map (Frame.plug k)) c = (opening? stack c).map (plug k) := by
  unfold opening?
  split_ifs
  · rfl
  · rfl
  · rfl
  · rfl
  · rfl
  · rfl
  · rfl
  · split <;> rfl

theorem tracks_closing? (c : Char) (stack : List Frame) :
    Tracks k ((closing? c stack).getD (stop stack))
      ((closing? c (stack.map (Frame.plug k))).getD (stop (stack.map (Frame.plug k)))) := by
  cases stack with
  | nil => exact tracks_stop _ _
  | cons frame rest =>
    cases frame with
    | array items =>
      by_cases hc : c = ']'
      · have hput := tracks_put (k := k) (.array items.reverse) rest
        rw [Json.plug_array, List.map_reverse] at hput
        simpa [closing?, Frame.plug, hc] using hput
      · simpa [closing?, Frame.plug, hc] using tracks_stop _ _
    | object members =>
      by_cases hc : c = '}'
      · have hput := tracks_put (k := k) (.object members.reverse) rest
        rw [Json.plug_object, List.map_reverse] at hput
        simpa [closing?, Frame.plug, hc] using hput
      · simpa [closing?, Frame.plug, hc] using tracks_stop _ _
    | member members key => exact tracks_stop _ _

theorem tracks_afterValue (scan : Scan) (c : Char) :
    Tracks k (scan.afterValue c) ((scan.plug k).afterValue c) := by
  cases scan with
  | reading stack mode =>
    cases mode with
    | next =>
      show Tracks k (afterValue (.reading stack .next) c)
        (afterValue (.reading (stack.map (Frame.plug k)) .next) c)
      unfold afterValue
      dsimp only
      split_ifs
      · exact .inl rfl
      · cases stack with
        | nil => exact tracks_stop _ _
        | cons frame rest =>
          cases frame with
          | array items => exact .inl rfl
          | object members => exact .inl rfl
          | member members key => exact tracks_stop _ _
      · exact tracks_closing? c stack
    | _ => exact .inl rfl
  | complete j =>
    show Tracks k (afterValue (.complete j) c) (afterValue (.complete (j.plug k)) c)
    unfold afterValue
    dsimp only
    split_ifs
    · exact .inl rfl
    · exact .inl rfl
  | trailing j => exact .inl rfl
  | broken j => exact .inl rfl

/-- What tracks a state does so behind a value that has been put. -/
theorem tracks_afterValue_of_tracks {a b : Scan} (h : Tracks k a b) (c : Char) :
    Tracks k (a.afterValue c) (b.afterValue c) := by
  have hlost : ∀ {scan : Scan}, scan.Lost → scan.afterValue c = scan := by
    intro scan hscan
    cases scan with
    | reading stack mode => exact hscan.elim
    | complete j => exact hscan.elim
    | trailing j => rfl
    | broken j => rfl
  rcases h with rfl | ⟨ha, hb⟩
  · exact tracks_afterValue a c
  · rw [hlost ha, hlost hb]
    exact .inr ⟨ha, hb⟩

/-- **A step does not look into what has been read.** -/
theorem tracks_step (scan : Scan) (c : Char) :
    Tracks k (scan.step c) ((scan.plug k).step c) := by
  cases scan with
  | complete j => exact tracks_afterValue (.complete j) c
  | trailing j => exact .inl rfl
  | broken j => exact .inl rfl
  | reading stack mode =>
    show Tracks k _ ((Scan.reading (stack.map (Frame.plug k)) (mode.plug k)).step c)
    cases mode with
    | value =>
      unfold step Mode.plug
      dsimp only
      rw [opening?_plug]
      split_ifs
      · exact .inl rfl
      · cases opening? stack c with
        | none => exact tracks_stop _ _
        | some scan => exact .inl rfl
    | firstValue =>
      unfold step Mode.plug
      dsimp only
      rw [opening?_plug]
      split_ifs
      · exact .inl rfl
      · cases opening? stack c with
        | none => exact tracks_closing? c stack
        | some scan => exact .inl rfl
    | key =>
      unfold step Mode.plug
      dsimp only
      split_ifs
      · exact .inl rfl
      · exact .inl rfl
      · exact tracks_stop _ _
    | firstKey =>
      unfold step Mode.plug
      dsimp only
      split_ifs
      · exact .inl rfl
      · exact .inl rfl
      · exact tracks_closing? c stack
    | colon =>
      unfold step Mode.plug
      dsimp only
      split_ifs
      · exact .inl rfl
      · exact .inl rfl
      · exact tracks_stop _ _
    | next => exact tracks_afterValue (.reading stack .next) c
    | word left j =>
      cases left with
      | nil => exact tracks_stop _ _
      | cons l left =>
        unfold step Mode.plug
        dsimp only
        split_ifs
        · exact tracks_put j stack
        · exact .inl rfl
        · exact tracks_stop _ _
    | numeral state =>
      unfold step Mode.plug
      dsimp only
      rcases state.step c with state | n | _
      · exact .inl rfl
      · have hput := tracks_put (k := k) (.number n) stack
        rw [Json.plug] at hput
        exact tracks_afterValue_of_tracks hput c
      · exact tracks_stop _ _
    | string state =>
      unfold step Mode.plug
      dsimp only
      rcases state.step c with state | s | _
      · exact .inl rfl
      · exact tracks_putString s stack
      · exact tracks_stop _ _

theorem tracks_run (scan : Scan) (cs : List Char) :
    Tracks k (scan.run cs) ((scan.plug k).run cs) := by
  induction cs generalizing scan with
  | nil => exact .inl rfl
  | cons c cs ih =>
    rw [run_cons, run_cons]
    rcases tracks_step (k := k) scan c with hstep | ⟨hlost, hlost'⟩
    · rw [hstep]
      exact ih (scan.step c)
    · rw [hlost.run, hlost'.run]
      exact .inr ⟨hlost, hlost'⟩

/-- The machine comes by itself to no holes. -/
theorem map_plug_eq_self {cs : List Char} {stack : List Frame} {mode : Mode}
    (h : start.run cs = .reading stack mode) (k : Json) : stack.map (Frame.plug k) = stack := by
  have hstart : start.plug k = start := rfl
  have htracks := tracks_run (k := k) start cs
  rw [hstart, h] at htracks
  rcases htracks with hplug | ⟨hlost, -⟩
  · exact (Scan.reading.inj hplug).1.symm
  · exact hlost.elim

end Scan

/-! ## Templates -/

/-- A text with a place for a number: a value is awaited there inside of the open frames, and what
follows may follow a value. -/
structure Template where
  before : List Char
  after : List Char
  stack : List Frame
  awaits : Scan.AwaitsValue stack (Scan.start.run before)
  ends : ∀ c ∈ after.head?, isDelimiter c = true

namespace Template

/-- The text with a number in its place. -/
def text (T : Template) (x : NumberToken) : String :=
  String.ofList (T.before ++ (x.text ++ T.after))

/-- The document of the text, with a hole in the place of the number. -/
def document (T : Template) : Json := ((Scan.put .cut T.stack).run T.after).finish.document

/-- A hole that is put into its frame is filled there. -/
theorem put_plug (T : Template) (k : Json) :
    (Scan.put .cut T.stack).plug k = Scan.put k T.stack := by
  have hcut : Json.cut.plug k = k := by rw [Json.plug]
  have hstack : T.stack.map (Frame.plug k) = T.stack := by
    rcases T.awaits.mode with hmode | hmode <;> exact Scan.map_plug_eq_self hmode k
  have hframe := T.awaits.frame
  generalize T.stack = stack at hstack hframe
  cases stack with
  | nil => rw [Scan.put, Scan.plug, hcut, Scan.put]
  | cons frame rest =>
    rw [List.map_cons, List.cons.injEq] at hstack
    obtain ⟨hfirst, hrest⟩ := hstack
    cases frame with
    | object members => exact absurd rfl (hframe members rest)
    | array items =>
      have hitems := Frame.array.inj hfirst
      rw [Scan.put, Scan.plug, Scan.put, List.map_cons, Frame.plug, List.map_cons, hcut, hitems,
        hrest]
      rfl
    | member members key =>
      have hmembers := (Frame.member.inj hfirst).1
      rw [Scan.put, Scan.plug, Scan.put, List.map_cons, Frame.plug, List.map_cons, hcut, hmembers,
        hrest]
      rfl

/-- Where something follows the number, it is as if its document had been put. -/
theorem run_text_eq (T : Template) (hafter : T.after ≠ []) (x : NumberToken) :
    Scan.start.run (T.text x).toList = (Scan.put (.number x.numeral) T.stack).run T.after := by
  obtain ⟨state, hstate, hrun⟩ := x.exists_run T.awaits
  rw [text, String.toList_ofList, Scan.run_append, Scan.run_append, hrun]
  have hends := T.ends
  generalize T.after = after at hafter hends
  cases after with
  | nil => exact absurd rfl hafter
  | cons c after =>
    have hover := NumeralState.step_of_delimiter hstate (hends c rfl)
    rw [Scan.run_cons, Scan.run_cons, Scan.step_put, Scan.step, hover]

/-- **The place of a number is a hole.** If the text is a tree with some number in its place, then
with every number it is read up to its end as the document with this number in the hole. -/
theorem run_text {T : Template} {x : NumberToken} {t : Node} (h : Node.parse (T.text x) = .ok t)
    (y : NumberToken) :
    Scan.start.run (T.text y).toList = .complete (T.document.plug (.number y.numeral)) := by
  obtain ⟨d, hd, -⟩ := Node.exists_complete_of_parse h
  have hafter : T.after ≠ [] := by
    intro hnil
    obtain ⟨state, -, hrun⟩ := x.exists_run T.awaits
    rw [text, String.toList_ofList, hnil, List.append_nil, Scan.run_append, hrun] at hd
    cases hd
  have htracks := Scan.tracks_run (k := .number x.numeral) (Scan.put .cut T.stack) T.after
  rw [put_plug, ← run_text_eq T hafter, hd] at htracks
  -- with the first number the text is read as a whole, so it is with a hole
  have hhole : (Scan.put .cut T.stack).run T.after = .complete T.document := by
    unfold document
    rcases htracks with hplug | ⟨-, hlost⟩
    · cases hscan : (Scan.put .cut T.stack).run T.after with
      | complete j => rfl
      | reading stack mode | trailing j | broken j =>
        rw [hscan] at hplug
        cases hplug
    · exact hlost.elim
  have htracks' := Scan.tracks_run (k := .number y.numeral) (Scan.put .cut T.stack) T.after
  rw [put_plug, ← run_text_eq T hafter, hhole] at htracks'
  rcases htracks' with hplug | ⟨hlost, -⟩
  · exact hplug
  · exact hlost.elim

/-- What a text with a number in its place is read as. -/
theorem ofText_text {T : Template} {x : NumberToken} {t : Node} (h : Node.parse (T.text x) = .ok t)
    (y : NumberToken) :
    Json.ofText (T.text y) = ⟨T.document.plug (.number y.numeral), false⟩ := by
  rw [Json.ofText, run_text h y]
  rfl

end Template

end ChapterLint
