import ChapterLint.Proofs.Json.Zero

/-!
# What stands around a document

A text that is read as a tree says itself where its document ends: the machine has closed the array
or object that is the root, whatever comes next. So blanks around the text change nothing, and
anything else behind it is refused.

1. Only a numeral could go on beyond the end of a text. Any other sound document leaves the machine
   in the state `complete` (`Scan.eq_complete_of_finish`).
2. A machine that awaits its first value, or is complete, passes over blanks (`Scan.run_blanks`);
   at any other character the complete one is lost for good (`Scan.run_complete_of_not_blank`).
-/

namespace ChapterLint

namespace Scan

/-! ## The end of a document -/

/-- What is open at the end of a text is no sound document, unless it is a numeral. -/
theorem number_of_isSound_finish {stack : List Frame} {mode : Mode}
    (h : (Scan.reading stack mode).finish.document.isSound = true) :
    ∃ n, (Scan.reading stack mode).finish.document = .number n := by
  have hopen : ∀ frames : List Frame, (frames.foldl Frame.fill .cut).isSound = false := lost_stop
  cases mode with
  | numeral state =>
    cases hstate : state.numeral? with
    | none => exact absurd h (by simp [finish, endNumeral, hstate, stop, hopen])
    | some n =>
      cases stack with
      | nil => exact ⟨n, by simp [finish, endNumeral, hstate, put]⟩
      | cons frame rest =>
        -- the numeral goes into a frame that stays open
        cases frame <;>
          simp only [finish, endNumeral, hstate, put, stop, hopen, Bool.false_eq_true] at h
  | _ => exact absurd h (by simp [finish, endNumeral, hopen])

/-- A sound document that is no numeral has been closed by its own text. -/
theorem eq_complete_of_finish {scan : Scan} {j : Json} (hscan : scan.Regular)
    (h : scan.finish = ⟨j, false⟩) (hsound : j.isSound = true) (hnumber : ∀ n, j ≠ .number n) :
    scan = .complete j := by
  have hdocument : scan.finish.document = j := by rw [h]
  cases scan with
  | reading stack mode =>
    obtain ⟨n, hn⟩ := number_of_isSound_finish (hdocument ▸ hsound)
    exact absurd (hdocument.symm.trans hn) (hnumber n)
  | complete k => exact congrArg Scan.complete hdocument
  | trailing k => exact absurd (congrArg Reading.trailing h) (show true ≠ false by decide)
  | broken k =>
    have hbroken : k.isSound = false := hscan
    rw [← hdocument] at hsound
    exact absurd hsound (Bool.eq_false_iff.1 hbroken)

/-! ## Blanks -/

/-- Nothing has been read, or a whole document. -/
inductive AtRest : Scan → Prop
  | start : AtRest start
  | complete (j : Json) : AtRest (.complete j)

theorem AtRest.step_blank {scan : Scan} (h : scan.AtRest) {c : Char} (hc : isJsonBlank c = true) :
    scan.step c = scan := by
  cases h with
  | start => exact if_pos hc
  | complete j => exact if_pos hc

theorem run_blanks {scan : Scan} (h : scan.AtRest) {cs : List Char}
    (hcs : ∀ c ∈ cs, isJsonBlank c = true) : scan.run cs = scan := by
  induction cs with
  | nil => rfl
  | cons c cs ih =>
    obtain ⟨hc, hrest⟩ := List.forall_mem_cons.1 hcs
    rw [run_cons, h.step_blank hc, ih hrest]

/-- Behind a document, the first character that is no blank decides. -/
theorem run_complete_of_not_blank (j : Json) {cs : List Char} {c : Char} (hmem : c ∈ cs)
    (hc : isJsonBlank c = false) : (Scan.complete j).run cs = .trailing j := by
  induction cs with
  | nil => cases hmem
  | cons d cs ih =>
    rw [run_cons]
    cases hd : isJsonBlank d with
    | true =>
      have hne : c ≠ d := fun he => absurd (he ▸ hc) (by simp [hd])
      rw [(AtRest.complete j).step_blank hd]
      exact ih ((List.mem_cons.1 hmem).resolve_left hne)
    | false =>
      have htrailing : (Scan.complete j).step d = .trailing j := if_neg (by simp [hd])
      have hlost : (Scan.trailing j).Lost := trivial
      rw [htrailing, hlost.run]

end Scan

/-! ## Texts of trees -/

namespace Node

/-- The text of a tree ends with its document. -/
theorem exists_complete_of_parse {s : String} {t : Node} (h : parse s = .ok t) :
    ∃ d, Scan.start.run s.toList = .complete d ∧ readRoot d = .ok t := by
  obtain ⟨htrailing, hroot⟩ := parse_eq_ok_iff.1 h
  obtain ⟨htag, hsound, -⟩ := readRoot_eq_ok_iff.1 hroot
  have hstart : Scan.start.Regular := trivial
  have hregular : (Scan.start.run s.toList).Regular := Scan.regular_run hstart _
  have hfinish : (Scan.start.run s.toList).finish = ⟨(Json.ofText s).document, false⟩ := by
    rw [← htrailing]
    rfl
  have hnumber : ∀ n, (Json.ofText s).document ≠ .number n := by
    intro n hn
    rw [hn] at htag
    exact htag
  exact ⟨_, Scan.eq_complete_of_finish hregular hfinish hsound hnumber, hroot⟩

/-- **A text says where its document ends.** Let a text be read as a tree. With spaces, tabs,
carriage returns and line feeds behind it or before it, it is read as the same tree. With anything
else behind it, it is no JSON. -/
theorem parse_append {s : String} {t : Node} (h : parse s = .ok t) (u : String) :
    ((∀ c ∈ u.toList, c ∈ [' ', '\t', '\r', '\n']) →
        parse (s ++ u) = .ok t ∧ parse (u ++ s) = .ok t) ∧
      ((∃ c ∈ u.toList, c ∉ [' ', '\t', '\r', '\n']) →
        parse (s ++ u) = .error (.malformedTree "")) := by
  have hblank : ∀ c, c ∈ [' ', '\t', '\r', '\n'] ↔ isJsonBlank c = true := by
    intro c
    simp only [isJsonBlank, List.mem_cons, List.not_mem_nil, or_false, Bool.or_eq_true,
      decide_eq_true_iff]
    tauto
  obtain ⟨d, hd, hroot⟩ := exists_complete_of_parse h
  have hbehind : Json.ofText (s ++ u) = ((Scan.complete d).run u.toList).finish := by
    rw [Json.ofText, String.toList_append, Scan.run_append, hd]
  refine ⟨fun hu => ?_, fun hu => ?_⟩
  · have hu : ∀ c ∈ u.toList, isJsonBlank c = true := fun c hc => (hblank c).1 (hu c hc)
    have hbefore : Json.ofText (u ++ s) = Json.ofText s := by
      rw [Json.ofText, Json.ofText, String.toList_append, Scan.run_append,
        Scan.run_blanks .start hu]
    rw [parse_eq_ok_iff, hbehind, Scan.run_blanks (.complete d) hu]
    refine ⟨⟨rfl, hroot⟩, ?_⟩
    rw [parse_eq_ok_iff, hbefore]
    exact parse_eq_ok_iff.1 h
  · obtain ⟨c, hc, hother⟩ := hu
    have hother : isJsonBlank c = false := Bool.eq_false_iff.2 fun hc => hother ((hblank c).2 hc)
    have htrailing : Json.ofText (s ++ u) = ⟨d, true⟩ := by
      rw [hbehind, Scan.run_complete_of_not_blank d hc hother]
      rfl
    rw [parse, ofText, readText, htrailing, hroot]
    rfl

/-- A statement between blanks, and with a letter behind a blank. -/
theorem parse_append_break :
    let document : Json :=
      .array [.text "BreakStatement",
        .array [.array [.natural 1, .natural 0], .array [.natural 1, .natural 6]]]
    let tree : Node := .breakStatement ⟨⟨1, 0⟩, ⟨1, 6⟩⟩
    parse document.toText = .ok tree ∧
      parse (document.toText ++ " \t\r\n") = .ok tree ∧
      parse (" \t\r\n" ++ document.toText) = .ok tree ∧
      parse (document.toText ++ "\n x") = .error (.malformedTree "") := by
  intro document tree
  have hparse : parse document.toText = .ok tree := by
    rw [parse_eq_ok_iff, Json.ofText_toText rfl]
    exact ⟨rfl, rfl⟩
  obtain ⟨hbehind, hbefore⟩ := (parse_append hparse " \t\r\n").1 fun _ hc => hc
  exact ⟨hparse, hbehind, hbefore, (parse_append hparse "\n x").2 ⟨'x', by decide +kernel⟩⟩

end Node

end ChapterLint
