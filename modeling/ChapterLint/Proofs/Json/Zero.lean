import ChapterLint.Proofs.Json.RoundTrip
import ChapterLint.Proofs.Tree.Objects

/-!
# Zero characters

Where a host keeps texts, a zero character ends them. Nothing that is written holds one, since every
control character of a string is escaped (`Json.zero_notMem_render`). And nothing that is read as
a tree holds one: there is no place in JSON where it may stand, and once the scanner is past a text
that is JSON, no further character helps (`Node.zero_notMem_of_parse`).
-/

namespace ChapterLint

/-! ## What is written -/

namespace Json

theorem digitChar_ne_zero (n : Nat) : Nat.digitChar n ≠ '\x00' := by
  have hall : ∀ n < 16, Nat.digitChar n ≠ '\x00' := by decide
  rcases Nat.lt_or_ge n 16 with hlt | hge
  · exact hall n hlt
  · have hstar : Nat.digitChar n = '*' := by
      unfold Nat.digitChar
      simp (disch := omega) only [if_neg]
    rw [hstar]
    decide

theorem zero_notMem_toDigits {b : Nat} (hb : 1 < b) (n : Nat) : '\x00' ∉ Nat.toDigits b n := by
  induction n using Nat.strongRecOn with
  | ind n ih =>
    have hdigit : ∀ d, '\x00' ∉ [Nat.digitChar d] := by simp [(digitChar_ne_zero _).symm]
    by_cases hlt : n < b
    · rw [Nat.toDigits_of_lt_base hlt]
      exact hdigit n
    · have hle : b ≤ n := Nat.le_of_not_lt hlt
      rw [Nat.toDigits_of_base_le hb hle, List.mem_append, not_or]
      exact ⟨ih _ (Nat.div_lt_self (by omega) hb), hdigit _⟩

theorem zero_notMem_renderChar (c : Char) : '\x00' ∉ renderChar c := by
  unfold renderChar
  split_ifs with hquote hback hb ht hn hf hr hcontrol
  · decide
  · decide
  · decide
  · decide
  · decide
  · decide
  · decide
  · simp [(digitChar_ne_zero _).symm]
  · intro h
    rw [← List.mem_singleton.1 h] at hcontrol
    exact hcontrol (by decide)

theorem zero_notMem_renderString (s : Option String) : '\x00' ∉ renderString s := by
  cases s with
  | none => decide +kernel
  | some s =>
    have hchars : '\x00' ∉ s.toList.flatMap renderChar := by
      rw [List.mem_flatMap]
      rintro ⟨c, -, hc⟩
      exact zero_notMem_renderChar c hc
    rw [Scan.renderString_some]
    simp [hchars]

theorem zero_notMem_renderNumeral (n : Numeral) : '\x00' ∉ renderNumeral n := by
  have hsign : '\x00' ∉ (if n.negative then ['-'] else []) := by split_ifs <;> decide
  have hfraction :
      '\x00' ∉ if n.fraction.isEmpty then [] else '.' :: n.fraction.map Nat.digitChar := by
    split_ifs
    · exact List.not_mem_nil
    · simp [digitChar_ne_zero]
  unfold renderNumeral
  simp only [List.mem_append, not_or]
  refine ⟨⟨⟨hsign, zero_notMem_toDigits (by decide) _⟩, hfraction⟩, ?_⟩
  split
  · exact List.not_mem_nil
  · simp [zero_notMem_toDigits]
  · simp [zero_notMem_toDigits]

mutual

/-- Nothing that is written holds a zero character. -/
theorem zero_notMem_render : ∀ j : Json, '\x00' ∉ j.render
  | .null => by decide +kernel
  | .bool true => by decide +kernel
  | .bool false => by decide +kernel
  | .number n => zero_notMem_renderNumeral n
  | .string s => zero_notMem_renderString s
  | .array items => by
    rw [render, List.mem_cons, not_or]
    exact ⟨by decide, zero_notMem_renderItems items⟩
  | .object members => by
    rw [render, List.mem_cons, not_or]
    exact ⟨by decide, zero_notMem_renderMembers members⟩
  | .cut => List.not_mem_nil

theorem zero_notMem_renderItems : ∀ js : List Json, '\x00' ∉ renderItems js
  | [] => by decide
  | [j] => by
    rw [renderItems, List.mem_append, not_or]
    exact ⟨zero_notMem_render j, by decide⟩
  | j :: k :: js => by
    rw [renderItems, List.mem_append, List.mem_cons, not_or, not_or]
    exact ⟨zero_notMem_render j, by decide, zero_notMem_renderItems (k :: js)⟩
    all_goals simp

theorem zero_notMem_renderMembers : ∀ ms : List (Option String × Json), '\x00' ∉ renderMembers ms
  | [] => by decide
  | [(key, j)] => by
    have hkey := zero_notMem_renderString key
    have hvalue := zero_notMem_render j
    simp [renderMembers, hkey, hvalue]
  | (key, j) :: m :: ms => by
    have hkey := zero_notMem_renderString key
    have hvalue := zero_notMem_render j
    have hrest := zero_notMem_renderMembers (m :: ms)
    simp [renderMembers, hkey, hvalue, hrest]

end

end Json

/-! ## What is read -/

theorem Frame.isSound_fill {j : Json} (h : j.isSound = false) (frame : Frame) :
    (frame.fill j).isSound = false := by
  rw [Bool.eq_false_iff] at h ⊢
  intro hfill
  cases frame with
  | array items =>
    rw [fill, Json.isSound, Json.areSound_iff] at hfill
    exact h (hfill j (by simp))
  | object members =>
    rw [fill, Json.isSound, Json.membersSound_iff] at hfill
    exact h (hfill (none, j) (by simp)).2
  | member members key =>
    rw [fill, Json.isSound, Json.membersSound_iff] at hfill
    exact h (hfill (key, j) (by simp)).2

namespace Scan

/-- The text is no document any more, whatever follows. -/
def Lost : Scan → Prop
  | .trailing _ => True
  | .broken j => j.isSound = false
  | _ => False

theorem lost_stop (stack : List Frame) : (stop stack).Lost := by
  show (stack.foldl Frame.fill .cut).isSound = false
  have hfold : ∀ j : Json, j.isSound = false → (stack.foldl Frame.fill j).isSound = false := by
    induction stack with
    | nil => exact fun j hj => hj
    | cons frame stack ih => exact fun j hj => ih _ (frame.isSound_fill hj)
  exact hfold .cut rfl

namespace Lost

variable {scan : Scan}

theorem step (h : scan.Lost) (c : Char) : scan.step c = scan := by
  cases scan with
  | reading stack mode => exact h.elim
  | complete j => exact h.elim
  | trailing j => rfl
  | broken j => rfl

theorem run (h : scan.Lost) (cs : List Char) : scan.run cs = scan := by
  induction cs with
  | nil => rfl
  | cons c cs ih => rw [run_cons, h.step, ih]

theorem finish (h : scan.Lost) :
    scan.finish.trailing = true ∨ scan.finish.document.isSound = false := by
  cases scan with
  | reading stack mode => exact h.elim
  | complete j => exact h.elim
  | trailing j => exact .inl rfl
  | broken j => exact .inr h

end Lost

/-- What the scanner comes to: no word with a zero character is being read, and a text that stopped
being JSON is lost. -/
def Regular : Scan → Prop
  | .reading _ (.word left _) => '\x00' ∉ left
  | .broken j => j.isSound = false
  | _ => True

theorem regular_stop (stack : List Frame) : (stop stack).Regular := lost_stop stack

theorem regular_put (j : Json) (stack : List Frame) : (put j stack).Regular := by
  cases stack with
  | nil => trivial
  | cons frame rest =>
    cases frame with
    | array items => trivial
    | object members => exact regular_stop _
    | member members key => trivial

theorem regular_putString (s : Option String) (stack : List Frame) :
    (putString s stack).Regular := by
  unfold putString
  split
  · trivial
  · exact regular_put _ _

theorem regular_opening? {stack : List Frame} {c : Char} {scan : Scan}
    (h : opening? stack c = some scan) : scan.Regular := by
  unfold opening? at h
  split_ifs at h
  · cases h; trivial
  · cases h; trivial
  · cases h; trivial
  · cases h; show '\x00' ∉ "ull".toList; decide +kernel
  · cases h; show '\x00' ∉ "rue".toList; decide +kernel
  · cases h; show '\x00' ∉ "alse".toList; decide +kernel
  · cases h; trivial
  · split at h <;> cases h <;> trivial

theorem regular_closing? {stack : List Frame} {c : Char} {scan : Scan}
    (h : closing? c stack = some scan) : scan.Regular := by
  unfold closing? at h
  split at h
  · split_ifs at h
    cases h
    exact regular_put _ _
  · split_ifs at h
    cases h
    exact regular_put _ _
  · cases h

theorem regular_getD {o : Option Scan} (h : ∀ scan, o = some scan → scan.Regular)
    (stack : List Frame) : (o.getD (stop stack)).Regular := by
  cases o with
  | none => exact regular_stop stack
  | some scan => exact h scan rfl

theorem regular_afterValue {scan : Scan} (h : scan.Regular) (c : Char) :
    (scan.afterValue c).Regular := by
  unfold afterValue
  split
  · split_ifs
    · exact h
    · split
      · trivial
      · trivial
      · exact regular_stop _
    · exact regular_getD (fun _ => regular_closing?) _
  · split_ifs <;> trivial
  · exact h

theorem regular_step {scan : Scan} (h : scan.Regular) (c : Char) : (scan.step c).Regular := by
  unfold step
  split
  · split_ifs
    · trivial
    · exact regular_getD (fun _ => regular_opening?) _
  · split_ifs
    · trivial
    · refine regular_getD (fun scan hscan => ?_) _
      rcases Option.or_eq_some_iff.1 hscan with hopen | ⟨-, hclose⟩
      · exact regular_opening? hopen
      · exact regular_closing? hclose
  · split_ifs
    · trivial
    · trivial
    · exact regular_stop _
  · split_ifs
    · trivial
    · trivial
    · exact regular_getD (fun _ => regular_closing?) _
  · split_ifs
    · trivial
    · trivial
    · exact regular_stop _
  · split_ifs
    · exact regular_put _ _
    · exact fun hmem => h (List.mem_cons_of_mem _ hmem)
    · exact regular_stop _
  · exact regular_stop _
  · split
    · trivial
    · exact regular_afterValue (regular_put _ _) c
    · exact regular_stop _
  · split
    · trivial
    · exact regular_putString _ _
    · exact regular_stop _
  · exact regular_afterValue h c

theorem regular_run {scan : Scan} (h : scan.Regular) (cs : List Char) : (scan.run cs).Regular := by
  induction cs generalizing scan with
  | nil => exact h
  | cons c cs ih => exact ih (regular_step h c)

theorem lost_afterValue_zero (j : Json) (stack : List Frame) :
    (afterValue (put j stack) '\x00').Lost := by
  cases stack with
  | nil => trivial
  | cons frame rest =>
    cases frame with
    | array items => exact lost_stop _
    | object members => exact lost_stop _
    | member members key => exact lost_stop _

theorem numeral_step_zero (state : NumeralState) :
    state.step '\x00' = .bad ∨ ∃ n, state.step '\x00' = .over n := by
  cases state with
  | sign => exact .inl rfl
  | zero s => exact .inr ⟨_, rfl⟩
  | whole s n => exact .inr ⟨_, rfl⟩
  | point s n => exact .inl rfl
  | fraction s n ds => exact .inr ⟨_, rfl⟩
  | mark s n ds => exact .inl rfl
  | power s n ds below e =>
    cases e with
    | none => exact .inl rfl
    | some e => exact .inr ⟨_, rfl⟩

theorem string_step_zero (state : StringState) : state.step '\x00' = .bad := by
  cases state <;> rfl

/-- There is no place for a zero character. -/
theorem lost_step_zero {scan : Scan} (h : scan.Regular) : (scan.step '\x00').Lost := by
  cases scan with
  | complete j => trivial
  | trailing j => trivial
  | broken j => exact h
  | reading stack mode =>
    cases mode with
    | value => exact lost_stop stack
    | firstValue =>
      cases stack with
      | nil => exact lost_stop _
      | cons frame rest => cases frame <;> exact lost_stop _
    | key => exact lost_stop stack
    | firstKey =>
      cases stack with
      | nil => exact lost_stop _
      | cons frame rest => cases frame <;> exact lost_stop _
    | colon => exact lost_stop stack
    | next =>
      cases stack with
      | nil => exact lost_stop _
      | cons frame rest => cases frame <;> exact lost_stop _
    | word left j =>
      cases left with
      | nil => exact lost_stop stack
      | cons l left =>
        have hne : '\x00' ≠ l := fun he => h (he ▸ List.mem_cons_self)
        rw [step, if_neg hne]
        exact lost_stop stack
    | numeral state =>
      rw [step]
      rcases numeral_step_zero state with hstep | ⟨n, hstep⟩
      · rw [hstep]
        exact lost_stop stack
      · rw [hstep]
        exact lost_afterValue_zero _ stack
    | string state =>
      rw [step, string_step_zero]
      exact lost_stop stack

end Scan

/-- Nothing that is read as a tree holds a zero character. -/
theorem Node.zero_notMem_of_parse {s : String} {n : Node} (h : Node.parse s = .ok n) :
    '\x00' ∉ s.toList := by
  intro hzero
  obtain ⟨front, back, hsplit⟩ := List.append_of_mem hzero
  obtain ⟨htrailing, hread⟩ := Node.parse_eq_ok_iff.1 h
  have hsound := (Node.readRoot_eq_ok_iff.1 hread).2.1
  have hstart : Scan.start.Regular := trivial
  have hlost := Scan.lost_step_zero (Scan.regular_run hstart front)
  have hrun : Scan.start.run s.toList = (Scan.start.run front).step '\x00' := by
    rw [hsplit, Scan.run_append, Scan.run_cons, hlost.run]
  rw [Json.ofText, hrun] at htrailing hsound
  rcases hlost.finish with hfinish | hfinish
  · rw [hfinish] at htrailing
    cases htrailing
  · rw [hfinish] at hsound
    cases hsound

end ChapterLint
