import ChapterLint.Proofs.Json.Zero

/-!
# What the faults of trees say

A fault names fields, records and choices, and shows what stood in the document. What it names
comes from the tables of the reader alone, whatever the document holds: each reader names only
what is in `Node.vocabulary`, if the readers of its parts do (`NamesWithin`). What it shows stands
in quotes, with control characters escaped. There is one exception, a word that is no kind of
variables, and so only such a word can bring a zero character into a wording
(`Node.zero_mem_message_iff`).
-/

namespace ChapterLint

/-! ## The names in a fault -/

/-- The names in an expectation. -/
def Expected.names : Expected → List String
  | .record name => [name]
  | _ => []

/-- The names of fields, records and choices in a fault. -/
def Fault.names : Fault → List String
  | .missing field | .repeated field => [field]
  | .wrongKind _ e | .wrongValue _ e => e.names
  | .unknownChoice _ choices => choices
  | .tooShort _ record _ => [record]
  | .notJson | .tooLong .. | .unknownChapter _ => []

/-- If a reading fails, then the names in its fault are among the given ones. -/
def NamesWithin {α : Type} (v : List String) (x : Except Fault α) : Prop :=
  ∀ f, x = .error f → f.names ⊆ v

namespace NamesWithin

variable {α β : Type} {v : List String}

theorem ok (a : α) : NamesWithin v (.ok a : Except Fault α) := nofun

theorem error {f : Fault} (h : f.names ⊆ v) : NamesWithin v (.error f : Except Fault α) := by
  rintro g ⟨⟩
  exact h

theorem notJson : NamesWithin v (.error .notJson : Except Fault α) := error (List.nil_subset v)

theorem bind {x : Except Fault α} (hx : NamesWithin v x) {g : α → Except Fault β}
    (hg : ∀ a, NamesWithin v (g a)) : NamesWithin v (x >>= g) := by
  cases x with
  | ok a => exact hg a
  | error e => exact error (hx e rfl)

theorem ite {p : Prop} [Decidable p] {x y : Except Fault α} (hx : NamesWithin v x)
    (hy : NamesWithin v y) : NamesWithin v (if p then x else y) := by
  split_ifs
  · exact hx
  · exact hy

theorem mapM {read : Json → Except Fault α} (h : ∀ j, NamesWithin v (read j)) (js : List Json) :
    NamesWithin v (js.mapM read) := by
  induction js with
  | nil => exact ok []
  | cons j js ih =>
    rw [List.mapM_cons]
    exact (h j).bind fun x => ih.bind fun xs => ok (x :: xs)

/-! ### Scalars and lists -/

theorem found (j : Json) : NamesWithin v j.found := by
  unfold Json.found
  split <;> first | exact ok _ | exact notJson | skip
  split
  · exact ok _
  · exact notJson

theorem refuse {e : Expected} (h : e.names ⊆ v) (j : Json) :
    NamesWithin v (j.refuse e : Except Fault α) :=
  (found j).bind fun _ => error h

theorem asInteger {e : Expected} (h : e.names ⊆ v) (low high : Int) (j : Json) :
    NamesWithin v (j.asInteger low high e) := by
  refine (found j).bind fun u => ?_
  split
  · exact ite (ok _) (error h)
  · exact error h

theorem asText (j : Json) : NamesWithin v j.asText := by
  refine (found j).bind fun u => ?_
  split
  · exact ok _
  · exact error (List.nil_subset v)

theorem asFlag (j : Json) : NamesWithin v j.asFlag := by
  refine (found j).bind fun u => ?_
  split
  · exact ok _
  · exact error (List.nil_subset v)

theorem asList {read : Json → Except Fault α} (h : ∀ j, NamesWithin v (read j)) (j : Json) :
    NamesWithin v (j.asList read) := by
  unfold Json.asList
  split
  · exact mapM h _
  · exact refuse (List.nil_subset v) j

theorem asOption {read : Json → Except Fault α} (h : ∀ j, NamesWithin v (read j)) (j : Json) :
    NamesWithin v (j.asOption read) := by
  unfold Json.asOption
  split
  · exact ok none
  · rw [map_eq_pure_bind]
    exact (h _).bind fun x => ok (some x)

end NamesWithin

/-! ### Records -/

namespace Record

variable {ι : Type} {type : ι → Type} {c : Contents type} {v : List String}

theorem namesWithin_take (hc : ∀ i j, NamesWithin v (c.read i j)) (key : String) (j : Json) :
    ∀ (fs : List (Field ι)) (slots : Slots type fs), fs.map Field.key ⊆ v →
      NamesWithin v (take c key j fs slots)
  | [], (), _ => by
    rw [take]
    exact .ite (.ok ()) .notJson
  | f :: fs, (slot, rest), hkeys => by
    rw [List.map_cons, List.cons_subset] at hkeys
    unfold take
    split_ifs with hkey
    · cases slot with
      | some x => exact .error (List.cons_subset.2 ⟨hkey ▸ hkeys.1, List.nil_subset v⟩)
      | none => exact (hc f.sort j).bind fun x => .ok _
    · exact (namesWithin_take hc key j fs rest hkeys.2).bind fun rest => .ok _

theorem namesWithin_takeAll (hc : ∀ i j, NamesWithin v (c.read i j)) {fs : List (Field ι)}
    (hkeys : fs.map Field.key ⊆ v) :
    ∀ (ms : List (Option String × Json)) (slots : Slots type fs),
      NamesWithin v (takeAll c fs ms slots)
  | [], slots => .ok slots
  | (none, _) :: _, _ => .notJson
  | (some key, j) :: ms, slots =>
    (namesWithin_take hc key j fs slots hkeys).bind fun slots =>
      namesWithin_takeAll hc hkeys ms slots

theorem namesWithin_complete :
    ∀ (fs : List (Field ι)) (slots : Slots type fs), fs.map Field.key ⊆ v →
      NamesWithin v (complete c fs slots)
  | [], (), _ => .ok ()
  | f :: fs, (slot, rest), hkeys => by
    rw [List.map_cons, List.cons_subset] at hkeys
    rw [complete]
    split
    · exact .error (List.cons_subset.2 ⟨hkeys.1, List.nil_subset v⟩)
    · exact (namesWithin_complete fs rest hkeys.2).bind fun rest => .ok _

theorem namesWithin_ofMembers (hc : ∀ i j, NamesWithin v (c.read i j)) {fs : List (Field ι)}
    (hkeys : fs.map Field.key ⊆ v) (ms : List (Option String × Json)) :
    NamesWithin v (ofMembers c fs ms) :=
  (namesWithin_takeAll hc hkeys ms _).bind fun slots => namesWithin_complete fs slots hkeys

theorem namesWithin_takeItems (hc : ∀ i j, NamesWithin v (c.read i j)) {name : String}
    (hname : name ∈ v) (size : Nat) :
    ∀ (fs : List (Field ι)) (index : Nat) (items : List Json),
      NamesWithin v (takeItems c name size fs index items)
  | [], _, items => .ok ((), items)
  | f :: fs, index, [] => by
    rw [takeItems]
    split
    · exact .error (List.cons_subset.2 ⟨hname, List.nil_subset v⟩)
    · exact (namesWithin_takeItems hc hname size fs (index + 1) []).bind fun _ => .ok _
  | f :: fs, index, j :: items => by
    rw [takeItems]
    refine (hc f.sort j).bind fun x => ?_
    exact (namesWithin_takeItems hc hname size fs (index + 1) items).bind fun _ => .ok _

theorem namesWithin_ofItems (hc : ∀ i j, NamesWithin v (c.read i j)) (place : Place)
    {name : String} (hname : name ∈ v) (fs : List (Field ι)) (items : List Json) :
    NamesWithin v (ofItems c place name fs items) := by
  refine (namesWithin_takeItems hc hname fs.length fs 0 items).bind fun taken => ?_
  refine .ite (.ok _) (.error ?_)
  cases place <;> exact List.nil_subset v

/-- A record names its own fields, itself, and what its contents name. -/
theorem namesWithin_read (hc : ∀ i j, NamesWithin v (c.read i j)) (place : Place)
    {name : String} (hname : name ∈ v) {fs : List (Field ι)} (hkeys : fs.map Field.key ⊆ v)
    (j : Json) : NamesWithin v (Record.read c place name fs j) := by
  unfold Record.read
  split
  · exact namesWithin_ofItems hc place hname fs _
  · exact namesWithin_ofMembers hc hkeys _
  · exact .refuse (List.cons_subset.2 ⟨hname, List.nil_subset v⟩) _

theorem namesWithin_readPair {α β : Type} (place : Place) {name : String} (hname : name ∈ v)
    {f : Part α} {g : Part β} (hf : ∀ j, NamesWithin v (f.read j))
    (hg : ∀ j, NamesWithin v (g.read j)) (hkeys : [f.key, g.key] ⊆ v) (j : Json) :
    NamesWithin v (readPair place name f g j) := by
  have hfields : List.map Field.key [⟨f.key, false⟩, ⟨g.key, true⟩] ⊆ v := hkeys
  refine (namesWithin_read (fun i j => ?_) place hname hfields j).bind fun _ => .ok _
  cases i with
  | false => exact hf j
  | true => exact hg j

end Record

/-! ### Trees -/

/-- The names that the readers of trees know: those of fields, of records, and the words for kinds
of variables. -/
def Node.vocabulary : List String :=
  ["type", "line", "column", "SourcePosition", "start", "end", "SourceLocation", "name", "loc",
    "Identifier", "id", "init", "VariableDeclarator"] ++ VariableKind.all.map VariableKind.key ++
    NodeKind.all.flatMap fun k => k.recordName :: k.fields.map Field.key

theorem NodeKind.names_subset_vocabulary (k : NodeKind) :
    k.recordName :: k.fields.map Field.key ⊆ Node.vocabulary := by
  intro name hname
  exact List.mem_append_right _ (List.mem_flatMap.2 ⟨k, k.mem_all, hname⟩)

theorem namesWithin_readCoordinate {v : List String} (j : Json) :
    NamesWithin v (readCoordinate j) :=
  (NamesWithin.asInteger (List.nil_subset v) _ _ j).bind fun _ => .ok _

theorem Position.namesWithin_read (place : Record.Place) (j : Json) :
    NamesWithin Node.vocabulary (Position.read place j) :=
  (Record.namesWithin_readPair place (by decide) namesWithin_readCoordinate
    namesWithin_readCoordinate (by decide) j).bind fun _ => .ok _

theorem Span.namesWithin_read (place : Record.Place) (j : Json) :
    NamesWithin Node.vocabulary (Span.read place j) :=
  have hkeys : ["start", "end"] ⊆ Node.vocabulary := by decide
  (Record.namesWithin_readPair place (by decide) (Position.namesWithin_read place)
    (Position.namesWithin_read place) hkeys j).bind fun _ => .ok _

theorem Identifier.namesWithin_read (j : Json) :
    NamesWithin Node.vocabulary (Identifier.read j) :=
  (Record.namesWithin_readPair .inDocument (by decide) .asText
    (Span.namesWithin_read .inDocument) (by decide) j).bind fun _ => .ok _

theorem VariableKind.namesWithin_ofKey (s : String) :
    NamesWithin Node.vocabulary (VariableKind.ofKey s) := by
  unfold VariableKind.ofKey
  split
  · exact .ok _
  · exact .error (List.subset_append_of_subset_left _ (List.subset_append_right _ _))

theorem VariableKind.namesWithin_read (j : Json) :
    NamesWithin Node.vocabulary (VariableKind.read j) := by
  unfold VariableKind.read
  split
  · exact namesWithin_ofKey _
  · refine (namesWithin_ofKey _).bind fun kind => ?_
    split
    · exact .ok kind
    · exact .ok kind
    · exact .refuse (List.nil_subset _) _
  · exact .error (List.nil_subset _)
  · exact .refuse (List.nil_subset _) _

namespace Value

variable {v : List String}

mutual

theorem namesWithin_ofJson : ∀ j : Json, NamesWithin v (ofJson j)
  | .null => .ok _
  | .bool _ => .ok _
  | .number n => by
    rw [ofJson]
    split
    · exact .ok _
    · exact .notJson
  | .string (some _) => .ok _
  | .string none => .notJson
  | .array items => (namesWithin_ofItems items).bind fun _ => .ok _
  | .object members => (namesWithin_ofMembers members []).bind fun _ => .ok _
  | .cut => .notJson

theorem namesWithin_ofItems : ∀ js : List Json, NamesWithin v (ofItems js)
  | [] => .ok _
  | j :: js => (namesWithin_ofJson j).bind fun _ => (namesWithin_ofItems js).bind fun _ => .ok _

theorem namesWithin_ofMembers : ∀ (js : List (Option String × Json)) (ms : List (String × Value)),
    NamesWithin v (ofMembers js ms)
  | [], _ => .ok _
  | (none, _) :: _, _ => .notJson
  | (some _, j) :: js, _ => (namesWithin_ofJson j).bind fun _ => namesWithin_ofMembers js _

end

end Value

section Parts

variable {node : Json → Except Fault Node} (hnode : ∀ j, NamesWithin Node.vocabulary (node j))

include hnode

theorem Declarator.namesWithin_read (j : Json) :
    NamesWithin Node.vocabulary (Declarator.read node j) := by
  refine (Record.namesWithin_read (fun part j => ?_) .inDocument (by decide) (by decide) j).bind
    fun _ => .ok _
  cases part with
  | id => exact Identifier.namesWithin_read j
  | init => exact .asOption hnode j
  | span => exact Span.namesWithin_read .inDocument j

theorem Content.namesWithin_read (content : Content) (j : Json) :
    NamesWithin Node.vocabulary ((Content.reader node).read content j) := by
  cases content with
  | node => exact hnode j
  | optionalNode => exact .asOption hnode j
  | nodes => exact .asList hnode j
  | elements => exact .asList (.asOption hnode) j
  | identifier => exact Identifier.namesWithin_read j
  | optionalIdentifier => exact .asOption Identifier.namesWithin_read j
  | declarators => exact .asList (Declarator.namesWithin_read hnode) j
  | variableKind => exact VariableKind.namesWithin_read j
  | text => exact .asText j
  | flag => exact .asFlag j
  | value => exact Value.namesWithin_ofJson j
  | span => exact Span.namesWithin_read .inDocument j

end Parts

namespace Node

theorem namesWithin_readTag {v : List String} (j : Json) : NamesWithin v (readTag j) := by
  refine (NamesWithin.found j).bind fun u => ?_
  split
  · exact .ok _
  · exact .ite (.ok _) (.error (List.nil_subset v))
  · exact .error (List.nil_subset v)

theorem namesWithin_takeTag : ∀ (ms : List (Option String × Json)) (found : Option NodeKind),
    NamesWithin vocabulary (takeTag found ms)
  | [], some k => .ok (k, [])
  | [], none => .error (by decide)
  | (none, _) :: _, _ => .notJson
  | (some key, j) :: ms, found => by
    unfold takeTag
    split_ifs
    · cases found with
      | some k => exact .error (by decide)
      | none => exact (namesWithin_readTag j).bind fun k => namesWithin_takeTag ms (some k)
    · exact (namesWithin_takeTag ms found).bind fun _ => .ok _

theorem namesWithin_readWith {node : Json → Except Fault Node}
    (hnode : ∀ j, NamesWithin vocabulary (node j)) (j : Json) :
    NamesWithin vocabulary (readWith node j) := by
  have hcontent := Content.namesWithin_read hnode
  have hnames := fun k => List.cons_subset.1 (NodeKind.names_subset_vocabulary k)
  unfold readWith
  split
  · exact .error (by decide)
  · refine (namesWithin_readTag _).bind fun k => ?_
    exact (Record.namesWithin_ofItems hcontent .inDocument (hnames k).1 _ _).bind fun _ => .ok _
  · refine (namesWithin_takeTag _ none).bind fun taken => ?_
    exact (Record.namesWithin_ofMembers hcontent (hnames _).2 _).bind fun _ => .ok _
  · exact .refuse (List.nil_subset _) _

theorem namesWithin_readWithin : ∀ (n : Nat) (j : Json), NamesWithin vocabulary (readWithin n j)
  | 0 => namesWithin_readWith fun _ => .notJson
  | n + 1 => namesWithin_readWith (namesWithin_readWithin n)

theorem namesWithin_checkRootTag {v : List String} (j : Json) :
    NamesWithin v (checkRootTag j) := by
  refine (NamesWithin.found j).bind fun u => ?_
  split
  · exact .ok ()
  · exact .error (List.nil_subset v)

theorem namesWithin_checkRootMembers : ∀ (ms : List (Option String × Json)) (found : Bool),
    NamesWithin vocabulary (checkRootMembers found ms)
  | [], _ => .ok ()
  | (none, _) :: _, _ => .notJson
  | (some key, j) :: ms, found => by
    rw [checkRootMembers]
    refine .ite (.ite (.error (by decide)) ?_) (.ite ?_ .notJson)
    · exact (namesWithin_checkRootTag j).bind fun _ => namesWithin_checkRootMembers ms true
    · exact namesWithin_checkRootMembers ms found

theorem namesWithin_checkRoot (j : Json) : NamesWithin vocabulary (checkRoot j) := by
  unfold checkRoot
  split
  · exact .ok ()
  · exact namesWithin_checkRootTag _
  · exact namesWithin_checkRootMembers _ false
  · exact .refuse (List.nil_subset _) _

/-- A fault of a tree names nothing that the readers do not know. -/
theorem namesWithin_ofText (s : String) : NamesWithin vocabulary (ofText s) := by
  refine NamesWithin.bind ?_ fun n => .ite .notJson (.ok n)
  refine (namesWithin_checkRoot _).bind fun _ => ?_
  exact .ite (namesWithin_readWithin _ _) .notJson

end Node

/-! ## Zero characters -/

theorem zero_notMem_repr (n : Int) : '\x00' ∉ n.repr.toList := by
  rw [Int.repr_eq_if]
  split_ifs
  · simp [Json.zero_notMem_toDigits]
  · simp [Json.zero_notMem_toDigits]

theorem zero_notMem_quotedChar (c : Char) : '\x00' ∉ (quotedChar c).toList := by
  unfold quotedChar
  split_ifs with hquote hback hn ht hr hzero hhidden
  · simp
  · simp
  · simp
  · simp
  · simp
  · simp
  · simp [Json.zero_notMem_toDigits]
  · -- the zero character has an escape of its own, so it is not the one that stands as it is
    simp [Ne.symm hzero]

/-- Quoted text never holds a zero character. -/
theorem zero_notMem_quoted (s : String) : '\x00' ∉ (quoted s).toList := by
  simp [quoted, zero_notMem_quotedChar]

theorem Decimal.zero_notMem_text {l : Layout} (hplus : '\x00' ∉ l.plus.toList) (d : Decimal) :
    '\x00' ∉ (d.text l).toList := by
  have hdigits : '\x00' ∉ Nat.toDigits 10 d.digits := Json.zero_notMem_toDigits (by decide) _
  have htake : ∀ n, '\x00' ∉ (Nat.toDigits 10 d.digits).take n :=
    fun n h => hdigits (List.mem_of_mem_take h)
  have hdrop : ∀ n, '\x00' ∉ (Nat.toDigits 10 d.digits).drop n :=
    fun n h => hdigits (List.mem_of_mem_drop h)
  unfold text
  extract_lets ds point zeros tail sign
  have htail : '\x00' ∉ tail := by
    unfold tail
    split_ifs
    · exact List.not_mem_nil
    · rw [List.mem_cons, not_or]
      exact ⟨by decide, hdrop 1⟩
  have hsign : '\x00' ∉ sign.toList := by
    unfold sign
    split_ifs
    · exact hplus
    · exact List.not_mem_nil
  split_ifs
  · simp [ds, htake, htail, hsign, zero_notMem_repr]
  · simp [ds, zeros, hdigits]
  · simp [ds, htake, hdrop]
  · simp [ds, zeros, hdigits]

theorem Found.zero_notMem_real (x : Binary64) : '\x00' ∉ (Found.real x).toList := by
  have hplus : '\x00' ∉ Found.layout.plus.toList := by simp [Found.layout]
  have hmagnitude := (Decimal.shortest x.units).zero_notMem_text hplus
  unfold Found.real
  split_ifs <;> simp [hmagnitude]

/-- What stood in a document is shown without zero characters. -/
theorem Found.zero_notMem_message (u : Found) : '\x00' ∉ u.message.toList := by
  unfold Found.message
  split
  · simp
  · split_ifs <;> simp
  · simp [zero_notMem_repr]
  · simp [zero_notMem_real]
  · simp [zero_notMem_quoted]
  · simp
  · simp

theorem Expected.zero_notMem_message {e : Expected} (h : ∀ name ∈ e.names, '\x00' ∉ name.toList) :
    '\x00' ∉ e.message.toList := by
  cases e with
  | record name => simp [message, h name (List.mem_singleton_self name)]
  | _ => simp [message]

theorem zero_notMem_choices : ∀ {choices : List String},
    (∀ name ∈ choices, '\x00' ∉ name.toList) →
      '\x00' ∉ (", ".intercalate (choices.map marked)).toList
  | [], _ => by simp
  | [name], h => by simpa [marked] using h
  | name :: next :: choices, h => by
    have hname := h name List.mem_cons_self
    have hrest := zero_notMem_choices fun other hother => h other (List.mem_cons_of_mem name hother)
    rw [List.map_cons, List.map_cons, String.intercalate_cons_cons, ← List.map_cons,
      String.toList_append, List.mem_append, not_or]
    exact ⟨by simp [marked, hname], hrest⟩

theorem zero_notMem_elementCount (n : Nat) : '\x00' ∉ (elementCount n).toList := by
  unfold elementCount
  split_ifs <;> simp [Json.zero_notMem_toDigits]

theorem zero_notMem_unknownChapterMessage (n : Int) :
    '\x00' ∉ (unknownChapterMessage n).toList := by
  unfold unknownChapterMessage
  rw [String.toList_append, List.mem_append, not_or]
  exact ⟨by decide, zero_notMem_repr n⟩

theorem Fault.zero_mem_message?_of_word {word : String} (choices : List String)
    (h : '\x00' ∈ word.toList) :
    '\x00' ∈ ((Fault.unknownChoice word choices).message?.getD "").toList := by
  rw [message?, Option.getD_some, String.toList_append, List.mem_append]
  exact .inl (by simp [marked, h])

/-- If its names hold no zero character, then a fault is worded with one exactly if it shows a word
that holds one. -/
theorem Fault.zero_mem_message?_iff {f : Fault} (h : ∀ name ∈ f.names, '\x00' ∉ name.toList) :
    '\x00' ∈ (f.message?.getD "").toList ↔
      ∃ word choices, f = .unknownChoice word choices ∧ '\x00' ∈ word.toList := by
  cases f with
  | notJson =>
    rw [message?, Option.getD_none]
    simp
  | missing field =>
    have hfield := h field (List.mem_singleton_self field)
    rw [message?, Option.getD_some]
    simp [marked, hfield]
  | repeated field =>
    have hfield := h field (List.mem_singleton_self field)
    rw [message?, Option.getD_some]
    simp [marked, hfield]
  | wrongKind u e =>
    rw [message?, Option.getD_some]
    simp [u.zero_notMem_message, Expected.zero_notMem_message h]
  | wrongValue u e =>
    rw [message?, Option.getD_some]
    simp [u.zero_notMem_message, Expected.zero_notMem_message h]
  | unknownChoice word choices =>
    -- the only wording in which a piece of the document is not quoted
    constructor
    · intro hzero
      rw [message?, Option.getD_some, String.toList_append, List.mem_append] at hzero
      have hword := hzero.resolve_right (zero_notMem_choices h)
      exact ⟨word, choices, rfl, by simpa [marked] using hword⟩
    · rintro ⟨_, _, ⟨⟩, hword⟩
      exact zero_mem_message?_of_word choices hword
  | tooShort index record size =>
    have hrecord := h record (List.mem_singleton_self record)
    rw [message?, Option.getD_some]
    simp [hrecord, zero_notMem_elementCount, Json.zero_notMem_toDigits]
  | tooLong present size =>
    rw [message?, Option.getD_some]
    simp [zero_notMem_elementCount, Json.zero_notMem_toDigits]
  | unknownChapter n =>
    rw [message?, Option.getD_some]
    simp only [zero_notMem_unknownChapterMessage, reduceCtorEq, false_and, exists_false]

theorem Failure.zero_mem_message_ofFault_iff (f : Fault) :
    '\x00' ∈ (Failure.ofFault f).message.toList ↔ '\x00' ∈ (f.message?.getD "").toList := by
  have hmessage :
      (Failure.ofFault f).message = "Malformed syntax tree: " ++ f.message?.getD "" := rfl
  have hopening : '\x00' ∉ "Malformed syntax tree: ".toList := by decide
  rw [hmessage, String.toList_append, List.mem_append, or_iff_right hopening]

theorem Node.zero_notMem_vocabulary : ∀ name ∈ vocabulary, '\x00' ∉ name.toList := by
  decide +kernel

/-- The failure shows a word of the document that holds a zero character. -/
def Failure.ShowsZero (f : Failure) : Prop :=
  ∃ word choices, f = .ofFault (.unknownChoice word choices) ∧ '\x00' ∈ word.toList

theorem Failure.not_showsZero {f : Failure} (h : ∀ detail, f ≠ .malformedTree detail) :
    ¬ f.ShowsZero := by
  rintro ⟨word, choices, rfl, -⟩
  exact h _ rfl

/-- **Where zero characters in wordings come from.** The failure of a text that is no tree is
worded with a zero character exactly if it shows a word that holds one. -/
theorem Node.zero_mem_message_iff {s : String} {f : Failure} (h : parse s = .error f) :
    '\x00' ∈ f.message.toList ↔ f.ShowsZero := by
  unfold parse at h
  cases hs : ofText s with
  | ok n => simp [hs, Except.mapError] at h
  | error e =>
    rw [hs] at h
    obtain rfl : Failure.ofFault e = f := Except.error.inj h
    have hnames : ∀ name ∈ e.names, '\x00' ∉ name.toList := fun name hname =>
      zero_notMem_vocabulary name (namesWithin_ofText s e hs hname)
    constructor
    · intro hzero
      obtain ⟨word, choices, rfl, hword⟩ :=
        (Fault.zero_mem_message?_iff hnames).1 ((Failure.zero_mem_message_ofFault_iff e).1 hzero)
      exact ⟨word, choices, rfl, hword⟩
    · rintro ⟨word, choices, hf, hword⟩
      rw [hf, Failure.zero_mem_message_ofFault_iff]
      exact Fault.zero_mem_message?_of_word choices hword

end ChapterLint
