import ChapterLint.Proofs.Json.RoundTrip
import ChapterLint.Proofs.Tree.Shapes

/-!
# Documents that give the same tree

A document may be rewritten without a change to the tree that is read from it: the members of a
record may be reordered, members that no field knows may be put in or taken out, and a field that
may be absent may be written `null` or be left out. All of this can be done at any depth, wherever
a record is read, and in documents that cannot be read as well.

There is one exception. A numeral may be beyond all numbers, and a string or key may hold half of a
surrogate pair alone. Both are JSON, but the reader refuses a document that holds one, wherever it
may be (`Json.Unreadable`), and a member that is put in may bring one with it
(`Node.parse_unbounded_member`).

1. `Rewrites` is the least congruence that contains the three changes.
2. A key that is no text is known to no field, and neither is the empty one. `Json.mend` writes the
   latter for the former, so that all keys are text.
3. `Rewrites.kept` says by induction what a rewriting keeps between mended documents: what the tag
   of a root is, and what is read.
4. Documents without anything unreadable are mended already. Hence their texts give the same tree,
   whatever stood between the two.
-/

namespace ChapterLint

open Record (values)

/-! ## Rewriting -/

/-- A document of a shape is rewritten into another one: at any depth, any number of times, in both
directions. -/
inductive Rewrites : Shape → Json → Json → Prop
  | refl (s : Shape) (j : Json) : Rewrites s j j
  | symm {s : Shape} {j k : Json} (h : Rewrites s j k) : Rewrites s k j
  | trans {s : Shape} {j k l : Json} (h : Rewrites s j k) (h' : Rewrites s k l) : Rewrites s j l
  /-- Inside what may be absent. -/
  | option {s : Shape} {j k : Json} (h : Rewrites s j k) : Rewrites (.option s) j k
  /-- Inside an item of a list. -/
  | item {s : Shape} {j k : Json} (before after : List Json) (h : Rewrites s j k) :
      Rewrites (.list s) (.array (before ++ j :: after)) (.array (before ++ k :: after))
  /-- Inside a field of a record that is an array. -/
  | column {r : RecordShape} {f : FieldShape} {s : Shape} {j k : Json} (before after : List Json)
      (hf : (r.columns (before ++ j :: after))[before.length]? = some f) (hs : f.shape = some s)
      (h : Rewrites s j k) :
      Rewrites (.record r) (.array (before ++ j :: after)) (.array (before ++ k :: after))
  /-- Inside a field of a record that is an object. -/
  | member {r : RecordShape} {f : FieldShape} {s : Shape} {j k : Json}
      (before after : List (Option String × Json))
      (hf : f ∈ r.fields (before ++ (some f.key, j) :: after)) (hs : f.shape = some s)
      (h : Rewrites s j k) :
      Rewrites (.record r) (.object (before ++ (some f.key, j) :: after))
        (.object (before ++ (some f.key, k) :: after))
  /-- The members of a record are reordered. -/
  | reorder {r : RecordShape} {ms ms' : List (Option String × Json)} (h : ms.Perm ms') :
      Rewrites (.record r) (.object ms) (.object ms')
  /-- A member that no field knows is put in: any key, text or not, and any document. -/
  | unknown {r : RecordShape} {key : Option String} {v : Json}
      (before after : List (Option String × Json)) (htag : ∀ k ∈ r.tagKeys, key ≠ some k)
      (hkey : ∀ f ∈ r.fields (before ++ after), key ≠ some f.key) (hv : v.isWhole = true) :
      Rewrites (.record r) (.object (before ++ after)) (.object (before ++ (key, v) :: after))
  /-- A field that is absent, and may be, is written `null`. -/
  | absent {r : RecordShape} {f : FieldShape} (before after : List (Option String × Json))
      (hf : f ∈ r.fields (before ++ after)) (hoptional : f.optional = true)
      (habsent : some f.key ∉ (before ++ after).map Prod.fst) :
      Rewrites (.record r) (.object (before ++ after))
        (.object (before ++ (some f.key, .null) :: after))

/-! ## Unreadable documents -/

namespace Json

/-- Somewhere in a document there is something that the reader refuses: a numeral that stands for no
number, a string or a key that is no text, or the place where a text stops being JSON. -/
inductive Unreadable : Json → Prop
  | number {n : Numeral} (h : n.number? = none) : Unreadable (.number n)
  | string : Unreadable (.string none)
  | item {items : List Json} {j : Json} (hj : j ∈ items) (h : Unreadable j) :
      Unreadable (.array items)
  | key {members : List (Option String × Json)} {j : Json} (h : (none, j) ∈ members) :
      Unreadable (.object members)
  | member {members : List (Option String × Json)} {key : Option String} {j : Json}
      (hm : (key, j) ∈ members) (h : Unreadable j) : Unreadable (.object members)
  | cut : Unreadable .cut

theorem Unreadable.isSound_eq_false {j : Json} (h : j.Unreadable) : j.isSound = false := by
  induction h with
  | number h => rw [isSound, h, Option.isSome_none]
  | string | cut => rfl
  | item hj _ ih =>
    refine Bool.eq_false_iff.2 fun hsound => ?_
    exact absurd (areSound_iff.1 hsound _ hj) (Bool.eq_false_iff.1 ih)
  | key h =>
    refine Bool.eq_false_iff.2 fun hsound => ?_
    cases (membersSound_iff.1 hsound _ h).1
  | member hm _ ih =>
    refine Bool.eq_false_iff.2 fun hsound => ?_
    exact absurd (membersSound_iff.1 hsound _ hm).2 (Bool.eq_false_iff.1 ih)

mutual

theorem isSound_of_not_unreadable : ∀ {j : Json}, ¬ j.Unreadable → j.isSound = true
  | .null, _ | .bool _, _ | .string (some _), _ => rfl
  | .number _, h => Option.isSome_iff_ne_none.2 fun hn => h (.number hn)
  | .string none, h => absurd .string h
  | .array _, h => areSound_of_not_unreadable fun _ hj hu => h (.item hj hu)
  | .object _, h =>
    membersSound_of_not_unreadable (fun _ hm => h (.key hm)) fun _ _ hm hu => h (.member hm hu)
  | .cut, h => absurd .cut h

theorem areSound_of_not_unreadable : ∀ {js : List Json},
    (∀ j ∈ js, ¬ j.Unreadable) → areSound js = true
  | [], _ => rfl
  | j :: js, h => by
    obtain ⟨hj, hjs⟩ := List.forall_mem_cons.1 h
    rw [areSound, isSound_of_not_unreadable hj, areSound_of_not_unreadable hjs]
    rfl

theorem membersSound_of_not_unreadable : ∀ {ms : List (Option String × Json)},
    (∀ j, (none, j) ∉ ms) → (∀ key j, (key, j) ∈ ms → ¬ j.Unreadable) → membersSound ms = true
  | [], _, _ => rfl
  | (none, j) :: _, hkeys, _ => absurd List.mem_cons_self (hkeys j)
  | (some key, j) :: ms, hkeys, hvalues => by
    have hms : membersSound ms = true :=
      membersSound_of_not_unreadable (fun j hj => hkeys j (List.mem_cons_of_mem _ hj))
        fun key j hj => hvalues key j (List.mem_cons_of_mem _ hj)
    rw [membersSound, isSound_of_not_unreadable (hvalues _ j List.mem_cons_self), hms]
    rfl

end

theorem isSound_iff_not_unreadable {j : Json} : j.isSound = true ↔ ¬ j.Unreadable :=
  ⟨fun hsound hu => absurd hsound (Bool.eq_false_iff.1 hu.isSound_eq_false),
    isSound_of_not_unreadable⟩

/-! ## Keys that are no text -/

mutual

/-- The document with the empty key for every key that is no text. -/
def mend : Json → Json
  | .array items => .array (mendItems items)
  | .object members => .object (mendMembers members)
  | j => j

/-- The items, mended. -/
def mendItems : List Json → List Json
  | [] => []
  | j :: js => mend j :: mendItems js

/-- The members, mended. -/
def mendMembers : List (Option String × Json) → List (Option String × Json)
  | [] => []
  | (key, j) :: ms => (some (key.getD ""), mend j) :: mendMembers ms

end

/-- A member, mended. -/
def mendMember (m : Option String × Json) : Option String × Json := (some (m.1.getD ""), m.2.mend)

theorem mendItems_eq_map (items : List Json) : mendItems items = items.map mend := by
  induction items with
  | nil => rfl
  | cons j items ih => rw [mendItems, ih, List.map_cons]

theorem mendMembers_eq_map (members : List (Option String × Json)) :
    mendMembers members = members.map mendMember := by
  induction members with
  | nil => rfl
  | cons m members ih => rw [mendMembers, ih, List.map_cons, mendMember]

theorem mend_array (items : List Json) : (array items).mend = .array (items.map mend) := by
  rw [mend, mendItems_eq_map]

theorem mend_object (members : List (Option String × Json)) :
    (object members).mend = .object (members.map mendMember) := by
  rw [mend, mendMembers_eq_map]

mutual

theorem isWhole_mend : ∀ j : Json, j.mend.isWhole = j.isWhole
  | .null | .bool _ | .number _ | .string _ | .cut => rfl
  | .array items => areWhole_mendItems items
  | .object members => membersWhole_mendMembers members

theorem areWhole_mendItems : ∀ js : List Json, areWhole (mendItems js) = areWhole js
  | [] => rfl
  | j :: js => by rw [mendItems, areWhole, areWhole, isWhole_mend j, areWhole_mendItems js]

theorem membersWhole_mendMembers : ∀ ms : List (Option String × Json),
    membersWhole (mendMembers ms) = membersWhole ms
  | [] => rfl
  | (key, j) :: ms => by
    rw [mendMembers, membersWhole, membersWhole, isWhole_mend j, membersWhole_mendMembers ms]

end

mutual

/-- In a sound document there is nothing to mend. -/
theorem mend_of_isSound : ∀ {j : Json}, j.isSound = true → j.mend = j
  | .null, _ | .bool _, _ | .number _, _ | .string _, _ => rfl
  | .array _, h => congrArg array (mendItems_of_areSound h)
  | .object _, h => congrArg object (mendMembers_of_membersSound h)

theorem mendItems_of_areSound : ∀ {js : List Json}, areSound js = true → mendItems js = js
  | [], _ => rfl
  | j :: js, h => by
    rw [areSound, Bool.and_eq_true] at h
    rw [mendItems, mend_of_isSound h.1, mendItems_of_areSound h.2]

theorem mendMembers_of_membersSound : ∀ {ms : List (Option String × Json)},
    membersSound ms = true → mendMembers ms = ms
  | [], _ => rfl
  | (key, j) :: ms, h => by
    rw [membersSound, Bool.and_eq_true, Bool.and_eq_true] at h
    obtain ⟨k, rfl⟩ := Option.isSome_iff_exists.1 h.1.1
    rw [mendMembers, mend_of_isSound h.1.2, mendMembers_of_membersSound h.2, Option.getD_some]

end

theorem found_mend (j : Json) : j.mend.found = j.found := by
  cases j <;> rfl

end Json

open Json (mend mendMember)

/-- Mending gives no member a key but the empty one. -/
theorem Json.mendMember_fst_eq_iff {key : String} (hkey : key ≠ "") (m : Option String × Json) :
    (mendMember m).1 = some key ↔ m.1 = some key := by
  obtain ⟨_ | k, j⟩ := m
  · simp [mendMember, hkey.symm]
  · exact Iff.rfl

theorem Record.values_map_mendMember {key : String} (hkey : key ≠ "")
    (ms : List (Option String × Json)) :
    values key (ms.map mendMember) = (values key ms).map mend := by
  unfold values
  rw [List.filterMap_map, List.map_filterMap]
  refine List.filterMap_congr fun m _ => ?_
  simp only [Function.comp_apply, Json.mendMember_fst_eq_iff hkey]
  split_ifs <;> rfl

theorem Node.tagFields_mend (tag : Json) : tagFields tag.mend = tagFields tag := by
  rw [tagFields, tagFields, readTag, readTag, Json.found_mend]

namespace RecordShape

theorem empty_notMem_tagKeys (r : RecordShape) : "" ∉ r.tagKeys := by
  cases r <;> decide

/-- No field has the empty key. -/
theorem empty_notMem_keys (r : RecordShape) (ms : List (Option String × Json)) :
    "" ∉ (r.fields ms).map FieldShape.key := by
  cases r with
  | node =>
    rw [fields]
    rcases Node.objectFields_cases ms with hnil | ⟨k, hk⟩
    · rw [hnil]
      exact List.not_mem_nil
    · rw [hk, k.map_key_fieldShapes]
      cases k <;> decide
  | identifier | declarator | span | position => simp [fields, plainFields]

theorem fields_map_mendMember (r : RecordShape) (ms : List (Option String × Json)) :
    r.fields (ms.map mendMember) = r.fields ms := by
  cases r with
  | node =>
    rw [fields, fields, Node.objectFields, Node.objectFields,
      Record.values_map_mendMember (by decide)]
    rcases values Node.tagKey ms with _ | ⟨tag, _ | ⟨tag', tags⟩⟩
    · rfl
    · exact Node.tagFields_mend tag
    · rfl
  | _ => rfl

theorem columns_map_mend (r : RecordShape) (items : List Json) :
    r.columns (items.map mend) = r.columns items := by
  cases r with
  | node =>
    cases items with
    | nil => rfl
    | cons tag items => rw [List.map_cons, columns, columns, Node.tagFields_mend]
  | _ => rfl

end RecordShape

/-! ## What a rewriting keeps -/

/-- What a rewriting keeps: whether the document is `null`, whether a node has the tag of a root,
and what is read from it. -/
structure Kept (s : Shape) (j k : Json) : Prop where
  null : j = .null ↔ k = .null
  tag : s = .record .node → (Node.HasTextTag j ↔ Node.HasTextTag k)
  read : SameRead s.read j k

namespace Kept

theorem refl (s : Shape) (j : Json) : Kept s j j := ⟨Iff.rfl, fun _ => Iff.rfl, .refl j⟩

theorem symm {s : Shape} {j k : Json} (h : Kept s j k) : Kept s k j :=
  ⟨h.null.symm, fun hs => (h.tag hs).symm, h.read.symm⟩

theorem trans {s : Shape} {j k l : Json} (h : Kept s j k) (h' : Kept s k l) : Kept s j l :=
  ⟨h.null.trans h'.null, fun hs => (h.tag hs).trans (h'.tag hs), h.read.trans h'.read⟩

theorem option {s : Shape} {j k : Json} (h : Kept s j k) : Kept (.option s) j k :=
  ⟨h.null, nofun, h.read.asOption h.null⟩

theorem item {s : Shape} {j k : Json} (h : Kept s j k) (before after : List Json) :
    Kept (.list s) (.array (before ++ j :: after)) (.array (before ++ k :: after)) :=
  ⟨by simp, nofun, h.read.asList before after⟩

theorem column {r : RecordShape} {f : FieldShape} {s : Shape} {before after : List Json}
    {j k : Json} (hf : (r.columns (before ++ j :: after))[before.length]? = some f)
    (hs : f.shape = some s) (h : Kept s j k) :
    Kept (.record r) (.array (before ++ j :: after)) (.array (before ++ k :: after)) := by
  refine ⟨by simp, fun hr => ?_, r.sameRead_array hf hs h.read⟩
  cases hr
  cases before with
  | nil =>
    -- the tag is nothing to rewrite
    obtain rfl := Option.some_inj.1 hf
    cases hs
  | cons tag before => exact Iff.rfl

/-- Objects with members that are alike. -/
theorem object {r : RecordShape} {ms ms' : List (Option String × Json)}
    (htags : ∀ key ∈ r.tagKeys, (values key ms).Perm (values key ms'))
    (h : AlikeMembers (r.fields ms) ms ms') : Kept (.record r) (.object ms) (.object ms') := by
  refine ⟨by simp, fun hr => ?_, RecordShape.sameRead_object htags h⟩
  cases hr
  have hperm := htags _ List.mem_cons_self
  simp only [Node.HasTextTag, Record.eq_singleton_iff_of_perm hperm]

theorem reorder {r : RecordShape} {ms ms' : List (Option String × Json)} (h : ms.Perm ms') :
    Kept (.record r) (.object ms) (.object ms') :=
  object (fun _ _ => h.filterMap _) (.of_perm h)

/-- Objects that differ in a member that is no tag. -/
theorem insert {r : RecordShape} {key : String} (hkey : key ∉ r.tagKeys)
    {before after : List (Option String × Json)} {v : Json}
    (h : AlikeMembers (r.fields (before ++ after)) (before ++ after)
      (before ++ (some key, v) :: after)) :
    Kept (.record r) (.object (before ++ after)) (.object (before ++ (some key, v) :: after)) := by
  refine object (fun tagKey htag => ?_) h
  have hne : (some key, v).1 ≠ some tagKey := fun he => hkey (Option.some_inj.1 he ▸ htag)
  rw [Record.values_insert_of_ne hne]

theorem member {r : RecordShape} {f : FieldShape} {s : Shape}
    {before after : List (Option String × Json)} {j k : Json}
    (hf : f ∈ r.fields (before ++ (some f.key, j) :: after)) (hs : f.shape = some s)
    (h : Kept s j k) :
    Kept (.record r) (.object (before ++ (some f.key, j) :: after))
      (.object (before ++ (some f.key, k) :: after)) :=
  object (fun key hkey => .of_eq (RecordShape.values_tagKeys hf k key hkey))
    (.of_member (r.fields_nodup _) hf hs h.read before after)

end Kept

/-- A key that is none of some keys is none of them when it is mended, if the empty one is none. -/
theorem getD_notMem {key : Option String} {keys : List String} (hempty : "" ∉ keys)
    (h : ∀ k ∈ keys, key ≠ some k) : key.getD "" ∉ keys := by
  cases key with
  | none => exact hempty
  | some k => exact fun hk => h k hk rfl

/-- **A rewriting is not seen** between mended documents. By induction on how a document is
rewritten: each change of the members of a record keeps what is read, and so does a change inside of
what keeps it. -/
theorem Rewrites.kept {s : Shape} {j k : Json} (h : Rewrites s j k) : Kept s j.mend k.mend := by
  induction h with
  | refl s j => exact .refl s j.mend
  | symm _ ih => exact ih.symm
  | trans _ _ ih ih' => exact ih.trans ih'
  | option _ ih => exact ih.option
  | item before after _ ih =>
    simp only [Json.mend_array, List.map_append, List.map_cons]
    exact ih.item _ _
  | column before after hf hs _ ih =>
    rw [← RecordShape.columns_map_mend, List.map_append, List.map_cons,
      ← List.length_map (f := mend)] at hf
    simp only [Json.mend_array, List.map_append, List.map_cons]
    exact ih.column hf hs
  | member before after hf hs _ ih =>
    rw [← RecordShape.fields_map_mendMember, List.map_append, List.map_cons] at hf
    simp only [Json.mend_object, List.map_append, List.map_cons]
    exact ih.member hf hs
  | reorder h =>
    rw [Json.mend_object, Json.mend_object]
    exact .reorder (h.map _)
  | @unknown r key v before after htag hkey hv =>
    -- a key that is no text becomes the empty one, which no field knows either
    have hkeys : ∀ k ∈ (r.fields (before ++ after)).map FieldShape.key, key ≠ some k :=
      List.forall_mem_map.2 hkey
    have hunknown := getD_notMem (r.empty_notMem_keys _) hkeys
    rw [← r.fields_map_mendMember, List.map_append] at hunknown
    simp only [Json.mend_object, List.map_append, List.map_cons]
    exact .insert (getD_notMem r.empty_notMem_tagKeys htag)
      (.of_unknown hunknown ((Json.isWhole_mend v).trans hv) _ _)
  | @absent r f before after hf hoptional habsent =>
    have hne : f.key ≠ "" := fun he => r.empty_notMem_keys _ (List.mem_map.2 ⟨f, hf, he⟩)
    have habsent' : some f.key ∉ ((before ++ after).map mendMember).map Prod.fst := by
      simpa only [List.mem_map, exists_exists_and_eq_and, Json.mendMember_fst_eq_iff hne]
        using habsent
    rw [← r.fields_map_mendMember, List.map_append] at hf
    rw [List.map_append] at habsent'
    simp only [Json.mend_object, List.map_append, List.map_cons]
    exact .insert (RecordShape.key_notMem_tagKeys hf)
      (.of_absent (r.fields_nodup _) hf hoptional habsent')

/-- **Rewritten documents give the same tree.** Let a document be rewritten as the root of a tree,
and take texts of what it was and what it has become. A text is refused if something in its document
is unreadable. If this is so in both documents or in neither, either text is read as a tree exactly
if the other is read as the same tree. -/
theorem Node.parse_eq_ok_iff_of_rewrites {s s' : String} {d d' : Json}
    (hs : Json.ofText s = ⟨d, false⟩) (hs' : Json.ofText s' = ⟨d', false⟩)
    (h : Rewrites (.record .node) d d') (t : Node) :
    (d.Unreadable → Node.parse s ≠ .ok t) ∧ (d'.Unreadable → Node.parse s' ≠ .ok t) ∧
      ((d.Unreadable ↔ d'.Unreadable) → (Node.parse s = .ok t ↔ Node.parse s' = .ok t)) := by
  rw [ne_eq, ne_eq, parse_eq_ok_iff, parse_eq_ok_iff, hs, hs', readRoot_eq_ok_iff,
    readRoot_eq_ok_iff, Json.isSound_iff_not_unreadable, Json.isSound_iff_not_unreadable]
  refine ⟨fun hd hread => hread.2.2.1 hd, fun hd' hread => hread.2.2.1 hd', fun hsame => ?_⟩
  by_cases hd : d.Unreadable
  · simp [hd, hsame.1 hd]
  · have hsound := Json.isSound_of_not_unreadable hd
    have hsound' := Json.isSound_of_not_unreadable (mt hsame.2 hd)
    obtain ⟨-, htag, hread⟩ := h.kept
    rw [Json.mend_of_isSound hsound, Json.mend_of_isSound hsound'] at htag hread
    rw [htag rfl, hsame]
    exact and_congr_right fun _ => and_congr_right fun _ => and_congr_right fun _ => hread t

/-- A span on the first line, written as arrays. -/
def firstLine : Json :=
  .array [.array [.natural 1, .natural 0], .array [.natural 1, .natural 7]]

/-- A program with the given statement. -/
def programOf (statement : Json) : Json :=
  .record [("type", .text "Program"), ("body", .array [statement]), ("loc", firstLine)]

/-- A statement as it is usually written. -/
def usualReturn : Json :=
  .record [("type", .text "ReturnStatement"), ("argument", .null), ("loc", firstLine)]

/-- The statement with its members in another order, one left out and one that no field knows. -/
def otherReturn : Json :=
  .record [("loc", firstLine), ("raw", .array [.text "return"]), ("type", .text "ReturnStatement")]

theorem rewrites_return : Rewrites (.record .node) usualReturn otherReturn := by
  have hdrop : Rewrites (.record .node) usualReturn
      (.record [("type", .text "ReturnStatement"), ("loc", firstLine)]) :=
    .symm (.absent (f := ⟨"argument", some (.option (.record .node)), true⟩)
      [(some "type", .text "ReturnStatement")] [(some "loc", firstLine)] (.head _) rfl (by simp))
  have hswap : Rewrites (.record .node)
      (.record [("type", .text "ReturnStatement"), ("loc", firstLine)])
      (.record [("loc", firstLine), ("type", .text "ReturnStatement")]) := .reorder (.swap _ _ _)
  refine (hdrop.trans hswap).trans ?_
  exact .unknown [(some "loc", firstLine)] [(some "type", .text "ReturnStatement")] (by decide)
    (by decide) rfl

/-- A program with the statement written in either way is read as the same tree. -/
theorem parse_programOf_return :
    Node.parse (programOf usualReturn).toText =
        .ok (.program [.returnStatement none ⟨⟨1, 0⟩, ⟨1, 7⟩⟩] ⟨⟨1, 0⟩, ⟨1, 7⟩⟩) ∧
      Node.parse (programOf otherReturn).toText =
        .ok (.program [.returnStatement none ⟨⟨1, 0⟩, ⟨1, 7⟩⟩] ⟨⟨1, 0⟩, ⟨1, 7⟩⟩) := by
  have husual := Json.ofText_toText (j := programOf usualReturn) rfl
  have hother := Json.ofText_toText (j := programOf otherReturn) rfl
  have hrewrites : Rewrites (.record .node) (programOf usualReturn) (programOf otherReturn) :=
    .member (f := ⟨"body", some (.list (.record .node)), false⟩) [(some "type", .text "Program")]
      [(some "loc", firstLine)] (.head _) rfl (.item [] [] rewrites_return)
  have hread : Node.parse (programOf usualReturn).toText =
      .ok (.program [.returnStatement none ⟨⟨1, 0⟩, ⟨1, 7⟩⟩] ⟨⟨1, 0⟩, ⟨1, 7⟩⟩) := by
    rw [Node.parse_eq_ok_iff, husual]
    exact ⟨rfl, rfl⟩
  have hreadable : (programOf usualReturn).Unreadable ↔ (programOf otherReturn).Unreadable :=
    iff_of_false (Json.isSound_iff_not_unreadable.1 rfl) (Json.isSound_iff_not_unreadable.1 rfl)
  obtain ⟨-, -, hsame⟩ := Node.parse_eq_ok_iff_of_rewrites husual hother hrewrites _
  exact ⟨hread, (hsame hreadable).1 hread⟩

/-- Another statement as it is usually written. -/
def usualBreak : Json := .record [("type", .text "BreakStatement"), ("loc", firstLine)]

/-- The statement with a member that no field knows, and in it the numeral `1e400`. -/
def unboundedBreak : Json :=
  .record [("type", .text "BreakStatement"), ("raw", .number ⟨false, 1, [], some 400⟩),
    ("loc", firstLine)]

/-- A member that no field knows is put into a document that is read as a tree. Its value is a JSON
number, but one beyond all binary numbers, and what was read before is refused. -/
theorem Node.parse_unbounded_member :
    Rewrites (.record .node) usualBreak unboundedBreak ∧
      Json.ofText usualBreak.toText = ⟨usualBreak, false⟩ ∧ usualBreak.isWhole = true ∧
      Json.ofText unboundedBreak.toText = ⟨unboundedBreak, false⟩ ∧
      unboundedBreak.isWhole = true ∧
      Node.parse usualBreak.toText = .ok (.breakStatement ⟨⟨1, 0⟩, ⟨1, 7⟩⟩) ∧
      ∀ t, Node.parse unboundedBreak.toText ≠ .ok t := by
  have hrewrites : Rewrites (.record .node) usualBreak unboundedBreak :=
    .unknown [(some "type", .text "BreakStatement")] [(some "loc", firstLine)] (by decide)
      (by decide) rfl
  have husual := Json.ofText_toText (j := usualBreak) rfl
  have hunbounded : Json.ofText unboundedBreak.toText = ⟨unboundedBreak, false⟩ := rfl
  have hunreadable : unboundedBreak.Unreadable :=
    .member (.tail _ (.head _)) (.number (by decide +kernel))
  refine ⟨hrewrites, husual, rfl, hunbounded, rfl, ?_, fun t ht => ?_⟩
  · rw [parse_eq_ok_iff, husual]
    exact ⟨rfl, rfl⟩
  · rw [parse_eq_ok_iff, hunbounded, readRoot_eq_ok_iff, Json.isSound_iff_not_unreadable] at ht
    exact ht.2.2.1 hunreadable

end ChapterLint
