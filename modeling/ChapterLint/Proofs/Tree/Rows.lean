import ChapterLint.Proofs.Tree.Rewriting

/-!
# Records written as rows

A record may be written as an object or as the row of its values: an array with the value of each
field in the order of the fields, after the tag if the record is a node. A nested node may be tagged
by the number of its kind.

1. `RecordShape.row` writes an object as a row. A field that is left out becomes `null`, and what no
   field knows is left out. The row is read as what the object is read as (`RecordShape.read_row`):
   the members are told by their keys and the items by their order, and both come down to one value
   for each field (`RecordShape.exists_read_object_eq`).
2. `Flattens` says how a document becomes another one by such changes, at any depth. An object that
   is no record may become a row that is one, so only what is read is kept
   (`Flattens.flattened`). For a change inside of a record this uses that what is read in all is read
   in each field (`RecordShape.exists_read_member`, `RecordShape.exists_read_column`).
-/

namespace ChapterLint

open Record (values Holds)

/-! ## Rows -/

namespace Record

/-- The value of a field in a row: the one under its key, or `null`. -/
def cell (ms : List (Option String × Json)) (key : String) : Json :=
  (values key ms).head?.getD .null

variable {ι : Type} {type : ι → Type} {c : Contents type} {shape : ι → Option Shape}
  {ms : List (Option String × Json)}

theorem read_cell (hd : Describes c shape) {f : Field ι} {x : type f.sort}
    (h : Holds c f (values f.key ms) x) : c.read f.sort (cell ms f.key) = .ok x := by
  unfold cell
  rcases h with ⟨hnone, habsent⟩ | ⟨j, hone, hread⟩
  · rw [hnone]
    exact hd.absent f.sort x habsent
  · rw [hone]
    exact hread

theorem takeItems_cells (hd : Describes c shape) (name : String) (size : Nat) :
    ∀ {fs : List (Field ι)} {xs : Tuple type fs} (index : Nat),
      Tuple.All (fun f => Holds c f (values f.key ms)) fs xs →
        takeItems c name size fs index (fs.map fun f => cell ms f.key) = .ok (xs, [])
  | [], (), _, _ => rfl
  | f :: fs, (x, xs), index, h => by
    rw [List.map_cons, takeItems, read_cell hd h.1]
    have hrest := takeItems_cells hd name size (index + 1) h.2
    simp only [bind_eq_ok_iff, pure_eq_ok_iff]
    exact ⟨x, rfl, (xs, []), hrest, rfl⟩

/-- The values of the fields in their order make up the record. -/
theorem ofItems_cells (hd : Describes c shape) {fs : List (Field ι)} {xs : Tuple type fs}
    (h : Tuple.All (fun f => Holds c f (values f.key ms)) fs xs) (place : Place) (name : String) :
    ofItems c place name fs (fs.map fun f => cell ms f.key) = .ok xs := by
  rw [ofItems, takeItems_cells hd name fs.length 0 h]
  rfl

/-- What is read as a record by keys is read in each field. -/
theorem exists_read_of_holds (hd : Describes c shape) {fs : List (Field ι)} {xs : Tuple type fs}
    (h : Tuple.All (fun f => Holds c f (values f.key ms)) fs xs) {f : FieldShape}
    (hf : f ∈ FieldShape.ofFields c shape fs) {s : Shape} (hs : f.shape = some s) {j : Json}
    (hj : (some f.key, j) ∈ ms) : ∃ y, s.read j = .ok y := by
  obtain ⟨g, hg, rfl⟩ := List.mem_map.1 hf
  have hj : j ∈ values g.key ms := mem_values_iff.2 hj
  obtain ⟨x, ⟨hnone, -⟩ | ⟨i, hone, hread⟩⟩ := Tuple.exists_of_all h hg
  · rw [hnone] at hj
    cases hj
  · rw [hone, List.mem_singleton] at hj
    exact hd.exists_read hs (hj ▸ hread)

end Record

/-- A node with one tag is read as a record with the fields of its kind, from the members that are no
tags. -/
theorem Node.read_object_eq {ms : List (Option String × Json)} (hsome : ∀ m ∈ ms, m.1.isSome)
    {tag : Json} (hone : values tagKey ms = [tag]) {k : NodeKind} (htag : readTag tag = .ok k) :
    read (.object ms) =
      k.build <$> Record.ofMembers (Content.reader read) k.fields (Record.without [tagKey] ms) := by
  have htake : takeTag none ms = .ok (k, Record.without [tagKey] ms) := by
    rw [Record.without_singleton]
    exact takeTag_eq_ok_iff.2 ⟨hsome, rfl, .inr ⟨rfl, tag, hone, htag⟩⟩
  rw [read_eq, readWith, htake]
  rfl

namespace RecordShape

/-- The row of a record that is an object. -/
def row (r : RecordShape) (ms : List (Option String × Json)) : List Json :=
  (r.tagKeys ++ (r.fields ms).map FieldShape.key).map (Record.cell ms)

variable {r : RecordShape} {ms : List (Option String × Json)}

theorem tagKeys_of_ne_node (hr : r ≠ .node) : r.tagKeys = [] := by
  cases r with
  | node => exact absurd rfl hr
  | _ => rfl

/-- How an object is read that has the tags of one that is read: as a record with the fields of that
one, from the members that are no tags. The same record is read from the rows with these tags. -/
theorem exists_read_object_eq {x : r.type} (h : r.read (.object ms) = .ok x) :
    (∀ m ∈ ms, m.1.isSome) ∧
      ∃ (ι : Type) (type : ι → Type) (c : Contents type) (shape : ι → Option Shape)
        (fs : List (Field ι)) (g : Tuple type fs → r.type), Describes c shape ∧
          r.fields ms = FieldShape.ofFields c shape fs ∧ (fs.map Field.key).Nodup ∧
          (∀ ms' : List (Option String × Json), (∀ m ∈ ms', m.1.isSome) →
            (∀ key ∈ r.tagKeys, (values key ms').Perm (values key ms)) →
              r.read (.object ms') = g <$> Record.ofMembers c fs (Record.without r.tagKeys ms')) ∧
          ∃ place name, ∀ items, r.read (.array (r.tagKeys.map (Record.cell ms) ++ items)) =
            g <$> Record.ofItems c place name fs items := by
  by_cases hr : r = .node
  · subst hr
    obtain ⟨tag, k, contents, hone, htag, hpass, -, -⟩ := Node.read_object_eq_ok_iff.1 h
    refine ⟨fun m hm => ?_, _, _, Content.reader Node.read, Content.shape, k.fields, k.build,
      Content.describes, ?_, Node.keys_nodup k, fun ms' hsome htags => ?_, .inDocument,
      k.recordName, fun items => ?_⟩
    · obtain ⟨key, hkey, -⟩ := hpass m hm
      rw [hkey]
      rfl
    · rw [fields, Node.objectFields, hone]
      exact Node.tagFields_of_readTag htag
    · have hperm := htags Node.tagKey List.mem_cons_self
      rw [hone, List.perm_singleton] at hperm
      exact Node.read_object_eq hsome hperm htag
    · have hcell : Record.cell ms Node.tagKey = tag := by rw [Record.cell, hone]; rfl
      show Node.read (.array (Record.cell ms Node.tagKey :: items)) = _
      rw [hcell, Node.read_eq, Node.readWith, htag]
      rfl
  · obtain ⟨_, _, c, shape, place, name, fs, g, hd, hfields, hread⟩ := exists_read_eq hr
    have hkeys : (fs.map Field.key).Nodup := by
      have hnodup := r.fields_nodup ms
      rwa [fields_eq_plainFields hr, hfields, FieldShape.map_key_ofFields] at hnodup
    refine ⟨fun m hm => ?_, _, _, c, shape, fs, g, hd, (fields_eq_plainFields hr ms).trans hfields,
      hkeys, fun ms' _ _ => ?_, place, name, fun items => ?_⟩
    · rw [hread] at h
      obtain ⟨xs, hxs, -⟩ := bind_eq_ok_iff.1 h
      obtain ⟨key, hkey, -⟩ := ((Record.ofMembers_eq_ok_iff hkeys).1 hxs).1 m hm
      rw [hkey]
      rfl
    · rw [hread, tagKeys_of_ne_node hr, Record.without_nil]
      rfl
    · rw [tagKeys_of_ne_node hr, hread]
      rfl

/-- What is read from an object: each field holds a content, and the record is the one that any row
of these contents makes up. -/
theorem exists_holds_of_read_object {x : r.type} (h : r.read (.object ms) = .ok x) :
    ∃ (ι : Type) (type : ι → Type) (c : Contents type) (shape : ι → Option Shape)
      (fs : List (Field ι)) (xs : Tuple type fs), Describes c shape ∧
        r.fields ms = FieldShape.ofFields c shape fs ∧
        Tuple.All (fun f => Holds c f (values f.key ms)) fs xs ∧
        ∀ items, (∀ place name, Record.ofItems c place name fs items = .ok xs) →
          r.read (.array (r.tagKeys.map (Record.cell ms) ++ items)) = .ok x := by
  obtain ⟨hsome, _, _, c, shape, fs, g, hd, hfields, hkeys, hread, place, name, hrow⟩ :=
    exists_read_object_eq h
  rw [hread ms hsome fun _ _ => .refl _] at h
  obtain ⟨xs, hxs, hx⟩ := bind_eq_ok_iff.1 h
  refine ⟨_, _, c, shape, fs, xs, hd, hfields, ?_, fun items hitems => ?_⟩
  · refine (Tuple.all_congr fun f hf x => ?_).1 ((Record.ofMembers_eq_ok_iff hkeys).1 hxs).2
    have hmem : ⟨f.key, shape f.sort, (c.absent f.sort).isSome⟩ ∈ r.fields ms :=
      hfields ▸ List.mem_map_of_mem hf
    rw [Record.values_without (key_notMem_tagKeys hmem)]
  · rw [hrow]
    exact bind_eq_ok_iff.2 ⟨xs, hitems place name, hx⟩

/-- **A record is read alike from its row.** -/
theorem read_row {x : r.type} (h : r.read (.object ms) = .ok x) :
    r.read (.array (r.row ms)) = .ok x := by
  obtain ⟨_, _, c, shape, fs, xs, hd, hfields, hall, hrow⟩ := exists_holds_of_read_object h
  have hcells : ((r.fields ms).map FieldShape.key).map (Record.cell ms) =
      fs.map fun f => Record.cell ms f.key := by
    rw [hfields, FieldShape.map_key_ofFields, List.map_map]
    rfl
  rw [row, List.map_append, hcells]
  exact hrow _ (Record.ofItems_cells hd hall)

/-- What is read in all from an object is read in each field. -/
theorem exists_read_member {x : r.type} (h : r.read (.object ms) = .ok x) {f : FieldShape}
    (hf : f ∈ r.fields ms) {s : Shape} (hs : f.shape = some s) {j : Json}
    (hj : (some f.key, j) ∈ ms) : ∃ y, s.read j = .ok y := by
  obtain ⟨_, _, c, shape, fs, xs, hd, hfields, hall, -⟩ := exists_holds_of_read_object h
  exact Record.exists_read_of_holds hd hall (hfields ▸ hf) hs hj

/-- How an array is read that differs from one that is read in the item of a field: as a record with
the fields of that one. -/
theorem exists_read_array_eq {before after : List Json} {j : Json} {x : r.type}
    (h : r.read (.array (before ++ j :: after)) = .ok x) {f : FieldShape}
    (hf : (r.columns (before ++ j :: after))[before.length]? = some f) {s : Shape}
    (hs : f.shape = some s) :
    ∃ (ι : Type) (type : ι → Type) (c : Contents type) (shape : ι → Option Shape)
      (fs : List (Field ι)) (place : Record.Place) (name : String) (g : Tuple type fs → r.type)
      (front : List Json) (field : Field ι), Describes c shape ∧ shape field.sort = some s ∧
        fs[front.length]? = some field ∧
        ∀ k, r.read (.array (before ++ k :: after)) =
          g <$> Record.ofItems c place name fs (front ++ k :: after) := by
  by_cases hr : r = .node
  · subst hr
    cases before with
    | nil =>
      -- the tag is nothing to rewrite
      obtain rfl := Option.some_inj.1 hf
      cases hs
    | cons tag front =>
      have h : Node.read (.array (tag :: (front ++ j :: after))) = .ok x := h
      rw [Node.read_eq, Node.readWith] at h
      obtain ⟨kind, htag, -⟩ := bind_eq_ok_iff.1 h
      have hf : (Node.tagFields tag)[front.length]? = some f := hf
      rw [Node.tagFields_of_readTag htag, NodeKind.fieldShapes, List.getElem?_map,
        Option.map_eq_some_iff] at hf
      obtain ⟨field, hfield, rfl⟩ := hf
      refine ⟨_, _, Content.reader Node.read, Content.shape, kind.fields, .inDocument,
        kind.recordName, kind.build, front, field, Content.describes, hs, hfield, fun k => ?_⟩
      show Node.read (.array (tag :: (front ++ k :: after))) = _
      rw [Node.read_eq, Node.readWith, htag]
      rfl
  · obtain ⟨_, _, c, shape, place, name, fs, g, hd, hfields, hread⟩ := exists_read_eq hr
    rw [columns_eq_plainFields hr, hfields, FieldShape.ofFields, List.getElem?_map,
      Option.map_eq_some_iff] at hf
    obtain ⟨field, hfield, rfl⟩ := hf
    exact ⟨_, _, c, shape, fs, place, name, g, before, field, hd, hs, hfield, fun k => hread _⟩

/-- What is read in all from an array is read in each field. -/
theorem exists_read_column {before after : List Json} {j : Json} {x : r.type}
    (h : r.read (.array (before ++ j :: after)) = .ok x) {f : FieldShape}
    (hf : (r.columns (before ++ j :: after))[before.length]? = some f) {s : Shape}
    (hs : f.shape = some s) : ∃ y, s.read j = .ok y := by
  obtain ⟨_, _, c, shape, fs, place, name, g, front, field, hd, hshape, hfield, hread⟩ :=
    exists_read_array_eq h hf hs
  rw [hread] at h
  obtain ⟨xs, hxs, -⟩ := bind_eq_ok_iff.1 h
  obtain ⟨_, hitems, -⟩ := bind_eq_ok_iff.1 hxs
  obtain ⟨y, hy⟩ := Record.exists_read_of_takeItems hfield hitems
  exact hd.exists_read hshape hy

end RecordShape

/-! ## Numbered tags -/

/-- The number of a kind in the order of the kinds. -/
def NodeKind.index (k : NodeKind) : Nat := all.idxOf k

namespace Node

theorem readTag_name (k : NodeKind) : readTag (.text k.name) = .ok k := by
  show Except.ok (NodeKind.ofName k.name) = _
  rw [NodeKind.ofName_name]

theorem readTag_index (k : NodeKind) : readTag (.natural k.index) = .ok k := by
  cases k <;> rfl

theorem isSound_index (k : NodeKind) : (Json.natural k.index).isSound = true := by
  cases k <;> rfl

/-- A tag in an array may number the kind. -/
theorem read_numbered_array (k : NodeKind) (items : List Json) :
    read (.array (.natural k.index :: items)) = read (.array (.text k.name :: items)) := by
  rw [read_eq, read_eq, readWith, readWith, readTag_index, readTag_name]

/-- A tag in an object may number the kind. -/
theorem read_numbered_object {k : NodeKind} {before after : List (Option String × Json)} {n : Node}
    (h : read (.object (before ++ (some tagKey, .text k.name) :: after)) = .ok n) :
    read (.object (before ++ (some tagKey, .natural k.index) :: after)) = .ok n := by
  obtain ⟨tag, k', contents, hone, htag, hpass, hall, rfl⟩ := read_object_eq_ok_iff.1 h
  rw [Record.values_insert_self, List.append_eq_singleton_iff] at hone
  obtain ⟨hbefore, hone⟩ | ⟨-, hnil⟩ := hone
  · obtain ⟨rfl, hafter⟩ := List.cons.inj hone
    obtain rfl : k = k' := Except.ok.inj ((readTag_name k).symm.trans htag)
    refine read_object_eq_ok_iff.2 ⟨.natural k.index, k, contents, ?_, readTag_index k, ?_, ?_, rfl⟩
    · rw [Record.values_insert_self, hbefore, hafter]
      rfl
    · rw [Record.passable_insert_iff] at hpass ⊢
      exact ⟨fun _ => isWhole_of_readTag (readTag_index k), hpass.2⟩
    · -- the tag is no field, so the fields hold what they held
      refine (Tuple.all_congr fun f hf x => ?_).1 hall
      have hne : ∀ i : Json, (some tagKey, i).1 ≠ some f.key := fun i he =>
        tagKey_notMem_keys k (Option.some_inj.1 he ▸ List.mem_map_of_mem hf)
      rw [Record.values_insert_of_ne (hne _), Record.values_insert_of_ne (hne _)]
  · cases hnil

end Node

/-! ## Flattening -/

/-- A document of a shape becomes another one: records at any depth are written as rows, and nested
nodes are tagged by numbers, any number of times. -/
inductive Flattens : (nested : Bool) → Shape → Json → Json → Prop
  | refl (nested : Bool) (s : Shape) (j : Json) : Flattens nested s j j
  | trans {nested : Bool} {s : Shape} {j k l : Json} (h : Flattens nested s j k)
      (h' : Flattens nested s k l) : Flattens nested s j l
  /-- A record is written as its row. -/
  | row {nested : Bool} (r : RecordShape) (ms : List (Option String × Json)) :
      Flattens nested (.record r) (.object ms) (.array (r.row ms))
  /-- The tag of a nested node that is an array becomes a number. -/
  | numberItem (kind : NodeKind) (items : List Json) :
      Flattens true (.record .node) (.array (.text kind.name :: items))
        (.array (.natural kind.index :: items))
  /-- The tag of a nested node that is an object becomes a number. -/
  | numberMember (kind : NodeKind) (before after : List (Option String × Json)) :
      Flattens true (.record .node)
        (.object (before ++ (some Node.tagKey, .text kind.name) :: after))
        (.object (before ++ (some Node.tagKey, .natural kind.index) :: after))
  /-- Inside what may be absent. -/
  | option {nested : Bool} {s : Shape} {j k : Json} (h : Flattens true s j k) :
      Flattens nested (.option s) j k
  /-- Inside an item of a list. -/
  | item {nested : Bool} {s : Shape} {j k : Json} (before after : List Json)
      (h : Flattens true s j k) :
      Flattens nested (.list s) (.array (before ++ j :: after)) (.array (before ++ k :: after))
  /-- Inside a field of a record that is an array. -/
  | column {nested : Bool} {r : RecordShape} {f : FieldShape} {s : Shape} {j k : Json}
      (before after : List Json)
      (hf : (r.columns (before ++ j :: after))[before.length]? = some f) (hs : f.shape = some s)
      (h : Flattens true s j k) :
      Flattens nested (.record r) (.array (before ++ j :: after)) (.array (before ++ k :: after))
  /-- Inside a field of a record that is an object. -/
  | member {nested : Bool} {r : RecordShape} {f : FieldShape} {s : Shape} {j k : Json}
      (before after : List (Option String × Json))
      (hf : f ∈ r.fields (before ++ (some f.key, j) :: after)) (hs : f.shape = some s)
      (h : Flattens true s j k) :
      Flattens nested (.record r) (.object (before ++ (some f.key, j) :: after))
        (.object (before ++ (some f.key, k) :: after))

/-- What flattening keeps: whether the document is `null`, that it is sound, that a root has the tag
of one, and what is read from it. -/
structure Flattened (nested : Bool) (s : Shape) (j k : Json) : Prop where
  null : j = .null ↔ k = .null
  sound : j.isSound = true → k.isSound = true
  tag : nested = false → s = .record .node → Node.HasTextTag j → Node.HasTextTag k
  read : ∀ x, s.read j = .ok x → s.read k = .ok x

namespace Flattened

variable {nested : Bool} {s : Shape} {r : RecordShape} {j k : Json}

theorem refl (nested : Bool) (s : Shape) (j : Json) : Flattened nested s j j :=
  ⟨Iff.rfl, fun h => h, fun _ _ h => h, fun _ h => h⟩

theorem trans {l : Json} (h : Flattened nested s j k) (h' : Flattened nested s k l) :
    Flattened nested s j l :=
  ⟨h.null.trans h'.null, fun hj => h'.sound (h.sound hj),
    fun hn hs hj => h'.tag hn hs (h.tag hn hs hj), fun x hx => h'.read x (h.read x hx)⟩

/-- What is read at all is read alike. -/
theorem sameRead (h : Flattened nested s j k) (hread : ∃ y, s.read j = .ok y) :
    SameRead s.read j k := by
  obtain ⟨y, hy⟩ := hread
  intro x
  rw [hy, h.read y hy]

theorem sound_row (ms : List (Option String × Json)) (h : (Json.object ms).isSound = true) :
    (Json.array (r.row ms)).isSound = true := by
  rw [Json.isSound, Json.membersSound_iff] at h
  rw [Json.isSound, Json.areSound_iff]
  intro i hi
  obtain ⟨key, -, rfl⟩ := List.mem_map.1 hi
  unfold Record.cell
  cases hvalues : values key ms with
  | nil => rfl
  | cons i rest =>
    have hi : (some key, i) ∈ ms := Record.mem_values_iff.1 (hvalues ▸ List.mem_cons_self)
    exact (h _ hi).2

theorem row (r : RecordShape) (ms : List (Option String × Json)) :
    Flattened nested (.record r) (.object ms) (.array (r.row ms)) := by
  refine ⟨by simp, sound_row ms, fun _ hr htag => ?_, fun x hx => RecordShape.read_row hx⟩
  cases hr
  obtain ⟨text, hone⟩ := htag
  refine ⟨text, ?_⟩
  rw [Record.cell, hone]
  rfl

theorem numberItem (kind : NodeKind) (items : List Json) :
    Flattened true (.record .node) (.array (.text kind.name :: items))
      (.array (.natural kind.index :: items)) := by
  refine ⟨by simp, fun h => ?_, nofun, fun x hx => (Node.read_numbered_array kind items).trans hx⟩
  rw [Json.isSound, Json.areSound, Bool.and_eq_true] at h ⊢
  exact ⟨Node.isSound_index kind, h.2⟩

theorem numberMember (kind : NodeKind) (before after : List (Option String × Json)) :
    Flattened true (.record .node)
      (.object (before ++ (some Node.tagKey, .text kind.name) :: after))
      (.object (before ++ (some Node.tagKey, .natural kind.index) :: after)) := by
  refine ⟨by simp, fun h => ?_, nofun, fun x hx => Node.read_numbered_object hx⟩
  rw [Json.isSound, Json.membersSound_iff, List.forall_mem_append, List.forall_mem_cons] at h ⊢
  exact ⟨h.1, ⟨rfl, Node.isSound_index kind⟩, h.2.2⟩

theorem option (h : Flattened true s j k) : Flattened nested (.option s) j k := by
  refine ⟨h.null, h.sound, nofun, fun o ho => ?_⟩
  by_cases hj : j = .null
  · rw [h.null.1 hj]
    exact hj ▸ ho
  · have hread : ∃ y, s.read j = .ok y := by
      have ho : Json.asOption s.read j = .ok o := ho
      rw [Json.asOption_of_ne_null hj] at ho
      obtain ⟨y, hy, -⟩ := bind_eq_ok_iff.1 ho
      exact ⟨y, hy⟩
    exact ((h.sameRead hread).asOption h.null o).1 ho

theorem sound_array (h : Flattened true s j k) {before after : List Json}
    (hsound : (Json.array (before ++ j :: after)).isSound = true) :
    (Json.array (before ++ k :: after)).isSound = true := by
  rw [Json.isSound, Json.areSound_iff, List.forall_mem_append, List.forall_mem_cons] at hsound ⊢
  exact ⟨hsound.1, h.sound hsound.2.1, hsound.2.2⟩

theorem item (h : Flattened true s j k) (before after : List Json) :
    Flattened nested (.list s) (.array (before ++ j :: after)) (.array (before ++ k :: after)) := by
  refine ⟨by simp, h.sound_array, nofun, fun xs hxs => ?_⟩
  have hitems : (before ++ j :: after).mapM s.read = .ok xs := hxs
  have hread : ∃ y, s.read j = .ok y := exists_ok_of_mapM hitems (by simp)
  exact ((h.sameRead hread).asList before after xs).1 hxs

theorem column (h : Flattened true s j k) {f : FieldShape} {before after : List Json}
    (hf : (r.columns (before ++ j :: after))[before.length]? = some f) (hs : f.shape = some s) :
    Flattened nested (.record r) (.array (before ++ j :: after))
      (.array (before ++ k :: after)) := by
  refine ⟨by simp, h.sound_array, fun _ hr htag => ?_, fun x hx => ?_⟩
  · cases hr
    cases before with
    | nil =>
      obtain rfl := Option.some_inj.1 hf
      cases hs
    | cons tag before => exact htag
  · have hsame := h.sameRead (RecordShape.exists_read_column hx hf hs)
    exact (r.sameRead_array hf hs hsame x).1 hx

theorem member (h : Flattened true s j k) {f : FieldShape}
    {before after : List (Option String × Json)}
    (hf : f ∈ r.fields (before ++ (some f.key, j) :: after)) (hs : f.shape = some s) :
    Flattened nested (.record r) (.object (before ++ (some f.key, j) :: after))
      (.object (before ++ (some f.key, k) :: after)) := by
  have htags := RecordShape.values_tagKeys hf k
  refine ⟨by simp, fun hsound => ?_, fun _ hr htag => ?_, fun x hx => ?_⟩
  · rw [Json.isSound, Json.membersSound_iff, List.forall_mem_append, List.forall_mem_cons]
      at hsound ⊢
    exact ⟨hsound.1, ⟨rfl, h.sound hsound.2.1.2⟩, hsound.2.2⟩
  · cases hr
    obtain ⟨text, hone⟩ := htag
    exact ⟨text, (htags _ List.mem_cons_self).symm.trans hone⟩
  · have hsame := h.sameRead (RecordShape.exists_read_member hx hf hs (by simp))
    have halike := AlikeMembers.of_member (r.fields_nodup _) hf hs hsame before after
    exact (RecordShape.sameRead_object (fun key hkey => .of_eq (htags key hkey)) halike x).1 hx

end Flattened

/-- **A flattened document is read alike.** By induction on how a document is flattened. Only a
change inside of a record, a list or an option has something to do: what is read in all is read
where the change is made, and so the change is not seen from outside. -/
theorem Flattens.flattened {nested : Bool} {s : Shape} {j k : Json} (h : Flattens nested s j k) :
    Flattened nested s j k := by
  induction h with
  | refl nested s j => exact .refl nested s j
  | trans _ _ ih ih' => exact ih.trans ih'
  | row r ms => exact .row r ms
  | numberItem kind items => exact .numberItem kind items
  | numberMember kind before after => exact .numberMember kind before after
  | option _ ih => exact ih.option
  | item before after _ ih => exact ih.item before after
  | column before after hf hs _ ih => exact ih.column hf hs
  | member before after hf hs _ ih => exact ih.member hf hs

/-- **Rows give the same tree.** Let a text be read as a tree, and let its document be flattened:
some of its records are written as rows, and nested nodes are tagged by numbers. Then every text of
the flattened document is read as the same tree. -/
theorem Node.parse_eq_ok_of_flattens {s s' : String} {d d' : Json}
    (hs : Json.ofText s = ⟨d, false⟩) (hs' : Json.ofText s' = ⟨d', false⟩)
    (h : Flattens false (.record .node) d d') {t : Node} (ht : Node.parse s = .ok t) :
    Node.parse s' = .ok t := by
  obtain ⟨-, hsound, htag, hread⟩ := h.flattened
  rw [parse_eq_ok_iff, hs, readRoot_eq_ok_iff] at ht
  obtain ⟨-, hroot, hwhole, ht⟩ := ht
  rw [parse_eq_ok_iff, hs', readRoot_eq_ok_iff]
  exact ⟨rfl, htag rfl rfl hroot, hsound hwhole, hread t ht⟩

/-- A statement as a row, tagged by the number of its kind. -/
def flatReturn : Json := .array [.natural 6, .null, firstLine]

/-- A program with the given statement as a row. -/
def flatProgramOf (statement : Json) : Json :=
  .array [.text "Program", .array [statement], firstLine]

theorem flattens_return : Flattens true (.record .node) otherReturn flatReturn := by
  have hrow : Flattens true (.record .node) otherReturn
      (.array [.text "ReturnStatement", .null, firstLine]) :=
    .row .node [(some "loc", firstLine), (some "raw", .array [.text "return"]),
      (some "type", .text "ReturnStatement")]
  exact hrow.trans (.numberItem .returnStatement [.null, firstLine])

theorem flattens_program :
    Flattens false (.record .node) (programOf otherReturn) (flatProgramOf flatReturn) := by
  have hinner : Flattens false (.record .node) (programOf otherReturn) (programOf flatReturn) :=
    .member (f := ⟨"body", some (.list (.record .node)), false⟩) [(some "type", .text "Program")]
      [(some "loc", firstLine)] (.head _) rfl (.item [] [] flattens_return)
  exact hinner.trans (.row .node [(some "type", .text "Program"),
    (some "body", .array [flatReturn]), (some "loc", firstLine)])

/-- A program with the statement, written as objects and as rows, is read as the same tree. -/
theorem parse_flatProgramOf_return :
    Node.parse (programOf otherReturn).toText =
        .ok (.program [.returnStatement none ⟨⟨1, 0⟩, ⟨1, 7⟩⟩] ⟨⟨1, 0⟩, ⟨1, 7⟩⟩) ∧
      Node.parse (flatProgramOf flatReturn).toText =
        .ok (.program [.returnStatement none ⟨⟨1, 0⟩, ⟨1, 7⟩⟩] ⟨⟨1, 0⟩, ⟨1, 7⟩⟩) := by
  have hother := Json.ofText_toText (j := programOf otherReturn) rfl
  have hflat := Json.ofText_toText (j := flatProgramOf flatReturn) rfl
  have hread : Node.parse (programOf otherReturn).toText =
      .ok (.program [.returnStatement none ⟨⟨1, 0⟩, ⟨1, 7⟩⟩] ⟨⟨1, 0⟩, ⟨1, 7⟩⟩) := by
    rw [Node.parse_eq_ok_iff, hother]
    exact ⟨rfl, rfl⟩
  exact ⟨hread, Node.parse_eq_ok_of_flattens hother hflat flattens_program hread⟩

end ChapterLint
