import ChapterLint.Proofs.Json.Following
import ChapterLint.Proofs.Json.Holes
import ChapterLint.Proofs.Tree.Rows

/-!
# Scalars of a tree

A document with a hole is read as a tree with a hole. Below the shapes of a document stand scalars:
the coordinates of positions and the values of literals. If the hole of a document is where such a
scalar is read, then with any scalar in it the document is read as the same tree with this scalar in
its place, or fails as the scalar does.

1. A `Part` is a shape or a scalar. A path leads from a part to a scalar inside of it, through
   fields, items and what may be absent, and `Part.put` puts a scalar at the end of a path.
2. `HoleAt` says that the hole of a document is read at the end of a path.
3. Every record follows its fields, nodes included (`RecordShape.follows_object`,
   `RecordShape.follows_array`). Hence the whole document follows the scalar at its hole
   (`HoleAt.follows`), and so does a text with a place for a number (`Node.parse_text_iff`).
-/

namespace ChapterLint

open Record (values Holds)

/-! ## Parts and paths -/

/-- What stands at a place of a document, down to the scalars. -/
inductive Part where
  | shape (s : Shape)
  | coordinate
  | value

/-- The type of what is read. -/
@[reducible]
def Part.type : Part → Type
  | .shape s => s.type
  | .coordinate => UInt32
  | .value => Value

/-- How a part of a document is read. -/
def Part.read : (p : Part) → Json → Except Fault p.type
  | .shape s => s.read
  | .coordinate => readCoordinate
  | .value => Value.ofJson

/-- A step of a path: to a field, to an item, or to what is present where it may be absent. -/
inductive Turn where
  | field (key : String)
  | item (index : Nat)
  | present
deriving DecidableEq, Repr

/-- A scalar. -/
inductive Scalar where
  | coordinate (n : UInt32)
  | value (v : Value)

/-- Changes the content of a field of a node as the part that it is. -/
def Content.modify (f : (p : Part) → p.type → p.type) : (c : Content) → c.type → c.type
  | .node => f (.shape (.record .node))
  | .optionalNode => f (.shape (.option (.record .node)))
  | .nodes => f (.shape (.list (.record .node)))
  | .elements => f (.shape (.list (.option (.record .node))))
  | .identifier => f (.shape (.record .identifier))
  | .optionalIdentifier => f (.shape (.option (.record .identifier)))
  | .declarators => f (.shape (.list (.record .declarator)))
  | .value => f .value
  | .span => f (.shape (.record .span))
  | .variableKind => id
  | .text => id
  | .flag => id

/-- Changes the content of a field of a record as the part that it is. -/
def RecordShape.modify (key : String) (f : (p : Part) → p.type → p.type) :
    (r : RecordShape) → r.type → r.type
  | .node, n => n.kind.build (Tuple.modify key (Content.modify f) n.kind.fields n.contents)
  | .identifier, x => ⟨x.name, if "loc" = key then f (.shape (.record .span)) x.span else x.span⟩
  | .declarator, x =>
    ⟨if "id" = key then f (.shape (.record .identifier)) x.id else x.id,
      if "init" = key then f (.shape (.option (.record .node))) x.init else x.init,
      if "loc" = key then f (.shape (.record .span)) x.span else x.span⟩
  | .span, x =>
    ⟨if "start" = key then f (.shape (.record .position)) x.first else x.first,
      if "end" = key then f (.shape (.record .position)) x.last else x.last⟩
  | .position, x =>
    ⟨if "line" = key then f .coordinate x.line else x.line,
      if "column" = key then f .coordinate x.column else x.column⟩

/-- Puts a scalar at the end of a path. Where the path does not lead to such a scalar, nothing
changes. -/
def Part.put (y : Scalar) : List Turn → (p : Part) → p.type → p.type
  | [], .coordinate, x =>
    match y with
    | .coordinate n => n
    | .value _ => x
  | [], .value, x =>
    match y with
    | .coordinate _ => x
    | .value v => v
  | .field key :: path, .shape (.record r), x => r.modify key (Part.put y path) x
  | .item index :: path, .shape (.list s), xs => xs.modify index (Part.put y path (.shape s))
  | .present :: path, .shape (.option s), o => o.map (Part.put y path (.shape s))
  | _, _, x => x

/-- Puts a scalar at the end of a path in a tree. -/
def Node.put (y : Scalar) (path : List Turn) (n : Node) : Node :=
  Part.put y path (.shape (.record .node)) n

/-! ## Holes -/

/-- The sorts of scalars. -/
inductive ScalarSort where
  | coordinate
  | value

/-- The part that a scalar is. -/
def ScalarSort.part : ScalarSort → Part
  | .coordinate => .coordinate
  | .value => .value

/-- How a scalar is read. -/
def ScalarSort.read : ScalarSort → Json → Except Fault Scalar
  | .coordinate, j => .coordinate <$> readCoordinate j
  | .value, j => .value <$> Value.ofJson j

/-- The part that a field of a record holds. Of the fields without a shape those of a position are
coordinates, and of those of a node the one called `value` is a value. -/
def RecordShape.part? (r : RecordShape) (f : FieldShape) : Option Part :=
  match f.shape, r with
  | some s, _ => some (.shape s)
  | none, .position => some .coordinate
  | none, .node => if f.key = "value" then some .value else none
  | none, _ => none

/-- The hole of a document that is read as a part is where the scalar at the end of the path is
read. Nothing else is cut. -/
inductive HoleAt (k : ScalarSort) : Part → Json → List Turn → Prop
  /-- The scalar is the whole. -/
  | here : HoleAt k k.part .cut []
  /-- Inside what may be absent. -/
  | option {s : Shape} {d : Json} {path : List Turn} (h : HoleAt k (.shape s) d path) :
      HoleAt k (.shape (.option s)) d (.present :: path)
  /-- Inside an item of a list. -/
  | item {s : Shape} {d : Json} {path : List Turn} (before after : List Json)
      (hwhole : ∀ i ∈ before ++ after, i.isWhole = true) (h : HoleAt k (.shape s) d path) :
      HoleAt k (.shape (.list s)) (.array (before ++ d :: after)) (.item before.length :: path)
  /-- Inside a field of a record that is an array. -/
  | column {r : RecordShape} {f : FieldShape} {p : Part} {d : Json} {path : List Turn}
      (before after : List Json) (hwhole : ∀ i ∈ before ++ after, i.isWhole = true)
      (hf : (r.columns before)[before.length]? = some f) (hp : r.part? f = some p)
      (h : HoleAt k p d path) :
      HoleAt k (.shape (.record r)) (.array (before ++ d :: after)) (.field f.key :: path)
  /-- Inside a field of a record that is an object. -/
  | member {r : RecordShape} {f : FieldShape} {p : Part} {d : Json} {path : List Turn}
      (before after : List (Option String × Json))
      (hwhole : ∀ m ∈ before ++ after, m.2.isWhole = true)
      (hf : f ∈ r.fields (before ++ after)) (hp : r.part? f = some p) (h : HoleAt k p d path) :
      HoleAt k (.shape (.record r)) (.object (before ++ (some f.key, d) :: after))
        (.field f.key :: path)

namespace Json

theorem plug_item {before after : List Json} (h : ∀ i ∈ before ++ after, i.isWhole = true)
    (d k : Json) : (Json.array (before ++ d :: after)).plug k =
      .array (before ++ d.plug k :: after) := by
  rw [List.forall_mem_append] at h
  have hself : ∀ js : List Json, (∀ j ∈ js, j.isWhole = true) → js.map (fun j => j.plug k) = js :=
    fun js hjs =>
      (List.map_congr_left fun j hj => plug_of_isWhole k (hjs j hj)).trans (List.map_id' _)
  rw [plug_array, List.map_append, List.map_cons, hself before h.1, hself after h.2]

theorem plug_member {before after : List (Option String × Json)}
    (h : ∀ m ∈ before ++ after, m.2.isWhole = true) (key : Option String) (d k : Json) :
    (Json.object (before ++ (key, d) :: after)).plug k =
      .object (before ++ (key, d.plug k) :: after) := by
  rw [List.forall_mem_append] at h
  have hself : ∀ ms : List (Option String × Json), (∀ m ∈ ms, m.2.isWhole = true) →
      ms.map (fun m => (m.1, m.2.plug k)) = ms := by
    intro ms hms
    refine (List.map_congr_left fun m hm => ?_).trans (List.map_id' _)
    rw [plug_of_isWhole k (hms m hm)]
  rw [plug_object, List.map_append, List.map_cons, hself before h.1, hself after h.2]

end Json

/-! ## Records -/

/-- The contents of a record split into parts: what is read as a content is made from what is read
as its part, and is changed as the part is. -/
structure Splits {ι : Type} {type : ι → Type} (c : Contents type) (part : ι → Option Part)
    (modify : ((p : Part) → p.type → p.type) → (i : ι) → type i → type i) : Prop where
  made : ∀ i p, part i = some p → ∃ g : p.type → type i,
    (∀ j, c.read i j = g <$> p.read j) ∧ ∀ f x, modify f i (g x) = g (f p x)

/-- A content follows its part. -/
theorem Splits.follows {ι : Type} {type : ι → Type} {c : Contents type} {part : ι → Option Part}
    {modify : ((p : Part) → p.type → p.type) → (i : ι) → type i → type i}
    (hs : Splits c part modify) {i : ι} {p : Part} (hi : part i = some p) {path : List Turn}
    {scalar : Except Fault Scalar} {j k : Json}
    (h : Follows p.read (fun y => Part.put y path p) scalar j k) :
    Follows (c.read i) (fun y => modify (Part.put y path) i) scalar j k := by
  obtain ⟨g, hread, hmodify⟩ := hs.made i p hi
  rw [funext hread]
  exact h.map fun y x => hmodify (Part.put y path) x

/-- The part that a content of a node is. -/
def Content.part : Content → Option Part
  | .value => some .value
  | c => c.shape.map Part.shape

theorem Content.splits : Splits (Content.reader Node.read) Content.part Content.modify where
  made c p hp := by
    cases c with
    | variableKind | text | flag => cases hp
    | _ => cases hp; exact ⟨id, fun j => (id_map _).symm, fun _ _ => rfl⟩

/-- The fields of a kind are the parts that their shapes say. -/
theorem NodeKind.map_part_fieldShapes (k : NodeKind) :
    k.fieldShapes.map (fun f => (f.key, RecordShape.node.part? f)) =
      k.fields.map fun f => (f.key, f.sort.part) := by
  cases k <;> rfl

theorem NodeKind.modify_build (key : String) (f : (p : Part) → p.type → p.type) (k : NodeKind)
    (xs : k.Contents) : RecordShape.node.modify key f (k.build xs) =
      k.build (Tuple.modify key (Content.modify f) k.fields xs) := by
  cases k <;> rfl

/-- The part that a content of a declarator is. -/
def Declarator.part : Declarator.Part → ChapterLint.Part
  | .id => .shape (.record .identifier)
  | .init => .shape (.option (.record .node))
  | .span => .shape (.record .span)

/-- Changes a content of a declarator as the part that it is. -/
def Declarator.modify (f : (p : ChapterLint.Part) → p.type → p.type) :
    (p : Declarator.Part) → p.type → p.type
  | .id => f (.shape (.record .identifier))
  | .init => f (.shape (.option (.record .node)))
  | .span => f (.shape (.record .span))

theorem Declarator.splits :
    Splits (Declarator.parts Node.read) (fun p => some (part p)) Declarator.modify where
  made c p hp := by
    cases c <;> cases hp <;> exact ⟨fun x => x, fun j => (id_map _).symm, fun _ _ => rfl⟩

/-- Changes the two contents of a pair. -/
def Record.pairModify {α β : Type} (f : α → α) (g : β → β) :
    (b : Bool) → PairType α β b → PairType α β b
  | false => f
  | true => g

namespace RecordShape

/-- A record that is no node is read as a record whose contents split into its parts. -/
theorem exists_splits {r : RecordShape} (hr : r ≠ .node) :
    ∃ (ι : Type) (type : ι → Type) (c : Contents type) (part : ι → Option Part)
      (modify : ((p : Part) → p.type → p.type) → (i : ι) → type i → type i)
      (place : Record.Place) (name : String) (fs : List (Field ι)) (g : Tuple type fs → r.type),
      Splits c part modify ∧ (fs.map Field.key).Nodup ∧
        r.plainFields.map (fun f => (f.key, r.part? f)) =
          fs.map (fun f => (f.key, part f.sort)) ∧
        (∀ j, r.read j = g <$> Record.read c place name fs j) ∧
        ∀ key f xs, r.modify key f (g xs) = g (Tuple.modify key (modify f) fs xs) := by
  cases r with
  | node => exact absurd rfl hr
  | identifier =>
    refine ⟨_, _, _, fun b => if b then some (.shape (.record .span)) else none,
      fun f => Record.pairModify id (f (.shape (.record .span))), _, _, _, _,
      ⟨fun b p hp => ?_⟩, ?_, rfl, Record.readPair_bind _ _ _ _ _, fun key f xs => ?_⟩
    · cases b <;> cases hp
      exact ⟨id, fun j => (id_map _).symm, fun _ _ => rfl⟩
    · decide
    · simp only [modify, Tuple.modify, Record.pairModify, id, ite_self]
  | declarator =>
    refine ⟨_, _, _, _, _, _, _, _, _, Declarator.splits, ?_, rfl, fun j => rfl, fun _ _ _ => rfl⟩
    decide
  | span =>
    refine ⟨_, _, _, fun _ => some (.shape (.record .position)),
      fun f => Record.pairModify (f (.shape (.record .position))) (f (.shape (.record .position))),
      _, _, _, _, ⟨fun b p hp => ?_⟩, ?_, rfl, Record.readPair_bind _ _ _ _ _, fun _ _ _ => rfl⟩
    · cases b <;> cases hp <;> exact ⟨id, fun j => (id_map _).symm, fun _ _ => rfl⟩
    · decide
  | position =>
    refine ⟨_, _, _, fun _ => some .coordinate,
      fun f => Record.pairModify (f .coordinate) (f .coordinate), _, _, _, _,
      ⟨fun b p hp => ?_⟩, ?_, rfl, Record.readPair_bind _ _ _ _ _, fun _ _ _ => rfl⟩
    · cases b <;> cases hp <;> exact ⟨id, fun j => (id_map _).symm, fun _ _ => rfl⟩
    · decide

variable {r : RecordShape} {f : FieldShape} {p : Part} {scalar : Except Fault Scalar} {j k : Json}
  {path : List Turn}

/-- A node that is an object follows its fields. -/
theorem follows_nodeObject {before after : List (Option String × Json)}
    (hf : f ∈ Node.objectFields (before ++ after)) (hp : RecordShape.node.part? f = some p)
    (h : Follows p.read (fun y => Part.put y path p) scalar j k) :
    Follows Node.read (fun y => RecordShape.node.modify f.key (Part.put y path)) scalar
      (.object (before ++ (some f.key, j) :: after))
      (.object (before ++ (some f.key, k) :: after)) := by
  have htagKey : f.key ∉ [Node.tagKey] := key_notMem_tagKeys (r := .node) hf
  have hne : ∀ i : Json, (some f.key, i).1 ≠ some Node.tagKey := fun i he =>
    htagKey (List.mem_singleton.2 (Option.some_inj.1 he))
  intro x hx
  obtain ⟨tag, kind, -, hone, htag, hpass, -, -⟩ := Node.read_object_eq_ok_iff.1 hx
  have hsome : ∀ i : Json, ∀ m ∈ before ++ (some f.key, i) :: after, m.1.isSome := by
    intro i
    have hkeys : ∀ m ∈ before ++ (some f.key, j) :: after, m.1.isSome := by
      intro m hm
      obtain ⟨key, hkey, -⟩ := hpass m hm
      rw [hkey]
      rfl
    rw [List.forall_mem_append, List.forall_mem_cons] at hkeys ⊢
    exact ⟨hkeys.1, rfl, hkeys.2.2⟩
  rw [Record.values_insert_of_ne (hne j)] at hone
  have hread : ∀ i : Json, Node.read (.object (before ++ (some f.key, i) :: after)) =
      kind.build <$> Record.ofMembers (Content.reader Node.read) kind.fields
        (Record.without [Node.tagKey] before ++
          (some f.key, i) :: Record.without [Node.tagKey] after) := by
    intro i
    have hone' := (Record.values_insert_of_ne (hne i) before after).trans hone
    rw [Node.read_object_eq (hsome i) hone' htag, Record.without_insert htagKey]
  -- the field of the kind that the shape stands for
  rw [Node.objectFields, hone] at hf
  have hfields : f ∈ kind.fieldShapes := Node.tagFields_of_readTag htag ▸ hf
  have hmem : (f.key, RecordShape.node.part? f) ∈ kind.fields.map fun g => (g.key, g.sort.part) :=
    kind.map_part_fieldShapes ▸ List.mem_map_of_mem hfields
  obtain ⟨g, hg, hgf⟩ := List.mem_map.1 hmem
  obtain ⟨hkey, hpart⟩ := Prod.mk.inj hgf
  have hfollows := Record.follows_ofMembers (Node.keys_nodup kind) hg
    (Content.splits.follows (hpart.trans hp) h) (Record.without [Node.tagKey] before)
    (Record.without [Node.tagKey] after)
  rw [hkey] at hfollows
  rw [hread] at hx ⊢
  exact hfollows.map (fun y xs => kind.modify_build f.key (Part.put y path) xs) x hx

/-- A node that is an array follows its fields. -/
theorem follows_nodeArray {tag : Json} {before : List Json}
    (hf : (Node.tagFields tag)[before.length]? = some f)
    (hp : RecordShape.node.part? f = some p)
    (h : Follows p.read (fun y => Part.put y path p) scalar j k) (after : List Json) :
    Follows Node.read (fun y => RecordShape.node.modify f.key (Part.put y path)) scalar
      (.array (tag :: (before ++ j :: after))) (.array (tag :: (before ++ k :: after))) := by
  intro x hx
  rw [Node.read_eq, Node.readWith] at hx ⊢
  obtain ⟨kind, htag, hx⟩ := bind_eq_ok_iff.1 hx
  rw [htag]
  rw [Node.tagFields_of_readTag htag] at hf
  have hcolumn : (kind.fields.map fun g => (g.key, g.sort.part))[before.length]? =
      some (f.key, RecordShape.node.part? f) := by
    rw [← kind.map_part_fieldShapes, List.getElem?_map, hf]
    rfl
  rw [List.getElem?_map, Option.map_eq_some_iff] at hcolumn
  obtain ⟨g, hg, hgf⟩ := hcolumn
  obtain ⟨hkey, hpart⟩ := Prod.mk.inj hgf
  have hfollows := Record.follows_ofItems (Node.keys_nodup kind) hg
    (Content.splits.follows (hpart.trans hp) h) after .inDocument kind.recordName
  rw [hkey] at hfollows
  exact hfollows.map (fun y xs => kind.modify_build f.key (Part.put y path) xs) x hx

/-- **A record follows its fields**, if it is an object. -/
theorem follows_object {before after : List (Option String × Json)}
    (hf : f ∈ r.fields (before ++ after)) (hp : r.part? f = some p)
    (h : Follows p.read (fun y => Part.put y path p) scalar j k) :
    Follows r.read (fun y => r.modify f.key (Part.put y path)) scalar
      (.object (before ++ (some f.key, j) :: after))
      (.object (before ++ (some f.key, k) :: after)) := by
  by_cases hr : r = .node
  · subst hr
    exact follows_nodeObject hf hp h
  · obtain ⟨_, _, c, part, modify, place, name, fs, g, hs, hkeys, hfields, hread, hmodify⟩ :=
      exists_splits hr
    rw [fields_eq_plainFields hr] at hf
    have hmem := List.mem_map_of_mem (f := fun f => (f.key, r.part? f)) hf
    rw [hfields] at hmem
    obtain ⟨field, hfield, he⟩ := List.mem_map.1 hmem
    obtain ⟨hkey, hpart⟩ := Prod.mk.inj he
    have hfollows := Record.follows_ofMembers hkeys hfield (hs.follows (hpart.trans hp) h)
      before after
    rw [hkey] at hfollows
    intro x hx
    rw [hread] at hx ⊢
    exact hfollows.map (fun y xs => hmodify f.key (Part.put y path) xs) x hx

/-- **A record follows its fields**, if it is an array. -/
theorem follows_array {before : List Json} (hf : (r.columns before)[before.length]? = some f)
    (hp : r.part? f = some p) (h : Follows p.read (fun y => Part.put y path p) scalar j k)
    (after : List Json) :
    Follows r.read (fun y => r.modify f.key (Part.put y path)) scalar
      (.array (before ++ j :: after)) (.array (before ++ k :: after)) := by
  by_cases hr : r = .node
  · subst hr
    cases before with
    | nil => cases hf
    | cons tag before => exact follows_nodeArray hf hp h after
  · obtain ⟨_, _, c, part, modify, place, name, fs, g, hs, hkeys, hfields, hread, hmodify⟩ :=
      exists_splits hr
    rw [columns_eq_plainFields hr] at hf
    have hcolumn : (fs.map fun g => (g.key, part g.sort))[before.length]? =
        some (f.key, r.part? f) := by
      rw [← hfields, List.getElem?_map, hf]
      rfl
    rw [List.getElem?_map, Option.map_eq_some_iff] at hcolumn
    obtain ⟨field, hfield, he⟩ := hcolumn
    obtain ⟨hkey, hpart⟩ := Prod.mk.inj he
    have hfollows := Record.follows_ofItems hkeys hfield (hs.follows (hpart.trans hp) h) after
      place name
    rw [hkey] at hfollows
    intro x hx
    rw [hread] at hx ⊢
    exact hfollows.map (fun y xs => hmodify f.key (Part.put y path) xs) x hx

end RecordShape

/-! ## Any number of layers -/

namespace HoleAt

variable {k : ScalarSort} {p : Part} {d : Json} {path : List Turn}

theorem plug_ne_null {s : Shape} (h : HoleAt k p d path) (hp : p = .shape s) (j : Json) :
    d.plug j ≠ .null := by
  induction h generalizing s with
  | here => cases k <;> cases hp
  | option _ ih => exact ih rfl
  | item | column => rw [Json.plug_array]; nofun
  | member => rw [Json.plug_object]; nofun

/-- **A reading follows the scalar at its hole.** By induction on the layers around the hole. -/
theorem follows (h : HoleAt k p d path) (i j : Json) :
    Follows p.read (fun y => Part.put y path p) (k.read j) (d.plug i) (d.plug j) := by
  induction h with
  | here =>
    intro x _
    show k.part.read j = _
    cases k with
    | coordinate =>
      show readCoordinate j = _ <$> Scalar.coordinate <$> readCoordinate j
      cases readCoordinate j <;> rfl
    | value =>
      show Value.ofJson j = _ <$> Scalar.value <$> Value.ofJson j
      cases Value.ofJson j <;> rfl
  | option h ih => exact ih.asOption (h.plug_ne_null rfl i) (h.plug_ne_null rfl j)
  | @item s d path before after hwhole h ih =>
    rw [Json.plug_item hwhole, Json.plug_item hwhole]
    exact ih.asList before after
  | @column r f p d path before after hwhole hf hp h ih =>
    rw [Json.plug_item hwhole, Json.plug_item hwhole]
    exact RecordShape.follows_array hf hp ih after
  | @member r f p d path before after hwhole hf hp h ih =>
    rw [Json.plug_member hwhole, Json.plug_member hwhole]
    exact RecordShape.follows_object hf hp ih

theorem isSound (h : HoleAt k p d path) {i j : Json} (hj : j.isSound = true)
    (hd : (d.plug i).isSound = true) : (d.plug j).isSound = true := by
  induction h with
  | here => exact hj
  | option _ ih => exact ih hd
  | @item s d path before after hwhole _ ih | @column r f p d path before after hwhole _ _ _ ih =>
    rw [Json.plug_item hwhole, Json.isSound, Json.areSound_iff, List.forall_mem_append,
      List.forall_mem_cons] at hd ⊢
    exact ⟨hd.1, ih hd.2.1, hd.2.2⟩
  | @member r f p d path before after hwhole _ _ _ ih =>
    rw [Json.plug_member hwhole, Json.isSound, Json.membersSound_iff, List.forall_mem_append,
      List.forall_mem_cons] at hd ⊢
    exact ⟨hd.1, ⟨rfl, ih hd.2.1.2⟩, hd.2.2⟩

/-- The tag of a root is no scalar. -/
theorem hasTextTag (h : HoleAt k (.shape (.record .node)) d path) {i : Json} (j : Json)
    (hd : Node.HasTextTag (d.plug i)) : Node.HasTextTag (d.plug j) := by
  generalize hroot : Part.shape (.record .node) = p at h
  cases h with
  | here => cases k <;> cases hroot
  | option | item => cases hroot
  | @column r f q d path before after hwhole hf hp h =>
    cases hroot
    rw [Json.plug_item hwhole] at hd ⊢
    cases before with
    | nil => cases hf
    | cons tag before => exact hd
  | @member r f q d path before after hwhole hf hp h =>
    cases hroot
    rw [Json.plug_member hwhole] at hd ⊢
    have hne : ∀ i : Json, (some f.key, i).1 ≠ some Node.tagKey := fun i he =>
      RecordShape.key_notMem_tagKeys hf (List.mem_singleton.2 (Option.some_inj.1 he))
    obtain ⟨text, hone⟩ := hd
    refine ⟨text, ?_⟩
    rw [Record.values_insert_of_ne (hne _)] at hone ⊢
    exact hone

end HoleAt

theorem ScalarSort.isSound_of_read {k : ScalarSort} {n : Numeral} {y : Scalar}
    (h : k.read (.number n) = .ok y) : (Json.number n).isSound = true := by
  rw [Json.isSound]
  cases hn : n.number? with
  | some x => rfl
  | none =>
    cases k with
    | coordinate =>
      obtain ⟨_, hread, -⟩ := bind_eq_ok_iff.1 h
      obtain ⟨_, hinteger, -⟩ := bind_eq_ok_iff.1 hread
      obtain ⟨_, hfound, -⟩ := bind_eq_ok_iff.1 hinteger
      rw [Json.found, hn] at hfound
      cases hfound
    | value =>
      obtain ⟨_, hread, -⟩ := bind_eq_ok_iff.1 h
      rw [Value.ofJson, hn] at hread
      cases hread

/-- **A number in its place.** Let a text be read as a tree with some number in a place of it, and
let a scalar of the tree be read there. Then with any other number the text is read as a tree
exactly if this number is read as a scalar, and the tree is the same but for the scalar. -/
theorem Node.parse_text_iff {T : Template} {x : NumberToken} {t : Node}
    (ht : parse (T.text x) = .ok t) {k : ScalarSort} {path : List Turn}
    (hplace : HoleAt k (.shape (.record .node)) T.document path) (y : NumberToken) (t' : Node) :
    parse (T.text y) = .ok t' ↔
      ∃ scalar, k.read (.number y.numeral) = .ok scalar ∧ t' = t.put scalar path := by
  have hx := T.ofText_text ht x
  have hy := T.ofText_text ht y
  rw [parse_eq_ok_iff, hx, readRoot_eq_ok_iff] at ht
  obtain ⟨-, htag, hsound, hread⟩ := ht
  have hfollows : read (T.document.plug (.number y.numeral)) =
      (fun scalar => t.put scalar path) <$> k.read (.number y.numeral) :=
    hplace.follows _ _ t hread
  have hscalar : read (T.document.plug (.number y.numeral)) = .ok t' ↔
      ∃ scalar, k.read (.number y.numeral) = .ok scalar ∧ t' = t.put scalar path := by
    rw [hfollows, fmap_eq_ok_iff]
  rw [parse_eq_ok_iff, hy, readRoot_eq_ok_iff, hscalar]
  constructor
  · exact fun h => h.2.2.2
  · rintro ⟨scalar, hk, rfl⟩
    exact ⟨rfl, hplace.hasTextTag _ htag, hplace.isSound (ScalarSort.isSound_of_read hk) hsound,
      scalar, hk, rfl⟩

end ChapterLint
