import Mathlib.Data.List.Nodup
import ChapterLint.Proofs.Tree.Objects

/-!
# Shapes of documents

What stands at a place of a document is read as a `Shape`: a record, a value that may be absent, or
a list. A record tells the shapes of its fields in turn, if it is an object by their keys
(`RecordShape.fields`), if it is an array by their order (`RecordShape.columns`). The values of
literals and other scalars have no shape.

Two documents of a shape are read alike (`SameRead`) if either is read as something exactly if the
other is read as the same. What is read alike inside a document makes the document read alike: for
a record that is an array this is `RecordShape.sameRead_array`. For objects, `AlikeMembers` says
field by field how the members may differ, and `RecordShape.sameRead_object` that the record is the
same.
-/

namespace ChapterLint

open Record (values Passable Holds)

/-! ## Reading alike -/

/-- Two inputs are read alike: either is read as something exactly if the other is read so. -/
def SameRead {δ α : Type} (read : δ → Except Fault α) (d d' : δ) : Prop :=
  ∀ x, read d = .ok x ↔ read d' = .ok x

namespace SameRead

variable {δ α β : Type} {read : δ → Except Fault α}

theorem refl (d : δ) : SameRead read d d := fun _ => Iff.rfl

theorem symm {d d' : δ} (h : SameRead read d d') : SameRead read d' d := fun x => (h x).symm

theorem trans {d d' d'' : δ} (h : SameRead read d d') (h' : SameRead read d' d'') :
    SameRead read d d'' := fun x => (h x).trans (h' x)

/-- What is computed from the reading alone does not matter. -/
theorem bind {d d' : δ} (h : SameRead read d d') (f : α → Except Fault β) :
    SameRead (fun d => read d >>= f) d d' := by
  intro y
  simp only [bind_eq_ok_iff, h _]

theorem asOption {read : Json → Except Fault α} {j k : Json} (hnull : j = .null ↔ k = .null)
    (h : SameRead read j k) : SameRead (Json.asOption read) j k := by
  by_cases hj : j = .null
  · rw [hj, hnull.1 hj]
    exact refl _
  · intro o
    rw [Json.asOption_of_ne_null hj, Json.asOption_of_ne_null (mt hnull.2 hj)]
    exact h.bind (fun x => pure (some x)) o

theorem asList {read : Json → Except Fault α} {j k : Json} (h : SameRead read j k)
    (before after : List Json) :
    SameRead (Json.asList read) (.array (before ++ j :: after))
      (.array (before ++ k :: after)) := by
  intro xs
  simp only [Json.asList, List.mapM_append, List.mapM_cons, bind_eq_ok_iff, h _]

end SameRead

/-! ## Shapes -/

/-- What a record is read as. -/
inductive RecordShape where
  | node
  | identifier
  | declarator
  | span
  | position

/-- What a document is read as. -/
inductive Shape where
  | record (r : RecordShape)
  | option (s : Shape)
  | list (s : Shape)

/-- The type of what is read. -/
@[reducible]
def RecordShape.type : RecordShape → Type
  | .node => Node
  | .identifier => Identifier
  | .declarator => Declarator Node
  | .span => Span
  | .position => Position

/-- How a record is read inside a document. -/
def RecordShape.read : (r : RecordShape) → Json → Except Fault r.type
  | .node => Node.read
  | .identifier => Identifier.read
  | .declarator => Declarator.read Node.read
  | .span => Span.read .inDocument
  | .position => Position.read .inDocument

/-- The type of what is read. -/
@[reducible]
def Shape.type : Shape → Type
  | .record r => r.type
  | .option s => Option s.type
  | .list s => List s.type

/-- How a document of a shape is read. -/
def Shape.read : (s : Shape) → Json → Except Fault s.type
  | .record r => r.read
  | .option s => Json.asOption s.read
  | .list s => Json.asList s.read

/-- A field of a record as far as rewriting goes: its key, the shape of its content, if there is
something to rewrite in it, and whether it may be absent. -/
structure FieldShape where
  key : String
  shape : Option Shape
  optional : Bool

/-- The shape of the content of a field of a node. -/
def Content.shape : Content → Option Shape
  | .node => some (.record .node)
  | .optionalNode => some (.option (.record .node))
  | .nodes => some (.list (.record .node))
  | .elements => some (.list (.option (.record .node)))
  | .identifier => some (.record .identifier)
  | .optionalIdentifier => some (.option (.record .identifier))
  | .declarators => some (.list (.record .declarator))
  | .span => some (.record .span)
  | .variableKind | .text | .flag | .value => none

/-- The fields of the nodes of a kind. -/
def NodeKind.fieldShapes (k : NodeKind) : List FieldShape :=
  k.fields.map fun f => ⟨f.key, f.sort.shape, f.sort.absent.isSome⟩

/-- The fields of a node with the given tag; there are none if the tag tells no kind. -/
def Node.tagFields (tag : Json) : List FieldShape :=
  match readTag tag with
  | .ok k => k.fieldShapes
  | .error _ => []

/-- The fields of a node that is an object; there are none without a single tag. -/
def Node.objectFields (ms : List (Option String × Json)) : List FieldShape :=
  match values tagKey ms with
  | [tag] => tagFields tag
  | _ => []

namespace RecordShape

/-- The fields of the records that are no nodes. -/
def plainFields : RecordShape → List FieldShape
  | .node => []
  | .identifier => [⟨"name", none, false⟩, ⟨"loc", some (.record .span), false⟩]
  | .declarator =>
    [⟨"id", some (.record .identifier), false⟩, ⟨"init", some (.option (.record .node)), true⟩,
      ⟨"loc", some (.record .span), false⟩]
  | .span =>
    [⟨"start", some (.record .position), false⟩, ⟨"end", some (.record .position), false⟩]
  | .position => [⟨"line", none, false⟩, ⟨"column", none, false⟩]

/-- The fields of the record that an object with the given members stands for. -/
def fields : RecordShape → List (Option String × Json) → List FieldShape
  | .node, ms => Node.objectFields ms
  | r, _ => r.plainFields

/-- The keys of the members that tell how the others are read. -/
def tagKeys : RecordShape → List String
  | .node => [Node.tagKey]
  | _ => []

/-- The fields of the record that an array with the given items stands for, in the order of the
items. The first item of a node is its tag. -/
def columns : RecordShape → List Json → List FieldShape
  | .node, [] => []
  | .node, tag :: _ => ⟨Node.tagKey, none, false⟩ :: Node.tagFields tag
  | r, _ => r.plainFields

end RecordShape

/-! ## Fields as their shapes say -/

/-- The fields of a record as far as rewriting goes. -/
def FieldShape.ofFields {ι : Type} {type : ι → Type} (c : Contents type) (shape : ι → Option Shape)
    (fs : List (Field ι)) : List FieldShape :=
  fs.map fun f => ⟨f.key, shape f.sort, (c.absent f.sort).isSome⟩

theorem FieldShape.map_key_ofFields {ι : Type} {type : ι → Type} (c : Contents type)
    (shape : ι → Option Shape) (fs : List (Field ι)) :
    (ofFields c shape fs).map FieldShape.key = fs.map Field.key := by
  rw [ofFields, List.map_map]
  rfl

/-- The contents of a record are read as their shapes say: what is absent may be written `null`, and
what is read as a content with a shape is made from what is read as the shape. -/
structure Describes {ι : Type} {type : ι → Type} (c : Contents type) (shape : ι → Option Shape) :
    Prop where
  absent : ∀ i x, c.absent i = some x → c.read i .null = .ok x
  shaped : ∀ i s, shape i = some s → ∃ g : s.type → type i, ∀ j, c.read i j = g <$> s.read j

namespace Describes

variable {ι : Type} {type : ι → Type} {c : Contents type} {shape : ι → Option Shape}

/-- What is read alike as its shape is read alike as the content. -/
theorem content (hd : Describes c shape) (i : ι) (s : Shape) (hs : shape i = some s) (j k : Json)
    (h : SameRead s.read j k) : SameRead (c.read i) j k := by
  obtain ⟨g, hg⟩ := hd.shaped i s hs
  intro x
  rw [hg, hg]
  exact h.bind (fun y => pure (g y)) x

/-- What is read as the content is read as its shape. -/
theorem exists_read (hd : Describes c shape) {i : ι} {s : Shape} (hs : shape i = some s) {j : Json}
    {x : type i} (h : c.read i j = .ok x) : ∃ y, s.read j = .ok y := by
  obtain ⟨g, hg⟩ := hd.shaped i s hs
  rw [hg] at h
  obtain ⟨y, hy, -⟩ := bind_eq_ok_iff.1 h
  exact ⟨y, hy⟩

end Describes

theorem Content.describes : Describes (Content.reader Node.read) Content.shape where
  absent c x h := by
    cases c with
    | optionalNode | optionalIdentifier | value => cases h; rfl
    | _ => cases h
  shaped c s hs := by
    cases c with
    | variableKind | text | flag | value => cases hs
    | _ => cases hs; exact ⟨id, fun j => (id_map _).symm⟩

theorem Declarator.describes : Describes (Declarator.parts Node.read) fun
    | .id => some (.record .identifier)
    | .init => some (.option (.record .node))
    | .span => some (.record .span) where
  absent p x h := by
    cases p with
    | init => cases h; rfl
    | _ => cases h
  shaped p s hs := by
    cases p <;> cases hs <;> exact ⟨fun x => x, fun j => (id_map _).symm⟩

/-- A pair of which no content may be absent. -/
theorem Record.describes_pair {α β : Type} {f : Part α} {g : Part β}
    (fst snd : Option Shape) (hf : f.absent = none) (hg : g.absent = none)
    (hfst : ∀ s, fst = some s → ∃ h : s.type → α, ∀ j, f.read j = h <$> s.read j)
    (hsnd : ∀ s, snd = some s → ∃ h : s.type → β, ∀ j, g.read j = h <$> s.read j) :
    Describes (pairContents f g) fun b => if b then snd else fst where
  absent b x h := by
    cases b with
    | false => exact absurd (hf.symm.trans h) (by simp)
    | true => exact absurd (hg.symm.trans h) (by simp)
  shaped b := by
    cases b with
    | false => exact hfst
    | true => exact hsnd

/-- What is made from a pair is made from a record of two fields. -/
theorem Record.readPair_bind {α β γ : Type} (f : Part α) (g : Part β) (make : α → β → γ)
    (place : Place) (name : String) (j : Json) :
    (readPair place name f g j >>= fun x => pure (make x.1 x.2)) =
      (fun x => make x.1 x.2.1) <$>
        read (pairContents f g) place name [⟨f.key, false⟩, ⟨g.key, true⟩] j := by
  unfold readPair
  cases read (pairContents f g) place name [⟨f.key, false⟩, ⟨g.key, true⟩] j <;> rfl

/-- A record that is no node is made from what is read as a record with the fields of its shape. -/
theorem RecordShape.exists_read_eq {r : RecordShape} (hr : r ≠ .node) :
    ∃ (ι : Type) (type : ι → Type) (c : Contents type) (shape : ι → Option Shape)
      (place : Record.Place) (name : String) (fs : List (Field ι)) (g : Tuple type fs → r.type),
      Describes c shape ∧ r.plainFields = FieldShape.ofFields c shape fs ∧
        ∀ j, r.read j = g <$> Record.read c place name fs j := by
  cases r with
  | node => exact absurd rfl hr
  | declarator =>
    exact ⟨_, _, _, _, _, _, _, _, Declarator.describes, rfl, fun j => rfl⟩
  | identifier =>
    have hd : Describes (Record.pairContents { key := "name", read := Json.asText }
        { key := "loc", read := Span.read .inDocument }) _ :=
      Record.describes_pair none (some (.record .span)) rfl rfl nofun
        fun _ hs => by cases hs; exact ⟨id, fun j => (id_map _).symm⟩
    exact ⟨_, _, _, _, _, _, _, _, hd, rfl, Record.readPair_bind _ _ _ _ _⟩
  | span =>
    have hd : Describes (Record.pairContents { key := "start", read := Position.read .inDocument }
        { key := "end", read := Position.read .inDocument }) _ :=
      Record.describes_pair (some (.record .position)) (some (.record .position)) rfl rfl
        (fun _ hs => by cases hs; exact ⟨id, fun j => (id_map _).symm⟩)
        fun _ hs => by cases hs; exact ⟨id, fun j => (id_map _).symm⟩
    exact ⟨_, _, _, _, _, _, _, _, hd, rfl, Record.readPair_bind _ _ _ _ _⟩
  | position =>
    have hd : Describes (Record.pairContents { key := "line", read := readCoordinate }
        { key := "column", read := readCoordinate }) _ :=
      Record.describes_pair none none rfl rfl nofun nofun
    exact ⟨_, _, _, _, _, _, _, _, hd, rfl, Record.readPair_bind _ _ _ _ _⟩

/-- The records that are no nodes are read as records with the fields of their shape. -/
theorem RecordShape.sameRead_plain {r : RecordShape} (hr : r ≠ .node) {j k : Json}
    (h : ∀ {ι : Type} {type : ι → Type} (c : Contents type) (shape : ι → Option Shape)
      (place : Record.Place) (name : String) (fs : List (Field ι)),
        Describes c shape → r.plainFields = FieldShape.ofFields c shape fs →
          SameRead (Record.read c place name fs) j k) :
    SameRead r.read j k := by
  obtain ⟨_, _, c, shape, place, name, fs, g, hd, hfields, hread⟩ := exists_read_eq hr
  intro x
  rw [hread, hread]
  exact (h c shape place name fs hd hfields).bind (fun y => pure (g y)) x

/-! ## Items read alike -/

namespace Record

variable {ι : Type} {type : ι → Type} {c : Contents type}

theorem sameRead_takeItems {f : Field ι} {j k : Json} (h : SameRead (c.read f.sort) j k)
    (name : String) (size : Nat) (after : List Json) :
    ∀ (before : List Json) (fs : List (Field ι)) (index : Nat), fs[before.length]? = some f →
      SameRead (takeItems c name size fs index) (before ++ j :: after) (before ++ k :: after)
  | _, [], _, hf => by simp at hf
  | [], g :: fs, index, hf => by
    obtain rfl : g = f := by simpa using hf
    intro x
    simp only [List.nil_append, takeItems, bind_eq_ok_iff, h _]
  | i :: before, g :: fs, index, hf => by
    have hrest := sameRead_takeItems h name size after before fs (index + 1) (by simpa using hf)
    intro x
    simp only [List.cons_append, takeItems, bind_eq_ok_iff, hrest _]

/-- A record is read alike from arrays that differ in an item, if the items are read alike. -/
theorem sameRead_ofItems {shape : ι → Option Shape} (hd : Describes c shape) {fs : List (Field ι)}
    {f : FieldShape} {s : Shape} {before after : List Json} {j k : Json}
    (hf : (FieldShape.ofFields c shape fs)[before.length]? = some f) (hs : f.shape = some s)
    (h : SameRead s.read j k) (place : Place) (name : String) :
    SameRead (ofItems c place name fs) (before ++ j :: after) (before ++ k :: after) := by
  rw [FieldShape.ofFields, List.getElem?_map, Option.map_eq_some_iff] at hf
  obtain ⟨g, hg, rfl⟩ := hf
  have hitems :=
    sameRead_takeItems (hd.content g.sort s hs j k h) name fs.length after before fs 0 hg
  intro xs
  simp only [ofItems, bind_eq_ok_iff, hitems _, List.length_append, List.length_cons]

end Record

/-! ## Members read alike -/

/-- The values of a field are replaced by others that are read alike. -/
inductive SameValues (f : FieldShape) : List Json → List Json → Prop
  | perm {vs vs' : List Json} (h : vs.Perm vs') : SameValues f vs vs'
  | null (h : f.optional = true) : SameValues f [] [.null]
  | replace {s : Shape} (hs : f.shape = some s) {j k : Json} (h : SameRead s.read j k)
      (before after : List Json) : SameValues f (before ++ j :: after) (before ++ k :: after)

/-- The members of objects are alike for a record with the given fields. -/
structure AlikeMembers (fs : List FieldShape) (ms ms' : List (Option String × Json)) : Prop where
  passable : Passable (fs.map FieldShape.key) ms ↔ Passable (fs.map FieldShape.key) ms'
  same : ∀ f ∈ fs, SameValues f (values f.key ms) (values f.key ms')

namespace Record

variable {ι : Type} {type : ι → Type} {c : Contents type}

/-- Whether there is a single value does not depend on the order. -/
theorem eq_singleton_iff_of_perm {vs vs' : List Json} (h : vs.Perm vs') {j : Json} :
    vs = [j] ↔ vs' = [j] := by
  rw [← List.perm_singleton, h.congr_left, List.perm_singleton]

theorem holds_iff_of_sameValues {shape : ι → Option Shape} (hd : Describes c shape) {f : Field ι}
    {vs vs' : List Json}
    (h : SameValues ⟨f.key, shape f.sort, (c.absent f.sort).isSome⟩ vs vs') (x : type f.sort) :
    Holds c f vs x ↔ Holds c f vs' x := by
  cases h with
  | perm h =>
    have hnil : vs = [] ↔ vs' = [] := by rw [← List.perm_nil, h.congr_left, List.perm_nil]
    simp only [Holds, hnil, eq_singleton_iff_of_perm h]
  | null h =>
    obtain ⟨y, hy⟩ := Option.isSome_iff_exists.1 h
    have hnull : c.read f.sort .null = .ok x ↔ y = x := by
      rw [hd.absent f.sort y hy, Except.ok.injEq]
    simp [Holds, hy, hnull]
  | replace hs h before after =>
    have hread := hd.content f.sort _ hs _ _ h x
    cases before with
    | cons i before => simp [Holds]
    | nil =>
      cases after with
      | cons i after => simp [Holds]
      | nil => simpa [Holds] using hread

variable {shape : ι → Option Shape} {fs : List (Field ι)} {ms ms' : List (Option String × Json)}

theorem passable_iff_of_alike (h : AlikeMembers (FieldShape.ofFields c shape fs) ms ms') :
    Passable (fs.map Field.key) ms ↔ Passable (fs.map Field.key) ms' :=
  FieldShape.map_key_ofFields c shape fs ▸ h.passable

theorem all_holds_iff_of_alike (hd : Describes c shape)
    (h : AlikeMembers (FieldShape.ofFields c shape fs) ms ms') {xs : Tuple type fs} :
    Tuple.All (fun f => Holds c f (values f.key ms)) fs xs ↔
      Tuple.All (fun f => Holds c f (values f.key ms')) fs xs :=
  Tuple.all_congr fun _ hf x => holds_iff_of_sameValues hd (h.same _ (List.mem_map_of_mem hf)) x

theorem sameRead_ofMembers (hd : Describes c shape) (hkeys : (fs.map Field.key).Nodup)
    (h : AlikeMembers (FieldShape.ofFields c shape fs) ms ms') :
    SameRead (ofMembers c fs) ms ms' := by
  intro xs
  rw [ofMembers_eq_ok_iff hkeys, ofMembers_eq_ok_iff hkeys, passable_iff_of_alike h,
    all_holds_iff_of_alike hd h]

end Record

namespace AlikeMembers

variable {fs : List FieldShape}

theorem of_perm {ms ms' : List (Option String × Json)} (h : ms.Perm ms') :
    AlikeMembers fs ms ms' where
  passable := ⟨fun hp m hm => hp m (h.mem_iff.2 hm), fun hp m hm => hp m (h.mem_iff.1 hm)⟩
  same _ _ := .perm (h.filterMap _)

theorem of_unknown {key : String} (hkey : key ∉ fs.map FieldShape.key) {v : Json}
    (hv : v.isWhole = true) (before after : List (Option String × Json)) :
    AlikeMembers fs (before ++ after) (before ++ (some key, v) :: after) where
  passable := by rw [Record.passable_insert_iff, and_iff_right fun _ => hv]
  same f hf := by
    have hne : (some key, v).1 ≠ some f.key := fun he =>
      hkey (Option.some_inj.1 he ▸ List.mem_map_of_mem hf)
    rw [Record.values_insert_of_ne hne]
    exact .perm (.refl _)

variable (hkeys : (fs.map FieldShape.key).Nodup) {f : FieldShape} (hf : f ∈ fs)
include hkeys hf

/-- A change under the key of one field leaves the others alone. -/
theorem of_field {ms ms' : List (Option String × Json)}
    (hpass : Passable (fs.map FieldShape.key) ms ↔ Passable (fs.map FieldShape.key) ms')
    (hself : SameValues f (values f.key ms) (values f.key ms'))
    (hothers : ∀ key, key ≠ f.key → values key ms = values key ms') : AlikeMembers fs ms ms' where
  passable := hpass
  same g hg := by
    by_cases hkey : g.key = f.key
    · obtain rfl := List.inj_on_of_nodup_map hkeys hg hf hkey
      exact hself
    · exact .perm (.of_eq (hothers g.key hkey))

theorem of_absent (hoptional : f.optional = true) {before after : List (Option String × Json)}
    (habsent : some f.key ∉ (before ++ after).map Prod.fst) :
    AlikeMembers fs (before ++ after) (before ++ (some f.key, .null) :: after) := by
  refine of_field hkeys hf ?_ ?_ fun key hkey => ?_
  · have hwhole : Json.null.isWhole = true := rfl
    rw [Record.passable_insert_iff, and_iff_right fun _ => hwhole]
  · have hnone := Record.values_eq_nil habsent
    rw [hnone]
    rw [Record.values_append, List.append_eq_nil_iff] at hnone
    rw [Record.values_insert_self, hnone.1, hnone.2]
    exact .null hoptional
  · exact (Record.values_insert_of_ne (fun he => hkey (Option.some_inj.1 he).symm) _ _).symm

theorem of_member {s : Shape} (hs : f.shape = some s) {j k : Json} (h : SameRead s.read j k)
    (before after : List (Option String × Json)) :
    AlikeMembers fs (before ++ (some f.key, j) :: after) (before ++ (some f.key, k) :: after) := by
  have hknown : f.key ∈ fs.map FieldShape.key := List.mem_map_of_mem hf
  refine of_field hkeys hf ?_ ?_ fun key hkey => ?_
  · rw [Record.passable_insert_iff, Record.passable_insert_iff]
    simp [hknown]
  · rw [Record.values_insert_self, Record.values_insert_self]
    exact .replace hs h _ _
  · have hne : ∀ i : Json, (some f.key, i).1 ≠ some key := fun i he =>
      hkey (Option.some_inj.1 he).symm
    rw [Record.values_insert_of_ne (hne j), Record.values_insert_of_ne (hne k)]

end AlikeMembers

/-! ## Records read alike -/

theorem NodeKind.map_key_fieldShapes (k : NodeKind) :
    k.fieldShapes.map FieldShape.key = k.keys :=
  FieldShape.map_key_ofFields (Content.reader Node.read) Content.shape k.fields

namespace Node

theorem tagFields_of_readTag {tag : Json} {k : NodeKind} (h : readTag tag = .ok k) :
    tagFields tag = k.fieldShapes := by
  rw [tagFields, h]

/-- A node that is an object has the fields of a kind, or none. -/
theorem objectFields_cases (ms : List (Option String × Json)) :
    objectFields ms = [] ∨ ∃ k : NodeKind, objectFields ms = k.fieldShapes := by
  unfold objectFields
  split
  case h_1 tag _ =>
    unfold tagFields
    split
    · exact .inr ⟨_, rfl⟩
    · exact .inl rfl
  case h_2 => exact .inl rfl

/-- A node is read alike from objects whose members are alike. -/
theorem sameRead_object {ms ms' : List (Option String × Json)}
    (htags : (values tagKey ms).Perm (values tagKey ms'))
    (h : AlikeMembers (objectFields ms) ms ms') : SameRead read (.object ms) (.object ms') := by
  intro n
  rw [read_object_eq_ok_iff, read_object_eq_ok_iff]
  refine exists_congr fun tag => exists_congr fun k => exists_congr fun contents => ?_
  rw [← Record.eq_singleton_iff_of_perm htags]
  refine and_congr_right fun htag => and_congr_right fun hread => ?_
  have hfields : objectFields ms =
      FieldShape.ofFields (Content.reader read) Content.shape k.fields := by
    rw [objectFields, htag]
    exact tagFields_of_readTag hread
  rw [hfields] at h
  rw [Record.passable_iff_of_alike h, Record.all_holds_iff_of_alike Content.describes h]

/-- A node is read alike from arrays that differ in the item of a field. -/
theorem sameRead_array {tag : Json} {f : FieldShape} {s : Shape} {before after : List Json}
    {j k : Json} (hf : (tagFields tag)[before.length]? = some f) (hs : f.shape = some s)
    (h : SameRead s.read j k) :
    SameRead read (.array (tag :: (before ++ j :: after)))
      (.array (tag :: (before ++ k :: after))) := by
  intro n
  rw [read_eq, read_eq, readWith, readWith]
  simp only [bind_eq_ok_iff]
  refine exists_congr fun kind => and_congr_right fun hread => ?_
  rw [tagFields_of_readTag hread] at hf
  simp only [Record.sameRead_ofItems Content.describes hf hs h .inDocument kind.recordName _]

end Node

namespace RecordShape

theorem fields_nodup (r : RecordShape) (ms : List (Option String × Json)) :
    ((r.fields ms).map FieldShape.key).Nodup := by
  cases r with
  | node =>
    rw [fields]
    rcases Node.objectFields_cases ms with hnil | ⟨k, hk⟩
    · rw [hnil]
      exact List.nodup_nil
    · rw [hk, k.map_key_fieldShapes]
      exact Node.keys_nodup k
  | identifier | declarator | span | position =>
    simp [fields, plainFields]

theorem key_notMem_tagKeys {r : RecordShape} {ms : List (Option String × Json)} {f : FieldShape}
    (hf : f ∈ r.fields ms) : f.key ∉ r.tagKeys := by
  cases r with
  | node =>
    rw [fields] at hf
    rcases Node.objectFields_cases ms with hnil | ⟨k, hk⟩
    · rw [hnil] at hf
      cases hf
    · have hmem : f.key ∈ k.keys := k.map_key_fieldShapes ▸ List.mem_map_of_mem (hk ▸ hf)
      rw [tagKeys, List.mem_singleton]
      exact fun he => Node.tagKey_notMem_keys k (he ▸ hmem)
  | _ => exact List.not_mem_nil

/-- What tells how the members are read does not change with the value of a field. -/
theorem values_tagKeys {r : RecordShape} {before after : List (Option String × Json)}
    {f : FieldShape} {j : Json} (hf : f ∈ r.fields (before ++ (some f.key, j) :: after))
    (k : Json) : ∀ key ∈ r.tagKeys, values key (before ++ (some f.key, j) :: after) =
      values key (before ++ (some f.key, k) :: after) := by
  intro key hkey
  have hne : ∀ i : Json, (some f.key, i).1 ≠ some key := fun i he =>
    key_notMem_tagKeys hf (Option.some_inj.1 he ▸ hkey)
  rw [Record.values_insert_of_ne (hne j), Record.values_insert_of_ne (hne k)]

theorem fields_eq_plainFields {r : RecordShape} (hr : r ≠ .node)
    (ms : List (Option String × Json)) : r.fields ms = r.plainFields := by
  cases r with
  | node => exact absurd rfl hr
  | _ => rfl

theorem columns_eq_plainFields {r : RecordShape} (hr : r ≠ .node) (items : List Json) :
    r.columns items = r.plainFields := by
  cases r with
  | node => exact absurd rfl hr
  | _ => rfl

/-- A record is read alike from objects whose members are alike. -/
theorem sameRead_object {r : RecordShape} {ms ms' : List (Option String × Json)}
    (htags : ∀ key ∈ r.tagKeys, (values key ms).Perm (values key ms'))
    (h : AlikeMembers (r.fields ms) ms ms') : SameRead r.read (.object ms) (.object ms') := by
  by_cases hr : r = .node
  · subst hr
    exact Node.sameRead_object (htags _ List.mem_cons_self) h
  · have hnodup := r.fields_nodup ms
    rw [fields_eq_plainFields hr] at h hnodup
    refine sameRead_plain hr fun c shape place name fs hd hfields => ?_
    rw [hfields] at h hnodup
    rw [FieldShape.map_key_ofFields] at hnodup
    exact Record.sameRead_ofMembers hd hnodup h

/-- A record is read alike from arrays that differ in the item of a field. -/
theorem sameRead_array {r : RecordShape} {f : FieldShape} {s : Shape} {before after : List Json}
    {j k : Json} (hf : (r.columns (before ++ j :: after))[before.length]? = some f)
    (hs : f.shape = some s) (h : SameRead s.read j k) :
    SameRead r.read (.array (before ++ j :: after)) (.array (before ++ k :: after)) := by
  by_cases hr : r = .node
  · subst hr
    cases before with
    | nil =>
      obtain rfl := Option.some_inj.1 hf
      cases hs
    | cons tag before => exact Node.sameRead_array hf hs h
  · rw [columns_eq_plainFields hr] at hf
    refine sameRead_plain hr fun c shape place name fs hd hfields => ?_
    exact Record.sameRead_ofItems hd (hfields ▸ hf) hs h place name

end RecordShape

end ChapterLint
