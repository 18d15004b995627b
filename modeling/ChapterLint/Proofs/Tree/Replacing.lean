import ChapterLint.Proofs.Json.Faults
import ChapterLint.Proofs.Tree.Rows

/-!
# Faults of parts

A tree is read from a document part by part. If a part of a document that can be read is replaced by
one that cannot, the document cannot be read either, and its fault is that of the part: nothing
around it swallows the fault, finds another one before it, or leaves the part out.

1. `Replaces` says that a part of a document, at any depth, is replaced by another one. The part may
   stand in a list, in a field of a record, or where something may be absent.
2. One layer passes a fault on: an object (`RecordShape.read_object_eq_error`), an array
   (`RecordShape.read_array_eq_error`), a list and an option. Hence any number of layers do
   (`Replaces.read_eq_error`). What may be absent may also have been so before, so a layer asks of
   the part that it was read or was `null` (`Shape.Accepts`).
3. Before a tree is read its root is looked at, and a replacement inside of it is not seen there
   (`Replaces.checkRoot`).
-/

namespace ChapterLint

open Record (values)

/-! ## Replacing a part -/

/-- In a document of a shape the part `j` of the shape `p` is replaced by `k`. The depth counts the
layers around the part. -/
inductive Replaces (p : Shape) (j k : Json) : (depth : Nat) → Shape → Json → Json → Prop
  /-- The part is the whole. -/
  | here : Replaces p j k 0 p j k
  /-- Inside what may be absent. -/
  | option {n : Nat} {s : Shape} {d d' : Json} (h : Replaces p j k n s d d') :
      Replaces p j k (n + 1) (.option s) d d'
  /-- Inside an item of a list. -/
  | item {n : Nat} {s : Shape} {d d' : Json} (before after : List Json)
      (h : Replaces p j k n s d d') :
      Replaces p j k (n + 1) (.list s) (.array (before ++ d :: after))
        (.array (before ++ d' :: after))
  /-- Inside a field of a record that is an array. -/
  | column {n : Nat} {r : RecordShape} {f : FieldShape} {s : Shape} {d d' : Json}
      (before after : List Json)
      (hf : (r.columns (before ++ d :: after))[before.length]? = some f) (hs : f.shape = some s)
      (h : Replaces p j k n s d d') :
      Replaces p j k (n + 1) (.record r) (.array (before ++ d :: after))
        (.array (before ++ d' :: after))
  /-- Inside a field of a record that is an object. -/
  | member {n : Nat} {r : RecordShape} {f : FieldShape} {s : Shape} {d d' : Json}
      (before after : List (Option String × Json))
      (hf : f ∈ r.fields (before ++ (some f.key, d) :: after)) (hs : f.shape = some s)
      (h : Replaces p j k n s d d') :
      Replaces p j k (n + 1) (.record r) (.object (before ++ (some f.key, d) :: after))
        (.object (before ++ (some f.key, d') :: after))

namespace Replaces

variable {p s : Shape} {j k d d' : Json} {n : Nat}

theorem ne_null (h : Replaces p j k n s d d') (hk : k ≠ .null) : d' ≠ .null := by
  induction h with
  | here => exact hk
  | option _ ih => exact ih
  | item | column | member => nofun

theorem isSound (h : Replaces p j k n s d d') (hk : j.isSound = true → k.isSound = true)
    (hd : d.isSound = true) : d'.isSound = true := by
  induction h with
  | here => exact hk hd
  | option _ ih => exact ih hd
  | item before after _ ih | column before after _ _ _ ih =>
    rw [Json.isSound, Json.areSound_iff, List.forall_mem_append, List.forall_mem_cons] at hd ⊢
    exact ⟨hd.1, ih hd.2.1, hd.2.2⟩
  | member before after _ _ _ ih =>
    rw [Json.isSound, Json.membersSound_iff, List.forall_mem_append, List.forall_mem_cons] at hd ⊢
    exact ⟨hd.1, ⟨rfl, ih hd.2.1.2⟩, hd.2.2⟩

end Replaces

/-! ## One layer -/

theorem Describes.read_eq_error {ι : Type} {type : ι → Type} {c : Contents type}
    {shape : ι → Option Shape} (hd : Describes c shape) {i : ι} {s : Shape} (hs : shape i = some s)
    {k : Json} {e : Fault} (h : s.read k = .error e) : c.read i k = .error e := by
  obtain ⟨g, hg⟩ := hd.shaped i s hs
  rw [hg, h]
  rfl

namespace RecordShape

variable {r : RecordShape} {e : Fault}

/-- A field of an object passes its fault on. -/
theorem read_object_eq_error {before after : List (Option String × Json)} {f : FieldShape}
    {s : Shape} {j k : Json} {x : r.type}
    (h : r.read (.object (before ++ (some f.key, j) :: after)) = .ok x)
    (hf : f ∈ r.fields (before ++ (some f.key, j) :: after)) (hs : f.shape = some s)
    (hk : s.read k = .error e) :
    r.read (.object (before ++ (some f.key, k) :: after)) = .error e := by
  have htag : f.key ∉ r.tagKeys := key_notMem_tagKeys hf
  have htags := values_tagKeys hf k
  obtain ⟨hsome, _, _, c, shape, fs, g, hd, hfields, hkeys, hread, -⟩ := exists_read_object_eq h
  have hsome' : ∀ m ∈ before ++ (some f.key, k) :: after, m.1.isSome := by
    rw [List.forall_mem_append, List.forall_mem_cons] at hsome ⊢
    exact ⟨hsome.1, rfl, hsome.2.2⟩
  rw [hfields] at hf
  obtain ⟨field, hfield, rfl⟩ := List.mem_map.1 hf
  rw [hread _ hsome fun _ _ => .refl _, Record.without_insert htag] at h
  obtain ⟨xs, hxs, -⟩ := bind_eq_ok_iff.1 h
  rw [hread _ hsome' fun key hkey => .of_eq (htags key hkey).symm, Record.without_insert htag,
    Record.ofMembers_eq_error hkeys hfield hxs (hd.read_eq_error hs hk)]
  rfl

/-- A field of an array passes its fault on. -/
theorem read_array_eq_error {before after : List Json} {f : FieldShape} {s : Shape} {j k : Json}
    {x : r.type} (h : r.read (.array (before ++ j :: after)) = .ok x)
    (hf : (r.columns (before ++ j :: after))[before.length]? = some f) (hs : f.shape = some s)
    (hk : s.read k = .error e) : r.read (.array (before ++ k :: after)) = .error e := by
  obtain ⟨_, _, c, shape, fs, place, name, g, front, field, hd, hshape, hfield, hread⟩ :=
    exists_read_array_eq h hf hs
  rw [hread] at h ⊢
  obtain ⟨xs, hxs, -⟩ := bind_eq_ok_iff.1 h
  rw [Record.ofItems_eq_error hfield hxs (hd.read_eq_error hshape hk)]
  rfl

end RecordShape

/-! ## Any number of layers -/

/-- A document is read as a shape, or is `null`, as what is absent is. -/
def Shape.Accepts (s : Shape) (j : Json) : Prop := j = .null ∨ ∃ x, s.read j = .ok x

namespace Replaces

variable {p s : Shape} {j k d d' : Json} {n : Nat} {e : Fault}

/-- **A fault passes through all layers.** By induction on the layers around the part. Each was read
before, hence so was the part in it, and each hands on the fault of what it is made of. -/
theorem read_eq_error (h : Replaces p j k n s d d') (hnull : k ≠ .null)
    (hfault : p.Accepts j → p.read k = .error e) (hd : s.Accepts d) : s.read d' = .error e := by
  induction h with
  | here => exact hfault hd
  | @option n s d d' h ih =>
    have hinner : s.Accepts d := by
      by_cases hdnull : d = .null
      · exact .inl hdnull
      · obtain ⟨o, ho⟩ := hd.resolve_left hdnull
        have ho : Json.asOption s.read d = .ok o := ho
        rw [Json.asOption_of_ne_null hdnull] at ho
        obtain ⟨x, hx, -⟩ := bind_eq_ok_iff.1 ho
        exact .inr ⟨x, hx⟩
    show Json.asOption s.read d' = .error e
    rw [Json.asOption_of_ne_null (h.ne_null hnull), ih hinner]
    rfl
  | @item n s d d' before after h ih =>
    obtain ⟨xs, hxs⟩ := hd.resolve_left nofun
    have hitems : (before ++ d :: after).mapM s.read = .ok xs := hxs
    have hinner : ∃ x, s.read d = .ok x := exists_ok_of_mapM hitems (by simp)
    exact mapM_eq_error hitems (ih (.inr hinner))
  | column before after hf hs h ih =>
    obtain ⟨x, hx⟩ := hd.resolve_left nofun
    have hinner := RecordShape.exists_read_column hx hf hs
    exact RecordShape.read_array_eq_error hx hf hs (ih (.inr hinner))
  | @member n r f s d d' before after hf hs h ih =>
    obtain ⟨x, hx⟩ := hd.resolve_left nofun
    have hmem : (some f.key, d) ∈ before ++ (some f.key, d) :: after := by simp
    have hinner := RecordShape.exists_read_member hx hf hs hmem
    exact RecordShape.read_object_eq_error hx hf hs (ih (.inr hinner))

/-- What is looked at of a root before it is read does not change with a part inside of it. -/
theorem checkRoot (h : Replaces p j k (n + 1) (.record .node) d d') (hd' : d'.isSound = true)
    (hd : Node.checkRoot d = .ok ()) : Node.checkRoot d' = .ok () := by
  cases h with
  | column before after hf hs h =>
    cases before with
    | nil =>
      obtain rfl := Option.some_inj.1 hf
      cases hs
    | cons tag before => exact hd
  | member before after hf hs h =>
    rw [Node.checkRoot, Node.checkRootMembers_eq_ok_iff] at hd ⊢
    rw [← RecordShape.values_tagKeys hf _ Node.tagKey List.mem_cons_self]
    exact ⟨hd', hd.2⟩

end Replaces

namespace Node

/-- The root of what is read is sound and looks like one. -/
theorem root_of_parse {s : String} {d : Json} (hs : Json.ofText s = ⟨d, false⟩) {t : Node}
    (ht : parse s = .ok t) : d.isSound = true ∧ checkRoot d = .ok () ∧ read d = .ok t := by
  rw [parse_eq_ok_iff, hs] at ht
  obtain ⟨-, hroot⟩ := ht
  obtain ⟨-, hsound, hread⟩ := readRoot_eq_ok_iff.1 hroot
  obtain ⟨_, hcheck, -⟩ := bind_eq_ok_iff.1 hroot
  exact ⟨hsound, hcheck, hread⟩

/-- A root that is sound and looks like one fails as a node does. -/
theorem parse_eq_error {s : String} {d : Json} (hs : Json.ofText s = ⟨d, false⟩)
    (hsound : d.isSound = true) (hroot : checkRoot d = .ok ()) {e : Fault}
    (he : read d = .error e) : parse s = .error (.ofFault e) := by
  have hread : readRoot d = .error e := by
    rw [readRoot, hroot, hsound]
    exact he
  rw [parse, ofText, readText, hs, hread]
  rfl

/-- **Faults are local.** Let a text be read as a tree, and replace in its document a part that is
read as a node inside of another: a child, an item of a list, a parameter, a specifier, or the
`null` that stands for one of them. If the new part is sound JSON, is not `null` and cannot be read
as a node, for a reason that has a wording, then every text of the new document fails with that
wording. -/
theorem parse_eq_error_of_replaces {s s' : String} {d d' j v : Json} {n : Nat} {t : Node}
    (hs : Json.ofText s = ⟨d, false⟩) (ht : parse s = .ok t) (hs' : Json.ofText s' = ⟨d', false⟩)
    (h : Replaces (.record .node) j v (n + 1) (.record .node) d d') (hnull : v ≠ .null)
    (hsound : v.isSound = true) {e : Fault} (he : read v = .error e) {message : String}
    (hmessage : e.message? = some message) :
    parse s' = .error (.malformedTree message) := by
  obtain ⟨hwhole, hroot, hread⟩ := root_of_parse hs ht
  have hwhole' : d'.isSound = true := h.isSound (fun _ => hsound) hwhole
  have hfault : read d' = .error e := h.read_eq_error hnull (fun _ => he) (.inr ⟨t, hread⟩)
  rw [parse_eq_error hs' hwhole' (h.checkRoot hwhole' hroot) hfault, Failure.ofFault, hmessage]
  rfl

end Node

/-- A return statement with the given argument. -/
def returnOf (argument : Json) : Json :=
  .record [("type", .text "ReturnStatement"), ("argument", argument), ("loc", firstLine)]

/-- A statement without its span. -/
def bareBreak : Json := .record [("type", .text "BreakStatement")]

theorem replaces_argument (j k : Json) :
    Replaces (.record .node) j k 4 (.record .node) (programOf (returnOf j))
      (programOf (returnOf k)) := by
  have hreturn : Replaces (.record .node) j k 2 (.record .node) (returnOf j) (returnOf k) :=
    .member (f := ⟨"argument", some (.option (.record .node)), true⟩)
      [(some "type", .text "ReturnStatement")] [(some "loc", firstLine)] (.head _) rfl
      (.option .here)
  exact .member (f := ⟨"body", some (.list (.record .node)), false⟩)
    [(some "type", .text "Program")] [(some "loc", firstLine)] (.head _) rfl (.item [] [] hreturn)

/-- A program whose only statement returns nothing, and the same with a statement that has no span
in the place of what is returned: the program fails as that statement does. -/
theorem parse_returnOf_bareBreak :
    (bareBreak ≠ .null ∧ bareBreak.isSound = true ∧ Node.read bareBreak = .error (.missing "loc")) ∧
      Node.parse (programOf (returnOf .null)).toText =
        .ok (.program [.returnStatement none ⟨⟨1, 0⟩, ⟨1, 7⟩⟩] ⟨⟨1, 0⟩, ⟨1, 7⟩⟩) ∧
      Node.parse (programOf (returnOf bareBreak)).toText =
        .error (.malformedTree "missing field `loc`") := by
  have hnull : bareBreak ≠ .null := nofun
  have hread : Node.read bareBreak = .error (.missing "loc") := rfl
  have hbefore := Json.ofText_toText (j := programOf (returnOf .null)) rfl
  have hafter := Json.ofText_toText (j := programOf (returnOf bareBreak)) rfl
  have hparse : Node.parse (programOf (returnOf .null)).toText =
      .ok (.program [.returnStatement none ⟨⟨1, 0⟩, ⟨1, 7⟩⟩] ⟨⟨1, 0⟩, ⟨1, 7⟩⟩) := by
    rw [Node.parse_eq_ok_iff, hbefore]
    exact ⟨rfl, rfl⟩
  exact ⟨⟨hnull, rfl, hread⟩, hparse, Node.parse_eq_error_of_replaces hbefore hparse hafter
    (replaces_argument .null bareBreak) hnull rfl hread rfl⟩

end ChapterLint
