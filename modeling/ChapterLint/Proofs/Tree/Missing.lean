import ChapterLint.Proofs.Tree.Replacing

/-!
# Members that are missing

Some members of a record must be there: the tag of a node, and every field that must not be absent.
When any of them are deleted from an object that was read, the record is missed one of them: the tag
if it is among the deleted ones, as nothing is known of the fields without it, and otherwise the
first deleted field in the order of the fields, wherever the deleted members stood and in whatever
order the others are left.

`RecordShape.read_object_eq_missing` says so for one record of any shape. What is left of the object
is still sound, and at the root it still looks like a root (`Node.checkRoot_of_left`), so the fault
of the record is that of the document, at whatever depth the record stands.
-/

namespace ChapterLint

open Record (values Left)

/-! ## The tag -/

/-- An object without a tag is missed its tag. -/
theorem Node.takeTag_eq_missing {ms : List (Option String × Json)} (hsome : ∀ m ∈ ms, m.1.isSome)
    (hnone : values tagKey ms = []) : takeTag none ms = .error (.missing tagKey) := by
  induction ms with
  | nil => rfl
  | cons m ms ih =>
    obtain ⟨key, j⟩ := m
    obtain ⟨hkey, hrest⟩ := List.forall_mem_cons.1 hsome
    obtain ⟨key, rfl⟩ := Option.isSome_iff_exists.1 hkey
    have hne : key ≠ tagKey := by
      rintro rfl
      rw [Record.values_cons_self] at hnone
      cases hnone
    rw [Record.values_cons_of_ne fun he => hne (Option.some_inj.1 he)] at hnone
    rw [takeTag, if_neg hne]
    exact bind_eq_error_iff.2 (.inl (ih hrest hnone))

/-- What is left of the members of a root still looks like a root. -/
theorem Node.checkRoot_of_left {ms ms' : List (Option String × Json)} {deleted : List String}
    (hleft : Left deleted ms ms') (hsound : Json.membersSound ms' = true)
    (h : checkRoot (.object ms) = .ok ()) : checkRoot (.object ms') = .ok () := by
  rw [checkRoot, checkRootMembers_eq_ok_iff] at h ⊢
  refine ⟨hsound, ?_⟩
  by_cases htag : tagKey ∈ deleted
  · exact .inl (hleft.values_of_mem htag)
  · have hperm := hleft.values_of_notMem htag
    rcases h.2 with hnone | ⟨-, text, hone⟩
    · rw [hnone] at hperm
      exact .inl hperm.eq_nil
    · rw [hone] at hperm
      exact .inr ⟨rfl, text, List.perm_singleton.1 hperm⟩

/-! ## Records -/

theorem Record.Left.membersSound {ms ms' : List (Option String × Json)} {deleted : List String}
    (h : Left deleted ms ms') (hms : Json.membersSound ms = true) :
    Json.membersSound ms' = true := by
  rw [Json.membersSound_iff] at hms ⊢
  exact fun m hm => hms m (h.mem hm).1

namespace RecordShape

variable {r : RecordShape} {ms ms' : List (Option String × Json)} {deleted : List String}

/-- The keys of a record in their order, that of a tag first. -/
def keys (r : RecordShape) (ms : List (Option String × Json)) : List String :=
  r.tagKeys ++ (r.fields ms).map FieldShape.key

/-- A member must be there: it is a tag, or it is of a field that must not be absent. -/
def Requires (r : RecordShape) (ms : List (Option String × Json)) (key : String) : Prop :=
  key ∈ r.tagKeys ∨ ∃ f ∈ r.fields ms, f.key = key ∧ f.optional = false

theorem Requires.mem_keys {key : String} (h : r.Requires ms key) : key ∈ r.keys ms := by
  rcases h with htag | ⟨f, hf, rfl, -⟩
  · exact List.mem_append_left _ htag
  · exact List.mem_append_right _ (List.mem_map_of_mem hf)

/-- A node without its tag is missed its tag. -/
theorem read_object_eq_missing_tag {x : r.type} (h : r.read (.object ms) = .ok x)
    (hleft : Left deleted ms ms') {key : String} (htag : key ∈ r.tagKeys) (hkey : key ∈ deleted) :
    r.read (.object ms') = .error (.missing key) := by
  cases r with
  | node =>
    obtain rfl := List.mem_singleton.1 htag
    have hsome := (exists_read_object_eq h).1
    have htake := Node.takeTag_eq_missing (fun m hm => hsome m (hleft.mem hm).1)
      (hleft.values_of_mem hkey)
    show Node.read (.object ms') = _
    rw [Node.read_eq, Node.readWith, htake]
    rfl
  | _ => cases htag

/-- A record with its tag is missed its first deleted field. -/
theorem read_object_eq_missing_field {x : r.type} (h : r.read (.object ms) = .ok x)
    (hleft : Left deleted ms ms') (hrequired : ∀ key ∈ deleted, r.Requires ms key)
    (htag : ∀ key ∈ r.tagKeys, key ∉ deleted) {f : FieldShape}
    (hfirst : (r.fields ms).find? (fun f => f.key ∈ deleted) = some f) :
    r.read (.object ms') = .error (.missing f.key) := by
  obtain ⟨hsome, _, _, c, shape, fs, g, -, hfields, hkeys, hread, -⟩ := exists_read_object_eq h
  rw [hread _ hsome fun _ _ => .refl _] at h
  obtain ⟨xs, hxs, -⟩ := bind_eq_ok_iff.1 h
  rw [hfields, FieldShape.ofFields, List.find?_map, Option.map_eq_some_iff] at hfirst
  obtain ⟨field, hfield, rfl⟩ := hfirst
  have habsent : ∀ field ∈ fs, field.key ∈ deleted → c.absent field.sort = none := by
    intro field hfield hkey
    obtain htag' | ⟨f, hf, hsame, hoptional⟩ := hrequired _ hkey
    · exact absurd hkey (htag _ htag')
    · rw [hfields] at hf
      obtain ⟨other, hother, rfl⟩ := List.mem_map.1 hf
      obtain rfl := List.inj_on_of_nodup_map hkeys hother hfield hsame
      exact Option.not_isSome_iff_eq_none.1 (by simpa using hoptional)
  have hmissing := Record.ofMembers_eq_missing_of_left hkeys hxs (hleft.without _) habsent
    hfield
  rw [hread ms' (fun m hm => hsome m (hleft.mem hm).1)
    fun key hkey => hleft.values_of_notMem (htag key hkey), hmissing]
  rfl

/-- **The first deleted member is missed.** Of the members that a record must have, some are deleted
from an object that was read. The first of them in the order of the keys is missed. -/
theorem read_object_eq_missing {x : r.type} (h : r.read (.object ms) = .ok x)
    (hleft : Left deleted ms ms') (hrequired : ∀ key ∈ deleted, r.Requires ms key) {key : String}
    (hfirst : (r.keys ms).find? (fun key => key ∈ deleted) = some key) :
    r.read (.object ms') = .error (.missing key) := by
  rw [keys, List.find?_append, Option.or_eq_some_iff] at hfirst
  rcases hfirst with htag | ⟨hnone, hfield⟩
  · exact read_object_eq_missing_tag h hleft (List.mem_of_find?_eq_some htag)
      (by simpa using List.find?_some htag)
  · rw [List.find?_map, Option.map_eq_some_iff] at hfield
    obtain ⟨f, hf, rfl⟩ := hfield
    exact read_object_eq_missing_field h hleft hrequired (by simpa using hnone) hf

end RecordShape

/-! ## Documents -/

namespace Node

/-- **Missing members are named.** Let a text be read as a tree, and delete from an object in its
document, at any depth, some of the members that the record read from it must have. The others may
be left in any order. Then every text of the new document fails, and it names the first of the
deleted members: the tag if it is one of them, otherwise the first in the order of the fields. -/
theorem parse_eq_missing_of_left {s s' : String} {d d' : Json} {r : RecordShape}
    {ms ms' : List (Option String × Json)} {deleted : List String} {n : Nat} {t : Node}
    (hs : Json.ofText s = ⟨d, false⟩) (ht : parse s = .ok t) (hs' : Json.ofText s' = ⟨d', false⟩)
    (h : Replaces (.record r) (.object ms) (.object ms') n (.record .node) d d')
    (hleft : ms'.Perm (Record.without deleted ms)) (hdeleted : deleted ≠ [])
    (hrequired : ∀ key ∈ deleted, r.Requires ms key) :
    ∃ key, (r.keys ms).find? (fun key => key ∈ deleted) = some key ∧
      parse s' = .error (.malformedTree ("missing field `" ++ key ++ "`")) := by
  have hleft : Left deleted ms ms' := hleft
  obtain ⟨hsound, hroot, hread⟩ := root_of_parse hs ht
  have hsound' : d'.isSound = true := h.isSound hleft.membersSound hsound
  have hroot' : checkRoot d' = .ok () := by
    cases n with
    | zero =>
      cases h
      exact checkRoot_of_left hleft hsound' hroot
    | succ n => exact h.checkRoot hsound' hroot
  obtain ⟨key, hfirst⟩ : ∃ key, (r.keys ms).find? (fun key => key ∈ deleted) = some key := by
    obtain ⟨key, hkey⟩ := List.exists_mem_of_ne_nil deleted hdeleted
    refine Option.isSome_iff_exists.1 (List.find?_isSome.2 ⟨key, ?_, decide_eq_true hkey⟩)
    exact (hrequired key hkey).mem_keys
  have hfault : read d' = .error (.missing key) := by
    refine h.read_eq_error nofun (fun haccepts => ?_) (.inr ⟨t, hread⟩)
    obtain ⟨x, hx⟩ := haccepts.resolve_left nofun
    exact RecordShape.read_object_eq_missing hx hleft hrequired hfirst
  refine ⟨key, hfirst, ?_⟩
  rw [parse_eq_error hs' hsound' hroot' hfault]
  simp [Failure.ofFault, Fault.message?, marked, ← String.append_assoc]

end Node

/-- A break statement whose span ends where the given members say. -/
def breakEndingAt (members : List (Option String × Json)) : Json :=
  .record [("type", .text "BreakStatement"),
    ("loc", .record [("end", .object members), ("start", .array [.natural 1, .natural 0])])]

theorem replaces_end (ms ms' : List (Option String × Json)) :
    Replaces (.record .position) (.object ms) (.object ms') 2 (.record .node) (breakEndingAt ms)
      (breakEndingAt ms') := by
  have hspan : Replaces (.record .position) (.object ms) (.object ms') 1 (.record .span)
      (.record [("end", .object ms), ("start", .array [.natural 1, .natural 0])])
      (.record [("end", .object ms'), ("start", .array [.natural 1, .natural 0])]) :=
    .member (f := ⟨"end", some (.record .position), false⟩) []
      [(some "start", .array [.natural 1, .natural 0])] (.tail _ (.head _)) rfl .here
  exact .member (f := ⟨"loc", some (.record .span), false⟩)
    [(some "type", .text "BreakStatement")] [] (.head _) rfl hspan

/-- A statement whose span ends at an object with the column before the line. With both deleted it
is the line that is missed. -/
theorem parse_breakEndingAt_nowhere :
    let ms : List (Option String × Json) :=
      [(some "column", .natural 6), (some "offset", .natural 6), (some "line", .natural 1)]
    let ms' : List (Option String × Json) := [(some "offset", .natural 6)]
    Node.parse (breakEndingAt ms).toText = .ok (.breakStatement ⟨⟨1, 0⟩, ⟨1, 6⟩⟩) ∧
      (∀ key ∈ ["column", "line"], RecordShape.Requires .position ms key) ∧
      Node.parse (breakEndingAt ms').toText = .error (.malformedTree "missing field `line`") := by
  intro ms ms'
  have hbefore := Json.ofText_toText (j := breakEndingAt ms) rfl
  have hafter := Json.ofText_toText (j := breakEndingAt ms') rfl
  have hparse : Node.parse (breakEndingAt ms).toText =
      .ok (.breakStatement ⟨⟨1, 0⟩, ⟨1, 6⟩⟩) := by
    rw [Node.parse_eq_ok_iff, hbefore]
    exact ⟨rfl, rfl⟩
  have hrequired : ∀ key ∈ ["column", "line"], RecordShape.Requires .position ms key := by
    simp [RecordShape.Requires, RecordShape.fields, RecordShape.plainFields]
  obtain ⟨key, hfirst, hmissing⟩ := Node.parse_eq_missing_of_left hbefore hparse hafter
    (replaces_end ms ms') (.of_eq rfl) (by simp) hrequired
  have hkey : (RecordShape.keys .position ms).find? (fun key => key ∈ ["column", "line"]) =
      some "line" := rfl
  obtain rfl := Option.some_inj.1 (hfirst.symm.trans hkey)
  exact ⟨hparse, hrequired, hmissing⟩

end ChapterLint
