import ChapterLint.Proofs.Json.Members
import ChapterLint.Proofs.Tree.Place
import ChapterLint.Tree.Unfold

/-!
# Nodes from objects

The tag of a node may stand anywhere among the members of its object, so it says only later what
the members before it are. Still, `Node.read_object_eq_ok_iff` says what an object is read as
without regard to the order: there is one tag, it tells the kind, and the fields of that kind hold
what stands under their keys.
-/

namespace ChapterLint

open Record (values Passable Holds)

/-- The keys of the fields of a kind. -/
abbrev NodeKind.keys (k : NodeKind) : List String := k.fields.map Field.key

namespace Node

theorem tagKey_notMem_keys (k : NodeKind) : tagKey ∉ k.keys := by
  cases k <;> decide

/-- A tag is a scalar. -/
theorem isWhole_of_readTag {j : Json} {k : NodeKind} (h : readTag j = .ok k) :
    j.isWhole = true := by
  cases j with
  | array items => simp [readTag, Json.found, bind, Except.bind] at h
  | object members => simp [readTag, Json.found, bind, Except.bind] at h
  | cut => simp [readTag, Json.found, bind, Except.bind] at h
  | _ => rfl

/-- The one tag is parted from the other members, which stay in their order. -/
theorem takeTag_eq_ok_iff : ∀ {ms rest : List (Option String × Json)} {found : Option NodeKind}
    {k : NodeKind}, takeTag found ms = .ok (k, rest) ↔
      (∀ m ∈ ms, m.1.isSome) ∧ rest = ms.filter (fun m => m.1 ≠ some tagKey) ∧
        ((found = some k ∧ values tagKey ms = []) ∨
          (found = none ∧ ∃ tag, values tagKey ms = [tag] ∧ readTag tag = .ok k))
  | [], rest, found, k => by
    cases found with
    | none => simp [takeTag]
    | some k' =>
      rw [takeTag, Except.ok.injEq, Prod.mk.injEq]
      constructor
      · rintro ⟨rfl, rfl⟩
        exact ⟨List.forall_mem_nil _, rfl, .inl ⟨rfl, rfl⟩⟩
      · rintro ⟨-, rfl, ⟨hk, -⟩ | ⟨hk, -⟩⟩
        · exact ⟨Option.some_inj.1 hk, rfl⟩
        · cases hk
  | (none, j) :: ms, rest, found, k => by
    simp [takeTag]
  | (some key, j) :: ms, rest, found, k => by
    rw [List.forall_mem_cons]
    unfold takeTag
    by_cases hkey : key = tagKey
    · subst hkey
      rw [if_pos rfl, Record.values_cons_self, List.filter_cons_of_neg (by simp)]
      cases found with
      | some k' => simp
      | none =>
        simp only [bind_eq_ok_iff, takeTag_eq_ok_iff]
        constructor
        · rintro ⟨k', htag, hsome, hrest, ⟨hk, hnone⟩ | ⟨hk, -⟩⟩
          · cases hk
            exact ⟨⟨rfl, hsome⟩, hrest, .inr ⟨trivial, j, by rw [hnone], htag⟩⟩
          · cases hk
        · rintro ⟨⟨-, hsome⟩, hrest, ⟨hk, -⟩ | ⟨-, tag, hone, htag⟩⟩
          · cases hk
          · obtain ⟨hj, hnone⟩ := List.cons.inj hone
            exact ⟨k, hj ▸ htag, hsome, hrest, .inl ⟨rfl, hnone⟩⟩
    · have hne : (some key, j).1 ≠ some tagKey := fun he => hkey (Option.some_inj.1 he)
      rw [if_neg hkey, Record.values_cons_of_ne hne, List.filter_cons_of_pos (by simpa using hne)]
      simp only [bind_eq_ok_iff, pure_eq_ok_iff, Prod.exists, Prod.mk.injEq, takeTag_eq_ok_iff]
      constructor
      · rintro ⟨k', rest', ⟨hsome, hrest, htag⟩, rfl, rfl⟩
        exact ⟨⟨rfl, hsome⟩, by rw [hrest], htag⟩
      · rintro ⟨⟨-, hsome⟩, hrest, htag⟩
        exact ⟨k, _, ⟨hsome, rfl, htag⟩, rfl, hrest⟩

/-- The tag is not a field, so the fields see the other members alone. -/
theorem values_filter_ne_tagKey {key : String} (h : key ≠ tagKey)
    (ms : List (Option String × Json)) :
    values key (ms.filter fun m => m.1 ≠ some tagKey) = values key ms := by
  rw [← Record.without_singleton]
  exact Record.values_without (by simpa using h) ms

theorem all_holds_filter_iff {ms : List (Option String × Json)} (k : NodeKind)
    {contents : k.Contents} :
    Tuple.All (fun f => Holds (Content.reader read) f
        (values f.key (ms.filter fun m => m.1 ≠ some tagKey))) k.fields contents ↔
      Tuple.All (fun f => Holds (Content.reader read) f (values f.key ms)) k.fields contents := by
  refine Tuple.all_congr fun f hf x => ?_
  have hne : f.key ≠ tagKey := fun he => tagKey_notMem_keys k (he ▸ List.mem_map_of_mem hf)
  rw [values_filter_ne_tagKey hne]

/-- Beside a tag, the other members are passable if all are. -/
theorem passable_iff_filter {ms : List (Option String × Json)} {tag : Json} {k : NodeKind}
    (hone : values tagKey ms = [tag]) (htag : readTag tag = .ok k) :
    Passable k.keys ms ↔
      (∀ m ∈ ms, m.1.isSome) ∧ Passable k.keys (ms.filter fun m => m.1 ≠ some tagKey) := by
  constructor
  · intro h
    refine ⟨fun m hm => ?_, fun m hm => h m (List.mem_of_mem_filter hm)⟩
    obtain ⟨key, hkey, -⟩ := h m hm
    rw [hkey]
    rfl
  · rintro ⟨hsome, h⟩ m hm
    by_cases hkey : m.1 = some tagKey
    · have hmem : m.2 ∈ values tagKey ms := Record.mem_values_iff.2 (hkey ▸ hm)
      rw [hone, List.mem_singleton] at hmem
      exact ⟨tagKey, hkey, fun _ => hmem ▸ isWhole_of_readTag htag⟩
    · exact h m (List.mem_filter.2 ⟨hm, by simpa using hkey⟩)

/-- **What an object is read as.** A node is read from an object exactly if the object has one tag,
which tells a kind, and the members make up a record of that kind. -/
theorem read_object_eq_ok_iff {ms : List (Option String × Json)} {n : Node} :
    read (.object ms) = .ok n ↔
      ∃ tag k contents, values tagKey ms = [tag] ∧ readTag tag = .ok k ∧ Passable k.keys ms ∧
        Tuple.All (fun f => Holds (Content.reader read) f (values f.key ms)) k.fields contents ∧
          n = k.build contents := by
  rw [read_eq, readWith]
  simp only [bind_eq_ok_iff, pure_eq_ok_iff, Prod.exists, takeTag_eq_ok_iff,
    Record.ofMembers_eq_ok_iff (keys_nodup _)]
  constructor
  · rintro ⟨k, rest, ⟨hsome, rfl, ⟨hk, -⟩ | ⟨-, tag, hone, htag⟩⟩, contents, ⟨hpass, hall⟩, rfl⟩
    · cases hk
    · exact ⟨tag, k, contents, hone, htag, (passable_iff_filter hone htag).2 ⟨hsome, hpass⟩,
        (all_holds_filter_iff k).1 hall, rfl⟩
  · rintro ⟨tag, k, contents, hone, htag, hpass, hall, rfl⟩
    obtain ⟨hsome, hrest⟩ := (passable_iff_filter hone htag).1 hpass
    exact ⟨k, _, ⟨hsome, rfl, .inr ⟨trivial, tag, hone, htag⟩⟩, contents,
      ⟨hrest, (all_holds_filter_iff k).2 hall⟩, rfl⟩

/-! ## The root -/

/-- The document has the tag of a root: one, and it is a string. -/
def HasTextTag : Json → Prop
  | .array (tag :: _) => ∃ s, tag = .text s
  | .object ms => ∃ s, values tagKey ms = [.text s]
  | _ => False

theorem checkRootTag_eq_ok_iff {j : Json} : checkRootTag j = .ok () ↔ ∃ s, j = .text s := by
  constructor
  · intro h
    obtain ⟨u, hfound, hu⟩ := bind_eq_ok_iff.1 h
    cases u with
    | text s =>
      refine ⟨s, ?_⟩
      unfold Json.found at hfound
      split at hfound <;> grind [Json.text]
    | _ => cases hu
  · rintro ⟨s, rfl⟩
    rfl

/-- The members of a root are looked through if they are sound and have no tag beside a string. -/
theorem checkRootMembers_eq_ok_iff : ∀ {ms : List (Option String × Json)} {found : Bool},
    checkRootMembers found ms = .ok () ↔
      Json.membersSound ms = true ∧
        (values tagKey ms = [] ∨ found = false ∧ ∃ s, values tagKey ms = [.text s])
  | [], found => by simp [checkRootMembers, Json.membersSound]
  | (none, j) :: ms, found => by simp [checkRootMembers, Json.membersSound]
  | (some key, j) :: ms, found => by
    unfold checkRootMembers
    rw [Json.membersSound, Option.isSome_some, Bool.true_and, Bool.and_eq_true]
    by_cases hkey : key = tagKey
    · subst hkey
      rw [if_pos rfl, Record.values_cons_self]
      cases found with
      | true => simp
      | false =>
        simp only [Bool.false_eq_true, if_false, bind_eq_ok_iff, Unique.exists_iff,
          PUnit.default_eq_unit, checkRootTag_eq_ok_iff, checkRootMembers_eq_ok_iff]
        constructor
        · rintro ⟨⟨s, rfl⟩, hms, hnone | ⟨hfound, -⟩⟩
          · exact ⟨⟨rfl, hms⟩, .inr ⟨trivial, s, by rw [hnone]⟩⟩
          · cases hfound
        · rintro ⟨⟨-, hms⟩, hnil | ⟨-, s, hone⟩⟩
          · cases hnil
          · obtain ⟨hj, hnone⟩ := List.cons.inj hone
            exact ⟨⟨s, hj⟩, hms, .inl hnone⟩
    · have hne : (some key, j).1 ≠ some tagKey := fun he => hkey (Option.some_inj.1 he)
      rw [if_neg hkey, Record.values_cons_of_ne hne]
      split_ifs with hsound
      · rw [checkRootMembers_eq_ok_iff, and_iff_right hsound]
      · simp [hsound]

/-- **What a root is read as.** A tree is read from a root exactly if the root has a tag that is a
string, is sound as a whole and is read as the tree. -/
theorem readRoot_eq_ok_iff {j : Json} {n : Node} :
    readRoot j = .ok n ↔ HasTextTag j ∧ j.isSound = true ∧ read j = .ok n := by
  have hroot : readRoot j = .ok n ↔
      checkRoot j = .ok () ∧ j.isSound = true ∧ read j = .ok n := by
    rw [readRoot, bind_eq_ok_iff, Unique.exists_iff, PUnit.default_eq_unit]
    split_ifs with hsound
    · simp [hsound]
    · simp [hsound]
  rw [hroot]
  cases j with
  | array items =>
    cases items with
    | nil => simp [checkRoot, HasTextTag, read_eq, readWith]
    | cons tag items => rw [checkRoot, checkRootTag_eq_ok_iff, HasTextTag]
  | object ms =>
    rw [checkRoot, checkRootMembers_eq_ok_iff, HasTextTag, Json.isSound]
    constructor
    · rintro ⟨⟨-, hnone | ⟨-, hone⟩⟩, hsound, hread⟩
      · obtain ⟨tag, -, -, hone, -⟩ := read_object_eq_ok_iff.1 hread
        rw [hnone] at hone
        cases hone
      · exact ⟨hone, hsound, hread⟩
    · rintro ⟨hone, hsound, hread⟩
      exact ⟨⟨hsound, .inr ⟨rfl, hone⟩⟩, hsound, hread⟩
  | _ => simp [HasTextTag, checkRoot, Json.refuse_ne_ok]

theorem parse_eq_ok_iff {s : String} {n : Node} :
    parse s = .ok n ↔
      (Json.ofText s).trailing = false ∧ readRoot (Json.ofText s).document = .ok n := by
  have hmap : parse s = .ok n ↔ ofText s = .ok n := by
    rw [parse]
    cases ofText s <;> simp [Except.mapError]
  rw [hmap, ofText, readText]
  cases (Json.ofText s).trailing with
  | true => simp [bind_eq_ok_iff]
  | false => simp

end Node

end ChapterLint
