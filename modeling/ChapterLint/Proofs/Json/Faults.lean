import Mathlib.Data.List.Find
import ChapterLint.Proofs.Json.Members

/-!
# Faults of records and lists

Lists and records are read part by part, and the first fault met is the fault of the whole. So in
what has been read, a part that is replaced by one that cannot be read passes its fault on: in a
list (`mapM_eq_error`), in a record that is an object (`Record.ofMembers_eq_error`) and in one that
is an array (`Record.ofItems_eq_error`). What comes before the part is read as it was, and what
comes behind it is not looked at any more.

A field that must not be absent is missed only when all members have been taken. So of the fields
that are left out it is the first in the order of the fields that is missed, wherever it stood and
in whatever order the other members come (`Record.ofMembers_eq_missing`).
-/

namespace ChapterLint

theorem mapM_eq_error {ε α β : Type} {f : α → Except ε β} {before after : List α} {x y : α}
    {zs : List β} {e : ε} (h : (before ++ x :: after).mapM f = .ok zs) (hy : f y = .error e) :
    (before ++ y :: after).mapM f = .error e := by
  rw [List.mapM_append] at h ⊢
  obtain ⟨us, hbefore, -⟩ := bind_eq_ok_iff.1 h
  rw [hbefore, List.mapM_cons, hy]
  rfl

namespace Record

variable {ι : Type} {type : ι → Type} {c : Contents type} {fs : List (Field ι)} {f g : Field ι}
  {e : Fault}

/-! ## A part that cannot be read -/

theorem takeAll_append (ms ns : List (Option String × Json)) (slots : Slots type fs) :
    takeAll c fs (ms ++ ns) slots = takeAll c fs ms slots >>= takeAll c fs ns := by
  induction ms generalizing slots with
  | nil => rfl
  | cons m ms ih =>
    obtain ⟨key, j⟩ := m
    cases key with
    | none => rfl
    | some key =>
      rw [List.cons_append, takeAll, takeAll, bind_assoc]
      exact congrArg _ (funext ih)

/-- A member that can be taken is replaced under its key by one that cannot be read. -/
theorem take_eq_error {j k : Json} (hk : c.read f.sort k = .error e) :
    ∀ {fs : List (Field ι)} {slots slots' : Slots type fs}, (fs.map Field.key).Nodup → f ∈ fs →
      take c f.key j fs slots = .ok slots' → take c f.key k fs slots = .error e
  | g :: fs, (slot, rest), slots', hkeys, hf, h => by
    obtain ⟨hg, hfs⟩ := List.nodup_cons.1 hkeys
    unfold take at h ⊢
    by_cases hkey : g.key = f.key
    · -- no other field has this key, so the first one is the field
      have hself : f = g := by
        refine (List.mem_cons.1 hf).resolve_right fun hmem => hg ?_
        exact hkey ▸ List.mem_map_of_mem hmem
      subst hself
      rw [if_pos rfl] at h ⊢
      cases slot with
      | some x => cases h
      | none => exact bind_eq_error_iff.2 (.inl hk)
    · have hmem : f ∈ fs := (List.mem_cons.1 hf).resolve_left fun he => hkey (he ▸ rfl)
      rw [if_neg hkey] at h ⊢
      obtain ⟨rest', hrest, -⟩ := bind_eq_ok_iff.1 h
      exact bind_eq_error_iff.2 (.inl (take_eq_error hk hfs hmem hrest))

theorem ofMembers_eq_error (hkeys : (fs.map Field.key).Nodup) (hf : f ∈ fs)
    {before after : List (Option String × Json)} {j k : Json} {xs : Tuple type fs}
    (h : ofMembers c fs (before ++ (some f.key, j) :: after) = .ok xs)
    (hk : c.read f.sort k = .error e) :
    ofMembers c fs (before ++ (some f.key, k) :: after) = .error e := by
  obtain ⟨slots, htake, -⟩ := bind_eq_ok_iff.1 h
  rw [takeAll_append] at htake
  obtain ⟨mid, hbefore, htake⟩ := bind_eq_ok_iff.1 htake
  rw [takeAll] at htake
  obtain ⟨mid', hj, -⟩ := bind_eq_ok_iff.1 htake
  rw [ofMembers, takeAll_append, hbefore]
  show (take c f.key k fs mid >>= takeAll c fs after) >>= complete c fs = .error e
  rw [take_eq_error hk hkeys hf hj]
  rfl

theorem takeItems_eq_error {j k : Json} (hk : c.read f.sort k = .error e) {name : String}
    {size : Nat} {after : List Json} : ∀ {before : List Json} {fs : List (Field ι)} {index : Nat}
      {x : Tuple type fs × List Json}, fs[before.length]? = some f →
        takeItems c name size fs index (before ++ j :: after) = .ok x →
          takeItems c name size fs index (before ++ k :: after) = .error e
  | _, [], _, _, hf, _ => by simp at hf
  | [], g :: fs, _, _, hf, _ => by
    obtain rfl : g = f := by simpa using hf
    rw [List.nil_append, takeItems, hk]
    rfl
  | i :: before, g :: fs, _, _, hf, h => by
    rw [List.cons_append, takeItems] at h ⊢
    obtain ⟨y, hy, h⟩ := bind_eq_ok_iff.1 h
    obtain ⟨_, hrest, -⟩ := bind_eq_ok_iff.1 h
    have herror := takeItems_eq_error hk (by simpa using hf) hrest
    exact bind_eq_error_iff.2 (.inr ⟨y, hy, bind_eq_error_iff.2 (.inl herror)⟩)

theorem ofItems_eq_error {before after : List Json} (hf : fs[before.length]? = some f) {j k : Json}
    {place : Place} {name : String} {xs : Tuple type fs}
    (h : ofItems c place name fs (before ++ j :: after) = .ok xs)
    (hk : c.read f.sort k = .error e) :
    ofItems c place name fs (before ++ k :: after) = .error e := by
  obtain ⟨_, hitems, -⟩ := bind_eq_ok_iff.1 h
  rw [ofItems, takeItems_eq_error hk hf hitems]
  rfl

/-! ## Fields that are left out -/

variable {ms ms' : List (Option String × Json)} {deleted : List String}

/-- Members that are read fill slots. -/
theorem exists_fills : ∀ {fs : List (Field ι)},
    (∀ f ∈ fs, values f.key ms = [] ∨ ∃ j x, values f.key ms = [j] ∧ c.read f.sort j = .ok x) →
      ∃ slots : Slots type fs,
        Tuple.Rel (fun f => Fills c f (values f.key ms)) fs (Slots.empty fs) slots
  | [], _ => ⟨(), trivial⟩
  | f :: fs, h => by
    obtain ⟨hf, hfs⟩ := List.forall_mem_cons.1 h
    obtain ⟨rest, hrest⟩ := exists_fills hfs
    rcases hf with hnone | ⟨j, x, hone, hx⟩
    · exact ⟨(none, rest), .inl ⟨hnone, rfl⟩, hrest⟩
    · exact ⟨(some x, rest), .inr ⟨j, hone, rfl, x, hx, rfl⟩, hrest⟩

/-- A field has no value and must have one. -/
def lacks (c : Contents type) (ms : List (Option String × Json)) (f : Field ι) : Bool :=
  (values f.key ms).isEmpty && (c.absent f.sort).isNone

/-- The first field that lacks its content is missed. -/
theorem complete_eq_missing : ∀ {fs : List (Field ι)} {slots : Slots type fs},
    Tuple.Rel (fun f => Fills c f (values f.key ms)) fs (Slots.empty fs) slots →
      fs.find? (lacks c ms) = some g → complete c fs slots = .error (.missing g.key)
  | [], _, _, hfirst => by cases hfirst
  | f :: fs, (slot, rest), ⟨hslot, hrest⟩, hfirst => by
    rw [complete]
    rw [List.find?_cons] at hfirst
    cases hlacks : lacks c ms f with
    | true =>
      rw [hlacks] at hfirst
      obtain rfl := Option.some_inj.1 hfirst
      rw [lacks, Bool.and_eq_true, List.isEmpty_iff, Option.isNone_iff_eq_none] at hlacks
      obtain ⟨hnone, habsent⟩ := hlacks
      rcases hslot with ⟨-, rfl⟩ | ⟨j, hone, -⟩
      · rw [habsent]
        rfl
      · rw [hnone] at hone
        cases hone
    | false =>
      rw [hlacks] at hfirst
      have hcontent : ∃ x, slot.or (c.absent f.sort) = some x := by
        rcases hslot with ⟨hnone, rfl⟩ | ⟨j, -, -, x, -, rfl⟩
        · rw [lacks, hnone] at hlacks
          exact Option.isSome_iff_exists.1 (by simpa using hlacks)
        · exact ⟨x, rfl⟩
      obtain ⟨x, hx⟩ := hcontent
      rw [hx]
      exact bind_eq_error_iff.2 (.inl (complete_eq_missing hrest hfirst))

/-- Of an object whose members can all be read, the first field is missed that lacks its
content. -/
theorem ofMembers_eq_missing (hkeys : (fs.map Field.key).Nodup)
    (hpass : Passable (fs.map Field.key) ms)
    (hread : ∀ f ∈ fs,
      values f.key ms = [] ∨ ∃ j x, values f.key ms = [j] ∧ c.read f.sort j = .ok x)
    (hfirst : fs.find? (lacks c ms) = some g) : ofMembers c fs ms = .error (.missing g.key) := by
  obtain ⟨slots, hslots⟩ := exists_fills hread
  have htake : takeAll c fs ms (Slots.empty fs) = .ok slots :=
    (takeAll_eq_ok_iff hkeys).2 ⟨hpass, hslots⟩
  rw [ofMembers, htake]
  exact complete_eq_missing hslots hfirst

/-! ## Members that are deleted -/

/-- The members that are left when those under some keys are deleted, in any order. -/
def Left (deleted : List String) (ms ms' : List (Option String × Json)) : Prop :=
  ms'.Perm (without deleted ms)

theorem Left.mem (h : Left deleted ms ms') {m : Option String × Json} (hm : m ∈ ms') :
    m ∈ ms ∧ m.1 ∉ deleted.map some := by
  simpa [without] using h.mem_iff.1 hm

theorem Left.values_of_mem (h : Left deleted ms ms') {key : String} (hkey : key ∈ deleted) :
    values key ms' = [] := by
  refine List.eq_nil_iff_forall_not_mem.2 fun j hj => ?_
  exact (h.mem (mem_values_iff.1 hj)).2 (List.mem_map_of_mem hkey)

theorem Left.values_of_notMem (h : Left deleted ms ms') {key : String} (hkey : key ∉ deleted) :
    (values key ms').Perm (values key ms) := by
  exact (h.filterMap _).trans (.of_eq (values_without hkey ms))

theorem Left.without (h : Left deleted ms ms') (keys : List String) :
    Left deleted (without keys ms) (without keys ms') := by
  unfold Left Record.without at h ⊢
  rw [List.filter_comm]
  exact h.filter _

/-- A field that held something has lost it, or has the values that it had. -/
theorem Left.values_eq (h : Left deleted ms ms') {x : type f.sort}
    (hx : Holds c f (values f.key ms) x) :
    values f.key ms' = if f.key ∈ deleted then [] else values f.key ms := by
  split_ifs with hkey
  · exact h.values_of_mem hkey
  · have hperm := h.values_of_notMem hkey
    rcases hx with ⟨hnone, -⟩ | ⟨j, hone, -⟩
    · rw [hnone] at hperm ⊢
      exact hperm.eq_nil
    · rw [hone] at hperm ⊢
      exact List.perm_singleton.1 hperm

/-- **The first deleted field is missed.** Of an object that was read as a record, some members are
deleted, all of fields that must not be absent. What is left is read as it was, and of the deleted
fields the first one is missed. -/
theorem ofMembers_eq_missing_of_left (hkeys : (fs.map Field.key).Nodup) {xs : Tuple type fs}
    (h : ofMembers c fs ms = .ok xs) (hleft : Left deleted ms ms')
    (hrequired : ∀ f ∈ fs, f.key ∈ deleted → c.absent f.sort = none)
    (hfirst : fs.find? (fun f => f.key ∈ deleted) = some g) :
    ofMembers c fs ms' = .error (.missing g.key) := by
  obtain ⟨hpass, hall⟩ := (ofMembers_eq_ok_iff hkeys).1 h
  have hlacks : ∀ f ∈ fs, lacks c ms' f = decide (f.key ∈ deleted) := by
    intro f hf
    obtain ⟨x, hx⟩ := Tuple.exists_of_all hall hf
    rw [lacks, hleft.values_eq hx]
    by_cases hkey : f.key ∈ deleted
    · simp [hkey, hrequired f hf hkey]
    · rcases hx with ⟨-, habsent⟩ | ⟨j, hone, -⟩
      · simp [hkey, habsent]
      · simp [hkey, hone]
  refine ofMembers_eq_missing hkeys (fun m hm => hpass m (hleft.mem hm).1) (fun f hf => ?_)
    ((List.find?_congr hlacks).trans hfirst)
  obtain ⟨x, hx⟩ := Tuple.exists_of_all hall hf
  rw [hleft.values_eq hx]
  split_ifs with hkey
  · exact .inl rfl
  · exact hx.imp And.left fun ⟨j, hone, hread⟩ => ⟨j, x, hone, hread⟩

end Record

end ChapterLint
