import Mathlib.Data.List.Perm.Basic
import ChapterLint.Json.Record

/-!
# What an object says about a record

A record is taken from the members of an object one after the other, in the order of the text.
Which record it is does not depend on that order: `Record.ofMembers_eq_ok_iff` says that every
field has the one value under its key, or the content of an absent one if there is none, and that
what stands under other keys only has to be there.

The slots of a record are tuples, one place for each field, so what happens to them is said field
by field: `Tuple.Rel` relates two tuples by a relation at each field, and `Tuple.All` says
something of each place of one tuple. Taking a member (`take_eq_ok_iff`), taking all members
(`takeAll_eq_ok_iff`) and filling in the absent ones (`complete_eq_ok_iff`) are such relations.
-/

namespace ChapterLint

/-- A computation in two stages succeeds when both stages do. -/
theorem bind_eq_ok_iff {ε α β : Type} {x : Except ε α} {f : α → Except ε β} {b : β} :
    x >>= f = .ok b ↔ ∃ a, x = .ok a ∧ f a = .ok b := by
  cases x with
  | error e => simp [bind, Except.bind]
  | ok a => simp [bind, Except.bind]

/-- A computation in two stages fails where one of them does. -/
theorem bind_eq_error_iff {ε α β : Type} {x : Except ε α} {f : α → Except ε β} {e : ε} :
    x >>= f = .error e ↔ x = .error e ∨ ∃ a, x = .ok a ∧ f a = .error e := by
  cases x with
  | error e' => simp [bind, Except.bind]
  | ok a => simp [bind, Except.bind]

theorem pure_eq_ok_iff {ε α : Type} {a b : α} : (pure a : Except ε α) = .ok b ↔ b = a := by
  simp [pure, Except.pure, eq_comm]

theorem fmap_eq_ok_iff {ε α β : Type} {x : Except ε α} {f : α → β} {b : β} :
    f <$> x = .ok b ↔ ∃ a, x = .ok a ∧ b = f a := by
  rw [map_eq_pure_bind, bind_eq_ok_iff]
  simp only [pure_eq_ok_iff]

/-- A list is read when each item is. -/
theorem mapM_eq_ok_iff {ε α β : Type} {f : α → Except ε β} {xs : List α} {ys : List β} :
    xs.mapM f = .ok ys ↔ List.Forall₂ (fun x y => f x = .ok y) xs ys := by
  induction xs generalizing ys with
  | nil => simp [List.mapM_nil, pure_eq_ok_iff]
  | cons x xs ih =>
    simp only [List.mapM_cons, bind_eq_ok_iff, pure_eq_ok_iff, ih, List.forall₂_cons_left_iff]
    constructor
    · rintro ⟨y, hy, ys', hys, rfl⟩
      exact ⟨y, ys', hy, hys, rfl⟩
    · rintro ⟨y, ys', hy, hys, rfl⟩
      exact ⟨y, hy, ys', hys, rfl⟩

theorem exists_ok_of_mapM {ε α β : Type} {f : α → Except ε β} {xs : List α} {ys : List β}
    (h : xs.mapM f = .ok ys) {x : α} (hx : x ∈ xs) : ∃ y, f x = .ok y := by
  obtain ⟨before, after, rfl⟩ := List.append_of_mem hx
  simp only [List.mapM_append, List.mapM_cons, bind_eq_ok_iff] at h
  obtain ⟨_, -, _, ⟨y, hy, -⟩, -⟩ := h
  exact ⟨y, hy⟩

theorem Json.refuse_ne_ok {α : Type} (j : Json) (e : Expected) (x : α) : j.refuse e ≠ .ok x := by
  intro h
  obtain ⟨u, -, hu⟩ := bind_eq_ok_iff.1 h
  cases hu

theorem Json.asOption_of_ne_null {α : Type} {read : Json → Except Fault α} {j : Json}
    (h : j ≠ .null) : asOption read j = some <$> read j := by
  unfold asOption
  split
  · exact absurd rfl h
  · rfl

/-! ## Sound documents -/

namespace Json

theorem areSound_iff {js : List Json} : areSound js = true ↔ ∀ j ∈ js, j.isSound = true := by
  induction js with
  | nil => simp [areSound]
  | cons j js ih => rw [areSound, Bool.and_eq_true, ih, List.forall_mem_cons]

theorem membersSound_iff {ms : List (Option String × Json)} :
    membersSound ms = true ↔ ∀ m ∈ ms, m.1.isSome = true ∧ m.2.isSound = true := by
  induction ms with
  | nil => simp [membersSound]
  | cons m ms ih =>
    rw [membersSound, Bool.and_eq_true, Bool.and_eq_true, ih, List.forall_mem_cons]

mutual

theorem isWhole_of_isSound : ∀ {j : Json}, j.isSound = true → j.isWhole = true
  | .null, _ | .bool _, _ | .number _, _ | .string _, _ => rfl
  | .array _, h => areWhole_of_areSound h
  | .object _, h => membersWhole_of_membersSound h

theorem areWhole_of_areSound : ∀ {js : List Json}, areSound js = true → areWhole js = true
  | [], _ => rfl
  | j :: js, h => by
    rw [areSound, Bool.and_eq_true] at h
    rw [areWhole, isWhole_of_isSound h.1, areWhole_of_areSound h.2]
    rfl

theorem membersWhole_of_membersSound : ∀ {ms : List (Option String × Json)},
    membersSound ms = true → membersWhole ms = true
  | [], _ => rfl
  | (k, j) :: ms, h => by
    rw [membersSound, Bool.and_eq_true, Bool.and_eq_true] at h
    rw [membersWhole, isWhole_of_isSound h.1.2, membersWhole_of_membersSound h.2]
    rfl

end

end Json

/-! ## Tuples field by field -/

namespace Tuple

variable {ι : Type} {σ τ υ : ι → Type}

/-- Two tuples are related at each field. -/
def Rel (R : (f : Field ι) → σ f.sort → τ f.sort → Prop) :
    (fs : List (Field ι)) → Tuple σ fs → Tuple τ fs → Prop
  | [], _, _ => True
  | f :: fs, (x, xs), (y, ys) => R f x y ∧ Rel R fs xs ys

/-- Something holds at each field. -/
def All (P : (f : Field ι) → τ f.sort → Prop) : (fs : List (Field ι)) → Tuple τ fs → Prop
  | [], _ => True
  | f :: fs, (x, xs) => P f x ∧ All P fs xs

theorem rel_congr {R S : (f : Field ι) → σ f.sort → τ f.sort → Prop} :
    ∀ {fs : List (Field ι)} {xs : Tuple σ fs} {ys : Tuple τ fs},
      (∀ f ∈ fs, ∀ x y, R f x y ↔ S f x y) → (Rel R fs xs ys ↔ Rel S fs xs ys)
  | [], _, _, _ => Iff.rfl
  | f :: _, (x, _), (y, _), h =>
    and_congr (h f List.mem_cons_self x y)
      (rel_congr fun g hg => h g (List.mem_cons_of_mem _ hg))

theorem all_congr {P Q : (f : Field ι) → τ f.sort → Prop} :
    ∀ {fs : List (Field ι)} {xs : Tuple τ fs},
      (∀ f ∈ fs, ∀ x, P f x ↔ Q f x) → (All P fs xs ↔ All Q fs xs)
  | [], _, _ => Iff.rfl
  | f :: _, (x, _), h =>
    and_congr (h f List.mem_cons_self x) (all_congr fun g hg => h g (List.mem_cons_of_mem _ hg))

/-- What holds at each field holds of something at a given one. -/
theorem exists_of_all {P : (f : Field ι) → τ f.sort → Prop} {f : Field ι} :
    ∀ {fs : List (Field ι)} {xs : Tuple τ fs}, All P fs xs → f ∈ fs → ∃ x, P f x
  | g :: fs, (x, xs), h, hf => by
    rcases List.mem_cons.1 hf with rfl | hf
    · exact ⟨x, h.1⟩
    · exact exists_of_all h.2 hf

theorem rel_eq_iff : ∀ {fs : List (Field ι)} {xs ys : Tuple σ fs},
    Rel (fun _ x y => y = x) fs xs ys ↔ ys = xs
  | [], (), () => by simp [Rel]
  | _ :: _, (x, xs), (y, ys) => by rw [Rel, rel_eq_iff, Prod.mk.injEq]

/-- Two relations one after the other, field by field. -/
theorem exists_rel_and_rel {R : (f : Field ι) → σ f.sort → τ f.sort → Prop}
    {S : (f : Field ι) → τ f.sort → υ f.sort → Prop} :
    ∀ {fs : List (Field ι)} {xs : Tuple σ fs} {zs : Tuple υ fs},
      (∃ ys, Rel R fs xs ys ∧ Rel S fs ys zs) ↔ Rel (fun f x z => ∃ y, R f x y ∧ S f y z) fs xs zs
  | [], _, _ => ⟨fun _ => trivial, fun _ => ⟨(), trivial, trivial⟩⟩
  | f :: fs, (x, xs), (z, zs) => by
    rw [Rel, ← exists_rel_and_rel]
    constructor
    · rintro ⟨⟨y, ys⟩, ⟨hR, hRs⟩, hS, hSs⟩
      exact ⟨⟨y, hR, hS⟩, ys, hRs, hSs⟩
    · rintro ⟨⟨y, hR, hS⟩, ys, hRs, hSs⟩
      exact ⟨(y, ys), ⟨hR, hRs⟩, hS, hSs⟩

end Tuple

namespace Record

variable {ι : Type} {type : ι → Type}

theorem rel_empty_iff {R : (f : Field ι) → Option (type f.sort) → type f.sort → Prop} :
    ∀ {fs : List (Field ι)} {xs : Tuple type fs},
      Tuple.Rel R fs (Slots.empty fs) xs ↔ Tuple.All (fun f x => R f none x) fs xs
  | [], _ => Iff.rfl
  | _ :: _, (_, _) => and_congr Iff.rfl rel_empty_iff

/-! ## Taking members -/

/-- The values under a key, in their order. -/
def values (key : String) (ms : List (Option String × Json)) : List Json :=
  ms.filterMap fun m => if m.1 = some key then some m.2 else none

@[simp] theorem values_nil (key : String) : values key [] = [] := rfl

@[simp] theorem values_cons_self (key : String) (j : Json) (ms : List (Option String × Json)) :
    values key ((some key, j) :: ms) = j :: values key ms := by
  simp [values]

theorem values_cons_of_ne {key : String} {m : Option String × Json} (h : m.1 ≠ some key)
    (ms : List (Option String × Json)) : values key (m :: ms) = values key ms := by
  simp [values, h]

theorem mem_values_iff {key : String} {j : Json} {ms : List (Option String × Json)} :
    j ∈ values key ms ↔ (some key, j) ∈ ms := by
  simp only [values, List.mem_filterMap]
  constructor
  · rintro ⟨⟨k, j'⟩, hm, he⟩
    split_ifs at he with hk
    obtain rfl := Option.some_inj.1 he
    exact hk ▸ hm
  · intro hm
    exact ⟨(some key, j), hm, if_pos rfl⟩

theorem values_eq_nil {key : String} {ms : List (Option String × Json)}
    (h : some key ∉ ms.map Prod.fst) : values key ms = [] := by
  refine List.filterMap_eq_nil_iff.2 fun m hm => if_neg fun he => ?_
  exact h (he ▸ List.mem_map_of_mem hm)

theorem values_append (key : String) (ms ns : List (Option String × Json)) :
    values key (ms ++ ns) = values key ms ++ values key ns := List.filterMap_append

theorem values_insert_of_ne {key : String} {m : Option String × Json} (h : m.1 ≠ some key)
    (before after : List (Option String × Json)) :
    values key (before ++ m :: after) = values key (before ++ after) := by
  rw [values_append, values_append, values_cons_of_ne h]

theorem values_insert_self (key : String) (j : Json) (before after : List (Option String × Json)) :
    values key (before ++ (some key, j) :: after) = values key before ++ j :: values key after := by
  rw [values_append, values_cons_self]

/-- The members of an object but those under some keys. -/
def without (keys : List String) (ms : List (Option String × Json)) : List (Option String × Json) :=
  ms.filter fun m => m.1 ∉ keys.map some

theorem without_nil (ms : List (Option String × Json)) : without [] ms = ms := by
  simp [without]

theorem without_singleton (key : String) (ms : List (Option String × Json)) :
    without [key] ms = ms.filter fun m => m.1 ≠ some key := by
  simp [without]

theorem without_insert {key : String} {keys : List String} (h : key ∉ keys)
    (before after : List (Option String × Json)) (j : Json) :
    without keys (before ++ (some key, j) :: after) =
      without keys before ++ (some key, j) :: without keys after := by
  unfold without
  rw [List.filter_append, List.filter_cons_of_pos (by simpa using h)]

/-- Members under other keys may be left out. -/
theorem values_without {key : String} {keys : List String} (h : key ∉ keys)
    (ms : List (Option String × Json)) : values key (without keys ms) = values key ms := by
  unfold values without
  rw [List.filterMap_filter]
  refine List.filterMap_congr fun m _ => ?_
  by_cases hm : m.1 = some key
  · simp [hm, h]
  · simp [hm]

/-- A member is taken into the empty slot of the field of its key. -/
def Takes (c : Contents type) (key : String) (j : Json) (f : Field ι)
    (slot slot' : Option (type f.sort)) : Prop :=
  if f.key = key then slot = none ∧ ∃ x, c.read f.sort j = .ok x ∧ slot' = some x
  else slot' = slot

/-- The values under a key are taken into the slot of its field: none, or one into an empty slot. -/
def Fills (c : Contents type) (f : Field ι) (vs : List Json)
    (slot slot' : Option (type f.sort)) : Prop :=
  (vs = [] ∧ slot' = slot) ∨
    ∃ j, vs = [j] ∧ slot = none ∧ ∃ x, c.read f.sort j = .ok x ∧ slot' = some x

/-- What a field holds where it has the given values: the content of the only one, or what an
absent one stands for. -/
def Holds (c : Contents type) (f : Field ι) (vs : List Json) (x : type f.sort) : Prop :=
  (vs = [] ∧ c.absent f.sort = some x) ∨ ∃ j, vs = [j] ∧ c.read f.sort j = .ok x

/-- The keys of the members are text, and what stands under none of the known ones is whole. -/
def Passable (keys : List String) (ms : List (Option String × Json)) : Prop :=
  ∀ m ∈ ms, ∃ key, m.1 = some key ∧ (key ∉ keys → m.2.isWhole = true)

variable {c : Contents type}

/-- A member whose key no field has leaves the slots alone. -/
theorem rel_takes_of_unknown {key : String} {j : Json} {fs : List (Field ι)}
    (h : key ∉ fs.map Field.key) {slots slots' : Slots type fs} :
    Tuple.Rel (Takes c key j) fs slots slots' ↔ slots' = slots := by
  rw [← Tuple.rel_eq_iff]
  refine Tuple.rel_congr fun f hf x y => ?_
  have hne : f.key ≠ key := fun he => h (he ▸ List.mem_map_of_mem hf)
  rw [Takes, if_neg hne]

theorem take_eq_ok_iff {key : String} {j : Json} : ∀ {fs : List (Field ι)}
    {slots slots' : Slots type fs}, (fs.map Field.key).Nodup →
      (take c key j fs slots = .ok slots' ↔
        (key ∉ fs.map Field.key → j.isWhole = true) ∧ Tuple.Rel (Takes c key j) fs slots slots')
  | [], (), (), _ => by
    rw [take]
    split_ifs with hwhole
    · simp [hwhole, Tuple.Rel]
    · simp [hwhole]
  | f :: fs, (slot, rest), (slot', rest'), hkeys => by
    obtain ⟨hf, hfs⟩ := List.nodup_cons.1 hkeys
    rw [Tuple.Rel, Takes, List.map_cons, List.mem_cons]
    unfold take
    by_cases hkey : f.key = key
    · -- the key is that of the first field, and of no other
      rw [if_pos hkey, if_pos hkey, rel_takes_of_unknown (hkey ▸ hf)]
      cases slot with
      | some x => simp
      | none =>
        simp only [bind_eq_ok_iff, pure_eq_ok_iff, Prod.mk.injEq, hkey, true_or, not_true_eq_false,
          false_implies, true_and]
        exact ⟨fun ⟨x, hx, hs, hr⟩ => ⟨⟨x, hx, hs⟩, hr⟩, fun ⟨⟨x, hx, hs⟩, hr⟩ => ⟨x, hx, hs, hr⟩⟩
    · rw [if_neg hkey, if_neg hkey]
      simp only [bind_eq_ok_iff, pure_eq_ok_iff, Prod.mk.injEq, take_eq_ok_iff hfs, Ne.symm hkey,
        false_or]
      constructor
      · rintro ⟨r, ⟨hwhole, hr⟩, hs, rfl⟩
        exact ⟨hwhole, hs, hr⟩
      · rintro ⟨hwhole, hs, hr⟩
        exact ⟨rest', ⟨hwhole, hr⟩, hs, rfl⟩

/-- A value before others fills a slot if it is taken and the others fill what is left. -/
theorem exists_takes_and_fills {key : String} {j : Json} {f : Field ι}
    {ms : List (Option String × Json)} {slot slot' : Option (type f.sort)} :
    (∃ mid, Takes c key j f slot mid ∧ Fills c f (values f.key ms) mid slot') ↔
      Fills c f (values f.key ((some key, j) :: ms)) slot slot' := by
  unfold Takes
  by_cases hkey : f.key = key
  · subst hkey
    rw [values_cons_self]
    simp only [if_true]
    constructor
    · rintro ⟨mid, ⟨rfl, x, hx, rfl⟩, ⟨hvs, rfl⟩ | ⟨_, -, hnone, -⟩⟩
      · exact .inr ⟨j, by rw [hvs], rfl, x, hx, rfl⟩
      · cases hnone
    · rintro (⟨hvs, -⟩ | ⟨j', hvs, rfl, x, hx, rfl⟩)
      · cases hvs
      · obtain ⟨hj, hnil⟩ := List.cons.inj hvs
        subst hj
        exact ⟨some x, ⟨rfl, x, hx, rfl⟩, .inl ⟨hnil, rfl⟩⟩
  · rw [values_cons_of_ne fun he => hkey (Option.some_inj.1 he).symm]
    simp only [if_neg hkey]
    exact ⟨fun ⟨mid, hmid, hfills⟩ => hmid ▸ hfills, fun hfills => ⟨slot, rfl, hfills⟩⟩

theorem passable_cons_iff {keys : List String} {m : Option String × Json}
    {ms : List (Option String × Json)} :
    Passable keys (m :: ms) ↔
      (∃ key, m.1 = some key ∧ (key ∉ keys → m.2.isWhole = true)) ∧ Passable keys ms :=
  List.forall_mem_cons

theorem passable_insert_iff {keys : List String} {key : String} {j : Json}
    {before after : List (Option String × Json)} :
    Passable keys (before ++ (some key, j) :: after) ↔
      (key ∉ keys → j.isWhole = true) ∧ Passable keys (before ++ after) := by
  have hperm : (before ++ (some key, j) :: after).Perm ((some key, j) :: (before ++ after)) :=
    List.perm_middle
  have hmember : (∃ k, (some key, j).1 = some k ∧ (k ∉ keys → (some key, j).2.isWhole = true)) ↔
      (key ∉ keys → j.isWhole = true) := by simp
  rw [← hmember, ← passable_cons_iff]
  exact ⟨fun h m hm => h m (hperm.mem_iff.2 hm), fun h m hm => h m (hperm.mem_iff.1 hm)⟩

theorem takeAll_eq_ok_iff {fs : List (Field ι)} (hkeys : (fs.map Field.key).Nodup) :
    ∀ {ms : List (Option String × Json)} {slots slots' : Slots type fs},
      takeAll c fs ms slots = .ok slots' ↔
        Passable (fs.map Field.key) ms ∧
          Tuple.Rel (fun f => Fills c f (values f.key ms)) fs slots slots'
  | [], slots, slots' => by
    have hrel : Tuple.Rel (fun f => Fills c f (values f.key [])) fs slots slots' ↔
        slots' = slots := by
      rw [← Tuple.rel_eq_iff]
      exact Tuple.rel_congr fun f _ x y => by simp [Fills]
    rw [takeAll, hrel, Except.ok.injEq, eq_comm]
    exact (and_iff_right (List.forall_mem_nil _)).symm
  | (none, j) :: ms, slots, slots' => by
    simp [takeAll, passable_cons_iff]
  | (some key, j) :: ms, slots, slots' => by
    have hrel :
        Tuple.Rel (fun f => Fills c f (values f.key ((some key, j) :: ms))) fs slots slots' ↔
          ∃ mid : Slots type fs, Tuple.Rel (Takes c key j) fs slots mid ∧
            Tuple.Rel (fun f => Fills c f (values f.key ms)) fs mid slots' := by
      rw [Tuple.exists_rel_and_rel]
      exact Tuple.rel_congr fun f _ x y => exists_takes_and_fills.symm
    rw [takeAll, bind_eq_ok_iff, hrel, passable_cons_iff]
    simp only [take_eq_ok_iff hkeys, takeAll_eq_ok_iff hkeys, Option.some_inj]
    constructor
    · rintro ⟨mid, ⟨hwhole, htakes⟩, hpass, hfills⟩
      exact ⟨⟨⟨key, rfl, hwhole⟩, hpass⟩, mid, htakes, hfills⟩
    · rintro ⟨⟨⟨_, rfl, hwhole⟩, hpass⟩, mid, htakes, hfills⟩
      exact ⟨mid, ⟨hwhole, htakes⟩, hpass, hfills⟩

theorem complete_eq_ok_iff : ∀ {fs : List (Field ι)} {slots : Slots type fs} {xs : Tuple type fs},
    complete c fs slots = .ok xs ↔
      Tuple.Rel (fun f slot x => slot.or (c.absent f.sort) = some x) fs slots xs
  | [], (), () => by simp [complete, Tuple.Rel]
  | f :: fs, (slot, rest), (x, xs) => by
    rw [complete, Tuple.Rel]
    cases slot.or (c.absent f.sort) with
    | none => simp
    | some y =>
      simp only [bind_eq_ok_iff, pure_eq_ok_iff, complete_eq_ok_iff, Prod.mk.injEq, Option.some_inj]
      exact ⟨fun ⟨r, hr, hx, he⟩ => ⟨hx.symm, he ▸ hr⟩, fun ⟨hx, hr⟩ => ⟨xs, hr, hx.symm, rfl⟩⟩

/-- **The order of the members does not matter.** A record is taken from an object exactly if the
object is passable and every field of the record holds what the values under its key say. -/
theorem ofMembers_eq_ok_iff {fs : List (Field ι)} (hkeys : (fs.map Field.key).Nodup)
    {ms : List (Option String × Json)} {xs : Tuple type fs} :
    ofMembers c fs ms = .ok xs ↔
      Passable (fs.map Field.key) ms ∧ Tuple.All (fun f => Holds c f (values f.key ms)) fs xs := by
  have hholds : ∀ (f : Field ι) (x : type f.sort),
      (∃ slot, Fills c f (values f.key ms) none slot ∧ slot.or (c.absent f.sort) = some x) ↔
        Holds c f (values f.key ms) x := by
    intro f x
    unfold Fills Holds
    constructor
    · rintro ⟨slot, ⟨hvs, rfl⟩ | ⟨j, hvs, -, y, hy, rfl⟩, hx⟩
      · exact .inl ⟨hvs, hx⟩
      · exact .inr ⟨j, hvs, by rw [hy, Option.some_inj.1 hx]⟩
    · rintro (⟨hvs, hx⟩ | ⟨j, hvs, hx⟩)
      · exact ⟨none, .inl ⟨hvs, rfl⟩, hx⟩
      · exact ⟨some x, .inr ⟨j, hvs, rfl, x, hx, rfl⟩, rfl⟩
  rw [ofMembers, bind_eq_ok_iff]
  simp only [takeAll_eq_ok_iff hkeys, complete_eq_ok_iff, and_assoc]
  rw [exists_and_left, Tuple.exists_rel_and_rel, rel_empty_iff]
  exact and_congr Iff.rfl (Tuple.all_congr fun f _ x => hholds f x)

/-! ## Items -/

/-- What is read as a record by order is read in each field. -/
theorem exists_read_of_takeItems {f : Field ι} {j : Json} {name : String} {size : Nat}
    {after : List Json} : ∀ {before : List Json} {fs : List (Field ι)} {index : Nat}
      {x : Tuple type fs × List Json}, fs[before.length]? = some f →
        takeItems c name size fs index (before ++ j :: after) = .ok x →
          ∃ y, c.read f.sort j = .ok y
  | _, [], _, _, hf, _ => by simp at hf
  | [], g :: fs, _, _, hf, h => by
    obtain rfl : g = f := by simpa using hf
    rw [List.nil_append, takeItems] at h
    obtain ⟨y, hy, -⟩ := bind_eq_ok_iff.1 h
    exact ⟨y, hy⟩
  | i :: before, g :: fs, _, _, hf, h => by
    rw [List.cons_append, takeItems] at h
    obtain ⟨_, -, h⟩ := bind_eq_ok_iff.1 h
    obtain ⟨_, hrest, -⟩ := bind_eq_ok_iff.1 h
    exact exists_read_of_takeItems (by simpa using hf) hrest

end Record

end ChapterLint
