import Mathlib.Data.List.Nodup
import ChapterLint.Proofs.Json.Faults

/-!
# Parts that change

What is read from a document changes with a part of it. If the part is replaced by one that can be
read, then so is the whole, with the new part in its place; if it is replaced by one that cannot,
the whole fails as the part does. `Follows` says both at once. What may be absent follows what is
present (`Follows.asOption`), a list its items (`Follows.asList`), and a record its fields, by their
keys (`Record.follows_ofMembers`) or by their order (`Record.follows_ofItems`).
-/

namespace ChapterLint

/-- How a reading changes with a part that is read at some place: what was read has the new part put
there, or the reading fails as the part does. -/
def Follows {δ α σ : Type} (read : δ → Except Fault α) (put : σ → α → α) (part : Except Fault σ)
    (d d' : δ) : Prop :=
  ∀ x, read d = .ok x → read d' = (fun y => put y x) <$> part

namespace Follows

variable {α β σ : Type} {part : Except Fault σ}

/-- What is made from the reading alone follows it. -/
theorem map {δ : Type} {read : δ → Except Fault α} {put : σ → α → α} {d d' : δ}
    (h : Follows read put part d d') {g : α → β} {put' : σ → β → β}
    (hput : ∀ y x, put' y (g x) = g (put y x)) :
    Follows (fun d => g <$> read d) put' part d d' := by
  intro z hz
  obtain ⟨x, hx, hz⟩ := bind_eq_ok_iff.1 hz
  obtain rfl : z = g x := pure_eq_ok_iff.1 hz
  show g <$> read d' = _
  rw [h x hx]
  cases part with
  | error e => rfl
  | ok y => exact congrArg Except.ok (hput y x).symm

variable {read : Json → Except Fault α} {put : σ → α → α} {j k : Json}

theorem asOption (h : Follows read put part j k) (hj : j ≠ .null) (hk : k ≠ .null) :
    Follows (Json.asOption read) (fun y => Option.map (put y)) part j k := by
  intro o ho
  rw [Json.asOption_of_ne_null hj] at ho
  rw [Json.asOption_of_ne_null hk]
  exact h.map (fun _ _ => rfl) o ho

theorem asList (h : Follows read put part j k) (before after : List Json) :
    Follows (Json.asList read) (fun y xs => xs.modify before.length (put y)) part
      (.array (before ++ j :: after)) (.array (before ++ k :: after)) := by
  intro zs hzs
  have hitems : (before ++ j :: after).mapM read = .ok zs := hzs
  show (before ++ k :: after).mapM read = _
  cases part with
  | error e =>
    obtain ⟨x, hx⟩ := exists_ok_of_mapM hitems (show j ∈ before ++ j :: after by simp)
    exact mapM_eq_error hitems (h x hx)
  | ok y =>
    rw [List.mapM_append, List.mapM_cons] at hitems ⊢
    simp only [bind_eq_ok_iff, pure_eq_ok_iff] at hitems
    obtain ⟨us, hus, ws, ⟨x, hx, vs, hvs, rfl⟩, rfl⟩ := hitems
    have hlength : before.length = us.length := (mapM_eq_ok_iff.1 hus).length_eq
    rw [hus, h x hx, hvs, hlength]
    show Except.ok (us ++ put y x :: vs) = .ok ((us ++ x :: vs).modify us.length (put y))
    simp [List.modify_eq_set_getElem?]

end Follows

/-! ## Records -/

/-- Changes the contents of the fields with a key. -/
def Tuple.modify {ι : Type} {type : ι → Type} (key : String) (f : (i : ι) → type i → type i) :
    (fs : List (Field ι)) → Tuple type fs → Tuple type fs
  | [], () => ()
  | g :: fs, (x, xs) => (if g.key = key then f g.sort x else x, modify key f fs xs)

namespace Tuple

variable {ι : Type} {type : ι → Type} {key : String} {m : (i : ι) → type i → type i}

/-- Fields with other keys keep their contents. -/
theorem modify_of_notMem : ∀ {fs : List (Field ι)} {xs : Tuple type fs},
    key ∉ fs.map Field.key → modify key m fs xs = xs
  | [], (), _ => rfl
  | f :: fs, (x, xs), h => by
    rw [List.map_cons, List.mem_cons, not_or] at h
    rw [modify, if_neg (Ne.symm h.1), modify_of_notMem h.2]

theorem all_modify {P Q : (f : Field ι) → type f.sort → Prop} : ∀ {fs : List (Field ι)}
    {xs : Tuple type fs},
      (∀ f ∈ fs, ∀ x, P f x → Q f (if f.key = key then m f.sort x else x)) →
        All P fs xs → All Q fs (modify key m fs xs)
  | [], _, _, _ => trivial
  | f :: _, (x, _), h, ⟨hx, hxs⟩ =>
    ⟨h f List.mem_cons_self x hx, all_modify (fun g hg => h g (List.mem_cons_of_mem _ hg)) hxs⟩

end Tuple

namespace Record

variable {ι : Type} {type : ι → Type} {c : Contents type} {fs : List (Field ι)} {f : Field ι}
  {j k : Json} {m : (i : ι) → type i → type i}

/-- In an object that is read, the content of a field is changed. -/
theorem ofMembers_modify (hkeys : (fs.map Field.key).Nodup) (hf : f ∈ fs)
    {before after : List (Option String × Json)} {xs : Tuple type fs}
    (h : ofMembers c fs (before ++ (some f.key, j) :: after) = .ok xs)
    (hk : ∀ x, c.read f.sort j = .ok x → c.read f.sort k = .ok (m f.sort x)) :
    ofMembers c fs (before ++ (some f.key, k) :: after) = .ok (Tuple.modify f.key m fs xs) := by
  obtain ⟨hpass, hall⟩ := (ofMembers_eq_ok_iff hkeys).1 h
  have hknown : f.key ∈ fs.map Field.key := List.mem_map_of_mem hf
  refine (ofMembers_eq_ok_iff hkeys).2 ⟨?_, Tuple.all_modify (fun g hg x hx => ?_) hall⟩
  · rw [passable_insert_iff] at hpass ⊢
    exact ⟨fun hunknown => absurd hknown hunknown, hpass.2⟩
  · by_cases hkey : g.key = f.key
    · obtain rfl : g = f := List.inj_on_of_nodup_map hkeys hg hf hkey
      rw [values_insert_self] at hx
      rw [values_insert_self, if_pos rfl]
      rcases hx with ⟨hnone, -⟩ | ⟨i, hone, hread⟩
      · exact absurd hnone (by simp)
      · obtain ⟨hbefore, hone⟩ | ⟨-, hnil⟩ := List.append_eq_singleton_iff.1 hone
        · obtain ⟨rfl, hafter⟩ := List.cons.inj hone
          rw [hbefore, hafter]
          exact .inr ⟨k, rfl, hk x hread⟩
        · cases hnil
    · have hne : ∀ i : Json, (some f.key, i).1 ≠ some g.key := fun i he =>
        hkey (Option.some_inj.1 he).symm
      rw [values_insert_of_ne (hne j)] at hx
      rw [values_insert_of_ne (hne k), if_neg hkey]
      exact hx

theorem takeItems_modify (hk : ∀ x, c.read f.sort j = .ok x → c.read f.sort k = .ok (m f.sort x))
    {name : String} {size : Nat} {after : List Json} : ∀ {before : List Json}
      {fs : List (Field ι)} {index : Nat} {xs : Tuple type fs} {left : List Json},
        (fs.map Field.key).Nodup → fs[before.length]? = some f →
          takeItems c name size fs index (before ++ j :: after) = .ok (xs, left) →
            takeItems c name size fs index (before ++ k :: after) =
              .ok (Tuple.modify f.key m fs xs, left)
  | _, [], _, _, _, _, hf, _ => by simp at hf
  | [], g :: fs, index, (x, xs), left, hkeys, hf, h => by
    obtain rfl : g = f := by simpa using hf
    rw [List.nil_append, takeItems] at h ⊢
    simp only [bind_eq_ok_iff, pure_eq_ok_iff, Prod.exists, Prod.mk.injEq] at h ⊢
    obtain ⟨x', hx, xs', left', hrest, ⟨rfl, rfl⟩, rfl⟩ := h
    refine ⟨_, hk x hx, xs, left, hrest, ?_, rfl⟩
    rw [Tuple.modify, if_pos rfl, Tuple.modify_of_notMem (List.nodup_cons.1 hkeys).1]
  | i :: before, g :: fs, index, (x, xs), left, hkeys, hf, h => by
    obtain ⟨hg, hfs⟩ := List.nodup_cons.1 hkeys
    have hf : fs[before.length]? = some f := by simpa using hf
    have hkey : g.key ≠ f.key := fun he =>
      hg (he ▸ List.mem_map_of_mem (List.mem_of_getElem? hf))
    rw [List.cons_append, takeItems] at h ⊢
    simp only [bind_eq_ok_iff, pure_eq_ok_iff, Prod.exists, Prod.mk.injEq] at h ⊢
    obtain ⟨x', hx, xs', left', hrest, ⟨rfl, rfl⟩, rfl⟩ := h
    refine ⟨x, hx, _, left, takeItems_modify hk hfs hf hrest, ?_, rfl⟩
    rw [Tuple.modify, if_neg hkey]

/-- In an array that is read, the content of a field is changed. -/
theorem ofItems_modify (hkeys : (fs.map Field.key).Nodup) {before after : List Json}
    (hf : fs[before.length]? = some f) {place : Place} {name : String} {xs : Tuple type fs}
    (h : ofItems c place name fs (before ++ j :: after) = .ok xs)
    (hk : ∀ x, c.read f.sort j = .ok x → c.read f.sort k = .ok (m f.sort x)) :
    ofItems c place name fs (before ++ k :: after) = .ok (Tuple.modify f.key m fs xs) := by
  obtain ⟨⟨ys, left⟩, hitems, h⟩ := bind_eq_ok_iff.1 h
  rw [ofItems, takeItems_modify hk hkeys hf hitems]
  dsimp only at h
  show (if left.isEmpty then _ else _) = _
  split_ifs at h ⊢ with hleft
  · rw [pure_eq_ok_iff.1 h]
    rfl

variable {σ : Type} {put : σ → (i : ι) → type i → type i} {part : Except Fault σ}

/-- A record that is an object follows its fields. -/
theorem follows_ofMembers (hkeys : (fs.map Field.key).Nodup) (hf : f ∈ fs)
    (h : Follows (c.read f.sort) (fun y => put y f.sort) part j k)
    (before after : List (Option String × Json)) :
    Follows (ofMembers c fs) (fun y => Tuple.modify f.key (put y) fs) part
      (before ++ (some f.key, j) :: after) (before ++ (some f.key, k) :: after) := by
  intro xs hxs
  cases part with
  | ok y => exact ofMembers_modify hkeys hf hxs h
  | error e =>
    obtain ⟨-, hall⟩ := (ofMembers_eq_ok_iff hkeys).1 hxs
    obtain ⟨x, hx⟩ : ∃ x, c.read f.sort j = .ok x := by
      obtain ⟨x, ⟨hnone, -⟩ | ⟨i, hone, hread⟩⟩ := Tuple.exists_of_all hall hf
      · rw [values_insert_self] at hnone
        exact absurd hnone (by simp)
      · have hmem : j ∈ values f.key (before ++ (some f.key, j) :: after) := by
          rw [values_insert_self]
          simp
        rw [hone, List.mem_singleton] at hmem
        exact ⟨x, hmem ▸ hread⟩
    exact ofMembers_eq_error hkeys hf hxs (h x hx)

/-- A record that is an array follows its fields. -/
theorem follows_ofItems (hkeys : (fs.map Field.key).Nodup) {before : List Json}
    (hf : fs[before.length]? = some f)
    (h : Follows (c.read f.sort) (fun y => put y f.sort) part j k) (after : List Json)
    (place : Place) (name : String) :
    Follows (ofItems c place name fs) (fun y => Tuple.modify f.key (put y) fs) part
      (before ++ j :: after) (before ++ k :: after) := by
  intro xs hxs
  cases part with
  | ok y => exact ofItems_modify hkeys hf hxs h
  | error e =>
    obtain ⟨_, hitems, -⟩ := bind_eq_ok_iff.1 hxs
    obtain ⟨x, hx⟩ := exists_read_of_takeItems hf hitems
    exact ofItems_eq_error hf hxs (h x hx)

end Record

end ChapterLint
