import ChapterLint.Proofs.Json.Documents
import ChapterLint.Tree.Value

/-!
# Documents of values

The value of a literal is written as the document it stands for. An object is read as a map: its
members are put under their keys one after the other, so what is read has them in the order of the
keys (`Value.sorted`). The two are the same as maps (`Value.Plain.same_sorted`).
-/

namespace ChapterLint

namespace Value

/-- A value built from `null`, truth values, integers of 64 bits, strings, arrays, and objects with
distinct keys. -/
inductive Plain : Value → Prop
  | null : Plain .null
  | bool (b : Bool) : Plain (.bool b)
  | integer {n : Int} (h : FitsWord n) : Plain (.number (.integer n))
  | string (s : String) : Plain (.string s)
  | array {vs : List Value} (h : ∀ v ∈ vs, Plain v) : Plain (.array vs)
  | object {ms : List (String × Value)} (hkeys : (ms.map Prod.fst).Nodup)
      (h : ∀ m ∈ ms, Plain m.2) : Plain (.object ms)

/-- Two values that differ at most in the order of the members of their objects: objects are
compared as maps, by what stands under each key. -/
inductive Same : Value → Value → Prop
  | refl (v : Value) : Same v v
  | array {vs ws : List Value} (h : List.Forall₂ Same vs ws) : Same (.array vs) (.array ws)
  | object {ms ns : List (String × Value)}
      (h : ∀ key, Option.Rel Same (ms.lookup key) (ns.lookup key)) : Same (.object ms) (.object ns)

mutual

/-- The document of a value. Nothing is written for a number that is no integer. -/
def document : Value → Json
  | .null => .null
  | .bool b => .bool b
  | .number (.integer n) => .number (.ofInt n)
  | .number (.real _) => .cut
  | .string s => .text s
  | .array vs => .array (documents vs)
  | .object ms => .object (memberDocuments ms)

/-- The documents of items. -/
def documents : List Value → List Json
  | [] => []
  | v :: vs => v.document :: documents vs

/-- The members of the document of an object. -/
def memberDocuments : List (String × Value) → List (Option String × Json)
  | [] => []
  | (key, v) :: ms => (some key, v.document) :: memberDocuments ms

end

mutual

/-- The value with the members of each object put under their keys one after the other. -/
def sorted : Value → Value
  | .array vs => .array (sortedItems vs)
  | .object ms => .object (sortedMembers ms [])
  | v => v

/-- The items of an array, each sorted. -/
def sortedItems : List Value → List Value
  | [] => []
  | v :: vs => v.sorted :: sortedItems vs

/-- The members of an object, each sorted, put among others. -/
def sortedMembers : List (String × Value) → List (String × Value) → List (String × Value)
  | [], others => others
  | (key, v) :: ms, others => sortedMembers ms (insert key v.sorted others)

end

/-! ## Reading back -/

theorem ofItems_documents {vs : List Value}
    (h : ∀ v ∈ vs, IsDocument ofJson v.document v.sorted) :
    Json.arePlain (documents vs) = true ∧ ofItems (documents vs) = .ok (sortedItems vs) := by
  induction vs with
  | nil => exact ⟨rfl, rfl⟩
  | cons v vs ih =>
    obtain ⟨hv, hvs⟩ := List.forall_mem_cons.1 h
    obtain ⟨hplain, hread⟩ := ih hvs
    rw [documents, Json.arePlain, ofItems, sortedItems, hv.isPlain, hv.read_eq, hplain, hread]
    exact ⟨rfl, rfl⟩

theorem ofMembers_memberDocuments {ms : List (String × Value)}
    (h : ∀ m ∈ ms, IsDocument ofJson m.2.document m.2.sorted) (others : List (String × Value)) :
    Json.membersPlain (memberDocuments ms) = true ∧
      ofMembers (memberDocuments ms) others = .ok (sortedMembers ms others) := by
  induction ms generalizing others with
  | nil => exact ⟨rfl, rfl⟩
  | cons m ms ih =>
    obtain ⟨hm, hms⟩ := List.forall_mem_cons.1 h
    obtain ⟨key, v⟩ := m
    obtain ⟨hplain, hread⟩ := ih hms (insert key v.sorted others)
    rw [memberDocuments, Json.membersPlain, ofMembers, sortedMembers, hm.isPlain, hm.read_eq,
      hplain]
    exact ⟨rfl, hread⟩

/-- A plain value is read back from its document, with its objects sorted. -/
theorem Plain.isDocument {v : Value} (h : v.Plain) : IsDocument ofJson v.document v.sorted := by
  induction h with
  | null => exact ⟨rfl, rfl⟩
  | bool b => exact ⟨rfl, rfl⟩
  | integer hword =>
    refine ⟨Json.isPlain_number_ofInt hword, ?_⟩
    rw [document, ofJson, Numeral.number?_ofInt hword]
    rfl
  | string s => exact ⟨rfl, rfl⟩
  | array _ ih =>
    obtain ⟨hplain, hread⟩ := ofItems_documents ih
    refine ⟨hplain, ?_⟩
    rw [document, ofJson, hread, sorted]
    rfl
  | object _ _ ih =>
    obtain ⟨hplain, hread⟩ := ofMembers_memberDocuments ih []
    refine ⟨hplain, ?_⟩
    rw [document, ofJson, hread, sorted]
    rfl

/-! ## Objects as maps -/

theorem lookup_cons_eq_ite (key k : String) (v : Value) (ms : List (String × Value)) :
    ((k, v) :: ms).lookup key = if key = k then some v else ms.lookup key := by
  rw [List.lookup_cons]
  split_ifs with h
  · rw [beq_iff_eq.2 h]
  · rw [beq_false_of_ne h]

theorem lookup_insert (k : String) (v : Value) (ms : List (String × Value)) (key : String) :
    (insert k v ms).lookup key = if key = k then some v else ms.lookup key := by
  induction ms with
  | nil => rw [insert, lookup_cons_eq_ite]
  | cons m ms ih =>
    obtain ⟨k', w⟩ := m
    unfold insert
    by_cases hk : k = k'
    · subst hk
      rw [if_pos rfl, lookup_cons_eq_ite, lookup_cons_eq_ite]
      split_ifs <;> rfl
    · rw [if_neg hk]
      by_cases hlt : k < k'
      · rw [if_pos hlt, lookup_cons_eq_ite]
      · rw [if_neg hlt, lookup_cons_eq_ite, lookup_cons_eq_ite, ih]
        by_cases hkey : key = k'
        · rw [if_pos hkey, if_pos hkey, if_neg fun he => hk (he.symm.trans hkey)]
        · rw [if_neg hkey, if_neg hkey]

theorem mem_of_lookup {ms : List (String × Value)} {key : String} {v : Value}
    (h : ms.lookup key = some v) : (key, v) ∈ ms := by
  induction ms with
  | nil => cases h
  | cons m ms ih =>
    obtain ⟨k, w⟩ := m
    rw [lookup_cons_eq_ite] at h
    split_ifs at h with hkey
    · rw [hkey, Option.some_inj.1 h]
      exact List.mem_cons_self
    · exact List.mem_cons_of_mem _ (ih h)

/-- Members with distinct keys are all found again after they have been sorted. -/
theorem lookup_sortedMembers {ms : List (String × Value)} (hkeys : (ms.map Prod.fst).Nodup)
    (others : List (String × Value)) (key : String) :
    (sortedMembers ms others).lookup key =
      ((ms.lookup key).map sorted).or (others.lookup key) := by
  induction ms generalizing others with
  | nil => rfl
  | cons m ms ih =>
    obtain ⟨hm, hms⟩ := List.nodup_cons.1 hkeys
    obtain ⟨k, v⟩ := m
    rw [sortedMembers, ih hms, lookup_insert, lookup_cons_eq_ite]
    split_ifs with hkey
    · have hnone : ms.lookup key = none := by
        refine Option.eq_none_iff_forall_ne_some.2 fun w hw => hm ?_
        exact List.mem_map.2 ⟨(key, w), mem_of_lookup hw, hkey⟩
      rw [hnone]
      rfl
    · rfl

theorem forall₂_sortedItems {vs : List Value} (h : ∀ v ∈ vs, v.sorted.Same v) :
    List.Forall₂ Same (sortedItems vs) vs := by
  induction vs with
  | nil => exact .nil
  | cons v vs ih =>
    obtain ⟨hv, hvs⟩ := List.forall_mem_cons.1 h
    exact .cons hv (ih hvs)

/-- Sorting does not change what a plain value is. -/
theorem Plain.same_sorted {v : Value} (h : v.Plain) : v.sorted.Same v := by
  induction h with
  | array _ ih => exact .array (forall₂_sortedItems ih)
  | object hkeys _ ih =>
    refine .object fun key => ?_
    rw [lookup_sortedMembers hkeys, List.lookup_nil, Option.or_none]
    cases hlookup : List.lookup key _ with
    | none => exact .none
    | some v => exact .some (ih _ (mem_of_lookup hlookup))
  | _ => exact .refl _

end Value

end ChapterLint
