import ChapterLint.Proofs.Json.Members
import ChapterLint.Proofs.Json.RoundTrip

/-!
# Documents of what is read

`IsDocument read j x` says that the document `j` is written for `x`: it is plain, so that it
survives being written as text, and it is read as `x`. There is a rule for each way in which a
document is put together: scalars, values that may be absent, lists, and records with their fields
in order (`IsDocument.record`).
-/

namespace ChapterLint

/-- A plain document that is read as the given value. -/
structure IsDocument {α : Type} (read : Json → Except Fault α) (j : Json) (x : α) : Prop where
  isPlain : j.isPlain = true
  read_eq : read j = .ok x

namespace IsDocument

variable {α : Type} {read : Json → Except Fault α}

theorem text (s : String) : IsDocument Json.asText (.text s) s := ⟨rfl, rfl⟩

theorem flag (b : Bool) : IsDocument Json.asFlag (.bool b) b := ⟨rfl, rfl⟩

/-- What is computed from the reading is read from the same document. -/
theorem bind {β : Type} {j : Json} {x : α} (h : IsDocument read j x) {f : α → Except Fault β} {y : β}
    (hf : f x = .ok y) : IsDocument (fun j => read j >>= f) j y :=
  ⟨h.isPlain, bind_eq_ok_iff.2 ⟨x, h.read_eq, hf⟩⟩

theorem absent : IsDocument (Json.asOption read) .null none := ⟨rfl, rfl⟩

theorem present (hnull : ∀ x, read .null ≠ .ok x) {j : Json} {x : α} (h : IsDocument read j x) :
    IsDocument (Json.asOption read) j (some x) := by
  refine ⟨h.isPlain, ?_⟩
  unfold Json.asOption
  split
  · exact absurd h.read_eq (hnull x)
  · rw [h.read_eq]
    rfl

theorem nil : IsDocument (Json.asList read) (.array []) [] := ⟨rfl, rfl⟩

theorem cons {j : Json} {js : List Json} {x : α} {xs : List α} (hj : IsDocument read j x)
    (hjs : IsDocument (Json.asList read) (.array js) xs) :
    IsDocument (Json.asList read) (.array (j :: js)) (x :: xs) := by
  refine ⟨?_, ?_⟩
  · rw [Json.isPlain, Json.arePlain, hj.isPlain]
    exact hjs.isPlain
  · exact mapM_eq_ok_iff.2 (.cons hj.read_eq (mapM_eq_ok_iff.1 hjs.read_eq))

/-- What is written is read back from its text. -/
theorem readText_toText {j : Json} {x : α} (h : IsDocument read j x) :
    readText read j.toText = .ok x := by
  rw [readText, Json.ofText_toText h.isPlain, h.read_eq]
  rfl

end IsDocument

/-! ## Numbers -/

/-- An integer that fits 64 bits, with or without sign. -/
def FitsWord (n : Int) : Prop := -2 ^ 63 ≤ n ∧ n < 2 ^ 64

theorem Numeral.number?_ofInt {n : Int} (h : FitsWord n) :
    (Numeral.ofInt n).number? = some (.integer n) := by
  obtain ⟨hlow, hhigh⟩ := h
  have hword : greatestWord = 2 ^ 64 - 1 := rfl
  by_cases hneg : n < 0
  · have hpos : 0 < n.natAbs := by omega
    have hbound : n.natAbs ≤ Nat.pow 2 63 := by
      have hpow : Nat.pow 2 63 = 2 ^ 63 := rfl
      omega
    have habs : -(n.natAbs : Int) = n := by omega
    have hnum : (⟨true, n.natAbs, [], none⟩ : Numeral).number? =
        some (.integer (-(n.natAbs : Int))) := by
      rw [number?, if_neg (by simp), if_pos (by simp [isPlain, hpos, hbound])]
    rw [ofInt, decide_eq_true hneg, hnum, habs]
  · have hbound : n.natAbs ≤ greatestWord := by omega
    have habs : (n.natAbs : Int) = n := by omega
    have hnum : (⟨false, n.natAbs, [], none⟩ : Numeral).number? =
        some (.integer (n.natAbs : Int)) := by
      rw [number?, if_pos (by simp [isPlain, hbound])]
    rw [ofInt, decide_eq_false hneg, hnum, habs]

theorem Json.isPlain_number_ofInt {n : Int} (h : FitsWord n) :
    (Json.number (.ofInt n)).isPlain = true := by
  rw [Json.isPlain, Numeral.number?_ofInt h]
  rfl

theorem IsDocument.integer {n low high : Int} (hword : FitsWord n) (h : low ≤ n ∧ n ≤ high)
    (e : Expected) : IsDocument (Json.asInteger low high e) (.number (.ofInt n)) n := by
  refine ⟨Json.isPlain_number_ofInt hword, ?_⟩
  have hfound : (Json.number (.ofInt n)).found = .ok (.number (.integer n)) := by
    rw [Json.found, Numeral.number?_ofInt hword]
  rw [Json.asInteger, hfound]
  exact if_pos h

/-! ## Records -/

namespace Record

variable {ι : Type} {type : ι → Type} {c : Contents type}

/-- The members are the fields of a tuple in their order, each with a document of its content. -/
def InOrder (c : Contents type) : (fs : List (Field ι)) → List (String × Json) →
    Tuple type fs → Prop
  | [], [], _ => True
  | f :: fs, (key, j) :: ms, (x, xs) =>
    key = f.key ∧ IsDocument (c.read f.sort) j x ∧ InOrder c fs ms xs
  | _, _, _ => False

namespace InOrder

theorem map_fst : ∀ {fs : List (Field ι)} {ms : List (String × Json)} {xs : Tuple type fs},
    InOrder c fs ms xs → ms.map Prod.fst = fs.map Field.key
  | [], [], _, _ => rfl
  | f :: fs, (key, j) :: ms, (x, xs), ⟨hkey, _, hrest⟩ => by
    rw [List.map_cons, List.map_cons, hrest.map_fst, hkey]

theorem membersPlain : ∀ {fs : List (Field ι)} {ms : List (String × Json)} {xs : Tuple type fs},
    InOrder c fs ms xs → Json.membersPlain (ms.map fun m => (some m.1, m.2)) = true
  | [], [], _, _ => rfl
  | f :: fs, (key, j) :: ms, (x, xs), ⟨_, hj, hrest⟩ => by
    rw [List.map_cons, Json.membersPlain, hj.isPlain, hrest.membersPlain]
    rfl

theorem passable {fs : List (Field ι)} {ms : List (String × Json)} {xs : Tuple type fs}
    (h : InOrder c fs ms xs) : Passable (fs.map Field.key) (ms.map fun m => (some m.1, m.2)) := by
  intro m hm
  obtain ⟨⟨key, j⟩, hmem, rfl⟩ := List.mem_map.1 hm
  have hknown : key ∈ fs.map Field.key := h.map_fst ▸ List.mem_map_of_mem hmem
  exact ⟨key, rfl, fun hunknown => absurd hknown hunknown⟩

theorem all_holds : ∀ {fs : List (Field ι)} {ms : List (String × Json)} {xs : Tuple type fs},
    (fs.map Field.key).Nodup → InOrder c fs ms xs →
      Tuple.All (fun f => Holds c f (values f.key (ms.map fun m => (some m.1, m.2)))) fs xs
  | [], [], _, _, _ => trivial
  | f :: fs, (key, j) :: ms, (x, xs), hkeys, ⟨hkey, hj, hrest⟩ => by
    obtain ⟨hf, hfs⟩ := List.nodup_cons.1 hkeys
    subst hkey
    have hnone : values f.key (ms.map fun m => (some m.1, m.2)) = [] := by
      refine values_eq_nil fun hmem => hf ?_
      rw [← hrest.map_fst]
      simpa using hmem
    refine ⟨.inr ⟨j, by rw [List.map_cons, values_cons_self, hnone], hj.read_eq⟩, ?_⟩
    refine (Tuple.all_congr fun g hg y => ?_).1 (hrest.all_holds hfs)
    have hne : f.key ≠ g.key := fun he => hf (he ▸ List.mem_map_of_mem hg)
    rw [List.map_cons, values_cons_of_ne fun he => hne (Option.some_inj.1 he)]

end InOrder

end Record

namespace IsDocument

/-- A record is written with its fields in their order. -/
theorem record {ι : Type} {type : ι → Type} {c : Contents type} {fs : List (Field ι)}
    (hkeys : (fs.map Field.key).Nodup) {ms : List (String × Json)} {xs : Tuple type fs}
    (h : Record.InOrder c fs ms xs) (place : Record.Place) (name : String) :
    IsDocument (Record.read c place name fs) (.record ms) xs := by
  refine ⟨h.membersPlain, ?_⟩
  rw [Json.record, Record.read]
  exact (Record.ofMembers_eq_ok_iff hkeys).2 ⟨h.passable, h.all_holds hkeys⟩

theorem pair {α β : Type} {f : Record.Part α} {g : Record.Part β} (hkeys : f.key ≠ g.key)
    {j k : Json} {a : α} {b : β} (hj : IsDocument f.read j a) (hk : IsDocument g.read k b)
    (place : Record.Place) (name : String) :
    IsDocument (Record.readPair place name f g) (.record [(f.key, j), (g.key, k)]) (a, b) := by
  have hnodup : (([⟨f.key, false⟩, ⟨g.key, true⟩] : List (Field Bool)).map Field.key).Nodup := by
    simpa using hkeys
  have horder : Record.InOrder (Record.pairContents f g) [⟨f.key, false⟩, ⟨g.key, true⟩]
      [(f.key, j), (g.key, k)] (a, b, ()) := ⟨rfl, hj, rfl, hk, trivial⟩
  exact (record hnodup horder place name).bind rfl

end IsDocument

end ChapterLint
