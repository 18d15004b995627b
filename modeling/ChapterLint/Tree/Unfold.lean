import ChapterLint.Tree.Reader

/-!
# Reading a tree, unfolded

The depth of a document bounds the nesting of the nodes in it, so the bound in `Node.read` is
never met: `Node.read_eq` says that a node is read by reading the nodes below it in the same way.
-/

namespace ChapterLint

/-! ## Depths -/

theorem Json.depth_le_depths {j : Json} {js : List Json} (h : j ∈ js) :
    j.depth ≤ Json.depths js := by
  induction js with
  | nil => cases h
  | cons k ks ih =>
    rw [Json.depths]
    rcases List.mem_cons.1 h with rfl | h
    · exact Nat.le_max_left _ _
    · exact Nat.le_trans (ih h) (Nat.le_max_right _ _)

theorem Json.depth_le_memberDepths {m : Option String × Json}
    {ms : List (Option String × Json)} (h : m ∈ ms) : m.2.depth ≤ Json.memberDepths ms := by
  induction ms with
  | nil => cases h
  | cons k ks ih =>
    obtain ⟨key, j⟩ := k
    rw [Json.memberDepths]
    rcases List.mem_cons.1 h with rfl | h
    · exact Nat.le_max_left _ _
    · exact Nat.le_trans (ih h) (Nat.le_max_right _ _)

/-! ## Records read alike -/

namespace Record

variable {ι : Type} {type : ι → Type} {c d : Contents type}

theorem take_congr {j : Json} (h : ∀ i, c.read i j = d.read i j) (key : String) :
    ∀ (fs : List (Field ι)) (slots : Slots type fs),
      take c key j fs slots = take d key j fs slots
  | [], () => rfl
  | f :: fs, (slot, rest) => by
    simp only [take, h, take_congr h key fs rest]

theorem takeAll_congr (fs : List (Field ι)) :
    ∀ (ms : List (Option String × Json)) (slots : Slots type fs),
      (∀ m ∈ ms, ∀ i, c.read i m.2 = d.read i m.2) →
        takeAll c fs ms slots = takeAll d fs ms slots
  | [], _, _ => rfl
  | (none, _) :: _, _, _ => rfl
  | (some key, j) :: ms, slots, h => by
    rw [takeAll, takeAll, take_congr (h _ List.mem_cons_self)]
    congr 1
    funext slots
    exact takeAll_congr fs ms slots fun m hm => h m (List.mem_cons_of_mem _ hm)

theorem complete_congr (ha : c.absent = d.absent) :
    ∀ (fs : List (Field ι)) (slots : Slots type fs),
      complete c fs slots = complete d fs slots
  | [], () => rfl
  | f :: fs, (slot, rest) => by
    rw [complete, complete, ha, complete_congr ha fs rest]

theorem ofMembers_congr (ha : c.absent = d.absent) (fs : List (Field ι))
    {ms : List (Option String × Json)} (h : ∀ m ∈ ms, ∀ i, c.read i m.2 = d.read i m.2) :
    ofMembers c fs ms = ofMembers d fs ms := by
  rw [ofMembers, ofMembers, takeAll_congr fs ms _ h]
  congr 1
  funext slots
  exact complete_congr ha fs slots

theorem takeItems_congr (ha : c.absent = d.absent) (name : String) (size : Nat) :
    ∀ (fs : List (Field ι)) (index : Nat) (items : List Json),
      (∀ j ∈ items, ∀ i, c.read i j = d.read i j) →
        takeItems c name size fs index items = takeItems d name size fs index items
  | [], _, _, _ => rfl
  | f :: fs, index, [], h => by
    rw [takeItems, takeItems, ha, takeItems_congr ha name size fs (index + 1) [] h]
  | f :: fs, index, j :: items, h => by
    rw [takeItems, takeItems, h j List.mem_cons_self,
      takeItems_congr ha name size fs (index + 1) items fun k hk =>
        h k (List.mem_cons_of_mem _ hk)]

theorem ofItems_congr (ha : c.absent = d.absent) (place : Place) (name : String)
    (fs : List (Field ι)) {items : List Json} (h : ∀ j ∈ items, ∀ i, c.read i j = d.read i j) :
    ofItems c place name fs items = ofItems d place name fs items := by
  rw [ofItems, ofItems, takeItems_congr ha name _ fs 0 items h]

theorem read_congr (ha : c.absent = d.absent) (place : Place) (name : String)
    (fs : List (Field ι)) {j : Json}
    (h : ∀ k : Json, k.depth < j.depth → ∀ i, c.read i k = d.read i k) :
    read c place name fs j = read d place name fs j := by
  cases j with
  | array items =>
    exact ofItems_congr ha place name fs fun k hk =>
      h k (Nat.lt_succ_of_le (Json.depth_le_depths hk))
  | object ms =>
    exact ofMembers_congr ha fs fun m hm =>
      h m.2 (Nat.lt_succ_of_le (Json.depth_le_memberDepths hm))
  | _ => rfl

end Record

/-! ## Nodes read alike -/

/-- Two readers agree on all documents up to a depth. -/
def AgreeTo (n : Nat) (f g : Json → Except Fault Node) : Prop :=
  ∀ j : Json, j.depth ≤ n → f j = g j

namespace AgreeTo

variable {n : Nat} {f g : Json → Except Fault Node}

theorem asOption (h : AgreeTo n f g) {j : Json} (hj : j.depth ≤ n) :
    Json.asOption f j = Json.asOption g j := by
  unfold Json.asOption
  split
  · rfl
  · rw [h _ hj]

theorem mapM_congr {α : Type} {r s : Json → Except Fault α} :
    ∀ {js : List Json}, (∀ j ∈ js, r j = s j) → js.mapM r = js.mapM s
  | [], _ => rfl
  | j :: js, h => by
    rw [List.mapM_cons, List.mapM_cons, h j List.mem_cons_self,
      mapM_congr fun k hk => h k (List.mem_cons_of_mem _ hk)]

theorem asList {α : Type} {r s : Json → Except Fault α} {j : Json}
    (h : ∀ k : Json, k.depth < j.depth → r k = s k) : Json.asList r j = Json.asList s j := by
  cases j with
  | array items =>
    exact mapM_congr fun k hk => h k (Nat.lt_succ_of_le (Json.depth_le_depths hk))
  | _ => rfl

theorem declarator (h : AgreeTo n f g) {j : Json} (hj : j.depth ≤ n) :
    Declarator.read f j = Declarator.read g j := by
  unfold Declarator.read
  rw [Record.read_congr (c := Declarator.parts f) (d := Declarator.parts g) rfl]
  intro k hk i
  cases i with
  | init => exact h.asOption (by omega)
  | _ => rfl

theorem reader (h : AgreeTo n f g) {j : Json} (hj : j.depth ≤ n) (c : Content) :
    (Content.reader f).read c j = (Content.reader g).read c j := by
  cases c with
  | node => exact h j hj
  | optionalNode => exact h.asOption hj
  | nodes => exact asList fun k hk => h k (by omega)
  | elements => exact asList fun k hk => h.asOption (by omega)
  | declarators => exact asList fun k hk => h.declarator (by omega)
  | _ => rfl

end AgreeTo

namespace Node

/-- The members left when the tag is taken are members of the object. -/
theorem mem_of_takeTag : ∀ {ms rest : List (Option String × Json)} {found : Option NodeKind}
    {k : NodeKind}, takeTag found ms = .ok (k, rest) → ∀ m ∈ rest, m ∈ ms
  | [], rest, found, k, h => by
    cases found with
    | none => cases h
    | some _ => cases h; simp
  | (none, _) :: _, _, _, _, h => by cases h
  | (some key, j) :: ms, rest, found, k, h => by
    intro m hm
    unfold takeTag at h
    split at h
    · cases found with
      | some _ => cases h
      | none =>
        cases ht : readTag j with
        | error e => rw [ht] at h; cases h
        | ok t =>
          rw [ht] at h
          exact List.mem_cons_of_mem _ (mem_of_takeTag h m hm)
    · cases ht : takeTag found ms with
      | error e => rw [ht] at h; cases h
      | ok p =>
        rw [ht] at h
        cases h
        rcases List.mem_cons.1 hm with rfl | hm
        · exact List.mem_cons_self
        · exact List.mem_cons_of_mem _ (mem_of_takeTag ht m hm)

theorem readWith_congr {n : Nat} {f g : Json → Except Fault Node} (h : AgreeTo n f g)
    {j : Json} (hj : j.depth ≤ n + 1) : readWith f j = readWith g j := by
  cases j with
  | array items =>
    cases items with
    | nil => rfl
    | cons tag items =>
      have hi : ∀ k ∈ items, k.depth ≤ n := fun k hk => by
        have := Json.depth_le_depths (List.mem_cons_of_mem tag hk)
        rw [Json.depth] at hj
        omega
      rw [readWith, readWith]
      congr 1
      funext k
      rw [Record.ofItems_congr (c := Content.reader f) (d := Content.reader g) rfl]
      exact fun k hk => h.reader (hi k hk)
  | object ms =>
    have hm : ∀ m ∈ ms, m.2.depth ≤ n := fun m hm => by
      have := Json.depth_le_memberDepths hm
      rw [Json.depth] at hj
      omega
    rw [readWith, readWith]
    cases ht : takeTag none ms with
    | error e => rfl
    | ok p =>
      obtain ⟨k, rest⟩ := p
      simp only [bind, Except.bind]
      rw [Record.ofMembers_congr (c := Content.reader f) (d := Content.reader g) rfl]
      exact fun m hr => h.reader (hm m (mem_of_takeTag ht m hr))
  | _ => rfl

/-- Nothing is read below a scalar. -/
theorem readWith_of_depth_zero (f g : Json → Except Fault Node) {j : Json}
    (h : j.depth = 0) : readWith f j = readWith g j := by
  cases j with
  | array items => rw [Json.depth] at h; omega
  | object ms => rw [Json.depth] at h; omega
  | _ => rfl

/-- A bound beyond the depth changes nothing. -/
theorem readWithin_eq {n m : Nat} {j : Json} (hn : j.depth ≤ n) (hm : j.depth ≤ m) :
    readWithin n j = readWithin m j := by
  induction n generalizing m j with
  | zero =>
    cases m with
    | zero => rfl
    | succ m => exact readWith_of_depth_zero _ _ (by omega)
  | succ n ih =>
    cases m with
    | zero => exact readWith_of_depth_zero _ _ (by omega)
    | succ m =>
      have h : AgreeTo (min n m) (readWithin n) (readWithin m) := fun k hk =>
        ih (by omega) (by omega)
      exact readWith_congr h (by omega)

/-- A node is read by reading the nodes below it in the same way. -/
theorem read_eq (j : Json) : read j = readWith read j := by
  rw [read, readWithin_eq (Nat.le_refl _) (Nat.le_succ _), readWithin]
  exact readWith_congr (n := j.depth)
    (fun k hk => readWithin_eq hk (Nat.le_refl _)) (Nat.le_succ _)

end Node

end ChapterLint
