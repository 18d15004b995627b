import Mathlib.Tactic.MkIffOfInductiveProp
import Mathlib.Tactic.NormNum
import Mathlib.Tactic.SplitIfs
import ChapterLint.Text.Utf8

/-!
# Bytes that are text

The decoder takes the bytes of a text, and no others, back to the text (`Utf8.decode_eq_ok_iff`).

1. Behind its first byte, a character goes on with six bits a byte, the highest first
   (`continuation`). Inside a sequence the decoder takes exactly the continuations of the codes
   that the sequence allows (`Open.Fits`, `decodeFrom_open_eq_ok_iff`).
2. The bounds of the second byte allow exactly the codes for which the first byte is right: the
   shortest form of a code, and no halves of surrogate pairs (`encodeChar_of_fits`, `exists_fits`).
-/

namespace ChapterLint

namespace Utf8

/-- The bytes of a text. -/
def encode (s : String) : List UInt8 := s.toUTF8.data.toList

theorem encode_eq_flatMap (s : String) : encode s = s.toList.flatMap String.utf8EncodeChar := by
  unfold encode
  rw [String.toUTF8_eq_toByteArray, ← String.utf8Encode_toList, List.utf8Encode,
    List.toList_data_toByteArray]

theorem map_eq_ok_iff {ε α β : Type} {x : Except ε α} {f : α → β} {b : β} :
    x.map f = .ok b ↔ ∃ a, x = .ok a ∧ f a = b := by
  cases x with
  | error e => simp [Except.map]
  | ok a => simp [Except.map]

/-! ## Inside a sequence -/

/-- The last bytes of a code, six bits each. -/
def continuation : Nat → Nat → List UInt8
  | 0, _ => []
  | n + 1, code => UInt8.ofNat (code / 64 ^ n % 64 + 0x80) :: continuation n code

namespace Open

/-- The byte with which a code goes on. -/
def nextByte (o : Open) (code : Nat) : Nat := code / 64 ^ (o.missing - 1) % 64 + 0x80

/-- The codes that a sequence allows: they have the bits read so far, and go on with a byte inside
the bounds. -/
@[mk_iff]
structure Fits (o : Open) (code : Nat) : Prop where
  bits : code / 64 ^ o.missing = o.code
  low_le : o.low ≤ o.nextByte code
  le_high : o.nextByte code ≤ o.high

/-- Bytes are missing, and the bounds are inside those of all bytes that continue. -/
structure Sound (o : Open) : Prop where
  missing_pos : 0 < o.missing
  le_low : 0x80 ≤ o.low
  high_le : o.high ≤ 0xBF

/-- The sequence with one more byte. -/
def next (o : Open) (b : UInt8) : Open :=
  ⟨o.start, o.count + 1, o.code * 64 + (b.toNat - 0x80), o.missing - 1, 0x80, 0xBF⟩

theorem toNat_nextByte (o : Open) (code : Nat) :
    (UInt8.ofNat (o.nextByte code)).toNat = o.nextByte code := by
  unfold nextByte
  exact UInt8.toNat_ofNat_of_lt' (show code / 64 ^ (o.missing - 1) % 64 + 0x80 < 256 by omega)

namespace Sound

variable {o : Open}

theorem next (h : o.Sound) (hmore : o.missing ≠ 1) (b : UInt8) : (o.next b).Sound := by
  have hpos := h.missing_pos
  exact ⟨show 0 < o.missing - 1 by omega, Nat.le_refl _, Nat.le_refl _⟩

theorem continuation_missing (h : o.Sound) (code : Nat) :
    continuation o.missing code =
      UInt8.ofNat (o.nextByte code) :: continuation (o.missing - 1) code := by
  obtain ⟨n, hn⟩ := Nat.exists_eq_succ_of_ne_zero (Nat.ne_of_gt h.missing_pos)
  unfold nextByte
  rw [hn]
  rfl

/-- The bits of a code up to a byte are those read so far and those of the byte exactly if the code
is allowed and goes on with the byte. -/
theorem bits_next_iff (h : o.Sound) {b : UInt8} (hb : o.low ≤ b.toNat ∧ b.toNat ≤ o.high)
    (code : Nat) :
    code / 64 ^ (o.missing - 1) = (o.next b).code ↔
      o.Fits code ∧ UInt8.ofNat (o.nextByte code) = b := by
  obtain ⟨hpos, hlow, hhigh⟩ := h
  have hdiv : code / 64 ^ o.missing = code / 64 ^ (o.missing - 1) / 64 := by
    rw [Nat.div_div_eq_div_mul, ← Nat.pow_succ, Nat.succ_eq_add_one, Nat.sub_add_cancel hpos]
  rw [← UInt8.toNat_inj, toNat_nextByte]
  show code / 64 ^ (o.missing - 1) = o.code * 64 + (b.toNat - 0x80) ↔ _
  constructor
  · intro hcode
    have hbits : code / 64 ^ o.missing = o.code := by omega
    have hnext : o.nextByte code = b.toNat := by unfold nextByte; omega
    exact ⟨⟨hbits, by omega, by omega⟩, hnext⟩
  · rintro ⟨⟨hbits, -, -⟩, hnext⟩
    unfold nextByte at hnext
    omega

end Sound

end Open

section Run

variable {o : Open} {b : UInt8}

theorem decodeFrom_cons_last (hone : o.missing = 1) (hb : o.low ≤ b.toNat ∧ b.toNat ≤ o.high)
    (index : Nat) (bytes : List UInt8) :
    decodeFrom index (some o) (b :: bytes) =
      (decodeFrom (index + 1) none bytes).map (Char.ofNat (o.next b).code :: ·) := by
  rw [decodeFrom, if_pos hb, if_pos hone]
  rfl

theorem decodeFrom_cons_more (hmore : o.missing ≠ 1) (hb : o.low ≤ b.toNat ∧ b.toNat ≤ o.high)
    (index : Nat) (bytes : List UInt8) :
    decodeFrom index (some o) (b :: bytes) = decodeFrom (index + 1) (some (o.next b)) bytes := by
  rw [decodeFrom, if_pos hb, if_neg hmore]
  rfl

/-- Inside a sequence, the decoder takes the continuation of a code that is allowed. -/
theorem decodeFrom_open_eq_ok_iff (h : o.Sound) {index : Nat} {bytes : List UInt8}
    {cs : List Char} :
    decodeFrom index (some o) bytes = .ok cs ↔
      ∃ code rest cs', o.Fits code ∧ bytes = continuation o.missing code ++ rest ∧
        decodeFrom (index + o.missing) none rest = .ok cs' ∧ cs = Char.ofNat code :: cs' := by
  induction bytes generalizing o index with
  | nil =>
    rw [decodeFrom]
    simp [h.continuation_missing]
  | cons b bytes ih =>
    by_cases hb : o.low ≤ b.toNat ∧ b.toNat ≤ o.high
    · have hnext := h.bits_next_iff hb
      by_cases hone : o.missing = 1
      · -- the byte is the last one, and so its bits are the last of the code
        rw [decodeFrom_cons_last hone hb, map_eq_ok_iff]
        simp only [hone, Nat.sub_self, Nat.pow_zero, Nat.div_one] at hnext
        constructor
        · rintro ⟨cs', hrest, rfl⟩
          obtain ⟨hfits, hbyte⟩ := (hnext _).1 rfl
          refine ⟨_, bytes, cs', hfits, ?_, by rw [hone]; exact hrest, rfl⟩
          rw [h.continuation_missing, hbyte, hone]
          rfl
        · rintro ⟨code, rest, cs', hfits, hbytes, hrest, rfl⟩
          rw [h.continuation_missing, hone] at hbytes
          rw [hone] at hrest
          obtain ⟨hbyte, rfl⟩ := List.cons.inj hbytes
          exact ⟨cs', hrest, by rw [← (hnext code).2 ⟨hfits, hbyte.symm⟩]⟩
      · have hpos := h.missing_pos
        have hindex : index + 1 + (o.next b).missing = index + o.missing := by
          show index + 1 + (o.missing - 1) = index + o.missing
          omega
        rw [decodeFrom_cons_more hone hb, ih (h.next hone b), hindex]
        constructor
        · rintro ⟨code, rest, cs', hfits, rfl, hrest, rfl⟩
          obtain ⟨hfits, hbyte⟩ := (hnext code).1 hfits.bits
          refine ⟨code, rest, cs', hfits, ?_, hrest, rfl⟩
          rw [h.continuation_missing, hbyte]
          rfl
        · rintro ⟨code, rest, cs', hfits, hbytes, hrest, rfl⟩
          rw [h.continuation_missing] at hbytes
          obtain ⟨hbyte, rfl⟩ := List.cons.inj hbytes
          have hbounds : 0x80 ≤ (o.next b).nextByte code ∧ (o.next b).nextByte code ≤ 0xBF := by
            unfold Open.nextByte
            omega
          exact ⟨code, rest, cs', ⟨(hnext code).2 ⟨hfits, hbyte.symm⟩, hbounds.1, hbounds.2⟩, rfl,
            hrest, rfl⟩
    · rw [decodeFrom, if_neg hb]
      refine ⟨fun hcs => (by cases hcs), ?_⟩
      rintro ⟨code, rest, cs', hfits, hbytes, -, -⟩
      rw [h.continuation_missing] at hbytes
      have hbyte := congrArg UInt8.toNat (List.cons.inj hbytes).1
      rw [o.toNat_nextByte] at hbyte
      exact absurd ⟨hbyte ▸ hfits.low_le, hbyte ▸ hfits.le_high⟩ hb

end Run

/-! ## Whole characters -/

section Characters

variable {code : Nat}

theorem toNat_ofNat_of_isValidChar (h : code.isValidChar) :
    (Char.ofNat code).val.toNat = code := by
  unfold Char.ofNat
  rw [dif_pos h]
  rfl

theorem encodeChar_one (h : code < 0x80) :
    String.utf8EncodeChar (Char.ofNat code) = [UInt8.ofNat code] := by
  unfold String.utf8EncodeChar
  rw [toNat_ofNat_of_isValidChar (.inl (by omega))]
  exact if_pos (by omega)

theorem encodeChar_two (hlow : 0x80 ≤ code) (hhigh : code < 0x800) :
    String.utf8EncodeChar (Char.ofNat code) =
      UInt8.ofNat (code / 64 + 0xC0) :: continuation 1 code := by
  have hfirst : code / 64 % 0x20 = code / 64 := Nat.mod_eq_of_lt (by omega)
  unfold String.utf8EncodeChar
  rw [toNat_ofNat_of_isValidChar (.inl (by omega))]
  dsimp only
  rw [if_neg (by omega), if_pos (by omega), hfirst]
  simp [continuation]

theorem encodeChar_three (hlow : 0x800 ≤ code) (hhigh : code < 0x10000)
    (hvalid : code.isValidChar) :
    String.utf8EncodeChar (Char.ofNat code) =
      UInt8.ofNat (code / 4096 + 0xE0) :: continuation 2 code := by
  have hfirst : code / 4096 % 0x10 = code / 4096 := Nat.mod_eq_of_lt (by omega)
  unfold String.utf8EncodeChar
  rw [toNat_ofNat_of_isValidChar hvalid]
  dsimp only
  rw [if_neg (by omega), if_neg (by omega), if_pos (by omega), hfirst]
  simp [continuation]

theorem encodeChar_four (hlow : 0x10000 ≤ code) (hhigh : code < 0x110000) :
    String.utf8EncodeChar (Char.ofNat code) =
      UInt8.ofNat (code / 262144 + 0xF0) :: continuation 3 code := by
  have hfirst : code / 262144 % 0x08 = code / 262144 := Nat.mod_eq_of_lt (by omega)
  unfold String.utf8EncodeChar
  rw [toNat_ofNat_of_isValidChar (.inr ⟨by omega, hhigh⟩)]
  dsimp only
  rw [if_neg (by omega), if_neg (by omega), if_neg (by omega), hfirst]
  simp [continuation]

theorem ofByte?_sound {index b : Nat} {o : Open} (h : Open.ofByte? index b = some o) : o.Sound := by
  unfold Open.ofByte? at h
  split_ifs at h <;> cases h <;> constructor <;> simp

/-- A code that a first byte allows is that of a character with this first byte. -/
theorem encodeChar_of_fits {index : Nat} {b : UInt8} {o : Open}
    (ho : Open.ofByte? index b.toNat = some o) (h : o.Fits code) :
    String.utf8EncodeChar (Char.ofNat code) = b :: continuation o.missing code := by
  have hfirst : ∀ n, n = b.toNat → UInt8.ofNat n = b := fun n hn => hn ▸ UInt8.ofNat_toNat
  rw [Open.fits_iff] at h
  unfold Open.nextByte at h
  unfold Open.ofByte? at ho
  split_ifs at ho <;> cases ho <;> norm_num at h ⊢
  · rw [encodeChar_two (by omega) (by omega), hfirst _ (by omega)]
  · rw [encodeChar_three (by omega) (by omega) (.inl (by omega)), hfirst _ (by omega)]
  · rw [encodeChar_three (by omega) (by omega) (.inl (by omega)), hfirst _ (by omega)]
  · have hvalid : code.isValidChar := by unfold Nat.isValidChar; omega
    rw [encodeChar_three (by omega) (by omega) hvalid, hfirst _ (by omega)]
  · rw [encodeChar_four (by omega) (by omega), hfirst _ (by omega)]
  · rw [encodeChar_four (by omega) (by omega), hfirst _ (by omega)]
  · rw [encodeChar_four (by omega) (by omega), hfirst _ (by omega)]

/-- Every character beyond the first 128 has a first byte that allows it. -/
theorem exists_fits (index : Nat) (c : Char) (h : 0x80 ≤ c.toNat) :
    ∃ b, 0x80 ≤ b ∧ b < 256 ∧ ∃ o, Open.ofByte? index b = some o ∧ o.Fits c.toNat := by
  have hvalid : c.toNat < 0xD800 ∨ 0xDFFF < c.toNat ∧ c.toNat < 0x110000 := c.valid
  generalize c.toNat = code at h hvalid
  unfold Open.ofByte?
  simp only [Open.fits_iff, Open.nextByte]
  rcases Nat.lt_or_ge code 0x800 with htwo | htwo
  · refine ⟨code / 64 + 0xC0, by omega, by omega, _, if_pos (by omega), ?_⟩
    norm_num
    omega
  rcases Nat.lt_or_ge code 0x10000 with hthree | hthree
  · refine ⟨code / 4096 + 0xE0, by omega, by omega, ?_⟩
    rw [if_neg (by omega)]
    split_ifs with hfirst hhalves hother
    · exact ⟨_, rfl, by norm_num; omega⟩
    · exact ⟨_, rfl, by norm_num; omega⟩
    · exact ⟨_, rfl, by norm_num; omega⟩
    all_goals omega
  · refine ⟨code / 262144 + 0xF0, by omega, by omega, ?_⟩
    rw [if_neg (by omega), if_neg (by omega), if_neg (by omega), if_neg (by omega)]
    split_ifs with hfirst hmiddle hlast
    · exact ⟨_, rfl, by norm_num; omega⟩
    · exact ⟨_, rfl, by norm_num; omega⟩
    · exact ⟨_, rfl, by norm_num; omega⟩
    · omega

end Characters

/-! ## Whole texts -/

/-- What is decoded is what was encoded. -/
theorem eq_flatMap_of_decodeFrom {index : Nat} {bytes : List UInt8} {cs : List Char}
    (h : decodeFrom index none bytes = .ok cs) : bytes = cs.flatMap String.utf8EncodeChar := by
  induction hlen : bytes.length using Nat.strongRecOn generalizing index bytes cs with
  | ind n ih =>
    cases bytes with
    | nil =>
      rw [decodeFrom] at h
      cases h
      rfl
    | cons b bytes =>
      rw [decodeFrom] at h
      split_ifs at h with hb
      · obtain ⟨cs, hrest, rfl⟩ := map_eq_ok_iff.1 h
        have hlt : bytes.length < n := by rw [← hlen, List.length_cons]; omega
        rw [List.flatMap_cons, encodeChar_one hb, UInt8.ofNat_toNat, ← ih _ hlt hrest rfl]
        rfl
      · cases ho : Open.ofByte? index b.toNat with
        | none =>
          rw [ho] at h
          cases h
        | some o =>
          rw [ho] at h
          obtain ⟨code, rest, cs, hfits, hbytes, hrest, rfl⟩ :=
            (decodeFrom_open_eq_ok_iff (ofByte?_sound ho)).1 h
          have hlt : rest.length < n := by
            rw [← hlen, hbytes, List.length_cons, List.length_append]
            omega
          rw [List.flatMap_cons, encodeChar_of_fits ho hfits, hbytes, ← ih _ hlt hrest rfl]
          rfl

/-- What was encoded is decoded. -/
theorem decodeFrom_flatMap (index : Nat) (cs : List Char) :
    decodeFrom index none (cs.flatMap String.utf8EncodeChar) = .ok cs := by
  induction cs generalizing index with
  | nil => rfl
  | cons c cs ih =>
    rw [List.flatMap_cons]
    rcases Nat.lt_or_ge c.toNat 0x80 with hc | hc
    · have hbyte : (UInt8.ofNat c.toNat).toNat = c.toNat :=
        UInt8.toNat_ofNat_of_lt' (show c.toNat < 256 by omega)
      have hchar := encodeChar_one hc
      rw [Char.ofNat_toNat] at hchar
      rw [hchar, List.singleton_append, decodeFrom, hbyte, if_pos hc, ih, Char.ofNat_toNat]
      rfl
    · obtain ⟨b, hb, hlt, o, ho, hfits⟩ := exists_fits index c hc
      have hbyte : (UInt8.ofNat b).toNat = b := UInt8.toNat_ofNat_of_lt' hlt
      have hchar := encodeChar_of_fits (hbyte.symm ▸ ho) hfits
      rw [Char.ofNat_toNat] at hchar
      rw [hchar, List.cons_append, decodeFrom, hbyte, if_neg (by omega), ho]
      refine (decodeFrom_open_eq_ok_iff (ofByte?_sound ho)).2
        ⟨c.toNat, _, cs, hfits, rfl, ih _, ?_⟩
      rw [Char.ofNat_toNat]

/-- **Exactly the bytes of a text are decoded to it.** -/
theorem decode_eq_ok_iff {bytes : List UInt8} {s : String} :
    decode bytes = .ok s ↔ bytes = encode s := by
  unfold decode
  rw [map_eq_ok_iff, encode_eq_flatMap]
  constructor
  · rintro ⟨cs, hcs, rfl⟩
    rw [String.toList_ofList]
    exact eq_flatMap_of_decodeFrom hcs
  · rintro rfl
    exact ⟨s.toList, decodeFrom_flatMap 0 s.toList, String.ofList_toList⟩

/-! ## Zero bytes -/

theorem zero_ne_ofNat {n : Nat} (hpos : 0 < n) (hlt : n < 256) : 0 ≠ UInt8.ofNat n := by
  intro hzero
  have hbyte := congrArg UInt8.toNat hzero
  rw [UInt8.toNat_ofNat_of_lt' hlt] at hbyte
  exact Nat.ne_of_lt hpos hbyte

theorem zero_notMem_continuation (n code : Nat) : 0 ∉ continuation n code := by
  induction n with
  | zero => exact List.not_mem_nil
  | succ n ih =>
    rw [continuation, List.mem_cons, not_or]
    exact ⟨zero_ne_ofNat (by omega) (by omega), ih⟩

theorem zero_notMem_encodeChar {c : Char} (h : c ≠ '\x00') : 0 ∉ String.utf8EncodeChar c := by
  have hpos : 0 < c.toNat := Nat.pos_of_ne_zero fun hzero => h (Char.toNat_inj.1 hzero)
  rw [← c.ofNat_toNat]
  rcases Nat.lt_or_ge c.toNat 0x80 with hc | hc
  · rw [encodeChar_one hc, List.mem_singleton]
    exact zero_ne_ofNat hpos (by omega)
  · obtain ⟨b, hb, hlt, o, ho, hfits⟩ := exists_fits 0 c hc
    have hbyte : (UInt8.ofNat b).toNat = b := UInt8.toNat_ofNat_of_lt' hlt
    rw [encodeChar_of_fits (hbyte.symm ▸ ho) hfits, List.mem_cons, not_or]
    exact ⟨zero_ne_ofNat (by omega) hlt, zero_notMem_continuation _ _⟩

/-- The bytes of a text hold a zero only where the text does. -/
theorem zero_notMem_encode {s : String} (h : '\x00' ∉ s.toList) : 0 ∉ encode s := by
  rw [encode_eq_flatMap, List.mem_flatMap]
  rintro ⟨c, hc, hzero⟩
  exact zero_notMem_encodeChar (fun hchar => h (hchar ▸ hc)) hzero

end Utf8

end ChapterLint
