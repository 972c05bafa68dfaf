import DocComments.Text.Utf8

/-!
# Texts that are read back

The bytes of a text are read back as the text (`Utf8.decode_encode`): each character has one of the
four forms of UTF-8, and the first byte tells which.
-/

set_option autoImplicit false

namespace DocComments

namespace Utf8

/-! ## Bytes -/

/-- A byte that is given by a small number is that number. -/
theorem toNat_ofNat {n : Nat} (h : n < 256) : (UInt8.ofNat n).toNat = n := by
  rw [UInt8.toNat_ofNat']
  exact Nat.mod_eq_of_lt h

theorem isContinuation_ofNat (n : Nat) : isContinuation (UInt8.ofNat (n % 64 + 128)) = true := by
  have hbyte := toNat_ofNat (n := n % 64 + 128) (by omega)
  simp only [isContinuation, UInt8.le_iff_toNat_le, hbyte, Bool.and_eq_true, decide_eq_true_eq,
    UInt8.reduceToNat]
  omega

theorem payload_ofNat (n : Nat) : payload (UInt8.ofNat (n % 64 + 128)) = n % 64 := by
  rw [payload, toNat_ofNat (by omega)]
  omega

/-! ## The four forms -/

section Forms

variable {v : Nat} (rest : List UInt8)

theorem decodeFirst_one (h : v ≤ 127) :
    decodeFirst (UInt8.ofNat v :: rest) = some (Char.ofNat v, 1) := by
  have ha := toNat_ofNat (n := v) (by omega)
  simp only [decodeFirst, UInt8.lt_iff_toNat_lt, ha, UInt8.reduceToNat]
  exact if_pos (Nat.lt_succ_of_le h)

theorem decodeFirst_two (h : 128 ≤ v) (h' : v ≤ 2047) :
    decodeFirst (UInt8.ofNat (v / 64 % 32 + 192) :: UInt8.ofNat (v % 64 + 128) :: rest)
      = some (Char.ofNat v, 2) := by
  have ha := toNat_ofNat (n := v / 64 % 32 + 192) (by omega)
  simp only [decodeFirst, UInt8.lt_iff_toNat_lt, UInt8.le_iff_toNat_le, ha, UInt8.reduceToNat,
    isContinuation_ofNat, payload_ofNat, Bool.and_eq_true, decide_eq_true_eq, if_true]
  have hv : (v / 64 % 32 + 192) % 32 * 64 + v % 64 = v := by omega
  rw [if_neg (by omega), if_pos (by omega), hv]

theorem decodeFirst_three (h : 2048 ≤ v) (h' : v ≤ 65535) (hvalid : v < 55296 ∨ 57343 < v) :
    decodeFirst (UInt8.ofNat (v / 4096 % 16 + 224) :: UInt8.ofNat (v / 64 % 64 + 128) ::
      UInt8.ofNat (v % 64 + 128) :: rest) = some (Char.ofNat v, 3) := by
  have ha := toNat_ofNat (n := v / 4096 % 16 + 224) (by omega)
  have hb := toNat_ofNat (n := v / 64 % 64 + 128) (by omega)
  have hv : (v / 4096 % 16 + 224) % 16 * 4096 + v / 64 % 64 * 64 + v % 64 = v := by omega
  simp only [decodeFirst, UInt8.lt_iff_toNat_lt, UInt8.le_iff_toNat_le, ha, hb, UInt8.reduceToNat,
    isContinuation_ofNat, payload_ofNat, Bool.and_eq_true, decide_eq_true_eq, and_true]
  rw [if_neg (by omega), if_neg (by omega), if_pos (by omega), hv]
  refine if_pos ?_
  -- the second byte is neither one of an overlong form nor one of a surrogate
  simp only [beq_iff_eq, ← UInt8.toNat_inj, ha, UInt8.reduceToNat]
  split
  · simp only [Bool.and_eq_true, decide_eq_true_eq]
    omega
  · split
    · simp only [Bool.and_eq_true, decide_eq_true_eq]
      omega
    · rfl

theorem decodeFirst_four (h : 65536 ≤ v) (h' : v ≤ 1114111) :
    decodeFirst (UInt8.ofNat (v / 262144 % 8 + 240) :: UInt8.ofNat (v / 4096 % 64 + 128) ::
      UInt8.ofNat (v / 64 % 64 + 128) :: UInt8.ofNat (v % 64 + 128) :: rest)
      = some (Char.ofNat v, 4) := by
  have ha := toNat_ofNat (n := v / 262144 % 8 + 240) (by omega)
  have hb := toNat_ofNat (n := v / 4096 % 64 + 128) (by omega)
  have hv : (v / 262144 % 8 + 240) % 8 * 262144 + v / 4096 % 64 * 4096 + v / 64 % 64 * 64 + v % 64
      = v := by omega
  simp only [decodeFirst, UInt8.lt_iff_toNat_lt, UInt8.le_iff_toNat_le, ha, hb, UInt8.reduceToNat,
    isContinuation_ofNat, payload_ofNat, Bool.and_eq_true, decide_eq_true_eq, and_true]
  rw [if_neg (by omega), if_neg (by omega), if_neg (by omega), if_pos (by omega), hv]
  refine if_pos ?_
  -- the second byte is neither one of an overlong form nor one behind the last code point
  simp only [beq_iff_eq, ← UInt8.toNat_inj, ha, UInt8.reduceToNat]
  split
  · simp only [Bool.and_eq_true, decide_eq_true_eq]
    omega
  · split
    · simp only [Bool.and_eq_true, decide_eq_true_eq]
      omega
    · rfl

end Forms

/-! ## Texts -/

/-- The bytes of a character are read as the character, whatever follows. -/
theorem decodeFirst_utf8EncodeChar (c : Char) (rest : List UInt8) :
    decodeFirst (String.utf8EncodeChar c ++ rest)
      = some (c, (String.utf8EncodeChar c).length) := by
  have hvalid : c.val.toNat < 55296 ∨ 57343 < c.val.toNat ∧ c.val.toNat < 1114112 := c.valid
  have hc : Char.ofNat c.val.toNat = c := Char.ofNat_toNat c
  unfold String.utf8EncodeChar
  generalize c.val.toNat = v at hvalid hc
  dsimp only
  split
  · next h1 => exact hc ▸ decodeFirst_one rest h1
  · next h1 =>
    split
    · next h2 => exact hc ▸ decodeFirst_two rest (by omega) h2
    · next h2 =>
      split
      · next h3 => exact hc ▸ decodeFirst_three rest (by omega) h3 (by omega)
      · next h3 => exact hc ▸ decodeFirst_four rest (by omega) (by omega)

/-- Enough fuel reads all characters. -/
theorem decodeFrom_flatMap (t : Text) (fuel offset : Nat) (read : Text)
    (hfuel : (t.flatMap String.utf8EncodeChar).length ≤ fuel) :
    decodeFrom fuel offset read (t.flatMap String.utf8EncodeChar) = .ok (read.reverse ++ t) := by
  induction t generalizing fuel offset read with
  | nil =>
    rw [List.flatMap_nil, List.append_nil]
    cases fuel <;> rfl
  | cons c t ih =>
    rw [List.flatMap_cons] at hfuel ⊢
    have hfirst := decodeFirst_utf8EncodeChar c (t.flatMap String.utf8EncodeChar)
    obtain ⟨b, bytes, hbytes⟩ := List.exists_cons_of_ne_nil (String.utf8EncodeChar_ne_nil (c := c))
    rw [List.length_append] at hfuel
    have hlength : (String.utf8EncodeChar c).length = bytes.length + 1 := by
      rw [hbytes, List.length_cons]
    obtain ⟨fuel, rfl⟩ : ∃ n, fuel = n + 1 := ⟨fuel - 1, by omega⟩
    rw [hbytes, List.cons_append] at hfirst ⊢
    rw [decodeFrom, hfirst]
    dsimp only
    rw [← List.cons_append, List.drop_left, ih _ _ _ (by omega)]
    simp

/-- What is written is read back. -/
theorem decode_encode (t : Text) : decode (encode t) = .ok t := by
  have hbytes : (encode t).data.toList = t.flatMap String.utf8EncodeChar := by
    unfold encode
    simp [List.utf8Encode]
  have hsize : (encode t).size = (t.flatMap String.utf8EncodeChar).length := by
    rw [← hbytes]
    rfl
  rw [decode, hbytes, hsize, decodeFrom_flatMap t _ _ _ (Nat.le_refl _)]
  rfl

end Utf8

end DocComments
