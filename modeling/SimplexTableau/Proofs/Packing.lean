import Mathlib
import SimplexTableau.Decimal.Binary64
import SimplexTableau.Proofs.Doubles

namespace SimplexTableau.Decimal

open Float.Model (Format UnpackedFloat)
open Float.Model.UnpackedFloat

/-!
# The words of finite doubles

A finite double has a sign, a mantissa and an exponent, and its word holds the three side by side.
Taking the word apart and putting the parts together again are inverse to each other:

* `Parts` — which mantissas and exponents a finite double has;
* `word` — the number that the word of such a double is; `word_of_decode`: what `decode` finds in
  it, and `unpack_eq`: what the operations on doubles find in it;
* `assemble` — the double with the given parts; `eq_assemble`: a double that is not 0 is the one
  with the parts that `decode` finds, and `eq_zero`: without a mantissa it is 0.
-/

/-- The parts of a finite double: a mantissa of 53 bits, with the first one set unless the exponent
    is the least. -/
structure Parts (m : Nat) (e : Int) : Prop where
  /-- There are at most 53 bits. -/
  lt : m < 2 ^ 53
  /-- The least exponent. -/
  low : -1074 ≤ e
  /-- The greatest exponent. -/
  high : e ≤ 971
  /-- The first bit is set. -/
  normal : e = -1074 ∨ 2 ^ 52 ≤ m

/-- The number that the word of a finite double is.  The first bit of the mantissa is not stored;
    adding it to the exponent makes up for that. -/
def word (sign : Sign) (m : Nat) (e : Int) : Nat :=
  sign.toBitVec.toNat * 2 ^ 63 + (e + 1074).toNat * 2 ^ 52 + m

/-- The sign as the operations have it. -/
def signOf (negative : Bool) : Sign := if negative then .negative else .positive

theorem toNat_signOf (negative : Bool) : (signOf negative).toBitVec.toNat = negative.toNat := by
  cases negative <;> rfl

/-! ### Taking words apart -/

/-- Three fields make a word. -/
theorem toBits_eq (x : Float) : x.toBits.toNat = (x.toBits.toNat >>> 63) * 2 ^ 63
    + ((x.toBits.toNat >>> 52) % 2048) * 2 ^ 52 + x.toBits.toNat % leadingBit := by
  have hlt : x.toBits.toNat < 2 ^ 64 := x.toBits.toBitVec.isLt
  simp only [Nat.shiftRight_eq_div_pow, leadingBit]
  omega

/-- **What `decode` finds** in a word is what the word is made of. -/
theorem word_of_decode {x : Float} {negative : Bool} {m : Nat} {e : Int}
    (h : decode x = .finite negative m e) :
    Parts m e ∧ x.toBits.toNat = word (signOf negative) m e := by
  have hword := toBits_eq x
  have hlt : x.toBits.toNat < 2 ^ 64 := x.toBits.toBitVec.isLt
  unfold decode at h
  simp only at h
  set sign := x.toBits.toNat >>> 63 with hsign
  set field := (x.toBits.toNat >>> 52) % 2048 with hfield
  set fraction := x.toBits.toNat % leadingBit with hfraction
  have hnegative : decide (sign = 1) = negative → sign = (signOf negative).toBitVec.toNat := by
    rintro rfl
    rw [toNat_signOf]
    have hbit : sign = 0 ∨ sign = 1 := by
      rw [hsign, Nat.shiftRight_eq_div_pow]
      omega
    rcases hbit with hbit | hbit <;> simp [hbit]
  have hfractionLt : fraction < 2 ^ 52 := Nat.mod_lt _ (by decide)
  have hfieldLt : field < 2048 := Nat.mod_lt _ (by decide)
  have hleading : leadingBit = 2 ^ 52 := rfl
  clear_value sign field fraction
  clear hsign hfield hfraction
  unfold word
  -- the field of the exponent is full, empty or neither
  split at h
  · split at h <;> exact absurd h nofun
  · split at h
    case isTrue hzero =>
      obtain ⟨hsign, rfl, rfl⟩ := Binary64.finite.inj h
      refine ⟨⟨by omega, by omega, by omega, .inl rfl⟩, ?_⟩
      rw [← hnegative hsign, hword, hzero]
      rfl
    case isFalse hfull hzero =>
      obtain ⟨hsign, rfl, rfl⟩ := Binary64.finite.inj h
      refine ⟨⟨by omega, by omega, by omega, .inr (by omega)⟩, ?_⟩
      have hexponent : ((field : Int) - 1075 + 1074).toNat = field - 1 := by omega
      rw [← hnegative hsign, hword, hexponent, hleading]
      omega

theorem toNat_unpackMantissa (b : BitVec Format.binary64.numBits) :
    (unpackMantissa b).toNat = b.toNat % 2 ^ 52 := by
  unfold unpackMantissa
  rw [BitVec.toNat_cast, BitVec.extractLsb_toNat]
  rfl

theorem toNat_unpackExponent (b : BitVec Format.binary64.numBits) :
    (unpackExponent b).toNat = b.toNat / 2 ^ 52 % 2 ^ 11 := by
  unfold unpackExponent
  rw [BitVec.toNat_cast, BitVec.extractLsb_toNat, Nat.shiftRight_eq_div_pow]
  rfl

theorem toNat_unpackSign (b : BitVec Format.binary64.numBits) :
    (unpackSign b).toNat = b.toNat / 2 ^ 63 := by
  have hlt : b.toNat < 2 ^ 64 := b.isLt
  unfold unpackSign
  rw [BitVec.toNat_cast, BitVec.extractLsb_toNat, Nat.shiftRight_eq_div_pow]
  show b.toNat / 2 ^ 63 % 2 ^ 1 = _
  omega

/-- **What the operations find** in a word is what the word is made of. -/
theorem unpack_eq {b : BitVec Format.binary64.numBits} {sign : Sign} {m : Nat} {e : Int}
    (hparts : Parts m e) (hpos : 0 < m) (hb : b.toNat = word sign m e) :
    unpack Format.binary64 b = .finite sign m e hpos := by
  obtain ⟨hlt, hlow, hhigh, hnormal⟩ := hparts
  have hsign : sign.toBitVec.toNat < 2 := sign.toBitVec.isLt
  have hmantissa := toNat_unpackMantissa b
  have hexponent := toNat_unpackExponent b
  have hsignBit := toNat_unpackSign b
  unfold word at hb
  have hsignOf : Sign.ofBitVec (unpackSign b) = sign := by
    have heq : unpackSign b = sign.toBitVec := by
      apply BitVec.eq_of_toNat_eq
      omega
    rw [heq]
    cases sign <;> rfl
  unfold unpack
  -- the first bit of the mantissa decides which case of the format it is
  by_cases hm : 2 ^ 52 ≤ m
  · have hfield : (unpackExponent b).toNat = (e + 1075).toNat := by omega
    have hzero : unpackExponent b ≠ 0#_ := by
      intro h
      have h : (unpackExponent b).toNat = 0 := congrArg BitVec.toNat h
      omega
    have hfull : unpackExponent b ≠ -1#_ := by
      intro h
      have h : (unpackExponent b).toNat = 2047 := congrArg BitVec.toNat h
      omega
    simp only [hzero, hfull, ↓reduceIte, hsignOf, UnpackedFloat.finite.injEq]
    refine ⟨trivial, ?_, ?_⟩
    · have hhead : (1#1 ++ unpackMantissa b).toNat = 2 ^ 52 + (unpackMantissa b).toNat := by
        rw [BitVec.toNat_append, ← Nat.shiftLeft_add_eq_or_of_lt (unpackMantissa b).isLt]
        rfl
      omega
    · simp only [Format.exponentBias]
      omega
  -- without the first bit the field of the exponent is 0
  · have hfield : unpackExponent b = 0#_ := by
      apply BitVec.eq_of_toNat_eq
      show _ = 0
      omega
    have hfull : (BitVec.ofNat Format.binary64.exponentBits 0) ≠ -1#_ := by decide
    have hfraction : (unpackMantissa b).toNat = m := by omega
    have hzero : unpackMantissa b ≠ 0#_ := by
      intro h
      have h : (unpackMantissa b).toNat = 0 := congrArg BitVec.toNat h
      omega
    simp only [hfield, hfull, hzero, ↓reduceIte, ↓reduceDIte, hsignOf, UnpackedFloat.finite.injEq]
    refine ⟨trivial, hfraction, ?_⟩
    simp only [Format.exponentBias, BitVec.toNat_zero]
    omega

/-! ### Putting words together -/

theorem toNat_packComponents (sign : Sign) (exponent : BitVec 11) (mantissa : BitVec 52) :
    (packComponents Format.binary64 sign exponent mantissa).toNat
      = sign.toBitVec.toNat * 2 ^ 63 + exponent.toNat * 2 ^ 52 + mantissa.toNat := by
  have hmantissa : mantissa.toNat < 2 ^ 52 := mantissa.isLt
  have hexponent : exponent.toNat < 2 ^ 11 := exponent.isLt
  show (sign.toBitVec ++ exponent ++ mantissa : BitVec (1 + 11 + 52)).toNat = _
  rw [BitVec.toNat_append, BitVec.toNat_append, ← Nat.shiftLeft_add_eq_or_of_lt hexponent,
    ← Nat.shiftLeft_add_eq_or_of_lt hmantissa]
  simp only [Nat.shiftLeft_eq]
  ring

/-- **What is packed** is the word of the parts. -/
theorem toNat_pack {sign : Sign} {m : Nat} {e : Int} (hparts : Parts m e) (hpos : 0 < m) :
    (pack Format.binary64 (.finite sign m e hpos)).toNat = word sign m e := by
  obtain ⟨hlt, hlow, hhigh, hnormal⟩ := hparts
  have hbiased : (e + Format.exponentBias Format.binary64
      + Format.mantissaBitsWithoutImplicit Format.binary64).toNat = (e + 1075).toNat := by
    simp only [Format.exponentBias]
    omega
  unfold pack word
  simp only [hbiased]
  rw [if_neg (by show ¬ 2048 ≤ _; omega)]
  by_cases hm : 2 ^ 52 ≤ m
  · have hlog : m.log2 = 52 := (Nat.log2_eq_iff (Nat.ne_of_gt hpos)).mpr ⟨hm, hlt⟩
    rw [if_pos (by rw [hlog]; rfl), toNat_packComponents, BitVec.toNat_ofNat, BitVec.toNat_ofNat]
    omega
  · have hlog : m.log2 < 52 := (Nat.log2_lt (Nat.ne_of_gt hpos)).mpr (Nat.lt_of_not_le hm)
    rw [if_neg (by show ¬ _ = 53; omega), toNat_packComponents, BitVec.toNat_ofNat,
      BitVec.toNat_ofNat]
    omega

/-- The double with the given parts. -/
def assemble (sign : Sign) (m : Nat) (e : Int) (hpos : 0 < m) : Float :=
  .ofModel (.pack (.finite sign m e hpos))

/-- **What was packed** is found again. -/
theorem unpack_assemble {sign : Sign} {m : Nat} {e : Int} (hparts : Parts m e) (hpos : 0 < m) :
    (assemble sign m e hpos).toModel.unpack = .finite sign m e hpos :=
  unpack_eq hparts hpos (toNat_pack hparts hpos)

theorem isFinite_assemble {sign : Sign} {m : Nat} {e : Int} (hparts : Parts m e) (hpos : 0 < m) :
    (assemble sign m e hpos).isFinite = true := by
  show (assemble sign m e hpos).toModel.unpack.isFinite = true
  rw [unpack_assemble hparts hpos]
  rfl

theorem neg_assemble {m : Nat} {e : Int} (hparts : Parts m e) (hpos : 0 < m) :
    -assemble .positive m e hpos = assemble .negative m e hpos := by
  show Float.ofModel (.pack (assemble .positive m e hpos).toModel.unpack.neg) = _
  rw [unpack_assemble hparts hpos]
  rfl

/-! ### Doubles and their parts -/

theorem eq_ofModel_pack {x : Float} {u : UnpackedFloat}
    (h : x.toBits.toNat = (pack Format.binary64 u).toNat) : x = .ofModel (.pack u) := by
  obtain ⟨⟨bits, valid⟩⟩ := x
  have hbits : bits = UInt64.ofBitVec (pack Format.binary64 u) := by
    apply UInt64.toNat_inj.mp
    exact h
  subst hbits
  rfl

/-- **A double that is not 0** is the one with the parts that `decode` finds. -/
theorem eq_assemble {x : Float} {negative : Bool} {m : Nat} {e : Int}
    (h : decode x = .finite negative m e) (hpos : 0 < m) :
    x = assemble (signOf negative) m e hpos := by
  obtain ⟨hparts, hword⟩ := word_of_decode h
  apply eq_ofModel_pack
  rw [hword, toNat_pack hparts hpos]

/-- **Without a mantissa** a double is 0, with one sign or the other. -/
theorem eq_zero {x : Float} {negative : Bool} {e : Int} (h : decode x = .finite negative 0 e) :
    x = if negative then -0 else 0 := by
  obtain ⟨hparts, hword⟩ := word_of_decode h
  obtain rfl : e = -1074 := by
    rcases hparts.normal with h | h
    · exact h
    · omega
  have hx : x = .ofModel (.pack (.zero (signOf negative))) := by
    apply eq_ofModel_pack
    rw [hword]
    cases negative <;> rfl
  rw [hx]
  cases negative
  · show _ = (0 : Float)
    decide +kernel
  · show _ = (-0 : Float)
    decide +kernel

/-- A finite double has its parts. -/
theorem exists_decode {x : Float} (h : x.isFinite = true) :
    ∃ negative m e, decode x = .finite negative m e := by
  have hfield : (x.toBits.toNat >>> 52) % 2048 ≠ 2047 := by
    intro heq
    apply (isFinite_unpack_iff x.toBits.toBitVec).mp h
    apply BitVec.eq_of_toNat_eq
    rw [toNat_unpackExponent, ← Nat.shiftRight_eq_div_pow]
    exact heq
  unfold decode
  simp only [hfield, ↓reduceIte]
  split
  · exact ⟨_, _, _, rfl⟩
  · exact ⟨_, _, _, rfl⟩

/-- What has parts is finite. -/
theorem isFinite_of_decode {x : Float} {negative : Bool} {m : Nat} {e : Int}
    (h : decode x = .finite negative m e) : x.isFinite = true := by
  rcases Nat.eq_zero_or_pos m with rfl | hpos
  · rw [eq_zero h]
    cases negative <;> decide
  · rw [eq_assemble h hpos]
    exact isFinite_assemble (word_of_decode h).1 hpos

end SimplexTableau.Decimal
