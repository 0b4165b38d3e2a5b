import Mathlib
import SimplexTableau.Proofs.Packing

namespace SimplexTableau.Decimal

open Float.Model (Format totalExponent)
open Float.Model.UnpackedFloat

/-!
# Rounding to the nearest double

A product or a quotient is computed exactly as far as its first bits go; two more bits say where
the exact number lies above them.  From these the nearest double is made.

* `Denotes` — what the two bits say; `Denotes.shiftRight`: dropping bits keeps it true, and
  `Denotes.roundedMantissa_eq`: it is enough to find the nearest natural number;
* `exponentFor` — the exponent of the result; `Room`: there are enough bits for it;
* `Near` — the numbers that a double is the nearest to; `exponentFor_of_near`: they have its
  exponent, or the one below if they lie just below a power of two;
* `roundWithAccuracy_eq` — a number is rounded to the double it is near to;
* `mul_eq`, `div_eq`, `ofNat_eq` — so are products, quotients and natural numbers.
-/

theorem zpow_two_le {a b : Int} (h : a ≤ b) : (2 : ℚ) ^ a ≤ 2 ^ b :=
  zpow_le_zpow_right₀ (by norm_num) h

theorem zpow_two_pos (e : Int) : (0 : ℚ) < 2 ^ e := zpow_pos (by norm_num) e

theorem zpow_two_add (a b : Int) : (2 : ℚ) ^ (a + b) = 2 ^ a * 2 ^ b :=
  zpow_add₀ (by norm_num) a b

/-- A natural power of two in units of another one. -/
theorem zpow_two_add_natCast (e : Int) (n : Nat) : (2 : ℚ) ^ (e + n) = 2 ^ n * 2 ^ e := by
  rw [zpow_two_add, zpow_natCast, mul_comm]

/-! ### A mantissa and two more bits -/

/-- The exact number `w` lies at or above the mantissa and below the next natural number, and the
    two bits say where. -/
structure Denotes (em : ExtendedMantissa) (w : ℚ) : Prop where
  /-- It is at least the mantissa. -/
  le : em.mantissa ≤ w
  /-- It is below the next number. -/
  lt : w < em.mantissa + 1
  /-- The first bit tells the upper half from the lower one. -/
  roundBit : em.roundBit = true ↔ em.mantissa + 1 / 2 ≤ w
  /-- The second bit tells whether anything is left of the half. -/
  stickyBit : em.stickyBit = true ↔ w ≠ em.mantissa ∧ w ≠ em.mantissa + 1 / 2

/-- Dropping one bit halves the number. -/
theorem Denotes.shiftRightOne {em : ExtendedMantissa} {w : ℚ} (h : Denotes em w) :
    Denotes em.shiftRightOne (w / 2) := by
  obtain ⟨hle, hlt, hround, hsticky⟩ := h
  -- the last bit of the mantissa becomes the first of the two
  obtain ⟨k, hk | hk⟩ := Nat.even_or_odd' em.mantissa
  · have hhalf : em.mantissa / 2 = k := by omega
    have hbit : (em.mantissa % 2 != 0) = false := by simp [hk]
    have hmantissa : (em.mantissa : ℚ) = 2 * k := by exact_mod_cast hk
    constructor <;>
      simp only [ExtendedMantissa.shiftRightOne, hhalf, hbit, Bool.or_eq_true] <;> grind
  · have hhalf : em.mantissa / 2 = k := by omega
    have hbit : (em.mantissa % 2 != 0) = true := by simp [hk]
    have hmantissa : (em.mantissa : ℚ) = 2 * k + 1 := by exact_mod_cast hk
    constructor <;>
      simp only [ExtendedMantissa.shiftRightOne, hhalf, hbit, Bool.or_eq_true] <;> grind

/-- **Dropping bits** divides the number by a power of two. -/
theorem Denotes.shiftRight {em : ExtendedMantissa} {w : ℚ} (h : Denotes em w) (n : Nat) :
    Denotes (em >>> n) (w / 2 ^ n) := by
  induction n with
  | zero =>
    show Denotes em (w / 2 ^ 0)
    simpa using h
  | succ n ih =>
    rw [pow_succ, ← div_div]
    exact ih.shiftRightOne

/-- **The nearest natural number** is what the two bits decide on; half-way it is the even one. -/
theorem Denotes.roundedMantissa_eq {em : ExtendedMantissa} {w : ℚ} (h : Denotes em w) {m : Nat}
    (hlow : m - 1 / 2 ≤ w) (hhigh : w ≤ m + 1 / 2)
    (heven : w = m - 1 / 2 ∨ w = m + 1 / 2 → m % 2 = 0) : em.roundedMantissa = m := by
  obtain ⟨hle, hlt, hround, hsticky⟩ := h
  obtain ⟨mantissa, round, sticky⟩ := em
  simp only at hle hlt hround hsticky
  -- the nearest number is one of the two neighbours
  have hm : m = mantissa ∨ m = mantissa + 1 := by
    have hge : mantissa ≤ m := by
      by_contra hgt
      have hgt : (m : ℚ) + 1 ≤ mantissa := by exact_mod_cast Nat.lt_of_not_le hgt
      linarith
    have hle : m ≤ mantissa + 1 := by
      by_contra hgt
      have hgt : (mantissa : ℚ) + 2 ≤ m := by exact_mod_cast Nat.lt_of_not_le hgt
      linarith
    omega
  show (ExtendedMantissa.accuracy _).roundToNearestEven _ = m
  cases round with
  | false =>
    have hw : w < mantissa + 1 / 2 := by simpa using hround
    obtain rfl | rfl := hm
    · cases sticky <;> rfl
    · push_cast at hlow
      linarith
  | true =>
    have hw : mantissa + 1 / 2 ≤ w := hround.mp rfl
    cases sticky with
    | true =>
      obtain ⟨-, hne⟩ := hsticky.mp rfl
      obtain rfl | rfl := hm
      · exact absurd (le_antisymm hhigh hw) hne
      · rfl
    | false =>
      have hhalf : w = mantissa + 1 / 2 := by
        by_contra hne
        refine Bool.false_ne_true (hsticky.mpr ⟨fun h => ?_, hne⟩)
        linarith
      have hparity : m % 2 = 0 := by
        apply heven
        obtain rfl | rfl := hm
        · exact .inr hhalf
        · left
          push_cast
          linarith
      show mantissa + mantissa % 2 = m
      omega

/-- A mantissa with an accuracy stands for the number `v`. -/
def Approximates (mantissa : Nat) (exponent : Int) (accuracy : Accuracy) (v : ℚ) : Prop :=
  Denotes (.ofMantissaAndAccuracy mantissa accuracy) (v / 2 ^ exponent)

theorem mantissa_ofMantissaAndAccuracy (mantissa : Nat) (accuracy : Accuracy) :
    (ExtendedMantissa.ofMantissaAndAccuracy mantissa accuracy).mantissa = mantissa := by
  obtain _ | (_ | _ | _) := accuracy <;> rfl

theorem Approximates.le {M : Nat} {E : Int} {accuracy : Accuracy} {v : ℚ}
    (h : Approximates M E accuracy v) : M * 2 ^ E ≤ v := by
  have hle := Denotes.le h
  rwa [mantissa_ofMantissaAndAccuracy, le_div_iff₀ (zpow_two_pos E)] at hle

theorem Approximates.lt {M : Nat} {E : Int} {accuracy : Accuracy} {v : ℚ}
    (h : Approximates M E accuracy v) : v < (M + 1) * 2 ^ E := by
  have hlt := Denotes.lt h
  rwa [mantissa_ofMantissaAndAccuracy, div_lt_iff₀ (zpow_two_pos E)] at hlt

/-! ### The exponent of a result -/

/-- The exponent of the double that a number is rounded to: 53 bits are kept, or fewer for the
    least exponent. -/
def exponentFor (mantissa : Nat) (exponent : Int) : Int :=
  max (mantissa.log2 + exponent - 52) (-1074)

theorem targetExponent_eq (mantissa : Nat) (exponent : Int) :
    Format.binary64.targetExponent (totalExponent mantissa exponent)
      = exponentFor mantissa exponent := by
  simp only [Format.targetExponent, totalExponent, Format.mantissaBits, Format.minExponent,
    exponentFor]
  norm_num
  omega

/-- There are at least as many bits as are kept. -/
def Room (mantissa : Nat) (exponent : Int) : Prop := 52 ≤ mantissa.log2 ∨ exponent ≤ -1074

theorem Room.le {M : Nat} {E : Int} (h : Room M E) : E ≤ exponentFor M E := by
  unfold Room at h
  unfold exponentFor
  omega

/-- No more than 53 bits are kept. -/
theorem lt_exponentFor {M : Nat} {E : Int} {v : ℚ} (h : v < (M + 1) * 2 ^ E) :
    v < 2 ^ (exponentFor M E + 53) := by
  have hbits : (M : ℚ) + 1 ≤ 2 ^ (M.log2 + 1 : Int) := by
    exact_mod_cast Nat.lt_log2_self
  calc v < (M + 1) * 2 ^ E := h
    _ ≤ 2 ^ (M.log2 + 1 : Int) * 2 ^ E := by gcongr
    _ = 2 ^ (M.log2 + 1 + E : Int) := (zpow_two_add _ _).symm
    _ ≤ 2 ^ (exponentFor M E + 53) := by
      apply zpow_two_le
      unfold exponentFor
      omega

/-- No fewer than 53 bits are kept, unless the exponent is the least. -/
theorem exponentFor_le {M : Nat} {E : Int} {v : ℚ} (hroom : Room M E) (hM : M * 2 ^ E ≤ v)
    (h : exponentFor M E ≠ -1074) : 2 ^ (exponentFor M E + 52) ≤ v := by
  unfold Room at hroom
  have hexponent : exponentFor M E = M.log2 + E - 52 := by
    unfold exponentFor at h ⊢
    omega
  have hM0 : M ≠ 0 := by
    rintro rfl
    unfold exponentFor at h
    simp at h hroom
    omega
  have hbits : (2 : ℚ) ^ (M.log2 : Int) ≤ M := by
    exact_mod_cast Nat.log2_self_le hM0
  calc (2 : ℚ) ^ (exponentFor M E + 52)
      = 2 ^ (M.log2 : Int) * 2 ^ E := by
        rw [hexponent, ← zpow_two_add]
        congr 1
        omega
    _ ≤ M * 2 ^ E := by gcongr
    _ ≤ v := hM

/-! ### The numbers near to a double -/

/-- No double is nearer to the number `v` than `m * 2 ^ e`.  Half-way between two doubles it is the
    one with the even mantissa. -/
structure Near (m : Nat) (e : Int) (v : ℚ) : Prop where
  /-- Below, the gap to the next double is one unit, and the double has its half. -/
  low : (m - 1 / 2) * 2 ^ e ≤ v
  /-- So it is above. -/
  high : v ≤ (m + 1 / 2) * 2 ^ e
  /-- The double has the ends of its interval if its mantissa is even. -/
  even : v = (m - 1 / 2) * 2 ^ e ∨ v = (m + 1 / 2) * 2 ^ e → m % 2 = 0
  /-- Below a power of two the gap is half a unit. -/
  narrow : narrowBelow m e = true → (m - 1 / 4) * 2 ^ e ≤ v

/-- A double is near to itself. -/
theorem near_self (m : Nat) (e : Int) : Near m e (m * 2 ^ e) := by
  have hp := zpow_two_pos e
  refine ⟨by linarith, by linarith, ?_, fun _ => by linarith⟩
  rintro (h | h)
  · linarith
  · linarith

variable {M : Nat} {E : Int} {accuracy : Accuracy} {v : ℚ} {m : Nat} {e : Int}

theorem Near.below_next (hv : Near m e v) (hm : Parts m e) : v < 2 ^ (e + 53) := by
  have hp := zpow_two_pos e
  have hlt : (m : ℚ) + 1 ≤ 2 ^ 53 := by exact_mod_cast hm.lt
  calc v ≤ (m + 1 / 2) * 2 ^ e := hv.high
    _ < 2 ^ 53 * 2 ^ e := by
      apply mul_lt_mul_of_pos_right _ hp
      linarith
    _ = 2 ^ (e + 53) := (zpow_two_add_natCast e 53).symm

/-- What is near to a double above a power of two is not below the power. -/
theorem Near.zpow_le (hv : Near m e v) {k : Nat} (hk : 2 ^ k < m) : (2 : ℚ) ^ (e + k) ≤ v := by
  have hlt : (2 : ℚ) ^ k + 1 ≤ m := by exact_mod_cast hk
  calc (2 : ℚ) ^ (e + k) = 2 ^ k * 2 ^ e := zpow_two_add_natCast e k
    _ ≤ (m - 1 / 2) * 2 ^ e := by
      apply mul_le_mul_of_nonneg_right _ (zpow_two_pos e).le
      linarith
    _ ≤ v := hv.low

/-- **The exponent of a number near to a double** is that of the double; only just below a power of
    two it is one less. -/
theorem exponentFor_of_near (hroom : Room M E) (hM : M * 2 ^ E ≤ v) (hM' : v < (M + 1) * 2 ^ E)
    (hm : Parts m e) (hv : Near m e v) :
    exponentFor M E = e
      ∨ (exponentFor M E = e - 1 ∧ m = 2 ^ 52 ∧ -1074 < e ∧ v < m * 2 ^ e) := by
  have hbits := lt_exponentFor hM'
  rcases lt_trichotomy (exponentFor M E) e with hlt | heq | hgt
  · right
    have hleast : -1074 ≤ exponentFor M E := by
      unfold exponentFor
      omega
    have hm52 : 2 ^ 52 ≤ m := by
      rcases hm.normal with h | h
      · omega
      · exact h
    -- a double above the power would be too far away
    have hbelow : v < 2 ^ (e + 52) := lt_of_lt_of_le hbits (zpow_two_le (by omega))
    have hpower : m = 2 ^ 52 := by
      by_contra hne
      exact absurd hbelow (not_lt.mpr (hv.zpow_le (k := 52) (by omega)))
    refine ⟨?_, hpower, by omega, ?_⟩
    · by_contra hne
      have hfar : v < 2 ^ (e + 51) := lt_of_lt_of_le hbits (zpow_two_le (by omega))
      exact absurd hfar (not_lt.mpr (hv.zpow_le (k := 51) (by omega)))
    · rw [hpower]
      push_cast
      exact lt_of_lt_of_eq hbelow (zpow_two_add_natCast e 52)
  · exact .inl heq
  · have hleast := hm.low
    have hle := exponentFor_le hroom hM (by omega)
    have hnext := hv.below_next hm
    have hgap : (2 : ℚ) ^ (e + 53) ≤ 2 ^ (exponentFor M E + 52) := zpow_two_le (by omega)
    linarith

/-! ### Rounding -/

theorem shiftToTargetExponent_eq (M : Nat) (E : Int) (accuracy : Accuracy) :
    shiftToTargetExponent Format.binary64 M E accuracy
      = (ExtendedMantissa.ofMantissaAndAccuracy M accuracy >>> (exponentFor M E - E).toNat,
        E + (exponentFor M E - E).toNat) := by
  unfold shiftToTargetExponent
  rw [targetExponent_eq]
  rfl

/-- A mantissa of at most 53 bits needs no shift. -/
theorem shiftToTargetExponent_of_lt (hlt : m < 2 ^ 53) (he : -1074 ≤ e) :
    shiftToTargetExponent Format.binary64 m e .exact = (⟨m, false, false⟩, e) := by
  have hlog : m.log2 < 53 := by
    rcases Nat.eq_zero_or_pos m with rfl | hpos
    · decide
    · exact (Nat.log2_lt (Nat.ne_of_gt hpos)).mpr hlt
  have hshift : (exponentFor m e - e).toNat = 0 := by
    unfold exponentFor
    omega
  rw [shiftToTargetExponent_eq, hshift]
  show (_, e + 0) = _
  rw [Int.add_zero]
  rfl

/-- A mantissa that was rounded up to 54 bits loses the last one, which is 0. -/
theorem shiftToTargetExponent_carry (h : -1074 ≤ e) :
    shiftToTargetExponent Format.binary64 (2 ^ 53) e .exact = (⟨2 ^ 52, false, false⟩, e + 1) := by
  have hexponent : exponentFor (2 ^ 53) e = e + 1 := by
    unfold exponentFor
    rw [Nat.log2_two_pow]
    omega
  have hone : (e + 1 - e).toNat = 1 := by omega
  rw [shiftToTargetExponent_eq, hexponent, hone]
  rfl

/-- The number in units of the exponent that is kept. -/
theorem Approximates.denotes (hv : Approximates M E accuracy v) (hroom : Room M E) :
    Denotes (ExtendedMantissa.ofMantissaAndAccuracy M accuracy >>> (exponentFor M E - E).toNat)
      (v / 2 ^ exponentFor M E) := by
  have hshift := Denotes.shiftRight hv (exponentFor M E - E).toNat
  have hexponent : E + ((exponentFor M E - E).toNat : Int) = exponentFor M E := by
    have := hroom.le
    omega
  rwa [div_div, ← zpow_natCast, ← zpow_two_add, hexponent] at hshift

/-- The nearest natural number in units of the exponent that is kept. -/
def roundedUnits (mantissa : Nat) (exponent : Int) (accuracy : Accuracy) : Nat :=
  (ExtendedMantissa.ofMantissaAndAccuracy mantissa accuracy
    >>> (exponentFor mantissa exponent - exponent).toNat).roundedMantissa

/-- A result is made of that number, once more cut to 53 bits. -/
theorem roundWithAccuracy_of_shift (hroom : Room M E)
    (hshift : shiftToTargetExponent Format.binary64 (roundedUnits M E accuracy) (exponentFor M E)
      .exact = (⟨m, false, false⟩, e)) (sign : Sign) :
    roundWithAccuracy Format.binary64 sign M E accuracy
      = if h : m = 0 then .zero sign else .finite sign m e (Nat.pos_of_ne_zero h) := by
  have hexponent : E + ((exponentFor M E - E).toNat : Int) = exponentFor M E := by
    have := hroom.le
    omega
  unfold roundedUnits at hshift
  unfold roundWithAccuracy
  simp only [shiftToTargetExponent_eq M E accuracy, hexponent, hshift]

/-- **Rounding** gives the double that the number is near to. -/
theorem roundWithAccuracy_eq (hv : Approximates M E accuracy v) (hroom : Room M E)
    (hm : Parts m e) (hpos : 0 < m) (hnear : Near m e v) (sign : Sign) :
    roundWithAccuracy Format.binary64 sign M E accuracy = .finite sign m e hpos := by
  have hp := zpow_two_pos e
  have hdenotes := hv.denotes hroom
  obtain hE | ⟨hE, hpower, hleast, hbelow⟩ := exponentFor_of_near hroom hv.le hv.lt hm hnear
  -- in units of the exponent the nearest natural number is the mantissa
  · rw [hE] at hdenotes
    have hround : roundedUnits M E accuracy = m := by
      rw [roundedUnits, hE]
      refine hdenotes.roundedMantissa_eq ((le_div_iff₀ hp).mpr hnear.low)
        ((div_le_iff₀ hp).mpr hnear.high) ?_
      rw [div_eq_iff hp.ne', div_eq_iff hp.ne']
      exact hnear.even
    have hshift := shiftToTargetExponent_of_lt hm.lt hm.low
    rw [← hround, ← hE] at hshift
    rw [roundWithAccuracy_of_shift hroom hshift, dif_neg (by omega)]
    simp only [hround, hE]
  -- just below a power of two the mantissa is rounded up to it, and the exponent grows by one
  · rw [hE] at hdenotes
    have hp' := zpow_two_pos (e - 1)
    have hdouble : (2 : ℚ) ^ e = 2 * 2 ^ (e - 1) := by
      rw [← zpow_one_add₀ (by norm_num)]
      congr 1
      omega
    have hnarrow := hnear.narrow (by simp [narrowBelow, leadingBit, hpower, hleast])
    rw [hpower, hdouble] at hnarrow hbelow
    have hround : roundedUnits M E accuracy = 2 ^ 53 := by
      rw [roundedUnits, hE]
      refine hdenotes.roundedMantissa_eq ?_ ?_ (fun _ => by norm_num)
      · rw [le_div_iff₀ hp']
        push_cast at hnarrow ⊢
        linarith
      · rw [div_le_iff₀ hp']
        push_cast at hbelow ⊢
        linarith
    have hshift := shiftToTargetExponent_carry (e := e - 1) (by omega)
    rw [← hround, ← hE] at hshift
    rw [roundWithAccuracy_of_shift hroom hshift, dif_neg (by norm_num)]
    simp only [hpower, hE]
    congr 1
    omega

/-! ### Products -/

theorem approximates_exact (M : Nat) (E : Int) : Approximates M E .exact (M * 2 ^ E) := by
  unfold Approximates
  rw [mul_div_cancel_right₀ _ (zpow_two_pos E).ne']
  constructor <;> simp [ExtendedMantissa.ofMantissaAndAccuracy]

/-- **A product** is the double that the exact product is near to. -/
theorem mul_eq {m₁ m₂ : Nat} {e₁ e₂ : Int} {h₁ : 0 < m₁} {h₂ : 0 < m₂}
    (hroom : Room (m₁ * m₂) (e₁ + e₂)) (hm : Parts m e) (hpos : 0 < m)
    (hnear : Near m e ((m₁ * 2 ^ e₁) * (m₂ * 2 ^ e₂))) :
    mul Format.binary64 (.finite .positive m₁ e₁ h₁) (.finite .positive m₂ e₂ h₂)
      = .finite .positive m e hpos := by
  have hvalue : ((m₁ * m₂ : Nat) : ℚ) * 2 ^ (e₁ + e₂) = (m₁ * 2 ^ e₁) * (m₂ * 2 ^ e₂) := by
    rw [zpow_two_add]
    push_cast
    ring
  have hv := approximates_exact (m₁ * m₂) (e₁ + e₂)
  rw [hvalue] at hv
  exact roundWithAccuracy_eq hv hroom hm hpos hnear _

/-! ### Quotients -/

/-- The remainder of a division says where the quotient lies. -/
theorem denotes_fraction {mantissa num den : Nat} (h : num < den) :
    Denotes (.ofMantissaAndAccuracy mantissa (accuracyOfFraction num den))
      (mantissa + num / den) := by
  have hden : (0 : ℚ) < den := by exact_mod_cast Nat.zero_lt_of_lt h
  have hlt : (num : ℚ) / den < 1 := (div_lt_one hden).mpr (by exact_mod_cast h)
  unfold accuracyOfFraction
  by_cases hzero : num = 0
  · rw [if_pos hzero]
    constructor <;> simp [hzero, ExtendedMantissa.ofMantissaAndAccuracy]
  · have hpos : (0 : ℚ) < num / den := by
      have hnum : (0 : ℚ) < num := by exact_mod_cast Nat.pos_of_ne_zero hzero
      positivity
    rw [if_neg hzero]
    rcases Nat.lt_trichotomy (2 * num) den with hhalf | hhalf | hhalf
    · have hfraction : (num : ℚ) / den < 1 / 2 := by
        have hhalf : (2 : ℚ) * num < den := by exact_mod_cast hhalf
        rw [div_lt_iff₀ hden]
        linarith
      rw [Nat.compare_eq_lt.mpr hhalf]
      constructor <;> simp only [ExtendedMantissa.ofMantissaAndAccuracy] <;> grind
    · have hfraction : (num : ℚ) / den = 1 / 2 := by
        have hhalf : (2 : ℚ) * num = den := by exact_mod_cast hhalf
        rw [div_eq_iff hden.ne']
        linarith
      rw [Nat.compare_eq_eq.mpr hhalf]
      constructor <;> simp only [ExtendedMantissa.ofMantissaAndAccuracy] <;> grind
    · have hfraction : 1 / 2 < (num : ℚ) / den := by
        have hhalf : (den : ℚ) < 2 * num := by exact_mod_cast hhalf
        rw [lt_div_iff₀ hden]
        linarith
      rw [Nat.compare_eq_gt.mpr hhalf]
      constructor <;> simp only [ExtendedMantissa.ofMantissaAndAccuracy] <;> grind

variable {m₁ m₂ : Nat} {e₁ e₂ : Int}

/-- The dividend is shifted until the quotient has enough bits. -/
theorem room_divCore (h₁ : 0 < m₁) (h₂ : 0 < m₂) :
    Room (divCore Format.binary64 m₁ e₁ m₂ e₂).1 (divCore Format.binary64 m₁ e₁ m₂ e₂).2.1 := by
  unfold divCore
  simp only [Nat.shiftLeft_eq]
  set E := min (e₁ - e₂)
    (Format.binary64.targetExponent (totalExponent m₁ e₁ - totalExponent m₂ e₂)) with hE
  set k := (e₁ - e₂ - E).toNat with hk
  have htarget : Format.binary64.targetExponent (totalExponent m₁ e₁ - totalExponent m₂ e₂)
      = max (m₁.log2 + e₁ - (m₂.log2 + e₂) - 53) (-1074) := by
    simp only [Format.targetExponent, totalExponent, Format.mantissaBits, Format.minExponent]
    norm_num
    omega
  by_cases hleast : E ≤ -1074
  · exact .inr hleast
  · left
    have hbits : m₂.log2 + 53 ≤ m₁.log2 + k := by omega
    have hquotient : 2 ^ 52 ≤ m₁ * 2 ^ k / m₂ := by
      rw [Nat.le_div_iff_mul_le h₂]
      calc 2 ^ 52 * m₂ ≤ 2 ^ 52 * 2 ^ (m₂.log2 + 1) :=
            Nat.mul_le_mul_left _ (Nat.le_of_lt Nat.lt_log2_self)
        _ = 2 ^ (m₂.log2 + 53) := by rw [← pow_add]; congr 1; omega
        _ ≤ 2 ^ (m₁.log2 + k) := Nat.pow_le_pow_right (by norm_num) hbits
        _ = 2 ^ m₁.log2 * 2 ^ k := pow_add _ _ _
        _ ≤ m₁ * 2 ^ k := Nat.mul_le_mul_right _ (Nat.log2_self_le (Nat.ne_of_gt h₁))
    have hpos : 0 < m₁ * 2 ^ k / m₂ := Nat.lt_of_lt_of_le (by norm_num) hquotient
    exact (Nat.le_log2 (Nat.ne_of_gt hpos)).mpr hquotient

/-- The quotient with its remainder stands for the exact one. -/
theorem approximates_divCore (h₂ : 0 < m₂) :
    Approximates (divCore Format.binary64 m₁ e₁ m₂ e₂).1 (divCore Format.binary64 m₁ e₁ m₂ e₂).2.1
      (divCore Format.binary64 m₁ e₁ m₂ e₂).2.2 ((m₁ * 2 ^ e₁) / (m₂ * 2 ^ e₂)) := by
  unfold divCore
  simp only [Nat.shiftLeft_eq]
  set E := min (e₁ - e₂)
    (Format.binary64.targetExponent (totalExponent m₁ e₁ - totalExponent m₂ e₂)) with hE
  set k := (e₁ - e₂ - E).toNat with hk
  have hexponent : e₁ = E + k + e₂ := by omega
  have hm₂ : (m₂ : ℚ) ≠ 0 := by exact_mod_cast Nat.ne_of_gt h₂
  have hE0 := (zpow_two_pos E).ne'
  have he0 := (zpow_two_pos e₂).ne'
  have hdivision : ((m₁ * 2 ^ k : Nat) : ℚ)
      = m₂ * ((m₁ * 2 ^ k / m₂ : Nat) : ℚ) + ((m₁ * 2 ^ k % m₂ : Nat) : ℚ) := by
    exact_mod_cast (Nat.div_add_mod (m₁ * 2 ^ k) m₂).symm
  have hvalue : (m₁ * 2 ^ e₁) / (m₂ * 2 ^ e₂) / 2 ^ E
      = ((m₁ * 2 ^ k / m₂ : Nat) : ℚ) + ((m₁ * 2 ^ k % m₂ : Nat) : ℚ) / m₂ := by
    calc (m₁ * 2 ^ e₁) / (m₂ * 2 ^ e₂) / 2 ^ E
        = ((m₁ * 2 ^ k : Nat) : ℚ) / m₂ := by
          rw [hexponent, zpow_two_add, zpow_two_add, zpow_natCast]
          push_cast
          field_simp
      _ = _ := by
          rw [hdivision]
          field_simp
  unfold Approximates
  rw [hvalue]
  exact denotes_fraction (Nat.mod_lt _ h₂)

/-- **A quotient** is the double that the exact quotient is near to. -/
theorem div_eq {h₁ : 0 < m₁} {h₂ : 0 < m₂} (hm : Parts m e) (hpos : 0 < m)
    (hnear : Near m e ((m₁ * 2 ^ e₁) / (m₂ * 2 ^ e₂))) :
    div Format.binary64 (.finite .positive m₁ e₁ h₁) (.finite .positive m₂ e₂ h₂)
      = .finite .positive m e hpos :=
  roundWithAccuracy_eq (approximates_divCore h₂) (room_divCore h₁ h₂) hm hpos hnear _

/-! ### Natural numbers -/

/-- The parts of a natural number with at most 53 bits: its bits, moved to the front. -/
theorem parts_of_nat {n : Nat} (hpos : 0 < n) (hlt : n < 2 ^ 53) :
    Parts (n * 2 ^ (52 - n.log2)) (n.log2 - 52) ∧ 52 ≤ (n * 2 ^ (52 - n.log2)).log2
      ∧ ((n * 2 ^ (52 - n.log2) : Nat) : ℚ) * 2 ^ (n.log2 - 52 : Int) = n := by
  have hlog : n.log2 < 53 := (Nat.log2_lt (Nat.ne_of_gt hpos)).mpr hlt
  have hlow : 2 ^ 52 ≤ n * 2 ^ (52 - n.log2) := by
    calc 2 ^ 52 = 2 ^ n.log2 * 2 ^ (52 - n.log2) := by rw [← pow_add]; congr 1; omega
      _ ≤ n * 2 ^ (52 - n.log2) :=
        Nat.mul_le_mul_right _ (Nat.log2_self_le (Nat.ne_of_gt hpos))
  have hhigh : n * 2 ^ (52 - n.log2) < 2 ^ 53 := by
    calc n * 2 ^ (52 - n.log2) < 2 ^ (n.log2 + 1) * 2 ^ (52 - n.log2) :=
          Nat.mul_lt_mul_of_pos_right Nat.lt_log2_self (by positivity)
      _ = 2 ^ 53 := by rw [← pow_add]; congr 1; omega
  have hexponent : (n.log2 - 52 : Int) = -((52 - n.log2 : Nat) : Int) := by omega
  refine ⟨⟨hhigh, by omega, by omega, .inr hlow⟩, ?_, ?_⟩
  · exact (Nat.le_log2 (Nat.ne_of_gt (Nat.lt_of_lt_of_le (by norm_num) hlow))).mpr hlow
  · rw [hexponent, zpow_neg, zpow_natCast]
    push_cast
    field_simp

/-- **A natural number** with at most 53 bits is a double. -/
theorem ofNat_eq {n : Nat} (hpos : 0 < n) (hlt : n < 2 ^ 53) :
    ofNat Format.binary64 n
      = .finite .positive (n * 2 ^ (52 - n.log2)) (n.log2 - 52) (by positivity) := by
  obtain ⟨hparts, hbits, -⟩ := parts_of_nat hpos hlt
  have hlog : n.log2 < 53 := (Nat.log2_lt (Nat.ne_of_gt hpos)).mpr hlt
  have hexponent : exponentFor n 0 = n.log2 - 52 := by
    unfold exponentFor
    omega
  have hshift : (0 - (n.log2 - 52 : Int)).toNat = 52 - n.log2 := by omega
  have hrest : (0 - ((52 - n.log2 : Nat) : Int)) = n.log2 - 52 := by omega
  have hpositive : compare (n : Int) 0 = .gt := by
    rw [compare_gt_iff_gt]
    omega
  unfold ofNat ofInt Float.Model.UnpackedFloat.normalize
  rw [hpositive]
  show Float.Model.UnpackedFloat.round Format.binary64 .positive n 0 = _
  unfold Float.Model.UnpackedFloat.round decreaseExponent
  simp only [targetExponent_eq, hexponent, hshift, hrest, Nat.shiftLeft_eq]
  exact roundWithAccuracy_eq (approximates_exact _ _) (.inl hbits) hparts (by positivity)
    (near_self _ _) _

end SimplexTableau.Decimal
