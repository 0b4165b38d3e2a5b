import Mathlib
import SimplexTableau.Proofs.Rounding

namespace SimplexTableau.Decimal

open Float.Model (Format UnpackedFloat)
open Float.Model.UnpackedFloat

/-!
# Quotients that overflow

Above the greatest double lies infinity.  A number is rounded to it if it is nearer to the next
power of two than to that double, or half-way between them, and the quotient of two finite doubles
can be that great:

* `value` — the number that a finite double stands for;
* `overflowBound` — the least number that is rounded to infinity; `fitsWord_round_iff`: a rounded
  number fits a word exactly if the exact one is below;
* `lt_infinity_iff`, `pos_of_lt` — what is less than infinity, and what is greater than 0;
* `div_lt_infinity_iff` — a quotient by a positive double is less than infinity exactly if the
  exact quotient is below the bound.
-/

/-! ### The number of a double -/

/-- The number that the parts of a double stand for; 0 where they stand for none. -/
def Binary64.value : Binary64 → ℚ
  | .finite negative mantissa exponent => (if negative then -1 else 1) * (mantissa * 2 ^ exponent)
  | .nan | .infinite _ => 0

/-- The number that a double stands for. -/
def value (x : Float) : ℚ := (decode x).value

/-- A finite double is 0, or it has a sign, a mantissa and an exponent. -/
theorem unpack_cases {x : Float} (h : x.isFinite = true) :
    ((∃ sign, x.toModel.unpack = .zero sign) ∧ value x = 0)
      ∨ ∃ negative m e hpos, x.toModel.unpack = .finite (signOf negative) m e hpos
        ∧ value x = (if negative then -1 else 1) * (m * 2 ^ e) := by
  obtain ⟨negative, m, e, hdecode⟩ := exists_decode h
  have hvalue : value x = (if negative then -1 else 1) * (m * 2 ^ e) := by
    rw [value, hdecode, Binary64.value]
  rcases Nat.eq_zero_or_pos m with rfl | hpos
  · refine .inl ⟨⟨signOf negative, ?_⟩, by simp [hvalue]⟩
    rw [eq_zero hdecode]
    cases negative <;> rfl
  · refine .inr ⟨negative, m, e, hpos, ?_, hvalue⟩
    rw [eq_assemble hdecode hpos, unpack_assemble (word_of_decode hdecode).1 hpos]

/-! ### Below infinity and above 0 -/

theorem lt_iff_compare {x y : Float} :
    x < y ↔ x.toModel.unpack.compare y.toModel.unpack = some .lt := by
  show decide ((x.toModel.unpack.compare y.toModel.unpack == some .lt) = true) = true ↔ _
  rw [decide_eq_true_eq, beq_iff_eq]

theorem le_iff_compare {x y : Float} :
    x ≤ y ↔ (x.toModel.unpack.compare y.toModel.unpack).any Ordering.isLE = true := by
  show decide ((x.toModel.unpack.compare y.toModel.unpack).any Ordering.isLE = true) = true ↔ _
  rw [decide_eq_true_eq]

theorem pos_iff {x : Float} :
    0 < x ↔ x.toModel.unpack = .infinity .positive
      ∨ ∃ m e hm, x.toModel.unpack = .finite .positive m e hm := by
  have hzero : (0 : Float).toModel.unpack = .zero .positive := rfl
  rw [lt_iff_compare, hzero]
  cases x.toModel.unpack with
  | infinity sign => cases sign <;> simp [UnpackedFloat.compare]
  | notANumber => simp [UnpackedFloat.compare]
  | zero sign => simp [UnpackedFloat.compare]
  | finite sign m e hm => cases sign <;> simp [UnpackedFloat.compare, hm]

theorem nonneg_iff {x : Float} : 0 ≤ x ↔ (∃ sign, x.toModel.unpack = .zero sign) ∨ 0 < x := by
  have hzero : (0 : Float).toModel.unpack = .zero .positive := rfl
  rw [pos_iff, le_iff_compare, hzero]
  cases x.toModel.unpack with
  | infinity sign => cases sign <;> simp [UnpackedFloat.compare]
  | notANumber => simp [UnpackedFloat.compare]
  | zero sign => simp [UnpackedFloat.compare]
  | finite sign m e hm => cases sign <;> simp [UnpackedFloat.compare, hm]

/-- What is above a bound that is not negative is positive. -/
theorem pos_of_lt {bound x : Float} (hbound : 0 ≤ bound) (h : bound < x) : 0 < x := by
  have hsign : compare Sign.positive Sign.negative = .gt := rfl
  rw [nonneg_iff, pos_iff] at hbound
  rw [lt_iff_compare] at h
  rw [pos_iff]
  revert h
  rcases hbound with ⟨sign, hunpack⟩ | hunpack | ⟨m, e, hm, hunpack⟩
  -- none of the three is below 0, below a negative double or below what is no number
  all_goals
    rw [hunpack]
    cases x.toModel.unpack with
    | infinity sign => cases sign <;> simp [UnpackedFloat.compare, hsign]
    | notANumber => simp [UnpackedFloat.compare]
    | zero sign => simp [UnpackedFloat.compare]
    | finite sign m e hm => cases sign <;> simp [UnpackedFloat.compare, hm]

/-- A positive finite double has the sign of what it stands for. -/
theorem unpack_of_pos {x : Float} (h : x.isFinite = true) (hpos : 0 < x) :
    ∃ m e hm, x.toModel.unpack = .finite .positive m e hm ∧ value x = m * 2 ^ e := by
  rw [pos_iff] at hpos
  rcases unpack_cases h with ⟨⟨sign, hunpack⟩, -⟩ | ⟨negative, m, e, hm, hunpack, hvalue⟩
  · simp [hunpack] at hpos
  · cases negative with
    | true => simp [hunpack, signOf] at hpos
    | false => exact ⟨m, e, hm, hunpack, by simpa using hvalue⟩

/-- All doubles but one are less than infinity, and what is no number is not. -/
theorem lt_infinity_iff {x : Float} :
    x < 1 / 0 ↔ x.toModel.unpack ≠ .infinity .positive ∧ x.toModel.unpack ≠ .notANumber := by
  have htop : (1 / 0 : Float).toModel.unpack = .infinity .positive := rfl
  have hsign : compare Sign.negative Sign.positive = .lt := rfl
  rw [lt_iff_compare, htop]
  cases x.toModel.unpack with
  | infinity sign => cases sign <;> simp [UnpackedFloat.compare, hsign]
  | notANumber => simp [UnpackedFloat.compare]
  | zero sign => simp [UnpackedFloat.compare]
  | finite sign m e hm => cases sign <;> simp [UnpackedFloat.compare]

theorem lt_infinity_of_isFinite {x : Float} (h : x.isFinite = true) : x < 1 / 0 := by
  have hfinite : x.toModel.unpack.isFinite = true := h
  rw [lt_infinity_iff]
  constructor
  · intro hunpack
    simp [hunpack, UnpackedFloat.isFinite] at hfinite
  · intro hunpack
    simp [hunpack, UnpackedFloat.isFinite] at hfinite

/-! ### The bound -/

/-- Half-way between the greatest double and the power of two above it. -/
def overflowBound : ℚ := (2 ^ 53 - 1 / 2) * 2 ^ (971 : Int)

theorem zpow_two_lt_overflowBound : (2 : ℚ) ^ (1023 : Int) < overflowBound := by
  have hp := zpow_two_pos 971
  calc (2 : ℚ) ^ (1023 : Int) = 2 ^ 52 * 2 ^ (971 : Int) := zpow_two_add_natCast 971 52
    _ < (2 ^ 53 - 1 / 2) * 2 ^ (971 : Int) := by
      apply mul_lt_mul_of_pos_right _ hp
      norm_num

theorem overflowBound_lt_zpow_two : overflowBound < 2 ^ (1024 : Int) := by
  have hp := zpow_two_pos 971
  calc (2 ^ 53 - 1 / 2) * 2 ^ (971 : Int) < 2 ^ 53 * (2 : ℚ) ^ (971 : Int) := by
        apply mul_lt_mul_of_pos_right _ hp
        norm_num
    _ = 2 ^ (1024 : Int) := (zpow_two_add_natCast 971 53).symm

theorem overflowBound_pos : 0 < overflowBound :=
  lt_trans (zpow_two_pos 1023) zpow_two_lt_overflowBound

/-- What the two bits add to the mantissa. -/
theorem roundedMantissa_eq_add (em : ExtendedMantissa) :
    em.roundedMantissa = em.mantissa
      + if em.roundBit then if em.stickyBit then 1 else em.mantissa % 2 else 0 := by
  obtain ⟨mantissa, _ | _, _ | _⟩ := em <;> rfl

/-- An even number is reached from half a unit below it on. -/
theorem Denotes.le_roundedMantissa_iff {em : ExtendedMantissa} {w : ℚ} (h : Denotes em w) {n : Nat}
    (heven : n % 2 = 0) : n ≤ em.roundedMantissa ↔ n - 1 / 2 ≤ w := by
  obtain ⟨hle, hlt, hround, -⟩ := h
  rw [roundedMantissa_eq_add]
  rcases lt_trichotomy n (em.mantissa + 1) with hn | rfl | hn
  · have hn' : (n : ℚ) ≤ em.mantissa := by exact_mod_cast Nat.le_of_lt_succ hn
    exact iff_of_true (by omega) (by linarith)
  -- the number above the mantissa is even, so a half goes up to it
  · have hhalf : ((em.mantissa + 1 : Nat) : ℚ) - 1 / 2 = em.mantissa + 1 / 2 := by
      push_cast
      ring
    rw [hhalf, ← hround]
    cases em.roundBit with
    | false => simp
    | true =>
      simp only [if_true, iff_true]
      split <;> omega
  · have hn' : (em.mantissa : ℚ) + 2 ≤ n := by exact_mod_cast hn
    refine iff_of_false ?_ (by linarith)
    split_ifs <;> omega

theorem Denotes.roundedMantissa_le {em : ExtendedMantissa} {w : ℚ} (h : Denotes em w) {n : Nat}
    (hw : w < n) : em.roundedMantissa ≤ n := by
  have hmantissa : em.mantissa < n := by exact_mod_cast lt_of_le_of_lt h.le hw
  rw [roundedMantissa_eq_add]
  split_ifs <;> omega

/-! ### Rounding to infinity -/

variable {sign : Sign} {M : Nat} {E : Int} {accuracy : Accuracy} {v : ℚ}

theorem exponentFor_ge (M : Nat) (E : Int) : -1074 ≤ exponentFor M E := le_max_right _ _

/-- A result fits a word if its exponent does.  The exponent grows by one if a bit is carried. -/
theorem fitsWord_round_iff_units (hroom : Room M E) (hle : roundedUnits M E accuracy ≤ 2 ^ 53)
    (sign : Sign) :
    FitsWord (roundWithAccuracy Format.binary64 sign M E accuracy)
      ↔ roundedUnits M E accuracy = 0 ∨ exponentFor M E ≤ 970
        ∨ exponentFor M E = 971 ∧ roundedUnits M E accuracy < 2 ^ 53 := by
  rcases Nat.lt_or_eq_of_le hle with hlt | hcarry
  · rw [roundWithAccuracy_of_shift hroom (shiftToTargetExponent_of_lt hlt (exponentFor_ge M E))]
    split
    case isTrue hzero => exact iff_of_true trivial (.inl hzero)
    case isFalse hpos =>
      show exponentFor M E + 1075 < 2047 ↔ _
      omega
  · have hshift := shiftToTargetExponent_carry (exponentFor_ge M E)
    rw [← hcarry] at hshift
    rw [roundWithAccuracy_of_shift hroom hshift, dif_neg (by norm_num)]
    show exponentFor M E + 1 + 1075 < 2047 ↔ _
    omega

/-- **Rounding to infinity.**  A result fits a word exactly if the exact number is below the
    bound. -/
theorem fitsWord_round_iff (hv : Approximates M E accuracy v) (hroom : Room M E) (sign : Sign) :
    FitsWord (roundWithAccuracy Format.binary64 sign M E accuracy) ↔ v < overflowBound := by
  have hdenotes := hv.denotes hroom
  have hp := zpow_two_pos (exponentFor M E)
  have hbits := lt_exponentFor hv.lt
  have hle : roundedUnits M E accuracy ≤ 2 ^ 53 := by
    apply hdenotes.roundedMantissa_le
    rw [div_lt_iff₀ hp]
    exact_mod_cast lt_of_lt_of_eq hbits (zpow_two_add_natCast _ 53)
  rw [fitsWord_round_iff_units hroom hle]
  rcases lt_trichotomy (exponentFor M E) 971 with hlt | heq | hgt
  -- the number is below a power of two that is still small enough
  · refine iff_of_true (.inr (.inl (by omega))) ?_
    calc v < 2 ^ (exponentFor M E + 53) := hbits
      _ ≤ 2 ^ (1023 : Int) := zpow_two_le (by omega)
      _ < overflowBound := zpow_two_lt_overflowBound
  -- the greatest exponent: a carry is too much
  · have hcarry := hdenotes.le_roundedMantissa_iff (n := 2 ^ 53) (by norm_num)
    rw [← roundedUnits, heq, le_div_iff₀ (zpow_two_pos 971)] at hcarry
    have hbound : overflowBound = (((2 ^ 53 : Nat) : ℚ) - 1 / 2) * 2 ^ (971 : Int) := by
      rw [overflowBound, Nat.cast_pow, Nat.cast_ofNat]
    rw [← hbound] at hcarry
    have hbelow : roundedUnits M E accuracy < 2 ^ 53 ↔ v < overflowBound := by
      rw [← not_le, hcarry, not_le]
    rw [← hbelow]
    omega
  -- beyond it every number is too great
  · have hlow := exponentFor_le hroom hv.le (by omega)
    have hgreat : overflowBound < v :=
      calc overflowBound < 2 ^ (1024 : Int) := overflowBound_lt_zpow_two
        _ ≤ 2 ^ (exponentFor M E + 52) := zpow_two_le (by omega)
        _ ≤ v := hlow
    have hunits : (2 : ℚ) ^ 52 ≤ v / 2 ^ exponentFor M E := by
      rwa [le_div_iff₀ hp, ← zpow_two_add_natCast]
    have hpos : 2 ^ 52 ≤ roundedUnits M E accuracy := by
      apply (hdenotes.le_roundedMantissa_iff (by norm_num)).mpr
      push_cast
      linarith
    refine iff_of_false ?_ (not_lt.mpr hgreat.le)
    omega

theorem round_cases (sign : Sign) (M : Nat) (E : Int) (accuracy : Accuracy) :
    roundWithAccuracy Format.binary64 sign M E accuracy = .zero sign
      ∨ ∃ m e hm, roundWithAccuracy Format.binary64 sign M E accuracy = .finite sign m e hm := by
  unfold roundWithAccuracy
  simp only
  split
  case isTrue => exact .inl rfl
  case isFalse h => exact .inr ⟨_, _, Nat.pos_of_ne_zero h, rfl⟩

/-- What fits a word is finite as a double exactly if it is a number. -/
theorem isFinite_ofModel_pack {u : UnpackedFloat} (hu : FitsWord u) :
    (Float.ofModel (.pack u)).isFinite = u.isFinite :=
  isFinite_unpack_pack hu

/-- What does not fit a word is packed as an infinity. -/
theorem unpack_pack_of_not_fitsWord {m : Nat} {e : Int} {hm : 0 < m}
    (h : ¬FitsWord (.finite sign m e hm)) :
    unpack Format.binary64 (pack Format.binary64 (.finite sign m e hm)) = .infinity sign := by
  have hexponent : ¬e + 1075 < 2047 := h
  have hpack : pack Format.binary64 (.finite sign m e hm)
      = packedInfinity Format.binary64 sign := by
    unfold pack
    simp only
    rw [if_pos]
    show 2048 ≤ (e + 1023 + 52).toNat + 1
    omega
  rw [hpack]
  cases sign <;> rfl

/-- **A rounded number is less than infinity** exactly if it is negative or the exact one is below
    the bound. -/
theorem round_lt_infinity_iff (hv : Approximates M E accuracy v) (hroom : Room M E) :
    Float.ofModel (.pack (roundWithAccuracy Format.binary64 sign M E accuracy)) < 1 / 0
      ↔ sign = .negative ∨ v < overflowBound := by
  rw [← fitsWord_round_iff hv hroom sign]
  have hcases := round_cases sign M E accuracy
  generalize roundWithAccuracy Format.binary64 sign M E accuracy = u at hcases ⊢
  by_cases hu : FitsWord u
  · have hfinite : (Float.ofModel (.pack u)).isFinite = true := by
      rw [isFinite_ofModel_pack hu]
      rcases hcases with rfl | ⟨m, e, hm, rfl⟩
      · rfl
      · rfl
    exact iff_of_true (lt_infinity_of_isFinite hfinite) (.inr hu)
  · rcases hcases with rfl | ⟨m, e, hm, rfl⟩
    · exact absurd trivial hu
    · rw [lt_infinity_iff]
      show unpack Format.binary64 (pack Format.binary64 _) ≠ _
        ∧ unpack Format.binary64 (pack Format.binary64 _) ≠ _ ↔ _
      rw [unpack_pack_of_not_fitsWord hu]
      cases sign <;> simp [hu]

/-! ### Quotients -/

/-- **A quotient** by a positive double is less than infinity exactly if the exact quotient is below
    the bound. -/
theorem div_lt_infinity_iff {x y : Float} (hx : x.isFinite = true) (hy : y.isFinite = true)
    (hpos : 0 < y) : x / y < 1 / 0 ↔ value x / value y < overflowBound := by
  obtain ⟨m₂, e₂, h₂, hunpackY, hvalueY⟩ := unpack_of_pos hy hpos
  have hquotient : x / y = .ofModel (.pack (div Format.binary64 x.toModel.unpack
      (.finite .positive m₂ e₂ h₂))) := by
    rw [← hunpackY]
    rfl
  have hdivisor : (0 : ℚ) < value y := by
    have := zpow_two_pos e₂
    rw [hvalueY]
    positivity
  rw [hquotient]
  rcases unpack_cases hx with ⟨⟨sign, hunpackX⟩, hvalueX⟩
    | ⟨negative, m₁, e₁, h₁, hunpackX, hvalueX⟩
  · have hzero : div Format.binary64 (.zero sign) (.finite .positive m₂ e₂ h₂)
        = .zero (sign / .positive) := rfl
    rw [hunpackX, hzero, hvalueX, zero_div]
    refine iff_of_true (lt_infinity_of_isFinite ?_) overflowBound_pos
    rw [isFinite_ofModel_pack (u := .zero _) trivial]
    rfl
  · rw [hunpackX]
    show Float.ofModel (.pack (roundWithAccuracy Format.binary64 (signOf negative / .positive)
      (divCore Format.binary64 m₁ e₁ m₂ e₂).1 (divCore Format.binary64 m₁ e₁ m₂ e₂).2.1
      (divCore Format.binary64 m₁ e₁ m₂ e₂).2.2)) < 1 / 0 ↔ _
    rw [round_lt_infinity_iff (approximates_divCore h₂) (room_divCore h₁ h₂), hvalueX, hvalueY]
    cases negative with
    | false =>
      have hsign : signOf false / Sign.positive ≠ Sign.negative := nofun
      simp [hsign]
    | true =>
      refine iff_of_true (.inl rfl) (lt_trans ?_ overflowBound_pos)
      have hdividend : (0 : ℚ) < m₁ * 2 ^ e₁ := by
        have := zpow_two_pos e₁
        positivity
      rw [← hvalueY]
      exact div_neg_of_neg_of_pos (by simpa using hdividend) hdivisor

end SimplexTableau.Decimal
