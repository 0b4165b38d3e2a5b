import Mathlib
import SimplexTableau.Decimal.Literal
import SimplexTableau.Decimal.Shortest
import SimplexTableau.Proofs.Rounding

namespace SimplexTableau.Decimal

open Float.Model (Format)
open Float.Model.UnpackedFloat

/-!
# Doubles from their shortest digits

The digits that are written for a double are near to it, and from a decimal the double is made that
it is near to.  So a double is found again from its digits.

* `Digits.value` — the number that digits stand for; `near_shortest`: the shortest digits of a
  double are near to it;
* `nearest_eq` — a decimal gives the double that it is near to, whatever way the double is computed.
-/

theorem zpow_ten_pos (q : Int) : (0 : ℚ) < 10 ^ q := zpow_pos (by norm_num) q

theorem zpow_ten_lt_iff {a b : Int} : (10 : ℚ) ^ a < 10 ^ b ↔ a < b :=
  zpow_lt_zpow_iff_right₀ (by norm_num)

variable {m : Nat} {e : Int}

/-! ### The shortest digits -/

/-- The number that digits stand for. -/
def Digits.value (d : Digits) : ℚ := d.coefficient * 10 ^ d.exponent

/-- The digits of the number itself. -/
theorem value_exact (m : Nat) (e : Int) : (exact m e).value = m * 2 ^ e := by
  unfold exact Digits.value
  split
  case isTrue h =>
    obtain ⟨n, rfl⟩ := Int.eq_ofNat_of_zero_le h
    simp
  case isFalse h =>
    obtain ⟨n, hn⟩ := Int.eq_ofNat_of_zero_le (show 0 ≤ -e by omega)
    obtain rfl : e = -(n : Int) := by omega
    have hten : (10 : ℚ) = 2 * 5 := by norm_num
    simp only [Int.neg_neg, Int.toNat_natCast, Nat.pow_eq, zpow_neg, zpow_natCast, hten, mul_pow]
    push_cast
    field_simp

/-- The unit in which a grid and the gaps between doubles are measured. -/
def gridUnit (e grid : Int) : ℚ := 1 / (2 ^ (2 - e).toNat * 10 ^ (-grid).toNat)

theorem zpow_eq_toNat {b : ℚ} (hb : b ≠ 0) (n : Int) : b ^ n = b ^ n.toNat / b ^ (-n).toNat := by
  rw [eq_div_iff (pow_ne_zero _ hb), ← zpow_natCast, ← zpow_natCast, ← zpow_add₀ hb]
  congr 1
  omega

/-- A quarter of the gap between doubles. -/
theorem quarter_mul_gridUnit (e grid : Int) :
    ((Nat.pow 2 (e - 2).toNat * Nat.pow 10 (-grid).toNat : Nat) : ℚ) * gridUnit e grid
      = 2 ^ e / 4 := by
  have hquarter : (2 : ℚ) ^ e / 4 = 2 ^ (e - 2) := by
    rw [sub_eq_add_neg, zpow_two_add]
    norm_num
    ring
  have hneg : -(e - 2) = 2 - e := by omega
  rw [hquarter, zpow_eq_toNat (by norm_num) (e - 2), hneg]
  unfold gridUnit
  simp only [Nat.pow_eq]
  push_cast
  field_simp

/-- One step of the grid. -/
theorem step_mul_gridUnit (e grid : Int) :
    ((Nat.pow 2 (2 - e).toNat * Nat.pow 10 grid.toNat : Nat) : ℚ) * gridUnit e grid
      = 10 ^ grid := by
  rw [zpow_eq_toNat (by norm_num) grid]
  unfold gridUnit
  simp only [Nat.pow_eq]
  push_cast
  field_simp

/-- Where the narrow gap is, the mantissa is even. -/
theorem even_of_narrowBelow (h : narrowBelow m e = true) : m % 2 = 0 := by
  obtain ⟨hm, -⟩ := of_decide_eq_true h
  rw [hm]
  rfl

/-- How many quarters of the gap above a double are in its interval below. -/
def quartersBelow (m : Nat) (e : Int) : Nat := if narrowBelow m e then 1 else 2

/-- The point lies in the interval of a double, whose ends belong to it if the mantissa is even. -/
def inside (m : Nat) (e : Int) (quarter point : Nat) : Bool :=
  let low := 4 * m * quarter - quartersBelow m e * quarter
  let high := 4 * m * quarter + 2 * quarter
  if m % 2 = 0 then low ≤ point ∧ point ≤ high else low < point ∧ point < high

theorem quartersBelow_le (m : Nat) (e : Int) : quartersBelow m e ≤ 2 := by
  unfold quartersBelow
  split <;> omega

/-- The ends of the interval, and when they belong to it. -/
theorem bounds_of_inside {quarter point : Nat} (hpos : 0 < m)
    (h : inside m e quarter point = true) :
    (4 * m - quartersBelow m e) * quarter ≤ (point : ℚ)
      ∧ (point : ℚ) ≤ (4 * m + 2) * quarter
      ∧ ((point : ℚ) = (4 * m - quartersBelow m e) * quarter
          ∨ (point : ℚ) = (4 * m + 2) * quarter → m % 2 = 0) := by
  have hle := quartersBelow_le m e
  have hsub : ((4 * m * quarter - quartersBelow m e * quarter : Nat) : ℚ)
      = (4 * m - quartersBelow m e) * quarter := by
    rw [Nat.cast_sub (Nat.mul_le_mul_right quarter (by omega))]
    push_cast
    ring
  unfold inside at h
  split at h
  case isTrue heven =>
    obtain ⟨hlow, hhigh⟩ := of_decide_eq_true h
    have hlow : ((4 * m * quarter - quartersBelow m e * quarter : Nat) : ℚ) ≤ point := by
      exact_mod_cast hlow
    have hhigh : (point : ℚ) ≤ 4 * m * quarter + 2 * quarter := by exact_mod_cast hhigh
    rw [hsub] at hlow
    exact ⟨hlow, by linarith, fun _ => heven⟩
  case isFalse hodd =>
    obtain ⟨hlow, hhigh⟩ := of_decide_eq_true h
    have hlow : ((4 * m * quarter - quartersBelow m e * quarter : Nat) : ℚ) < point := by
      exact_mod_cast hlow
    have hhigh : (point : ℚ) < 4 * m * quarter + 2 * quarter := by exact_mod_cast hhigh
    rw [hsub] at hlow
    refine ⟨hlow.le, by linarith, ?_⟩
    rintro (hend | hend)
    · linarith
    · linarith

/-- A point of the interval is near to the double. -/
theorem near_of_inside {quarter point : Nat} {unit : ℚ} (hpos : 0 < m) (hunit : 0 < unit)
    (hquarter : quarter * unit = 2 ^ e / 4) (h : inside m e quarter point = true) :
    Near m e (point * unit) := by
  obtain ⟨hlow, hhigh, hends⟩ := bounds_of_inside hpos h
  have hp := zpow_two_pos e
  have hscale : ∀ a : ℚ, a * quarter * unit = a / 4 * 2 ^ e := by
    intro a
    rw [mul_assoc, hquarter]
    ring
  have hlow : (m - quartersBelow m e / 4) * 2 ^ e ≤ (point : ℚ) * unit := by
    have hmul := mul_le_mul_of_nonneg_right hlow hunit.le
    rw [hscale] at hmul
    linarith
  have hhigh : (point : ℚ) * unit ≤ (m + 1 / 2) * 2 ^ e := by
    have hmul := mul_le_mul_of_nonneg_right hhigh hunit.le
    rw [hscale] at hmul
    linarith
  refine ⟨?_, hhigh, fun hend => ?_, fun hnarrow => ?_⟩
  -- a narrow interval lies inside the wide one
  · have hle : (quartersBelow m e : ℚ) ≤ 2 := by exact_mod_cast quartersBelow_le m e
    have hgap : (quartersBelow m e : ℚ) * 2 ^ e ≤ 2 * 2 ^ e := mul_le_mul_of_nonneg_right hle hp.le
    linarith
  · by_cases hnarrow : narrowBelow m e = true
    · exact even_of_narrowBelow hnarrow
    · have hgap : (quartersBelow m e : ℚ) = 2 := by simp [quartersBelow, hnarrow]
      apply hends
      rcases hend with hend | hend
      · left
        apply mul_right_cancel₀ hunit.ne'
        rw [hscale, hend, hgap]
        ring
      · right
        apply mul_right_cancel₀ hunit.ne'
        rw [hscale, hend]
        ring
  · have hgap : (quartersBelow m e : ℚ) = 1 := by simp [quartersBelow, hnarrow]
    rwa [hgap] at hlow

theorem gridUnit_pos (e grid : Int) : 0 < gridUnit e grid := by
  unfold gridUnit
  positivity

/-- **A hit on a grid** is near to the double. -/
theorem near_gridPoint {tie : Tie} {grid : Int} {c : Nat} (hpos : 0 < m)
    (h : gridPoint? tie m e grid = some c) : Near m e (c * 10 ^ grid) := by
  rw [← step_mul_gridUnit e grid, ← mul_assoc, ← Nat.cast_mul]
  refine near_of_inside hpos (gridUnit_pos e grid) (quarter_mul_gridUnit e grid) ?_
  unfold gridPoint? at h
  simp only at h
  split at h
  case h_1 hlower hupper =>
    -- both neighbours lie inside, and one of them is taken
    have htaken := Option.some.inj h
    split at htaken
    · subst htaken
      exact hupper
    · subst htaken
      exact hlower
  case h_2 hlower _ =>
    obtain rfl := Option.some.inj h
    exact hlower
  case h_3 _ hupper =>
    obtain rfl := Option.some.inj h
    exact hupper
  case h_4 => exact absurd h nofun

theorem near_firstHit {tie : Tie} {grid : Int} {fuel : Nat} {d : Digits} (hpos : 0 < m)
    (h : firstHit tie m e grid fuel = some d) : Near m e d.value := by
  induction fuel generalizing grid with
  | zero => exact absurd h nofun
  | succ fuel ih =>
    unfold firstHit at h
    split at h
    case h_1 c hc =>
      obtain rfl := Option.some.inj h
      exact near_gridPoint hpos hc
    case h_2 => exact ih h

/-- **The shortest digits** are near to the double. -/
theorem near_shortest (tie : Tie) (e : Int) (hpos : 0 < m) :
    Near m e (shortest tie m e).value := by
  unfold shortest
  simp only
  cases hhit : firstHit tie m e (gridAbove m e) ((gridAbove m e - min e 0).toNat + 1) with
  | some d => exact near_firstHit hpos hhit
  | none =>
    show Near m e (exact m e).value
    rw [value_exact]
    exact near_self m e

/-! ### Reading decimals -/

theorem Near.pos {v : ℚ} (h : Near m e v) (hpos : 0 < m) : 0 < v := by
  have hm : (1 : ℚ) ≤ m := by exact_mod_cast hpos
  calc (0 : ℚ) < (m - 1 / 2) * 2 ^ e := mul_pos (by linarith) (zpow_two_pos e)
    _ ≤ v := h.low

/-- The place of the leading digit. -/
theorem place_bounds {c : Nat} (hc : 0 < c) (q : Int) :
    (c : ℚ) * 10 ^ q < 10 ^ ((Nat.toDigits 10 c).length + q)
      ∧ (10 : ℚ) ^ ((Nat.toDigits 10 c).length + q - 1) ≤ c * 10 ^ q := by
  have hlength : 0 < (Nat.toDigits 10 c).length := Nat.length_toDigits_pos
  constructor
  · have hlt : c < 10 ^ (Nat.toDigits 10 c).length :=
      (Nat.length_toDigits_le_iff (by norm_num) hlength).mp (le_refl _)
    have hlt : (c : ℚ) < 10 ^ (Nat.toDigits 10 c).length := by exact_mod_cast hlt
    rw [zpow_add₀ (by norm_num), zpow_natCast]
    exact mul_lt_mul_of_pos_right hlt (zpow_ten_pos q)
  · have hle : 10 ^ ((Nat.toDigits 10 c).length - 1) ≤ c := by
      by_contra hlt
      rcases Nat.eq_zero_or_pos ((Nat.toDigits 10 c).length - 1) with hone | hmore
      · rw [hone] at hlt
        omega
      · have := (Nat.length_toDigits_le_iff (by norm_num) hmore).mpr (Nat.lt_of_not_le hlt)
        omega
    have hle : (10 : ℚ) ^ ((Nat.toDigits 10 c).length - 1) ≤ c := by exact_mod_cast hle
    have hplace : ((Nat.toDigits 10 c).length + q - 1 : Int)
        = ((Nat.toDigits 10 c).length - 1 : Nat) + q := by omega
    rw [hplace, zpow_add₀ (by norm_num), zpow_natCast]
    exact mul_le_mul_of_nonneg_right hle (zpow_ten_pos q).le

variable {c : Nat} {q : Int}

/-- All doubles but 0 lie between two powers of ten. -/
theorem powers_around_doubles :
    (10 : ℚ) ^ (-330 : Int) < 1 / 2 * 2 ^ (-1074 : Int)
      ∧ (2 : ℚ) ^ (1024 : Int) < 10 ^ (309 : Int) := by
  have hsmall : 2 ^ 1075 < 10 ^ 330 := by decide +kernel
  have hgreat : 2 ^ 1024 < 10 ^ 309 := by decide +kernel
  constructor
  · have hsmall : (2 : ℚ) ^ 1075 < 10 ^ 330 := by exact_mod_cast hsmall
    calc (10 : ℚ) ^ (-330 : Int) = 1 / 10 ^ 330 := by rw [zpow_neg, one_div]; rfl
      _ < 1 / 2 ^ 1075 := one_div_lt_one_div_of_lt (by positivity) hsmall
      _ = 1 / 2 * 2 ^ (-1074 : Int) := by
        rw [pow_succ', zpow_neg, ← one_div_mul_one_div, ← one_div (2 ^ (1074 : Int))]
        rfl
  · exact_mod_cast hgreat

/-- A decimal that is near to a double has no extreme place. -/
theorem place_of_near (hm : Parts m e) (hpos : 0 < m) (hc : 0 < c)
    (hnear : Near m e (c * 10 ^ q)) :
    -330 ≤ (Nat.toDigits 10 c).length + q ∧ (Nat.toDigits 10 c).length + q ≤ 309 := by
  obtain ⟨hlt, hle⟩ := place_bounds hc q
  constructor
  · have hleast : (10 : ℚ) ^ (-330 : Int) < c * 10 ^ q := by
      have hone : (1 : ℚ) ≤ m := by exact_mod_cast hpos
      calc (10 : ℚ) ^ (-330 : Int) < 1 / 2 * 2 ^ (-1074 : Int) := powers_around_doubles.1
        _ ≤ (m - 1 / 2) * 2 ^ e := by
          apply mul_le_mul (by linarith) (zpow_two_le hm.low) (zpow_two_pos _).le (by linarith)
        _ ≤ c * 10 ^ q := hnear.low
    have := zpow_ten_lt_iff.mp (hleast.trans hlt)
    omega
  · have hgreatest : (c : ℚ) * 10 ^ q < 10 ^ (309 : Int) := by
      calc (c : ℚ) * 10 ^ q < 2 ^ (e + 53) := hnear.below_next hm
        _ ≤ 2 ^ (1024 : Int) := zpow_two_le (by have := hm.high; omega)
        _ < 10 ^ (309 : Int) := powers_around_doubles.2
    have := zpow_ten_lt_iff.mp (hle.trans_lt hgreatest)
    omega

theorem length_toDigits_le_log2 (c : Nat) : (Nat.toDigits 10 c).length ≤ c.log2 + 1 := by
  rw [Nat.length_toDigits_le_iff (by norm_num) (by omega)]
  calc c < 2 ^ (c.log2 + 1) := Nat.lt_log2_self
    _ ≤ 10 ^ (c.log2 + 1) := Nat.pow_le_pow_left (by norm_num) _

/-- **The slow way**, by a product or a quotient of integers of any size. -/
theorem ofScientific_eq (hm : Parts m e) (hpos : 0 < m) (hc : 0 < c)
    (hnear : Near m e (c * 10 ^ q)) :
    ofScientific Format.binary64 c q = .finite .positive m e hpos := by
  obtain ⟨hleast, hgreatest⟩ := place_of_near hm hpos hc hnear
  have hlength : 0 < (Nat.toDigits 10 c).length := Nat.length_toDigits_pos
  have hlog := length_toDigits_le_log2 c
  unfold ofScientific
  -- neither of the two short cuts for extreme places applies
  rw [dif_neg (Nat.ne_of_gt hc), if_neg (by norm_num; omega), if_neg (by norm_num; omega)]
  split
  case isTrue hq =>
    obtain ⟨n, rfl⟩ := Int.eq_ofNat_of_zero_le hq
    apply mul_eq _ hm hpos
    · have hvalue : ((c <<< Format.mantissaBits Format.binary64 : Nat) : ℚ)
          * 2 ^ (-(Format.mantissaBits Format.binary64 : Int)) = c := by
        rw [Nat.shiftLeft_eq, zpow_neg, zpow_natCast]
        push_cast
        field_simp
      rw [hvalue]
      simpa using hnear
    · left
      rw [Nat.shiftLeft_eq]
      refine (Nat.le_log2 (by positivity)).mpr ?_
      calc 2 ^ 52 ≤ 1 * 2 ^ Format.mantissaBits Format.binary64 * 1 := by decide
        _ ≤ c * 2 ^ Format.mantissaBits Format.binary64 * 10 ^ (n : Int).toNat := by
          gcongr
          · exact hc
          · exact Nat.one_le_pow _ _ (by norm_num)
  case isFalse hq =>
    obtain ⟨n, hn⟩ := Int.eq_ofNat_of_zero_le (show 0 ≤ -q by omega)
    obtain rfl : q = -(n : Int) := by omega
    apply div_eq hm hpos
    have hvalue : ((c : ℚ) * 2 ^ (0 : Int)) / ((10 ^ (-(-(n : Int))).toNat : Nat) * 2 ^ (0 : Int))
        = c * 10 ^ (-(n : Int)) := by
      simp [zpow_neg, div_eq_mul_inv]
    rw [hvalue]
    exact hnear

/-! ### The quick way -/

/-- The table of powers of ten holds the bits of powers of five, moved to the front. -/
theorem powersOfTen_eq : ∀ i : Fin Float.exactlyRepresentablePowersOfTen.size,
    Float.exactlyRepresentablePowersOfTen[i]
      = assemble .positive (Nat.pow 5 i * Nat.pow 2 (52 - (Nat.pow 5 i).log2))
        (i + ((Nat.pow 5 i).log2 - 52))
        (Nat.mul_pos (Nat.pow_pos (by decide)) (Nat.pow_pos (by decide))) := by
  decide +kernel

/-- **The powers of ten** in the table are exact. -/
theorem exists_powerOfTen {i : Nat} (hi : i < Float.exactlyRepresentablePowersOfTen.size) :
    ∃ (m : Nat) (e : Int) (hpos : 0 < m), Parts m e ∧ 52 ≤ m.log2 ∧ (m : ℚ) * 2 ^ e = 10 ^ i
      ∧ Float.exactlyRepresentablePowersOfTen[i] = assemble .positive m e hpos := by
  have hi : i < 23 := hi
  have hlt : 5 ^ i < 2 ^ 53 := by
    calc 5 ^ i ≤ 5 ^ 22 := Nat.pow_le_pow_right (by norm_num) (by omega)
      _ < 2 ^ 53 := by norm_num
  obtain ⟨hparts, hbits, hvalue⟩ := parts_of_nat (by positivity : 0 < 5 ^ i) hlt
  have hlog : (5 ^ i).log2 < 53 := (Nat.log2_lt (by positivity)).mpr hlt
  refine ⟨_, _, _, ⟨hparts.lt, ?_, ?_, .inr ?_⟩, hbits, ?_, powersOfTen_eq ⟨i, hi⟩⟩
  · show (-1074 : Int) ≤ i + ((5 ^ i).log2 - 52)
    omega
  · show (i + ((5 ^ i).log2 - 52) : Int) ≤ 971
    omega
  · exact (Nat.le_log2 (by positivity)).mp hbits
  · show (((5 ^ i * 2 ^ (52 - (5 ^ i).log2) : Nat)) : ℚ) * 2 ^ ((i : Int) + ((5 ^ i).log2 - 52))
      = 10 ^ i
    rw [add_comm, zpow_two_add, ← mul_assoc, hvalue, zpow_natCast]
    push_cast
    rw [← mul_pow]
    norm_num

theorem toFloat_eq (hc : 0 < c) (hlt : c < 2 ^ 53) :
    c.toUInt64.toFloat
      = assemble .positive (c * 2 ^ (52 - c.log2)) (c.log2 - 52) (by positivity) := by
  have hword : c.toUInt64.toNat = c := by
    rw [UInt64.toNat_ofNat']
    omega
  show Float.ofModel (.pack (ofNat Format.binary64 c.toUInt64.toNat)) = _
  rw [hword, ofNat_eq hc hlt]
  rfl

/-- Multiplying doubles multiplies their parts. -/
theorem mul_assemble {m₁ m₂ : Nat} {e₁ e₂ : Int} (h₁ : Parts m₁ e₁) (hpos₁ : 0 < m₁)
    (h₂ : Parts m₂ e₂) (hpos₂ : 0 < m₂) (hbits : 52 ≤ m₁.log2) (hm : Parts m e) (hpos : 0 < m)
    (hnear : Near m e ((m₁ * 2 ^ e₁) * (m₂ * 2 ^ e₂))) :
    assemble .positive m₁ e₁ hpos₁ * assemble .positive m₂ e₂ hpos₂
      = assemble .positive m e hpos := by
  show Float.ofModel (.pack (mul Format.binary64 (assemble .positive m₁ e₁ hpos₁).toModel.unpack
    (assemble .positive m₂ e₂ hpos₂).toModel.unpack)) = _
  have hroom : Room (m₁ * m₂) (e₁ + e₂) := by
    left
    refine (Nat.le_log2 (by positivity)).mpr ?_
    calc 2 ^ 52 ≤ m₁ := (Nat.le_log2 (Nat.ne_of_gt hpos₁)).mp hbits
      _ ≤ m₁ * m₂ := Nat.le_mul_of_pos_right m₁ hpos₂
  rw [unpack_assemble h₁, unpack_assemble h₂, mul_eq hroom hm hpos hnear]
  rfl

/-- Dividing doubles divides their parts. -/
theorem div_assemble {m₁ m₂ : Nat} {e₁ e₂ : Int} (h₁ : Parts m₁ e₁) (hpos₁ : 0 < m₁)
    (h₂ : Parts m₂ e₂) (hpos₂ : 0 < m₂) (hm : Parts m e) (hpos : 0 < m)
    (hnear : Near m e ((m₁ * 2 ^ e₁) / (m₂ * 2 ^ e₂))) :
    assemble .positive m₁ e₁ hpos₁ / assemble .positive m₂ e₂ hpos₂
      = assemble .positive m e hpos := by
  show Float.ofModel (.pack (div Format.binary64 (assemble .positive m₁ e₁ hpos₁).toModel.unpack
    (assemble .positive m₂ e₂ hpos₂).toModel.unpack)) = _
  rw [unpack_assemble h₁, unpack_assemble h₂, div_eq hm hpos hnear]
  rfl

/-- **A scientific literal** is the double that it is near to. -/
theorem float_ofScientific_eq (hm : Parts m e) (hpos : 0 < m) (hc : 0 < c)
    (hnear : Near m e (c * 10 ^ q)) :
    Float.ofScientific c (q < 0) q.natAbs = assemble .positive m e hpos := by
  unfold Float.ofScientific
  split
  -- a number of 53 bits and a power of ten that is exact need one operation on doubles
  case isTrue hquick =>
    obtain ⟨hlt, hi⟩ := hquick
    obtain ⟨hparts, hbits, hvalue⟩ := parts_of_nat hc hlt
    -- the sign of the exponent decides between a product and a quotient
    have hsize : q.natAbs < Float.exactlyRepresentablePowersOfTen.size := Nat.lt_succ_of_le hi
    obtain ⟨m', e', hpos', hparts', -, hvalue', hpower⟩ := exists_powerOfTen hsize
    rw [toFloat_eq hc hlt]
    simp only [hpower]
    by_cases hq : q < 0
    · rw [if_pos (decide_eq_true hq)]
      apply div_assemble hparts _ hparts' _ hm hpos
      have hexponent : q = -(q.natAbs : Int) := by omega
      rw [hvalue, hvalue', ← zpow_natCast, div_eq_mul_inv, ← zpow_neg, ← hexponent]
      exact hnear
    · rw [if_neg (by simp [hq])]
      apply mul_assemble hparts _ hparts' _ hbits hm hpos
      have hexponent : q = (q.natAbs : Int) := by omega
      rw [hvalue, hvalue', ← zpow_natCast, ← hexponent]
      exact hnear
  case isFalse =>
    have hexponent : (if decide (q < 0) = true then Int.negOfNat q.natAbs else Int.ofNat q.natAbs)
        = q := by
      split
      case isTrue h =>
        have h := of_decide_eq_true h
        rw [Int.negOfNat_eq]
        show -(q.natAbs : Int) = q
        omega
      case isFalse h =>
        have h : ¬ q < 0 := by simpa using h
        show (q.natAbs : Int) = q
        omega
    simp only [hexponent]
    show Float.ofModel (.pack (ofScientific Format.binary64 c q)) = _
    rw [ofScientific_eq hm hpos hc hnear]
    rfl

/-- **A decimal** gives the double that it is near to. -/
theorem nearest_eq (hm : Parts m e) (hpos : 0 < m) (hnear : Near m e (c * 10 ^ q)) :
    nearest c q = assemble .positive m e hpos := by
  have hc : 0 < c := by
    have hvalue := hnear.pos hpos
    rcases Nat.eq_zero_or_pos c with rfl | hc
    · simp at hvalue
    · exact hc
  obtain ⟨hleast, hgreatest⟩ := place_of_near hm hpos hc hnear
  unfold nearest
  simp only
  rw [if_neg (by omega), if_neg (by omega)]
  exact float_ofScientific_eq hm hpos hc hnear

end SimplexTableau.Decimal
