namespace SimplexTableau.Decimal

/-!
# What a double stands for

A finite double is a sign, a natural number and a power of two.  Everything that writes doubles
in decimal starts from this form and computes with natural numbers only.

* `Binary64` — the three kinds of doubles;
* `decode` — the kind of a double, read from its bits;
* `narrowBelow` — the doubles whose lower neighbour is nearer than the upper one.
-/

/-- The bit in front of the fraction, 2⁵²; only the least doubles have none there. -/
def leadingBit : Nat := 0x10000000000000

/-- A double, taken apart. -/
inductive Binary64
  /-- The result of an undefined operation. -/
  | nan
  /-- An infinity. -/
  | infinite (negative : Bool)
  /-- The number `mantissa * 2 ^ exponent`, negated if `negative`. -/
  | finite (negative : Bool) (mantissa : Nat) (exponent : Int)
deriving DecidableEq

/-- Takes a double apart: sign, eleven bits of exponent, fifty-two bits of fraction. -/
def decode (x : Float) : Binary64 :=
  let bits := x.toBits.toNat
  let negative : Bool := bits >>> 63 = 1
  let exponent : Nat := (bits >>> 52) % 2048
  let fraction : Nat := bits % leadingBit
  if exponent = 2047 then
    if fraction = 0 then .infinite negative else .nan
  else if exponent = 0 then
    .finite negative fraction (-1074)
  else
    .finite negative (leadingBit + fraction) ((exponent : Int) - 1075)

/-- At a power of two above the least exponent the gap to the lower neighbour is half the gap to
    the upper one. -/
def narrowBelow (mantissa : Nat) (exponent : Int) : Bool :=
  mantissa = leadingBit ∧ -1074 < exponent

end SimplexTableau.Decimal
