import SimplexTableau.Json.Text
import SimplexTableau.Proofs.Access
import Mathlib.Tactic.SplitIfs

namespace SimplexTableau.Json

/-!
# Strings and their escapes

A string may hold any characters.  The text between its quotes escapes the quote, the backslash
and the control characters, and reading takes the escapes back:

* `Escapes` — one step of reading takes the front of a text as one character;
* `escapes_escape` — what is written for a character is such a front;
* `readQuoted_flatMap_escape` — a string is read back as far as its closing quote, and what
  follows that is left alone.
-/

/-- Where more steps are allowed than there are parts, one is left for the next part. -/
theorem exists_fuel_of_lt {n fuel : Nat} (h : n < fuel) : ∃ k, fuel = k + 1 ∧ n ≤ k := by
  obtain ⟨k, rfl⟩ := Nat.exists_eq_succ_of_ne_zero (Nat.ne_of_gt (Nat.zero_lt_of_lt h))
  exact ⟨k, rfl, Nat.le_of_lt_succ h⟩

/-- One step of reading takes `front` as the character `c`, whatever follows. -/
def Escapes (front : List Char) (c : Char) : Prop :=
  ∀ (fuel : Nat) (seen rest : List Char),
    readQuotedFor (fuel + 1) seen (front ++ rest) = readQuotedFor fuel (c :: seen) rest

/-- A character that needs no escape stands for itself. -/
theorem escapes_self {c : Char} (hquote : c ≠ '"') (hbackslash : c ≠ '\\')
    (hcontrol : ¬ c.toNat < 32) : Escapes [c] c := by
  intro fuel seen rest
  simp [readQuotedFor, hquote, hbackslash, hcontrol]

/-- A backslash and a letter stand for the character of the letter. -/
theorem escapes_letter {letter c : Char} (hu : letter ≠ 'u') (h : letterEscape? letter = some c) :
    Escapes ['\\', letter] c := by
  intro fuel seen rest
  have hescape : readEscape (letter :: rest) = .ok (c, rest) := by
    unfold readEscape
    split
    · exact absurd (by simp_all) hu
    · exact absurd (by simp_all) hu
    · simp_all
    · simp_all
  show (readEscape (letter :: rest) >>= _) = _
  rw [hescape, ok_bind]

/-! ### Control characters -/

theorem hexValue?_hexDigit : ∀ n < 16, hexValue? (hexDigit n) = some n := by decide

/-- Four digits, of which the first two are 0, give the number of the last two. -/
theorem hexWord?_hexDigit {n : Nat} (h : n < 256) :
    hexWord? '0' '0' (hexDigit (n / 16)) (hexDigit (n % 16)) = some n := by
  have hzero : hexValue? '0' = some 0 := by decide
  have hhigh : hexValue? (hexDigit (n / 16)) = some (n / 16) := hexValue?_hexDigit _ (by omega)
  have hlow : hexValue? (hexDigit (n % 16)) = some (n % 16) := hexValue?_hexDigit _ (by omega)
  simp only [hexWord?, hzero, hhigh, hlow, bind, Option.bind, pure]
  congr 1
  omega

/-- A control character may stand as its number. -/
theorem escapes_number {c : Char} (h : c.toNat < 32) :
    Escapes ['\\', 'u', '0', '0', hexDigit (c.toNat / 16), hexDigit (c.toNat % 16)] c := by
  intro fuel seen rest
  have hleading : isLeading c.toNat = false := by simp [isLeading]; omega
  have htrailing : isTrailing c.toNat = false := by simp [isTrailing]; omega
  have hescape : readEscape ('u' :: '0' :: '0' :: hexDigit (c.toNat / 16) ::
      hexDigit (c.toNat % 16) :: rest) = .ok (c, rest) := by
    simp [readEscape, hexWord?_hexDigit (show c.toNat < 256 by omega), hleading, htrailing,
      Char.ofNat_toNat]
  show (readEscape ('u' :: '0' :: '0' :: hexDigit (c.toNat / 16) ::
    hexDigit (c.toNat % 16) :: rest) >>= _) = _
  rw [hescape, ok_bind]

/-! ### Whole strings -/

/-- **What is written for a character** is read back as that character. -/
theorem escapes_escape (c : Char) : Escapes (escape c) c := by
  unfold escape
  -- the cases are those of the writer, from the quote to the characters that stand for themselves
  split_ifs with hquote hbackslash hnewline hreturn htab hback hfeed hcontrol
  · exact escapes_letter (by decide) (by rw [hquote]; decide)
  · exact escapes_letter (by decide) (by rw [hbackslash]; decide)
  · exact escapes_letter (by decide) (by rw [hnewline]; decide)
  · exact escapes_letter (by decide) (by rw [hreturn]; decide)
  · exact escapes_letter (by decide) (by rw [htab]; decide)
  · exact escapes_letter (by decide) (by rw [hback]; decide)
  · exact escapes_letter (by decide) (by rw [hfeed]; decide)
  · exact escapes_number hcontrol
  · exact escapes_self hquote hbackslash hcontrol

/-- Every character is written with at least one. -/
theorem escape_ne_nil (c : Char) : escape c ≠ [] := by
  unfold escape
  split_ifs <;> simp

/-- With one step for each character and one for the closing quote, reading takes them all. -/
theorem readQuotedFor_flatMap_escape (text : List Char) {fuel : Nat} (hfuel : text.length < fuel)
    (seen rest : List Char) :
    readQuotedFor fuel seen (text.flatMap escape ++ '"' :: rest)
      = .ok (seen.reverse ++ text, rest) := by
  induction text generalizing fuel seen with
  | nil =>
    obtain ⟨fuel, rfl, -⟩ := exists_fuel_of_lt hfuel
    simp [readQuotedFor]
  | cons c text ih =>
    obtain ⟨fuel, rfl, hle⟩ := exists_fuel_of_lt hfuel
    rw [List.flatMap_cons, List.append_assoc, escapes_escape c, ih hle, List.reverse_cons,
      List.append_assoc]
    rfl

/-- **A string is read back** as far as its closing quote. -/
theorem readQuoted_flatMap_escape (text rest : List Char) :
    readQuoted (text.flatMap escape ++ '"' :: rest) = .ok (text, rest) := by
  have hlength : text.length ≤ (text.flatMap escape).length := by
    induction text with
    | nil => simp
    | cons c text ih =>
      have hpos := List.length_pos_iff.mpr (escape_ne_nil c)
      simp only [List.flatMap_cons, List.length_append, List.length_cons]
      omega
  unfold readQuoted
  rw [readQuotedFor_flatMap_escape text (by simp only [List.length_append]; omega)]
  rfl

end SimplexTableau.Json
