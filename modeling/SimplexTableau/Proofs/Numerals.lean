import SimplexTableau.Json.Reader
import SimplexTableau.Proofs.Access
import SimplexTableau.Proofs.Decimals

namespace SimplexTableau.Json

open Decimal (Digits digitsValue spanDigits)

/-!
# Numbers in a text

A number in a text goes on as long as its characters can belong to one, so it is read back if what
follows it cannot.

* `EndsNumber` — what can follow a number;
* `digitsValue_toDigits` — the digits of a natural number have its value, and
  `head_toDigits_ne_zero`: they start with 0 only for 0 itself;
* `Scans` — into which parts a text is scanned, with a minus sign in front or without;
* `scansAs_writeDigits` — what is written for digits is scanned as a number of the same value;
* `readNumber_natural` — natural numbers are read back, whatever reads the others;
* `scanNumber_realText` — what is written for a finite double is scanned as one numeral wherever it
  stands, and its nearest double is the one that was written.
-/

/-- The text does not start with a digit. -/
def EndsDigits (rest : List Char) : Prop := ∀ c, rest.head? = some c → c.isDigit = false

/-- The text does not start with what could go on a number. -/
structure EndsNumber (rest : List Char) : Prop where
  /-- There are no more digits. -/
  digit : EndsDigits rest
  /-- There is no fraction. -/
  point : rest.head? ≠ some '.'
  /-- There is no exponent. -/
  exponent : rest.head? ≠ some 'e' ∧ rest.head? ≠ some 'E'

theorem endsNumber_nil : EndsNumber [] := ⟨nofun, nofun, nofun, nofun⟩

/-! ### Digits -/

/-- At least one digit, and nothing else. -/
structure AllDigits (digits : List Char) : Prop where
  /-- There is one. -/
  ne_nil : digits ≠ []
  /-- Every character is a digit. -/
  digit : ∀ c ∈ digits, c.isDigit = true

theorem isDigit_of_mem_replicate {n : Nat} {c : Char} (h : c ∈ List.replicate n '0') :
    c.isDigit = true := by
  rw [List.eq_of_mem_replicate h]
  decide

theorem allDigits_zero : AllDigits ['0'] :=
  ⟨nofun, fun _ hc => isDigit_of_mem_replicate (n := 1) hc⟩

theorem spanDigits_append {digits rest : List Char} (h : ∀ c ∈ digits, c.isDigit = true)
    (hrest : EndsDigits rest) : spanDigits (digits ++ rest) = (digits, rest) := by
  have htake : (digits ++ rest).takeWhile Char.isDigit = digits := by
    rw [List.takeWhile_append_of_pos h]
    cases rest with
    | nil => simp
    | cons c rest => simp [hrest c rfl]
  have hdrop : (digits ++ rest).dropWhile Char.isDigit = rest := by
    rw [List.dropWhile_append_of_pos h]
    cases rest with
    | nil => simp
    | cons c rest => simp [hrest c rfl]
  unfold spanDigits
  rw [List.span_eq_takeWhile_dropWhile, htake, hdrop]

theorem scanDigits_append {atEnd : Fault} {digits rest : List Char} (h : AllDigits digits)
    (hrest : EndsDigits rest) : scanDigits atEnd (digits ++ rest) = .ok (digits, rest) := by
  unfold scanDigits
  rw [spanDigits_append h.digit hrest]
  cases digits with
  | nil => exact absurd rfl h.ne_nil
  | cons c digits => rfl

theorem digitsValue_append (a b : List Char) :
    digitsValue (a ++ b) = digitsValue a * 10 ^ b.length + digitsValue b := by
  have hfold : ∀ (b : List Char) (n : Nat),
      b.foldl (fun n c => n * 10 + (c.toNat - '0'.toNat)) n
        = n * 10 ^ b.length + digitsValue b := by
    intro b
    induction b with
    | nil => simp [digitsValue]
    | cons c b ih =>
      intro n
      have hfirst : digitsValue (c :: b)
          = (0 * 10 + (c.toNat - '0'.toNat)) * 10 ^ b.length + digitsValue b := ih _
      rw [List.foldl_cons, ih, hfirst, List.length_cons, pow_succ]
      ring
  rw [digitsValue, List.foldl_append, hfold]
  rfl

theorem digitsValue_replicate_zero (n : Nat) : digitsValue (List.replicate n '0') = 0 := by
  induction n with
  | zero => rfl
  | succ n ih =>
    rw [List.replicate_succ, ← List.singleton_append, digitsValue_append, ih]
    simp [digitsValue]

/-- **The digits of a natural number** have its value. -/
theorem digitsValue_toDigits (n : Nat) : digitsValue (Nat.toDigits 10 n) = n := by
  have hvalue := Nat.ofDigitChars_ten_toDigits (n := n)
  rw [Nat.ofDigitChars_eq_foldl] at hvalue
  simpa only [digitsValue, Nat.mul_comm] using hvalue

theorem allDigits_toDigits (n : Nat) : AllDigits (Nat.toDigits 10 n) :=
  ⟨Nat.toDigits_ne_nil, fun _ hc => Nat.isDigit_of_mem_toDigits (by norm_num) (by norm_num) hc⟩

/-- The digits of a natural number start with 0 only for 0 itself. -/
theorem head_toDigits_ne_zero {n : Nat} (hn : 0 < n) : (Nat.toDigits 10 n).head? ≠ some '0' := by
  induction n using Nat.strong_induction_on with
  | _ n ih =>
    rw [Nat.toDigits_eq_if (by norm_num)]
    split
    case isTrue hlt =>
      have hdigit : ∀ n < 10, 0 < n → Nat.digitChar n ≠ '0' := by decide
      simpa using hdigit n hlt hn
    case isFalse hle =>
      rw [List.head?_append_of_ne_nil _ Nat.toDigits_ne_nil]
      exact ih (n / 10) (by omega) (by omega)

/-! ### Scanning -/

/-- The first character of a text is one that a number starts with. -/
def StartsNumber (text : List Char) : Prop := ∃ c more, text = c :: more ∧ startsNumber c = true

theorem AllDigits.startsNumber {digits : List Char} (h : AllDigits digits) (more : List Char) :
    StartsNumber (digits ++ more) := by
  obtain ⟨c, cs, rfl⟩ := List.exists_cons_of_ne_nil h.ne_nil
  refine ⟨c, cs ++ more, rfl, ?_⟩
  simp [Json.startsNumber, h.digit c List.mem_cons_self]

/-- A text is scanned as a number with the given parts, with a minus sign in front or without. -/
structure Scans (text : List Char) (whole : List Char) (fraction? : Option (List Char))
    (exponent? : Option Int) (rest : List Char) : Prop where
  /-- A number starts here. -/
  starts : StartsNumber text
  /-- Without a sign. -/
  unsigned : ∀ atEnd, scanNumber atEnd text = .ok (⟨false, whole, fraction?, exponent?⟩, rest)
  /-- With a minus sign. -/
  signed : ∀ atEnd, scanNumber atEnd ('-' :: text) = .ok (⟨true, whole, fraction?, exponent?⟩, rest)

theorem scanWhole_append {atEnd : Fault} {digits rest : List Char} (h : AllDigits digits)
    (hzero : digits.head? = some '0' → digits = ['0']) (hrest : EndsDigits rest) :
    scanWhole atEnd (digits ++ rest) = .ok (digits, rest) := by
  unfold scanWhole
  simp only [scanDigits_append h hrest, ok_bind]
  split
  case h_1 => exact absurd (hzero rfl) nofun
  case h_2 => rfl

/-- The whole digits, then what may be a fraction, then what may be an exponent. -/
theorem Scans.of_parts {whole afterWhole afterFraction rest : List Char}
    {fraction? : Option (List Char)} {exponent? : Option Int} (h : AllDigits whole)
    (hzero : whole.head? = some '0' → whole = ['0']) (hwhole : EndsDigits afterWhole)
    (hfraction : ∀ atEnd, scanFraction atEnd afterWhole = .ok (fraction?, afterFraction))
    (hexponent : ∀ atEnd, scanExponent atEnd afterFraction = .ok (exponent?, rest)) :
    Scans (whole ++ afterWhole) whole fraction? exponent? rest := by
  have hscan : ∀ atEnd, scanWhole atEnd (whole ++ afterWhole) = .ok (whole, afterWhole) :=
    fun atEnd => scanWhole_append h hzero hwhole
  refine ⟨h.startsNumber afterWhole, ?_, ?_⟩
  · intro atEnd
    have hsign : ∀ cs, whole ++ afterWhole ≠ '-' :: cs := by
      intro cs heq
      obtain ⟨c, digits, rfl⟩ := List.exists_cons_of_ne_nil h.ne_nil
      obtain rfl := (List.cons.inj heq).1
      exact absurd (h.digit '-' List.mem_cons_self) (by decide)
    unfold scanNumber
    split
    case h_1 negative text heq =>
      split at heq
      case h_1 hminus => exact absurd hminus (hsign _)
      case h_2 =>
        obtain ⟨rfl, rfl⟩ := Prod.mk.inj heq
        simp only [hscan, hfraction, hexponent, ok_bind, pure_eq_ok]
  · intro atEnd
    unfold scanNumber
    simp only [hscan, hfraction, hexponent, ok_bind, pure_eq_ok]

theorem scanFraction_point {atEnd : Fault} {digits rest : List Char} (h : AllDigits digits)
    (hrest : EndsDigits rest) :
    scanFraction atEnd ('.' :: digits ++ rest) = .ok (some digits, rest) := by
  show (scanDigits atEnd (digits ++ rest) >>= _) = _
  rw [scanDigits_append h hrest]
  rfl

theorem scanFraction_none {atEnd : Fault} {rest : List Char} (hrest : rest.head? ≠ some '.') :
    scanFraction atEnd rest = .ok (none, rest) := by
  unfold scanFraction
  split
  case h_1 => exact absurd rfl hrest
  case h_2 => rfl

/-- The exponent with its sign. -/
theorem scanExponent_mark {atEnd : Fault} {rest : List Char} (n : Int) (hrest : EndsDigits rest) :
    scanExponent atEnd ('e' :: (if n < 0 then '-' else '+') :: Nat.toDigits 10 n.natAbs ++ rest)
      = .ok (some n, rest) := by
  have hdigits : ∀ atEnd, scanDigits atEnd (Nat.toDigits 10 n.natAbs ++ rest)
      = .ok (Nat.toDigits 10 n.natAbs, rest) :=
    fun atEnd => scanDigits_append (allDigits_toDigits _) hrest
  by_cases hn : n < 0
  · rw [if_pos hn]
    show (scanDigits atEnd (Nat.toDigits 10 n.natAbs ++ rest) >>= _) = _
    rw [hdigits, ok_bind]
    simp only [digitsValue_toDigits, ↓reduceIte, pure_eq_ok]
    congr 3
    omega
  · rw [if_neg hn]
    show (scanDigits atEnd (Nat.toDigits 10 n.natAbs ++ rest) >>= _) = _
    rw [hdigits, ok_bind]
    simp only [digitsValue_toDigits, pure_eq_ok]
    show Except.ok (some (n.natAbs : Int), rest) = _
    congr 3
    omega

theorem scanExponent_none {atEnd : Fault} {rest : List Char} (he : rest.head? ≠ some 'e')
    (hE : rest.head? ≠ some 'E') : scanExponent atEnd rest = .ok (none, rest) := by
  unfold scanExponent
  cases rest with
  | nil => rfl
  | cons c rest =>
    have hc : ¬ (c = 'e' ∨ c = 'E') := by
      rintro (rfl | rfl)
      · exact he rfl
      · exact hE rfl
    simp only [hc, ↓reduceIte]

/-! ### The digits of a double -/

/-- A text is scanned as a number with a point or an exponent, of the given value, whatever follows
    that is no part of a number. -/
def ScansAs (text : List Char) (value : ℚ) : Prop :=
  ∃ whole fraction? exponent?,
    (∀ rest, EndsNumber rest → Scans (text ++ rest) whole fraction? exponent? rest)
    ∧ (fraction?.isSome = true ∨ exponent?.isSome = true)
    ∧ (digitsValue (whole ++ fraction?.getD []) : ℚ)
        * 10 ^ (exponent?.getD 0 - (fraction?.getD []).length) = value

theorem endsDigits_cons {c : Char} {rest : List Char} (hc : c.isDigit = false) :
    EndsDigits (c :: rest) := by
  intro c' hc'
  obtain rfl := Option.some.inj hc'
  exact hc

/-- A number without exponent: its whole digits, a point and more digits. -/
theorem scansAs_point {whole fraction : List Char} (hwhole : AllDigits whole)
    (hzero : whole.head? = some '0' → whole = ['0']) (hfraction : AllDigits fraction) :
    ScansAs (whole ++ '.' :: fraction)
      (digitsValue (whole ++ fraction) * 10 ^ (-(fraction.length : Int))) := by
  refine ⟨whole, some fraction, none, fun rest hrest => ?_, .inl rfl, by simp⟩
  rw [List.append_assoc]
  exact Scans.of_parts hwhole hzero
    (endsDigits_cons (by decide)) (fun atEnd => scanFraction_point hfraction hrest.digit)
    (fun atEnd => scanExponent_none hrest.exponent.1 hrest.exponent.2)

/-- A number with an exponent: one digit, what may be a fraction, and the exponent. -/
theorem scansAs_exponent {first : Char} {more : List Char} (place : Int)
    (h : AllDigits (first :: more)) :
    ScansAs (Decimal.withExponent (first :: more) place)
      (digitsValue (first :: more) * 10 ^ (place - more.length)) := by
  have hfirst : AllDigits [first] := by
    refine ⟨nofun, fun c hc => ?_⟩
    rw [List.mem_singleton.mp hc]
    exact h.digit first List.mem_cons_self
  have hzero : [first].head? = some '0' → [first] = ['0'] := by
    intro heq
    rw [Option.some.inj heq]
  have hmark : ∀ text, EndsDigits ('e' :: text) := fun text => endsDigits_cons (by decide)
  cases more with
  | nil =>
    refine ⟨[first], none, some place, fun rest hrest => ?_, .inr rfl, by simp⟩
    have htext : Decimal.withExponent [first] place ++ rest = [first]
        ++ ('e' :: (if place < 0 then '-' else '+') :: Nat.toDigits 10 place.natAbs ++ rest) := by
      simp [Decimal.withExponent]
    rw [htext]
    exact Scans.of_parts hfirst hzero (hmark _) (fun atEnd => scanFraction_none (by simp))
      (fun atEnd => scanExponent_mark place hrest.digit)
  | cons second more =>
    refine ⟨[first], some (second :: more), some place, fun rest hrest => ?_, .inr rfl, by simp⟩
    have htext : Decimal.withExponent (first :: second :: more) place ++ rest = [first]
        ++ ('.' :: (second :: more) ++ ('e' :: (if place < 0 then '-' else '+')
          :: Nat.toDigits 10 place.natAbs ++ rest)) := by
      simp [Decimal.withExponent]
    have hmore : AllDigits (second :: more) :=
      ⟨nofun, fun c hc => h.digit c (List.mem_cons_of_mem first hc)⟩
    rw [htext]
    exact Scans.of_parts hfirst hzero (endsDigits_cons (by decide))
      (fun atEnd => scanFraction_point hmore (hmark _))
      (fun atEnd => scanExponent_mark place hrest.digit)

/-- Digits with their point, taken apart: the whole digits, and those of a fraction or none.  Only
    the digit 0 starts with 0 before and after. -/
theorem inFull_parts {digits : List Char} {q : Int} (h : AllDigits digits) (wholeEnd : List Char) :
    ∃ whole fraction, AllDigits whole
      ∧ ((digits.head? = some '0' → digits = ['0'] ∧ q = 0) →
        whole.head? = some '0' → whole = ['0'])
      ∧ (digitsValue (whole ++ fraction) : ℚ) * 10 ^ (-(fraction.length : Int))
        = digitsValue digits * 10 ^ q
      ∧ (fraction = [] ∧ Decimal.inFull wholeEnd digits q = whole ++ wholeEnd
        ∨ AllDigits fraction ∧ Decimal.inFull wholeEnd digits q = whole ++ '.' :: fraction) := by
  unfold Decimal.inFull
  split
  -- a whole number, with the zeros that its exponent stands for
  case isTrue hq =>
    obtain ⟨n, rfl⟩ := Int.eq_ofNat_of_zero_le hq
    refine ⟨digits ++ List.replicate n '0', [], ⟨by simp [h.ne_nil], fun c hc => ?_⟩,
      fun hzero => ?_, ?_, .inl ⟨rfl, by simp⟩⟩
    · rcases List.mem_append.mp hc with hc | hc
      · exact h.digit c hc
      · exact isDigit_of_mem_replicate hc
    · rw [List.head?_append_of_ne_nil _ h.ne_nil]
      intro hd
      obtain ⟨rfl, hn⟩ := hzero hd
      obtain rfl : n = 0 := by omega
      rfl
    · rw [List.append_nil, digitsValue_append, digitsValue_replicate_zero]
      simp
  case isFalse hq =>
    obtain ⟨n, hn⟩ := Int.eq_ofNat_of_zero_le (show 0 ≤ -q by omega)
    obtain rfl : q = -(n : Int) := by omega
    simp only [Int.neg_neg, Int.toNat_natCast]
    split
    -- the point stands between the digits
    case isTrue hlt =>
      have hsplit : digits.take (digits.length - n) ++ digits.drop (digits.length - n) = digits :=
        List.take_append_drop _ _
      have hwhole : AllDigits (digits.take (digits.length - n)) := by
        refine ⟨?_, fun c hc => h.digit c (List.mem_of_mem_take hc)⟩
        rw [Ne, List.take_eq_nil_iff]
        rintro (hzero | hnil)
        · omega
        · exact h.ne_nil hnil
      have hfraction : AllDigits (digits.drop (digits.length - n)) := by
        refine ⟨?_, fun c hc => h.digit c (List.mem_of_mem_drop hc)⟩
        rw [Ne, List.drop_eq_nil_iff]
        omega
      have hlength : (digits.drop (digits.length - n)).length = n := by
        rw [List.length_drop]
        omega
      refine ⟨_, _, hwhole, fun hzero hhead => ?_, by rw [hsplit, hlength], .inr ⟨hfraction, rfl⟩⟩
      have hd : digits.head? = some '0' := by
        rw [← hsplit, List.head?_append_of_ne_nil _ hwhole.ne_nil]
        exact hhead
      have := (hzero hd).2
      omega
    -- all digits stand behind the point, with zeros before them
    case isFalse hle =>
      have hlength : (List.replicate (n - digits.length) '0' ++ digits).length = n := by
        rw [List.length_append, List.length_replicate]
        omega
      have hvalue : digitsValue (['0'] ++ (List.replicate (n - digits.length) '0' ++ digits))
          = digitsValue digits := by
        rw [digitsValue_append, digitsValue_append, digitsValue_replicate_zero]
        have hfirst : digitsValue ['0'] = 0 := rfl
        simp [hfirst]
      refine ⟨['0'], List.replicate (n - digits.length) '0' ++ digits, allDigits_zero,
        fun _ _ => rfl, by rw [hvalue, hlength], .inr ⟨⟨by simp [h.ne_nil], fun c hc => ?_⟩, rfl⟩⟩
      rcases List.mem_append.mp hc with hc | hc
      · exact isDigit_of_mem_replicate hc
      · exact h.digit c hc

/-- Digits with their point. -/
theorem scansAs_inFull {digits : List Char} {q : Int} (h : AllDigits digits)
    (hzero : digits.head? = some '0' → digits = ['0'] ∧ q = 0) :
    ScansAs (Decimal.inFull ['.', '0'] digits q) (digitsValue digits * 10 ^ q) := by
  obtain ⟨whole, fraction, hwhole, hhead, hvalue, ⟨rfl, htext⟩ | ⟨hfraction, htext⟩⟩ :=
    inFull_parts h ['.', '0']
  · have hscan := scansAs_point hwhole (hhead hzero) allDigits_zero
    have hsame : (digitsValue (whole ++ ['0']) : ℚ) * 10 ^ (-((['0'] : List Char).length : Int))
        = digitsValue digits * 10 ^ q := by
      rw [← hvalue, digitsValue_append, List.append_nil]
      have hlast : digitsValue ['0'] = 0 := rfl
      simp [hlast]
    rwa [hsame, ← htext] at hscan
  · have hscan := scansAs_point hwhole (hhead hzero) hfraction
    rwa [hvalue, ← htext] at hscan

/-- **What is written for digits** is scanned as a number of their value. -/
theorem scansAs_writeDigits {d : Digits} (hd : 0 < d.coefficient ∨ d = ⟨0, 0⟩) :
    ScansAs (Decimal.Style.data.writeDigits d) d.value := by
  have hdigits := allDigits_toDigits d.coefficient
  have hvalue := digitsValue_toDigits d.coefficient
  unfold Decimal.Style.writeDigits Decimal.Digits.value
  simp only
  split
  case isTrue =>
    have hzero : (Nat.toDigits 10 d.coefficient).head? = some '0' →
        Nat.toDigits 10 d.coefficient = ['0'] ∧ d.exponent = 0 := by
      intro hhead
      rcases hd with hpos | rfl
      · exact absurd hhead (head_toDigits_ne_zero hpos)
      · exact ⟨rfl, rfl⟩
    have hscan := scansAs_inFull hdigits hzero
    rw [hvalue] at hscan
    exact hscan
  case isFalse =>
    obtain ⟨first, more, hcons⟩ := List.exists_cons_of_ne_nil hdigits.ne_nil
    rw [hcons] at hdigits hvalue ⊢
    have hscan := scansAs_exponent (d.exponent + (first :: more).length - 1) hdigits
    have hexponent : d.exponent + ((first :: more).length : Int) - 1 - (more.length : Int)
        = d.exponent := by
      rw [List.length_cons]
      omega
    rw [hvalue, hexponent] at hscan
    exact hscan

/-! ### Reading numbers -/

theorem startsNumber_toDigits (n : Nat) : StartsNumber (Nat.toDigits 10 n) := by
  have hstart := (allDigits_toDigits n).startsNumber []
  rwa [List.append_nil] at hstart

/-- **A natural number** that fits into a word is read back. -/
theorem readNumber_natural [NumberReader] {n : Nat} {rest : List Char} (hn : n < wordLimit)
    (hrest : EndsNumber rest) :
    readNumber (Nat.toDigits 10 n ++ rest) = .ok (.natural n, rest) := by
  have hzero : (Nat.toDigits 10 n).head? = some '0' → Nat.toDigits 10 n = ['0'] := by
    intro hhead
    rcases Nat.eq_zero_or_pos n with rfl | hpos
    · rfl
    · exact absurd hhead (head_toDigits_ne_zero hpos)
  have hscan : Scans (Nat.toDigits 10 n ++ rest) (Nat.toDigits 10 n) none none rest :=
    Scans.of_parts (allDigits_toDigits n) hzero hrest.digit
      (fun _ => scanFraction_none hrest.point)
      (fun _ => scanExponent_none hrest.exponent.1 hrest.exponent.2)
  unfold readNumber
  rw [hscan.unsigned, ok_bind]
  simp [Numeral.value, digitsValue_toDigits, hn]

/-- A number with a point or an exponent is the double that the reader takes for it. -/
theorem value_eq_toReal [NumberReader] {n : Numeral}
    (h : n.fraction?.isSome = true ∨ n.exponent?.isSome = true) :
    n.value = n.toReal := by
  have hwhole : (n.fraction?.isNone && n.exponent?.isNone) = false := by
    rw [Bool.and_eq_false_iff]
    rcases h with h | h
    · left
      rw [Option.isNone_eq_false_iff]
      exact h
    · right
      rw [Option.isNone_eq_false_iff]
      exact h
  simp [Numeral.value, hwhole]

/-- The digits that are written for a double. -/
def digitsOf (m : Nat) (e : Int) : Digits := if m = 0 then ⟨0, 0⟩ else Decimal.shortest .even m e

/-- A decimal that is near to a double gives the double, but for its sign. -/
theorem nearest_of_decode {x : Float} {negative : Bool} {m : Nat} {e : Int}
    (h : Decimal.decode x = .finite negative m e) {c : Nat} {q : Int} (hzero : m = 0 → c = 0)
    (hnear : 0 < m → Decimal.Near m e (c * 10 ^ q)) :
    (Decimal.nearest c q).isFinite = true
      ∧ (if negative then -Decimal.nearest c q else Decimal.nearest c q) = x := by
  rcases Nat.eq_zero_or_pos m with rfl | hpos
  · have hnearest : Decimal.nearest c q = 0 := by
      unfold Decimal.nearest
      simp [hzero rfl]
    rw [hnearest, Decimal.eq_zero h]
    exact ⟨by decide, rfl⟩
  · obtain ⟨hm, -⟩ := Decimal.word_of_decode h
    rw [Decimal.nearest_eq hm hpos (hnear hpos), Decimal.eq_assemble h hpos]
    refine ⟨Decimal.isFinite_assemble hm hpos, ?_⟩
    cases negative with
    | false => rfl
    | true => exact Decimal.neg_assemble hm hpos

/-- A decimal of the same value as the digits of a double gives the double, but for its sign. -/
theorem nearest_digitsOf {x : Float} {negative : Bool} {m : Nat} {e : Int}
    (h : Decimal.decode x = .finite negative m e) {c : Nat} {q : Int}
    (hvalue : (c : ℚ) * 10 ^ q = (digitsOf m e).value) :
    (Decimal.nearest c q).isFinite = true
      ∧ (if negative then -Decimal.nearest c q else Decimal.nearest c q) = x := by
  unfold digitsOf at hvalue
  refine nearest_of_decode h (fun hm => ?_) fun hpos => ?_
  · have hten := Decimal.zpow_ten_pos q
    rw [if_pos hm] at hvalue
    simpa [Decimal.Digits.value, hten.ne'] using hvalue
  · rw [hvalue, if_neg (Nat.ne_of_gt hpos)]
    exact Decimal.near_shortest .even e hpos

/-- The digits of a double are positive, but for 0. -/
theorem digitsOf_spec (m : Nat) (e : Int) :
    0 < (digitsOf m e).coefficient ∨ digitsOf m e = ⟨0, 0⟩ := by
  unfold digitsOf
  split
  case isTrue => exact .inr rfl
  case isFalse hm =>
    left
    have hpos : 0 < m := Nat.pos_of_ne_zero hm
    have hvalue := (Decimal.near_shortest .even e hpos).pos hpos
    rcases Nat.eq_zero_or_pos (Decimal.shortest .even m e).coefficient with hzero | hpos
    · simp [Decimal.Digits.value, hzero] at hvalue
    · exact hpos

theorem realText_of_decode {x : Float} {negative : Bool} {m : Nat} {e : Int}
    (h : Decimal.decode x = .finite negative m e) :
    realText x = if negative then '-' :: Decimal.Style.data.writeDigits (digitsOf m e)
      else Decimal.Style.data.writeDigits (digitsOf m e) := by
  unfold realText Decimal.dataText?
  rw [h]
  show (Decimal.Style.data.write negative m e).toList = _
  unfold Decimal.Style.write
  rw [String.toList_ofList]
  rfl

/-- What is no number is written as `null`. -/
theorem realText_of_not_isFinite {x : Float} (hx : x.isFinite = false) :
    realText x = "null".toList := by
  unfold realText Decimal.dataText?
  split
  case h_1 hdecode =>
    rw [Decimal.isFinite_of_decode hdecode] at hx
    contradiction
  all_goals rfl

/-- The text of a finite double starts as a number does. -/
theorem startsNumber_realText {x : Float} (hx : x.isFinite = true) : StartsNumber (realText x) := by
  obtain ⟨negative, m, e, hdecode⟩ := Decimal.exists_decode hx
  rw [realText_of_decode hdecode]
  cases negative with
  | true => exact ⟨'-', _, rfl, by decide⟩
  | false =>
    obtain ⟨whole, fraction?, exponent?, hscan, -, -⟩ := scansAs_writeDigits (digitsOf_spec m e)
    simpa using (hscan [] endsNumber_nil).starts

/-- **What is written for a finite double** is scanned as one numeral, whatever follows that is no
    part of a number.  The nearest double to the numeral is the one that was written. -/
theorem scanNumber_realText {x : Float} (hx : x.isFinite = true) :
    ∃ numeral : Numeral, (numeral.fraction?.isSome = true ∨ numeral.exponent?.isSome = true)
      ∧ (∀ atEnd rest, EndsNumber rest →
        scanNumber atEnd (realText x ++ rest) = .ok (numeral, rest))
      ∧ NumberReader.nearest.toFloat? numeral = some x := by
  obtain ⟨negative, m, e, hdecode⟩ := Decimal.exists_decode hx
  obtain ⟨whole, fraction?, exponent?, hscan, hsome, hvalue⟩ :=
    scansAs_writeDigits (digitsOf_spec m e)
  -- the decimal that is scanned has the value of the digits, so it gives the double
  obtain ⟨hfinite, heq⟩ := nearest_digitsOf hdecode hvalue
  refine ⟨⟨negative, whole, fraction?, exponent?⟩, hsome, fun atEnd rest hrest => ?_, ?_⟩
  · rw [realText_of_decode hdecode]
    cases negative with
    | false => exact (hscan rest hrest).unsigned atEnd
    | true => exact (hscan rest hrest).signed atEnd
  · exact (if_pos hfinite).trans (congrArg some heq)

/-- So a reader takes one double for it, wherever it stands. -/
theorem readNumber_realText [NumberReader] {x : Float} (hx : x.isFinite = true) :
    ∃ numeral : Numeral, NumberReader.nearest.toFloat? numeral = some x
      ∧ ∀ rest, EndsNumber rest → readNumber (realText x ++ rest)
        = numeral.toReal >>= fun number => .ok (number, rest) := by
  obtain ⟨numeral, hsome, hscan, hnearest⟩ := scanNumber_realText hx
  refine ⟨numeral, hnearest, fun rest hrest => ?_⟩
  rw [readNumber, hscan _ rest hrest, ok_bind, ← value_eq_toReal hsome]
  rfl

end SimplexTableau.Json
