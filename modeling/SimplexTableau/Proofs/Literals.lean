import SimplexTableau.CommandLine.Number
import SimplexTableau.Decimal.Style
import SimplexTableau.Proofs.Numerals

namespace SimplexTableau

/-!
# Lists of numbers as arguments

A list of numbers is cut at its commas, and each piece is read without the white space around it.
No literal has a comma or white space in it, so a list of literals is read back number by number,
whatever literals the numbers are written with.

* `Decimal.literalChar` — the characters of literals; `literalChar_of_ofText`: there are no others;
* `CommandLine.rowText` — a list of numbers with commas between them; `readRow_rowText`: it is read
  back;
* `Decimal.ofText_display` — a finite double is read back from the text it is shown as.
-/

namespace Decimal

/-! ### The characters of literals -/

/-- A letter, a digit, a sign or a point. -/
def literalChar (c : Char) : Bool := c.isAlphanum || c = '+' || c = '-' || c = '.'

theorem literalChar_of_isDigit {c : Char} (h : c.isDigit = true) : literalChar c = true := by
  simp [literalChar, Char.isAlphanum, h]

theorem toLower_eq_self {c : Char} (h : ¬ c.isUpper = true) : c.toLower = c := by
  unfold Char.toLower
  refine dif_neg fun hrange => h ?_
  simpa [Char.isUpper] using hrange

theorem literalChar_of_toLower {c : Char} (h : c.toLower.isLower = true) :
    literalChar c = true := by
  by_cases hupper : c.isUpper = true
  · simp [literalChar, Char.isAlphanum, Char.isAlpha, hupper]
  · rw [toLower_eq_self hupper] at h
    simp [literalChar, Char.isAlphanum, Char.isAlpha, h]

/-- No literal has a comma or white space in it. -/
theorem not_blank_of_literalChar {c : Char} (h : literalChar c = true) :
    c ≠ ',' ∧ Text.isBlank c = false := by
  have hrange : (65 ≤ c.toNat ∧ c.toNat ≤ 90 ∨ 97 ≤ c.toNat ∧ c.toNat ≤ 122
      ∨ 48 ≤ c.toNat ∧ c.toNat ≤ 57) ∨ c = '+' ∨ c = '-' ∨ c = '.' := by
    simpa [literalChar, Char.isAlphanum, Char.isAlpha, Char.isUpper, Char.isLower, Char.isDigit,
      UInt32.le_iff_toNat_le, or_assoc] using h
  rcases hrange with hrange | rfl | rfl | rfl
  · constructor
    · rintro rfl
      exact absurd hrange (by decide)
    · simp only [Text.isBlank, decide_eq_false_iff_not]
      omega
  all_goals decide

/-! ### Literals part by part -/

theorem forall_of_spanSign {text : List Char}
    (h : ∀ c ∈ (spanSign text).2, literalChar c = true) : ∀ c ∈ text, literalChar c = true := by
  unfold spanSign at h
  split at h
  · exact List.forall_mem_cons.mpr ⟨by decide, h⟩
  · exact List.forall_mem_cons.mpr ⟨by decide, h⟩
  · exact h

theorem forall_of_spanDigits {text : List Char}
    (h : ∀ c ∈ (spanDigits text).2, literalChar c = true) : ∀ c ∈ text, literalChar c = true := by
  unfold spanDigits at h
  rw [List.span_eq_takeWhile_dropWhile] at h
  rw [← List.takeWhile_append_dropWhile (p := Char.isDigit) (l := text)]
  refine List.forall_mem_append.mpr ⟨fun c hc => ?_, h⟩
  exact literalChar_of_isDigit (List.mem_takeWhile_imp hc)

theorem literalChar_of_exponentOf? {text : List Char} {n : Int} (h : exponentOf? text = some n) :
    ∀ c ∈ text, literalChar c = true := by
  cases text with
  | nil => exact nofun
  | cons mark rest =>
    simp only [exponentOf?] at h
    split at h
    case isTrue hform =>
      obtain ⟨hmark, -, hend⟩ := hform
      have hletter : literalChar mark = true := by
        rcases hmark with rfl | rfl
        · decide
        · decide
      refine List.forall_mem_cons.mpr ⟨hletter, forall_of_spanSign (forall_of_spanDigits ?_)⟩
      rw [hend]
      exact nofun
    case isFalse => exact absurd h nofun

theorem literalChar_of_ofDigits? {text : List Char} {x : Float} (h : ofDigits? text = some x) :
    ∀ c ∈ text, literalChar c = true := by
  refine forall_of_spanDigits ?_
  simp only [ofDigits?] at h
  split at h
  case h_1 rest hpoint =>
    -- what follows the point starts with more digits
    rw [hpoint]
    refine List.forall_mem_cons.mpr ⟨by decide, forall_of_spanDigits ?_⟩
    split at h
    · exact absurd h nofun
    · obtain ⟨exponent, hexponent, -⟩ := Option.map_eq_some_iff.mp h
      exact literalChar_of_exponentOf? hexponent
  case h_2 =>
    split at h
    · exact absurd h nofun
    · obtain ⟨exponent, hexponent, -⟩ := Option.map_eq_some_iff.mp h
      exact literalChar_of_exponentOf? hexponent

theorem literalChar_of_ofWord? {text : List Char} {x : Float} (h : ofWord? text = some x) :
    ∀ c ∈ text, literalChar c = true := by
  have hword : ∀ word : List Char, word.all Char.isLower = true → text.map Char.toLower = word →
      ∀ c ∈ text, literalChar c = true := by
    rintro word hlower rfl c hc
    exact literalChar_of_toLower (List.all_eq_true.mp hlower _ (List.mem_map_of_mem hc))
  simp only [ofWord?] at h
  split at h
  case isTrue hinf =>
    rcases hinf with hinf | hinf
    · exact hword _ (by decide) hinf
    · exact hword _ (by decide) hinf
  case isFalse =>
    split at h
    case isTrue hnan => exact hword _ (by decide) hnan
    case isFalse => exact absurd h nofun

/-- **The characters of a literal** are letters, digits, signs and points. -/
theorem literalChar_of_ofText {text : List Char} {x : Float} (h : ofText text = .ok x) :
    ∀ c ∈ text, literalChar c = true := by
  simp only [ofText] at h
  split at h
  · exact absurd h nofun
  · refine forall_of_spanSign ?_
    split at h
    case h_1 value hvalue =>
      rcases (Option.orElse_eq_some _ _ _).mp hvalue with hword | ⟨-, hdigits⟩
      · exact literalChar_of_ofWord? hword
      · exact literalChar_of_ofDigits? hdigits
    case h_2 => exact absurd h nofun

/-! ### Doubles as they are shown -/

open Json (AllDigits inFull_parts spanDigits_append endsDigits_cons)

/-- A text that starts with a digit is read as a decimal with the given value. -/
structure ReadsAs (text : List Char) (value : ℚ) : Prop where
  /-- It starts with a digit. -/
  starts : ∃ c rest, text = c :: rest ∧ c.isDigit = true
  /-- It is the literal of a decimal. -/
  reads : ∃ (c : Nat) (q : Int), ofDigits? text = some (nearest c q) ∧ (c : ℚ) * 10 ^ q = value

theorem starts_append {digits : List Char} (h : AllDigits digits) (more : List Char) :
    ∃ c rest, digits ++ more = c :: rest ∧ c.isDigit = true := by
  obtain ⟨c, rest, rfl⟩ := List.exists_cons_of_ne_nil h.ne_nil
  exact ⟨c, rest ++ more, rfl, h.digit c List.mem_cons_self⟩

theorem spanDigits_self {digits : List Char} (h : AllDigits digits) :
    spanDigits digits = (digits, []) := by
  have hend : Json.EndsDigits [] := nofun
  simpa using spanDigits_append h.digit hend

/-- Digits alone. -/
theorem ReadsAs.of_whole {whole : List Char} (h : AllDigits whole) :
    ReadsAs whole (digitsValue whole) := by
  have hspan := spanDigits_self h
  refine ⟨by simpa using starts_append h [], digitsValue whole, 0, ?_, by simp⟩
  simp [ofDigits?, hspan, h.ne_nil, exponentOf?]

/-- Digits, a point and more digits. -/
theorem ReadsAs.of_point {whole fraction : List Char} (hwhole : AllDigits whole)
    (hfraction : AllDigits fraction) :
    ReadsAs (whole ++ '.' :: fraction)
      (digitsValue (whole ++ fraction) * 10 ^ (-(fraction.length : Int))) := by
  have hspan : spanDigits (whole ++ '.' :: fraction) = (whole, '.' :: fraction) :=
    spanDigits_append hwhole.digit (endsDigits_cons (by decide))
  have hmore := spanDigits_self hfraction
  refine ⟨starts_append hwhole _, digitsValue (whole ++ fraction), -(fraction.length : Int), ?_,
    rfl⟩
  simp [ofDigits?, hspan, hmore, hwhole.ne_nil, exponentOf?]

/-- Digits in full are read as their value. -/
theorem readsAs_inFull {digits : List Char} (h : AllDigits digits) (q : Int) :
    ReadsAs (inFull [] digits q) (digitsValue digits * 10 ^ q) := by
  obtain ⟨whole, fraction, hwhole, -, hvalue, ⟨rfl, htext⟩ | ⟨hfraction, htext⟩⟩ :=
    inFull_parts (q := q) h []
  · rw [htext, ← hvalue]
    simpa using ReadsAs.of_whole hwhole
  · rw [htext, ← hvalue]
    exact .of_point hwhole hfraction

/-- What starts with a digit is no word. -/
theorem ofWord?_of_isDigit {c : Char} (hc : c.isDigit = true) (rest : List Char) :
    ofWord? (c :: rest) = none := by
  have hupper : ¬ c.isUpper = true := by
    simp [Char.isUpper, Char.isDigit, UInt32.le_iff_toNat_le] at hc ⊢
    omega
  have hi : c ≠ 'i' := by
    rintro rfl
    exact absurd hc (by decide)
  have hn : c ≠ 'n' := by
    rintro rfl
    exact absurd hc (by decide)
  simp [ofWord?, toLower_eq_self hupper, hi, hn]

/-- With a sign in front or without, the decimal is read. -/
theorem ReadsAs.ofText_eq {text : List Char} {value : ℚ} (h : ReadsAs text value) :
    ∃ (c : Nat) (q : Int), (c : ℚ) * 10 ^ q = value ∧ ofText text = .ok (nearest c q)
      ∧ ofText ('-' :: text) = .ok (-nearest c q) := by
  obtain ⟨⟨first, rest, rfl, hfirst⟩, c, q, hread, hvalue⟩ := h
  have hsign : spanSign (first :: rest) = (false, first :: rest) := by
    unfold spanSign
    split
    · next heq => exact absurd ((List.cons.inj heq).1 ▸ hfirst) (by decide)
    · next heq => exact absurd ((List.cons.inj heq).1 ▸ hfirst) (by decide)
    · rfl
  have hword := ofWord?_of_isDigit hfirst rest
  refine ⟨c, q, hvalue, ?_, ?_⟩
  · simp [ofText, hsign, hword, hread]
  · simp [ofText, spanSign, hword, hread]

/-- **A finite double** is read back from the text it is shown as. -/
theorem ofText_display {x : Float} (hx : x.isFinite = true) :
    ofText (display x).toList = .ok x := by
  obtain ⟨negative, m, e, hdecode⟩ := exists_decode hx
  obtain ⟨d, hd⟩ : ∃ d : Digits, (if m = 0 then ⟨0, 0⟩ else shortest .up m e) = d := ⟨_, rfl⟩
  have htext : (display x).toList
      = if negative then '-' :: inFull [] (Nat.toDigits 10 d.coefficient) d.exponent
        else inFull [] (Nat.toDigits 10 d.coefficient) d.exponent := by
    simp only [display, hdecode, Style.write, String.toList_ofList]
    subst hd
    rfl
  have hreads := readsAs_inFull (Json.allDigits_toDigits d.coefficient) d.exponent
  rw [Json.digitsValue_toDigits] at hreads
  obtain ⟨c, q, hvalue, hplain, hsigned⟩ := hreads.ofText_eq
  -- the decimal that is read is near to the double, as its digits are
  obtain ⟨-, heq⟩ : _ ∧ (if negative then -nearest c q else nearest c q) = x := by
    refine Json.nearest_of_decode hdecode (fun hm => ?_) fun hpos => ?_
    · rw [if_pos hm] at hd
      rw [← hd] at hvalue
      simpa [(zpow_ten_pos q).ne'] using hvalue
    · rw [if_neg (Nat.ne_of_gt hpos)] at hd
      rw [hvalue, ← hd]
      exact near_shortest .up e hpos
  rw [htext]
  cases negative with
  | true => exact hsigned.trans (congrArg Except.ok heq)
  | false => exact hplain.trans (congrArg Except.ok heq)

end Decimal

namespace CommandLine

open Decimal

/-! ### Lists of numbers -/

/-- A piece without white space at its ends is read as it stands. -/
theorem trim_eq_self {text : List Char} (h : ∀ c ∈ text, Text.isBlank c = false) :
    Text.trim text = text := by
  have hdrop : ∀ text : List Char, (∀ c ∈ text, Text.isBlank c = false) →
      text.dropWhile Text.isBlank = text := by
    intro text h
    cases text with
    | nil => rfl
    | cons c rest => simp [h c List.mem_cons_self]
  rw [Text.trim, hdrop text h, hdrop _ fun c hc => h c (List.mem_reverse.mp hc),
    List.reverse_reverse]

theorem readPiece_literal {text : List Char} {x : Float} (h : ofText text = .ok x) :
    readPiece text = .ok x := by
  have hblank : ∀ c ∈ text, Text.isBlank c = false :=
    fun c hc => (not_blank_of_literalChar (literalChar_of_ofText h c hc)).2
  simp only [readPiece, trim_eq_self hblank, h]

theorem pieces_of_no_comma {text : List Char} (h : ',' ∉ text) : pieces text = [text] := by
  induction text with
  | nil => rfl
  | cons c rest ih =>
    have hc : c ≠ ',' := fun heq => h (heq ▸ List.mem_cons_self)
    rw [pieces, if_neg hc, ih fun hmem => h (List.mem_cons_of_mem _ hmem)]
    rfl

theorem pieces_append {first : List Char} (h : ',' ∉ first) (rest : List Char) :
    pieces (first ++ ',' :: rest) = first :: pieces rest := by
  induction first with
  | nil => rfl
  | cons c first ih =>
    have hc : c ≠ ',' := fun heq => h (heq ▸ List.mem_cons_self)
    rw [List.cons_append, pieces, if_neg hc, ih fun hmem => h (List.mem_cons_of_mem _ hmem)]
    rfl

/-- A list is cut at its commas. -/
theorem pieces_intercalate {texts : List (List Char)} (hne : texts ≠ [])
    (h : ∀ text ∈ texts, ',' ∉ text) : pieces ([','].intercalate texts) = texts := by
  induction texts with
  | nil => exact absurd rfl hne
  | cons first rest ih =>
    obtain ⟨hfirst, hrest⟩ := List.forall_mem_cons.mp h
    cases rest with
    | nil => simpa using pieces_of_no_comma hfirst
    | cons second rest =>
      rw [List.intercalate_cons_cons, List.append_assoc, List.singleton_append,
        pieces_append hfirst, ih nofun hrest]

/-- A list of numbers, written one by one with commas between them. -/
def rowText (literal : Float → String) (row : List Float) : String :=
  ",".intercalate (row.map literal)

theorem readRow_rowText {literal : Float → String} {row : List Float} (hne : row ≠ [])
    (h : ∀ x ∈ row, ofText (literal x).toList = .ok x) :
    readRow (rowText literal row) = .ok row := by
  have hpieces : pieces (rowText literal row).toList = row.map fun x => (literal x).toList := by
    rw [rowText, String.toList_intercalate, List.map_map]
    refine pieces_intercalate (by simpa using hne) fun text htext => ?_
    obtain ⟨x, hx, rfl⟩ := List.mem_map.mp htext
    exact fun hcomma => (not_blank_of_literalChar (literalChar_of_ofText (h x hx) ',' hcomma)).1 rfl
  rw [readRow, hpieces, List.mapM_map]
  have hread := mapM_eq_ok (g := id) fun x hx => readPiece_literal (h x hx)
  rw [List.map_id] at hread
  exact hread

end CommandLine

end SimplexTableau
