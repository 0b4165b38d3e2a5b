import SimplexTableau.Proofs.Literals

namespace SimplexTableau

/-!
# What a list of numbers can be

Every text has a reading as a list: it is cut at its commas, and the white space around the pieces
is left out.  It is accepted exactly if each piece is a literal, so no piece is dropped or joined to
another one, and else the first piece that is no literal is named.

* `Decimal.IsLiteral` — the form of literals; `exists_ofText_iff`: these are read, and no others;
* `CommandLine.Trims` — what is left of a piece without white space at its ends; `trims_iff`: one
  text is;
* `CommandLine.CutsInto` — the pieces of a text; `cutsInto_iff`: every text has one list of them,
  and `length_pieces`: one more than commas;
* `readRow_eq_ok_iff`, `readRow_eq_error_iff` — which lists are read, and what is said of others;
* `Decimal.ofText_display_of_defined` — every double but what an undefined operation gives is read
  back from the text it is shown as;
* `CommandLine.readRow_exact` — all of this, and the lists that are read back.
-/

namespace Decimal

open Json (AllDigits EndsDigits spanDigits_append endsDigits_cons)

/-! ### The form of literals -/

/-- Nothing, or one sign. -/
def IsSign (text : List Char) : Prop := text = [] ∨ text = ['+'] ∨ text = ['-']

/-- Nothing, or a mark with a power of ten after it. -/
inductive IsExponent : List Char → Prop
  | absent : IsExponent []
  | marked {mark : Char} {sign digits : List Char} : mark = 'e' ∨ mark = 'E' → IsSign sign →
    AllDigits digits → IsExponent (mark :: (sign ++ digits))

/-- A literal without a sign: a word in any case, digits, or digits with a point among them, of
    which one at least is a digit. -/
inductive IsUnsigned : List Char → Prop
  | word {text : List Char} :
    text.map Char.toLower ∈ ["inf".toList, "infinity".toList, "nan".toList] → IsUnsigned text
  | whole {digits exponent : List Char} : AllDigits digits → IsExponent exponent →
    IsUnsigned (digits ++ exponent)
  | point {whole fraction exponent : List Char} : AllDigits (whole ++ fraction) →
    IsExponent exponent → IsUnsigned (whole ++ '.' :: (fraction ++ exponent))

/-- A literal of a double. -/
def IsLiteral (text : List Char) : Prop :=
  ∃ sign rest, text = sign ++ rest ∧ IsSign sign ∧ IsUnsigned rest

/-! ### Scanning the parts -/

theorem exists_spanSign (text : List Char) :
    ∃ sign, IsSign sign ∧ text = sign ++ (spanSign text).2 := by
  unfold spanSign
  split
  · exact ⟨['-'], .inr (.inr rfl), rfl⟩
  · exact ⟨['+'], .inr (.inl rfl), rfl⟩
  · exact ⟨[], .inl rfl, rfl⟩

/-- The text does not start with a sign. -/
def StartsUnsigned (text : List Char) : Prop := text.head? ≠ some '+' ∧ text.head? ≠ some '-'

/-- What does not start with a sign is left after an optional sign. -/
theorem StartsUnsigned.spanSign_append {rest : List Char} (h : StartsUnsigned rest)
    {sign : List Char} (hsign : IsSign sign) : (spanSign (sign ++ rest)).2 = rest := by
  rcases hsign with rfl | rfl | rfl
  · rw [List.nil_append]
    unfold spanSign
    split
    · exact absurd rfl h.2
    · exact absurd rfl h.1
    · rfl
  · rfl
  · rfl

theorem exists_spanDigits (text : List Char) :
    (∀ c ∈ (spanDigits text).1, c.isDigit = true)
      ∧ text = (spanDigits text).1 ++ (spanDigits text).2 := by
  unfold spanDigits
  rw [List.span_eq_takeWhile_dropWhile]
  exact ⟨fun c hc => List.mem_takeWhile_imp hc, List.takeWhile_append_dropWhile.symm⟩

theorem startsUnsigned_digits {digits : List Char} (h : AllDigits digits) (more : List Char) :
    StartsUnsigned (digits ++ more) := by
  obtain ⟨first, rest, heq, hdigit⟩ := starts_append h more
  rw [heq]
  constructor
  · intro hsign
    obtain rfl := Option.some.inj hsign
    exact absurd hdigit (by decide)
  · intro hsign
    obtain rfl := Option.some.inj hsign
    exact absurd hdigit (by decide)

/-- An exponent starts with its mark. -/
theorem IsExponent.ends {text : List Char} (h : IsExponent text) :
    EndsDigits text ∧ text.head? ≠ some '.' := by
  cases h with
  | absent => exact ⟨nofun, nofun⟩
  | marked hmark hsign hdigits =>
    rcases hmark with rfl | rfl
    · exact ⟨endsDigits_cons (by decide), by simp⟩
    · exact ⟨endsDigits_cons (by decide), by simp⟩

theorem isSome_exponentOf?_iff {text : List Char} :
    (exponentOf? text).isSome = true ↔ IsExponent text := by
  constructor
  · intro h
    cases text with
    | nil => exact .absent
    | cons mark rest =>
      simp only [exponentOf?] at h
      split at h
      case isTrue hform =>
        obtain ⟨hmark, hne, hend⟩ := hform
        obtain ⟨sign, hsign, hrest⟩ := exists_spanSign rest
        obtain ⟨hdigits, hsplit⟩ := exists_spanDigits (spanSign rest).2
        rw [hend, List.append_nil] at hsplit
        rw [hrest, hsplit]
        exact .marked hmark hsign ⟨hne, hdigits⟩
      case isFalse => exact absurd h Bool.false_ne_true
  · intro h
    cases h with
    | absent => rfl
    | marked hmark hsign hdigits =>
      have hunsigned := startsUnsigned_digits hdigits []
      rw [List.append_nil] at hunsigned
      simp [exponentOf?, hunsigned.spanSign_append hsign, spanDigits_self hdigits, hmark,
        hdigits.ne_nil]

theorem isSome_ofWord?_iff {text : List Char} : (ofWord? text).isSome = true
    ↔ text.map Char.toLower ∈ ["inf".toList, "infinity".toList, "nan".toList] := by
  rw [List.mem_cons, List.mem_cons, List.mem_singleton, ← or_assoc]
  simp only [ofWord?]
  split
  case isTrue h => exact iff_of_true rfl (.inl h)
  case isFalse h =>
    split
    case isTrue hnan => exact iff_of_true rfl (.inr hnan)
    case isFalse hnan => exact iff_of_false Bool.false_ne_true (not_or.mpr ⟨h, hnan⟩)

/-- Digits are read with or without a point among them. -/
theorem isSome_ofDigits?_iff {text : List Char} : (ofDigits? text).isSome = true
    ↔ (∃ digits exponent, text = digits ++ exponent ∧ AllDigits digits ∧ IsExponent exponent)
      ∨ ∃ whole fraction exponent, text = whole ++ '.' :: (fraction ++ exponent)
        ∧ AllDigits (whole ++ fraction) ∧ IsExponent exponent := by
  constructor
  · intro h
    obtain ⟨hwhole, hsplit⟩ := exists_spanDigits text
    simp only [ofDigits?] at h
    split at h
    case h_1 rest hpoint =>
      obtain ⟨hfraction, hrest⟩ := exists_spanDigits rest
      split at h
      · exact absurd h Bool.false_ne_true
      · rename_i hdigit
        refine .inr ⟨_, _, _, hsplit.trans (by rw [hpoint, ← hrest]), ⟨?_, ?_⟩,
          isSome_exponentOf?_iff.mp (by simpa using h)⟩
        · simpa using hdigit
        · exact List.forall_mem_append.mpr ⟨hwhole, hfraction⟩
    case h_2 =>
      split at h
      · exact absurd h Bool.false_ne_true
      · rename_i hdigit
        refine .inl ⟨_, _, hsplit, ⟨?_, hwhole⟩, isSome_exponentOf?_iff.mp (by simpa using h)⟩
        simpa using hdigit
  · rintro (⟨digits, exponent, rfl, hdigits, hexponent⟩
      | ⟨whole, fraction, exponent, rfl, hdigits, hexponent⟩)
    · obtain ⟨hends, hpoint⟩ := hexponent.ends
      have hspan := spanDigits_append hdigits.digit hends
      have hsome := isSome_exponentOf?_iff.mpr hexponent
      simp only [ofDigits?, hspan]
      split
      · exact absurd rfl hpoint
      · simpa [hdigits.ne_nil] using hsome
    · have hspan : spanDigits (whole ++ '.' :: (fraction ++ exponent))
          = (whole, '.' :: (fraction ++ exponent)) :=
        spanDigits_append (List.forall_mem_append.mp hdigits.digit).1 (endsDigits_cons (by decide))
      have hmore := spanDigits_append (List.forall_mem_append.mp hdigits.digit).2 hexponent.ends.1
      have hsome := isSome_exponentOf?_iff.mpr hexponent
      have hne := hdigits.ne_nil
      simpa [ofDigits?, hspan, hmore, List.append_eq_nil_iff.not.mp hne] using hsome

theorem isSome_unsigned_iff {text : List Char} :
    (ofWord? text <|> ofDigits? text).isSome = true ↔ IsUnsigned text := by
  have heither : (ofWord? text <|> ofDigits? text).isSome
      = ((ofWord? text).isSome || (ofDigits? text).isSome) := by
    cases ofWord? text <;> rfl
  rw [heither, Bool.or_eq_true, isSome_ofWord?_iff, isSome_ofDigits?_iff]
  constructor
  · rintro (hword | ⟨digits, exponent, rfl, hdigits, hexponent⟩
      | ⟨whole, fraction, exponent, rfl, hdigits, hexponent⟩)
    · exact .word hword
    · exact .whole hdigits hexponent
    · exact .point hdigits hexponent
  · intro h
    cases h with
    | word hword => exact .inl hword
    | whole hdigits hexponent => exact .inr (.inl ⟨_, _, rfl, hdigits, hexponent⟩)
    | point hdigits hexponent => exact .inr (.inr ⟨_, _, _, rfl, hdigits, hexponent⟩)

/-- A sign is not part of an unsigned literal. -/
theorem IsUnsigned.startsUnsigned {text : List Char} (h : IsUnsigned text) :
    StartsUnsigned text := by
  cases h with
  | word hword =>
    constructor
    · intro hsign
      obtain ⟨rest, rfl⟩ := List.head?_eq_some_iff.mp hsign
      simp at hword
    · intro hsign
      obtain ⟨rest, rfl⟩ := List.head?_eq_some_iff.mp hsign
      simp at hword
  | whole hdigits hexponent => exact startsUnsigned_digits hdigits _
  | @point whole fraction exponent hdigits hexponent =>
    cases whole with
    | nil => exact ⟨by simp, by simp⟩
    | cons first rest =>
      have hwhole := (List.forall_mem_append.mp hdigits.digit).1
      exact startsUnsigned_digits ⟨List.cons_ne_nil _ _, hwhole⟩ _

theorem isLiteral_iff {text : List Char} : IsLiteral text ↔ IsUnsigned (spanSign text).2 := by
  constructor
  · rintro ⟨sign, rest, rfl, hsign, hrest⟩
    rwa [hrest.startsUnsigned.spanSign_append hsign]
  · intro h
    obtain ⟨sign, hsign, htext⟩ := exists_spanSign text
    exact ⟨sign, _, htext, hsign, h⟩

/-- **Literals** are read, and no other texts. -/
theorem exists_ofText_iff {text : List Char} : (∃ x, ofText text = .ok x) ↔ IsLiteral text := by
  rw [isLiteral_iff, ← isSome_unsigned_iff]
  unfold ofText
  split
  case isTrue h =>
    subst h
    exact iff_of_false nofun (by decide)
  case isFalse h =>
    simp only
    cases ofWord? (spanSign text).2 <|> ofDigits? (spanSign text).2 with
    | some x => exact iff_of_true ⟨_, rfl⟩ rfl
    | none => exact iff_of_false nofun nofun

/-- The reason for refusing a text says whether it is empty. -/
theorem ofText_eq_error_iff {text : List Char} {error : LiteralError} :
    ofText text = .error error
      ↔ ¬ IsLiteral text ∧ error = if text = [] then .empty else .invalid := by
  rw [← exists_ofText_iff]
  unfold ofText
  split
  case isTrue h => simp [eq_comm]
  case isFalse h =>
    simp only
    cases ofWord? (spanSign text).2 <|> ofDigits? (spanSign text).2 with
    | some x => simp
    | none => simp [eq_comm]

/-! ### Doubles that are shown -/

open Float.Model (Format)
open Float.Model.UnpackedFloat (pack pack_unpack_of_valid)

/-- A double that is neither a number nor what an undefined operation gives is an infinity. -/
theorem eq_infinity {x : Float} (hdefined : x.isNaN = false) (hinfinite : x.isFinite = false) :
    x = 1 / 0 ∨ x = -(1 / 0) := by
  have hpack : x = .ofModel (.pack x.toModel.unpack) :=
    eq_ofModel_pack (congrArg BitVec.toNat (pack_unpack_of_valid x.toModel.valid)).symm
  have hnan : x.toModel.unpack.isNaN = false := hdefined
  have hfinite : x.toModel.unpack.isFinite = false := hinfinite
  generalize x.toModel.unpack = u at hpack hnan hfinite
  subst hpack
  cases u with
  | infinity sign =>
    cases sign
    · exact .inr (by decide +kernel)
    · exact .inl (by decide +kernel)
  | notANumber => exact absurd hnan nofun
  | zero sign => exact absurd hfinite nofun
  | finite sign m e hm => exact absurd hfinite nofun

/-- **Every double but an undefined one** is read back from the text it is shown as. -/
theorem ofText_display_of_defined {x : Float} (h : x.isNaN = false) :
    ofText (display x).toList = .ok x := by
  cases hfinite : x.isFinite with
  | true => exact ofText_display hfinite
  | false =>
    rcases eq_infinity h hfinite with rfl | rfl
    · decide +kernel
    · decide +kernel

end Decimal

namespace CommandLine

open Decimal

/-! ### Pieces without their white space -/

/-- `core` is `piece` without the white space at its ends. -/
structure Trims (piece core : List Char) : Prop where
  /-- Only white space is left out. -/
  padding : ∃ before after, piece = before ++ core ++ after
    ∧ ∀ c ∈ before ++ after, Text.isBlank c = true
  /-- What is left does not start with white space. -/
  head : ∀ c ∈ core.head?, Text.isBlank c = false
  /-- It does not end with white space. -/
  last : ∀ c ∈ core.getLast?, Text.isBlank c = false

theorem exists_dropWhile_isBlank (text : List Char) :
    ∃ blanks, text = blanks ++ text.dropWhile Text.isBlank
      ∧ ∀ c ∈ blanks, Text.isBlank c = true :=
  ⟨_, List.takeWhile_append_dropWhile.symm, fun _ hc => List.mem_takeWhile_imp hc⟩

theorem head?_dropWhile_isBlank (text : List Char) :
    ∀ c ∈ (text.dropWhile Text.isBlank).head?, Text.isBlank c = false := by
  intro c hc
  have h := List.head?_dropWhile_not Text.isBlank text
  rwa [hc] at h

theorem dropWhile_isBlank_append {blanks text : List Char}
    (hblanks : ∀ c ∈ blanks, Text.isBlank c = true)
    (htext : ∀ c ∈ text.head?, Text.isBlank c = false) :
    (blanks ++ text).dropWhile Text.isBlank = text := by
  rw [List.dropWhile_append_of_pos hblanks]
  cases text with
  | nil => rfl
  | cons c rest => simp [htext c rfl]

/-- **Every piece** has exactly one text without white space at its ends. -/
theorem trims_iff {piece core : List Char} : Trims piece core ↔ Text.trim piece = core := by
  constructor
  · rintro ⟨⟨before, after, rfl, hblank⟩, hhead, hlast⟩
    obtain ⟨hbefore, hafter⟩ := List.forall_mem_append.mp hblank
    cases core with
    | nil =>
      -- a piece of white space alone: nothing is left for the second end
      have hall : (before ++ [] ++ after).dropWhile Text.isBlank = [] := by
        rw [List.append_nil, List.dropWhile_eq_nil_iff]
        exact hblank
      rw [Text.trim, hall]
      rfl
    | cons first rest =>
      have hfirst : (before ++ (first :: rest) ++ after).dropWhile Text.isBlank
          = first :: rest ++ after := by
        rw [List.append_assoc]
        exact dropWhile_isBlank_append hbefore hhead
      have hreverse : ∀ c ∈ (first :: rest).reverse.head?, Text.isBlank c = false := by
        rw [List.head?_reverse]
        exact hlast
      rw [Text.trim, hfirst, List.reverse_append, dropWhile_isBlank_append
        (fun c hc => hafter c (List.mem_reverse.mp hc)) hreverse, List.reverse_reverse]
  · rintro rfl
    obtain ⟨before, hbefore, hblankBefore⟩ := exists_dropWhile_isBlank piece
    obtain ⟨after, hafter, hblankAfter⟩ :=
      exists_dropWhile_isBlank (piece.dropWhile Text.isBlank).reverse
    have hmiddle : piece.dropWhile Text.isBlank = Text.trim piece ++ after.reverse := by
      rw [Text.trim, ← List.reverse_append, ← hafter, List.reverse_reverse]
    refine ⟨⟨before, after.reverse, ?_, ?_⟩, fun c hc => ?_, fun c hc => ?_⟩
    · rw [List.append_assoc, ← hmiddle, ← hbefore]
    · exact List.forall_mem_append.mpr
        ⟨hblankBefore, fun c hc => hblankAfter c (List.mem_reverse.mp hc)⟩
    · refine head?_dropWhile_isBlank piece c ?_
      rw [hmiddle]
      exact List.mem_head?_append_of_mem_head? hc
    · refine head?_dropWhile_isBlank (piece.dropWhile Text.isBlank).reverse c ?_
      rw [← List.getLast?_reverse]
      exact hc

/-! ### Pieces of a text -/

/-- Between its commas `text` has the pieces `cores`, without the white space around them. -/
def CutsInto (text : List Char) (cores : List (List Char)) : Prop :=
  ∃ parts, parts ≠ [] ∧ (∀ part ∈ parts, ',' ∉ part) ∧ [','].intercalate parts = text
    ∧ List.Forall₂ Trims parts cores

theorem pieces_ne_nil (text : List Char) : pieces text ≠ [] := by
  cases text with
  | nil => exact List.cons_ne_nil _ _
  | cons c rest =>
    rw [pieces]
    split <;> exact List.cons_ne_nil _ _

/-- **Cutting** a text gives one piece more than it has commas. -/
theorem length_pieces (text : List Char) : (pieces text).length = text.count ',' + 1 := by
  induction text with
  | nil => rfl
  | cons c rest ih =>
    rw [pieces]
    split
    case isTrue hc =>
      rw [hc, List.length_cons, ih, List.count_cons_self]
    case isFalse hc =>
      rw [List.length_cons, List.length_tail, ih, List.count_cons_of_ne hc]
      rfl

theorem comma_notMem_pieces (text : List Char) : ∀ piece ∈ pieces text, ',' ∉ piece := by
  induction text with
  | nil => simp [pieces]
  | cons c rest ih =>
    rw [pieces]
    obtain ⟨first, others, hpieces⟩ := List.exists_cons_of_ne_nil (pieces_ne_nil rest)
    rw [hpieces] at ih ⊢
    split
    case isTrue => exact List.forall_mem_cons.mpr ⟨List.not_mem_nil, ih⟩
    case isFalse hc =>
      obtain ⟨hfirst, hothers⟩ := List.forall_mem_cons.mp ih
      refine List.forall_mem_cons.mpr ⟨fun hmem => ?_, hothers⟩
      rcases List.mem_cons.mp hmem with heq | hmem
      · exact hc heq.symm
      · exact hfirst hmem

/-- The pieces with commas between them are the text. -/
theorem intercalate_pieces (text : List Char) : [','].intercalate (pieces text) = text := by
  induction text with
  | nil => rfl
  | cons c rest ih =>
    rw [pieces]
    obtain ⟨first, others, hpieces⟩ := List.exists_cons_of_ne_nil (pieces_ne_nil rest)
    rw [hpieces] at ih ⊢
    split
    case isTrue hc =>
      rw [List.intercalate_cons_cons, ih, hc]
      rfl
    case isFalse =>
      have hfirst : [','].intercalate ((c :: first) :: others)
          = c :: [','].intercalate (first :: others) := by
        cases others <;> simp
      rw [← ih]
      exact hfirst

/-- **Every text** has exactly one list of pieces. -/
theorem cutsInto_iff {text : List Char} {cores : List (List Char)} :
    CutsInto text cores ↔ cores = (pieces text).map Text.trim := by
  have htrims : ∀ parts, List.Forall₂ Trims parts cores ↔ cores = parts.map Text.trim := by
    intro parts
    have hrelation : Trims = fun piece core => Text.trim piece = core := by
      funext piece core
      exact propext trims_iff
    rw [hrelation, ← List.forall₂_map_left_iff (R := Eq), List.forall₂_eq_eq_eq, eq_comm]
  constructor
  · rintro ⟨parts, hne, hcomma, rfl, hcores⟩
    rw [pieces_intercalate hne hcomma]
    exact (htrims parts).mp hcores
  · intro hcores
    exact ⟨pieces text, pieces_ne_nil text, comma_notMem_pieces text, intercalate_pieces text,
      (htrims _).mpr hcores⟩

/-! ### Lists that are read -/

section Checked

variable {ε α β : Type} {f : α → Except ε β} {l : List α}

/-- A list is read if each element is, and its results are theirs in turn. -/
theorem mapM_eq_ok_iff {bs : List β} :
    l.mapM f = .ok bs ↔ List.Forall₂ (fun a b => f a = .ok b) l bs := by
  induction l generalizing bs with
  | nil => simp [eq_comm]
  | cons a rest ih =>
    rw [List.mapM_cons, List.forall₂_cons_left_iff]
    constructor
    · intro h
      obtain ⟨b, hb, h⟩ := bind_eq_ok_iff.mp h
      obtain ⟨others, hothers, h⟩ := bind_eq_ok_iff.mp h
      exact ⟨b, others, hb, ih.mp hothers, (Except.ok.inj h).symm⟩
    · rintro ⟨b, others, hb, hothers, rfl⟩
      rw [hb, ok_bind, ih.mpr hothers]
      rfl

/-- A list is refused for the first element that is refused. -/
theorem mapM_eq_error_iff {e : ε} : l.mapM f = .error e
    ↔ ∃ before a after, l = before ++ a :: after ∧ (∀ b ∈ before, ∃ y, f b = .ok y)
      ∧ f a = .error e := by
  induction l with
  | nil => exact iff_of_false nofun (by rintro ⟨before, a, after, h, -⟩; simp at h)
  | cons first rest ih =>
    rw [List.mapM_cons]
    constructor
    · intro h
      cases hfirst : f first with
      | error e' =>
        rw [hfirst, error_bind] at h
        obtain rfl := Except.error.inj h
        exact ⟨[], first, rest, rfl, nofun, hfirst⟩
      | ok y =>
        rw [hfirst, ok_bind] at h
        cases hrest : rest.mapM f with
        | ok ys =>
          rw [hrest] at h
          exact absurd h nofun
        | error e' =>
          rw [hrest, error_bind] at h
          obtain ⟨before, a, after, rfl, hbefore, ha⟩ := ih.mp (hrest.trans h)
          exact ⟨first :: before, a, after, rfl,
            List.forall_mem_cons.mpr ⟨⟨y, hfirst⟩, hbefore⟩, ha⟩
    · rintro ⟨before, a, after, heq, hbefore, ha⟩
      cases before with
      | nil =>
        obtain ⟨rfl, rfl⟩ := List.cons.inj heq
        rw [ha, error_bind]
      | cons b before =>
        obtain ⟨rfl, rfl⟩ := List.cons.inj heq
        obtain ⟨⟨y, hy⟩, hbefore⟩ := List.forall_mem_cons.mp hbefore
        rw [hy, ok_bind, ih.mpr ⟨before, a, after, rfl, hbefore, ha⟩, error_bind]

end Checked

/-- The number that a piece without white space at its ends stands for. -/
def readCore (core : List Char) : Except String Float :=
  match ofText core with
  | .ok x => .ok x
  | .error error => .error (numberReason core error)

/-- What is said of a piece that is no literal. -/
def refusal (core : List Char) : String :=
  "invalid number '" ++ String.ofList core ++ "': "
    ++ if core = [] then "cannot parse float from empty string" else "invalid float literal"

theorem readCore_eq_ok_iff {core : List Char} {x : Float} :
    readCore core = .ok x ↔ ofText core = .ok x := by
  unfold readCore
  cases ofText core <;> simp

theorem readCore_eq_error_iff {core : List Char} {message : String} :
    readCore core = .error message ↔ ¬ IsLiteral core ∧ message = refusal core := by
  unfold readCore
  cases hread : ofText core with
  | ok x => simp [exists_ofText_iff.mp ⟨x, hread⟩]
  | error error =>
    obtain ⟨hliteral, rfl⟩ := ofText_eq_error_iff.mp hread
    have hmessage : numberReason core (if core = [] then .empty else .invalid) = refusal core := by
      unfold numberReason refusal
      split <;> rfl
    simp [hliteral, hmessage, eq_comm]

section Cut

variable {text : String} {cores : List (List Char)}

theorem CutsInto.readRow_eq (h : CutsInto text.toList cores) :
    readRow text = cores.mapM readCore := by
  rw [cutsInto_iff.mp h, List.mapM_map]
  rfl

/-- **A list is read** if every piece is a literal, number by number. -/
theorem CutsInto.readRow_eq_ok_iff (h : CutsInto text.toList cores) {row : List Float} :
    readRow text = .ok row ↔ List.Forall₂ (fun core x => ofText core = .ok x) cores row := by
  simp only [h.readRow_eq, mapM_eq_ok_iff, readCore_eq_ok_iff]

/-- **A list is refused** for its first piece that is no literal. -/
theorem CutsInto.readRow_eq_error_iff (h : CutsInto text.toList cores) {message : String} :
    readRow text = .error message
      ↔ ∃ before core after, cores = before ++ core :: after ∧ (∀ b ∈ before, IsLiteral b)
        ∧ ¬ IsLiteral core ∧ message = refusal core := by
  simp only [h.readRow_eq, mapM_eq_error_iff, readCore_eq_ok_iff, exists_ofText_iff,
    readCore_eq_error_iff]

theorem CutsInto.exists_readRow_iff (h : CutsInto text.toList cores) :
    (∃ row, readRow text = .ok row) ↔ ∀ core ∈ cores, IsLiteral core := by
  constructor
  · rintro ⟨row, hrow⟩
    have hcores : List.Forall₂ (fun core x => IsLiteral core ∧ ofText core = .ok x) cores row :=
      (h.readRow_eq_ok_iff.mp hrow).imp fun core x hx => ⟨exists_ofText_iff.mp ⟨x, hx⟩, hx⟩
    exact ((List.forall₂_and_left cores row).mp hcores).1
  · intro hliteral
    cases hread : readRow text with
    | ok row => exact ⟨row, rfl⟩
    | error message =>
      obtain ⟨before, core, after, rfl, -, hcore, -⟩ := h.readRow_eq_error_iff.mp hread
      exact absurd (hliteral core (by simp)) hcore

end Cut

/-! ### Lists that are written -/

/-- A double with white space around it. -/
structure Padded where
  /-- The white space before it. -/
  before : List Char
  /-- The double. -/
  value : Float
  /-- The white space after it. -/
  after : List Char
  /-- It is white space. -/
  blank : ∀ c ∈ before ++ after, Text.isBlank c = true
  /-- The double is not what an undefined operation gives. -/
  defined : value.isNaN = false

namespace Padded

/-- The double as it is shown, between the white space. -/
def text (item : Padded) : String :=
  String.ofList (item.before ++ (display item.value).toList ++ item.after)

theorem literalChar_display (item : Padded) :
    ∀ c ∈ (display item.value).toList, literalChar c = true :=
  literalChar_of_ofText (ofText_display_of_defined item.defined)

theorem trims (item : Padded) : Trims item.text.toList (display item.value).toList where
  padding := ⟨item.before, item.after, String.toList_ofList, item.blank⟩
  head := fun c hc =>
    (not_blank_of_literalChar (item.literalChar_display c (List.mem_of_mem_head? hc))).2
  last := fun c hc =>
    (not_blank_of_literalChar (item.literalChar_display c (List.mem_of_mem_getLast? hc))).2

theorem comma_notMem (item : Padded) : ',' ∉ item.text.toList := by
  obtain ⟨hbefore, hafter⟩ := List.forall_mem_append.mp item.blank
  have hcomma : ¬ Text.isBlank ',' = true := by decide
  rw [text, String.toList_ofList, List.mem_append, List.mem_append]
  rintro ((h | h) | h)
  · exact hcomma (hbefore _ h)
  · exact (not_blank_of_literalChar (item.literalChar_display _ h)).1 rfl
  · exact hcomma (hafter _ h)

end Padded

/-- **What is written** is cut into the doubles as they are shown. -/
theorem cutsInto_padded {items : List Padded} (hne : items ≠ []) :
    CutsInto (",".intercalate (items.map Padded.text)).toList
      (items.map fun item => (display item.value).toList) := by
  refine ⟨items.map fun item => item.text.toList, by simpa using hne, fun part hpart => ?_, ?_, ?_⟩
  · obtain ⟨item, -, rfl⟩ := List.mem_map.mp hpart
    exact item.comma_notMem
  · rw [String.toList_intercalate, List.map_map]
    rfl
  · rw [List.forall₂_map_left_iff, List.forall₂_map_right_iff, List.forall₂_same]
    exact fun item _ => item.trims

/-- **Lists of numbers.**  A text has one list of pieces between its commas, one more than commas.
    It is read exactly if all of them are literals, and then as one number for each piece, in order;
    else it is refused for the first piece that is no literal.  A list of doubles that is not empty
    is read back from the texts that the doubles are shown as, with commas between and any white
    space around them. -/
theorem readRow_exact :
    (∀ text : String, ∃ cores, (∀ other, CutsInto text.toList other ↔ other = cores)
        ∧ cores.length = text.toList.count ',' + 1
        ∧ ((∃ row, readRow text = .ok row) ↔ ∀ core ∈ cores, IsLiteral core)
        ∧ (∀ row, readRow text = .ok row →
          row.length = cores.length ∧ List.Forall₂ (fun core x => ofText core = .ok x) cores row)
        ∧ ∀ message, readRow text = .error message ↔
          ∃ before core after, cores = before ++ core :: after ∧ (∀ b ∈ before, IsLiteral b)
            ∧ ¬ IsLiteral core ∧ message = refusal core)
      ∧ ∀ items : List Padded, items ≠ [] →
        readRow (",".intercalate (items.map Padded.text)) = .ok (items.map Padded.value) := by
  constructor
  · intro text
    have hcuts : CutsInto text.toList ((pieces text.toList).map Text.trim) := cutsInto_iff.mpr rfl
    refine ⟨_, fun other => cutsInto_iff, ?_, hcuts.exists_readRow_iff, fun row hrow => ?_,
      fun message => hcuts.readRow_eq_error_iff⟩
    · rw [List.length_map, length_pieces]
    · have hall := hcuts.readRow_eq_ok_iff.mp hrow
      exact ⟨hall.length_eq.symm, hall⟩
  · intro items hne
    rw [(cutsInto_padded hne).readRow_eq_ok_iff, List.forall₂_map_left_iff,
      List.forall₂_map_right_iff, List.forall₂_same]
    exact fun item _ => ofText_display_of_defined item.defined

/-- A number between a tab and a no-break space, a zero with its sign, an infinity after an
    ideographic space and the least double above 0. -/
def paddedRow : List Padded :=
  [⟨['\t'], 0.1, ['\u00a0'], List.all_eq_true.mp rfl, by decide +kernel⟩,
    ⟨[], -0, [], nofun, by decide +kernel⟩,
    ⟨['\u3000'], -(1 / 0), [' ', '\n'], List.all_eq_true.mp rfl, by decide +kernel⟩,
    ⟨[], 5e-324, [' '], List.all_eq_true.mp rfl, by decide +kernel⟩]

/-- The row is read back.  The other text has an inner blank in its last piece, but its second piece
    is empty and is named first. -/
theorem readRow_exact_paddedRow :
    paddedRow ≠ []
      ∧ readRow (",".intercalate (paddedRow.map Padded.text)) = .ok [0.1, -0, -(1 / 0), 5e-324]
      ∧ readRow "+.5e1, ,1 2" = .error "invalid number '': cannot parse float from empty string"
      ∧ ∃ cores, CutsInto "+.5e1, ,1 2".toList cores ∧ cores.length = 3
        ∧ ¬ ∀ core ∈ cores, IsLiteral core := by
  obtain ⟨hall, hwritten⟩ := readRow_exact
  have hne : paddedRow ≠ [] := nofun
  have hrefused : readRow "+.5e1, ,1 2"
      = .error "invalid number '': cannot parse float from empty string" := by decide +kernel
  obtain ⟨cores, hcuts, hlength, hliterals, -, -⟩ := hall "+.5e1, ,1 2"
  refine ⟨hne, hwritten paddedRow hne, hrefused, cores, (hcuts cores).mpr rfl,
    hlength.trans (by decide), fun h => ?_⟩
  obtain ⟨row, hrow⟩ := hliterals.mpr h
  rw [hrefused] at hrow
  exact absurd hrow nofun

end CommandLine

end SimplexTableau
