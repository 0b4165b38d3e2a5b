import SimplexTableau.Json.Codec
import SimplexTableau.Proofs.Numerals
import SimplexTableau.Proofs.Quoting

namespace SimplexTableau.Json

/-!
# What a codec writes, it reads

Layouts set the parts of a value apart by blanks, and every reader passes over the blanks before
its value.  So the text of a value can be read wherever it stands in a longer text.

* `Layout.Blank` — a layout that adds nothing but blanks, as `compact` and `pretty` do;
* `startsValue_renderAt` — a value starts with no blank and no end of a list, and with the letter of
  `null` only if it is written as `null`;
* `Takes` — a reader takes the text of a value for something, in every layout and at every place;
* `ReadsBack` — the text of a double is read as the double, which is up to the reader of numbers;
  `readsBack_nearest`: the nearest double is always the one that was written;
* `Codec.Keeps` — a codec reads a value back as it wrote it: doubles, natural numbers, strings,
  lists, options, assignments and enumerations, under what each of them needs;
* `Fills`, `Schema.takes` — the written fields of a structure, read in turn, make it up again;
* `Schema.property_of_decode` — what no field disturbs holds of every structure that is decoded;
* `Codec.decode_encode` — a whole text is decoded to what its value is taken for;
  `Codec.encode_float_eq_null_iff`: which doubles have no text of their own.
-/

/-! ### Blanks -/

/-- Nothing but blanks. -/
def Blanks (text : List Char) : Prop := ∀ c ∈ text, isBlank c = true

theorem blanks_nil : Blanks [] := nofun

/-- A layout that adds blanks only, after the colon of a key and before each item. -/
structure Layout.Blank (layout : Layout) : Prop where
  /-- Before an item. -/
  lineBreak : ∀ depth, Blanks (layout.lineBreak depth)
  /-- Between a key and its value. -/
  colon : ∃ blanks, layout.colon = ':' :: blanks ∧ Blanks blanks

theorem blank_compact : compact.Blank := ⟨fun _ => blanks_nil, [], rfl, blanks_nil⟩

theorem blank_pretty : pretty.Blank := by
  refine ⟨fun depth c hc => ?_, [' '], rfl, fun c hc => ?_⟩
  · rcases List.mem_cons.mp hc with rfl | hc
    · decide
    · rw [List.eq_of_mem_replicate hc]
      decide
  · rw [List.mem_singleton.mp hc]
    decide

theorem skipBlanks_append {blanks : List Char} (h : Blanks blanks) {c : Char}
    (hc : isBlank c = false) (text : List Char) :
    skipBlanks (blanks ++ c :: text) = c :: text := by
  unfold skipBlanks
  rw [List.dropWhile_append_of_pos h, List.dropWhile_cons_of_neg (by simp [hc])]

/-! ### The first character of a value -/

/-- Whether a value is written as `null`. -/
def isNull : Json → Bool
  | null => true
  | real x => !x.isFinite
  | _ => false

/-- A character that a value can start with. -/
structure StartsValue (c : Char) : Prop where
  /-- It is no blank. -/
  blank : isBlank c = false
  /-- It does not end a list. -/
  list : c ≠ ']'

/-- Numbers start as values do, and not as `null` does. -/
theorem startsValue_of_startsNumber {c : Char} (hc : startsNumber c = true) :
    StartsValue c ∧ c ≠ 'n' := by
  have hne : ∀ d, startsNumber d = false → c ≠ d := by
    rintro d hd rfl
    rw [hc] at hd
    contradiction
  refine ⟨⟨?_, hne _ (by decide)⟩, hne _ (by decide)⟩
  simp [isBlank, hne ' ' (by decide), hne '\t' (by decide), hne '\n' (by decide),
    hne '\r' (by decide)]

theorem startsValue_realText (x : Float) :
    ∃ c more, realText x = c :: more ∧ StartsValue c ∧ (c = 'n' → x.isFinite = false) := by
  cases hx : x.isFinite with
  | true =>
    obtain ⟨c, more, htext, hc⟩ := startsNumber_realText hx
    obtain ⟨hstart, hn⟩ := startsValue_of_startsNumber hc
    exact ⟨c, more, htext, hstart, fun heq => absurd heq hn⟩
  | false =>
    exact ⟨'n', "ull".toList, realText_of_not_isFinite hx, ⟨by decide, by decide⟩, fun _ => rfl⟩

/-- **The first character of a value** is no blank and no end of a list, and it is the letter of
    `null` only where `null` is written. -/
theorem startsValue_renderAt (layout : Layout) (depth : Nat) (j : Json) :
    ∃ c more, renderAt layout depth j = c :: more ∧ StartsValue c
      ∧ (c = 'n' → j.isNull = true) := by
  cases j with
  | null => exact ⟨'n', "ull".toList, rfl, ⟨by decide, by decide⟩, fun _ => rfl⟩
  | natural n =>
    obtain ⟨c, more, htext, hc⟩ := startsNumber_toDigits n
    obtain ⟨hstart, hn⟩ := startsValue_of_startsNumber hc
    exact ⟨c, more, htext, hstart, fun heq => absurd heq hn⟩
  | real x =>
    obtain ⟨c, more, htext, hstart, hc⟩ := startsValue_realText x
    exact ⟨c, more, htext, hstart, fun hn => by simp [isNull, hc hn]⟩
  | string text => exact ⟨'"', _, rfl, ⟨by decide, by decide⟩, nofun⟩
  | list items =>
    cases items with
    | nil => exact ⟨'[', _, rfl, ⟨by decide, by decide⟩, nofun⟩
    | cons first rest => exact ⟨'[', _, rfl, ⟨by decide, by decide⟩, nofun⟩
  | object members =>
    cases members with
    | nil => exact ⟨'\x7b', _, rfl, ⟨by decide, by decide⟩, nofun⟩
    | cons first rest => exact ⟨'\x7b', _, rfl, ⟨by decide, by decide⟩, nofun⟩

/-! ### What may follow a value -/

theorem endsNumber_cons {c : Char} {rest : List Char} (hstart : startsNumber c = false)
    (hpoint : c ≠ '.') (he : c ≠ 'e') (hE : c ≠ 'E') : EndsNumber (c :: rest) := by
  have hdigit : c.isDigit = false := by
    simp only [startsNumber, Bool.decide_or, Bool.decide_eq_true, Bool.or_eq_false_iff] at hstart
    exact hstart.2
  exact ⟨endsDigits_cons hdigit, by simpa using hpoint, by simpa using ⟨he, hE⟩⟩

theorem EndsNumber.after_blanks {blanks : List Char} (h : Blanks blanks) {rest : List Char}
    (hrest : EndsNumber rest) : EndsNumber (blanks ++ rest) := by
  cases blanks with
  | nil => exact hrest
  | cons c blanks =>
    have hc : isBlank c = true := h c List.mem_cons_self
    simp only [isBlank, decide_eq_true_eq] at hc
    rcases hc with rfl | rfl | rfl | rfl
    all_goals exact endsNumber_cons (by decide) (by decide) (by decide) (by decide)

variable {layout : Layout}

/-! ### The text of lists and objects -/

/-- What stands before an item: a comma, unless it is the first one, and then a break. -/
def Layout.lead (layout : Layout) (depth : Nat) (isFirst : Bool) : List Char :=
  if isFirst then layout.lineBreak (depth + 1) else ',' :: layout.lineBreak (depth + 1)

/-- What stands before the end: a break, unless there is no item. -/
def Layout.tail (layout : Layout) (depth : Nat) (isFirst : Bool) : List Char :=
  if isFirst then [] else layout.lineBreak depth

theorem Layout.Blank.tail (hl : layout.Blank) (depth : Nat) (isFirst : Bool) :
    Blanks (layout.tail depth isFirst) := by
  cases isFirst with
  | true => exact blanks_nil
  | false => exact hl.lineBreak depth

/-- The text of a list or an object from some part on, with its end. -/
def partsFrom (layout : Layout) (depth : Nat) (close : Char) : Bool → List (List Char) → List Char
  | isFirst, [] => layout.tail depth isFirst ++ [close]
  | isFirst, part :: parts =>
    layout.lead depth isFirst ++ (part ++ partsFrom layout depth close false parts)

/-- The text of a member: its key, a colon and its value. -/
def memberText (layout : Layout) (depth : Nat) (member : String × Json) : List Char :=
  quote member.1.toList ++ (layout.colon ++ renderAt layout depth member.2)

theorem renderItems_eq (layout : Layout) (depth : Nat) (items : List Json) :
    renderItems layout depth items
      = partsFrom layout depth ']' false (items.map (renderAt layout (depth + 1))) := by
  induction items with
  | nil => rw [renderItems]; rfl
  | cons item items ih =>
    rw [renderItems, ih, List.append_assoc]
    rfl

theorem renderMembers_eq (layout : Layout) (depth : Nat) (members : List (String × Json)) :
    renderMembers layout depth members
      = partsFrom layout depth '\x7d' false (members.map (memberText layout (depth + 1))) := by
  induction members with
  | nil => rw [renderMembers]; rfl
  | cons member members ih =>
    rw [renderMembers, ih]
    simp only [List.map_cons, partsFrom, memberText, Layout.lead, List.append_assoc]
    rfl

/-- **The text of a list** is a bracket and its items. -/
theorem renderAt_list (layout : Layout) (depth : Nat) (items : List Json) :
    renderAt layout depth (.list items)
      = '[' :: partsFrom layout depth ']' true (items.map (renderAt layout (depth + 1))) := by
  cases items with
  | nil => rw [renderAt]; rfl
  | cons item items =>
    rw [renderAt, renderItems_eq, List.append_assoc]
    rfl

/-- **The text of an object** is a brace and its members. -/
theorem renderAt_object (layout : Layout) (depth : Nat) (members : List (String × Json)) :
    renderAt layout depth (.object members)
      = '\x7b' :: partsFrom layout depth '\x7d' true
          (members.map (memberText layout (depth + 1))) := by
  cases members with
  | nil => rw [renderAt]; rfl
  | cons member members =>
    rw [renderAt, renderMembers_eq]
    simp only [List.map_cons, partsFrom, memberText, Layout.lead, List.append_assoc,
      List.cons_append]
    rfl

/-- After a part there is a comma, or a break and the end. -/
theorem endsNumber_partsFrom (hl : layout.Blank) (depth : Nat) {close : Char}
    (hclose : close = ']' ∨ close = '\x7d') (parts : List (List Char)) (rest : List Char) :
    EndsNumber (partsFrom layout depth close false parts ++ rest) := by
  cases parts with
  | nil =>
    rw [partsFrom, List.append_assoc]
    refine EndsNumber.after_blanks (hl.tail depth false) ?_
    rcases hclose with rfl | rfl
    all_goals exact endsNumber_cons (by decide) (by decide) (by decide) (by decide)
  | cons part parts => exact endsNumber_cons (by decide) (by decide) (by decide) (by decide)

theorem length_lt_length_partsFrom (layout : Layout) (depth : Nat) (close : Char)
    (parts : List (List Char)) :
    parts.length < (partsFrom layout depth close false parts).length := by
  induction parts with
  | nil => simp [partsFrom]
  | cons part parts ih =>
    simp only [partsFrom, Layout.lead, Bool.false_eq_true, ↓reduceIte, List.cons_append,
      List.length_cons, List.length_append]
    omega

/-- There are no more parts than characters. -/
theorem length_le_length_partsFrom (layout : Layout) (depth : Nat) (close : Char) (isFirst : Bool)
    (parts : List (List Char)) :
    parts.length ≤ (partsFrom layout depth close isFirst parts).length := by
  cases parts with
  | nil => exact Nat.zero_le _
  | cons part parts =>
    have hlt := length_lt_length_partsFrom layout depth close parts
    simp only [partsFrom, List.length_cons, List.length_append]
    omega

/-! ### Readers -/

variable {α β ρ : Type}

/-- A reader takes the text of a value for `w`, in every layout and at every place of a text. -/
def Takes (read : Reader α) (j : Json) (w : α) : Prop :=
  ∀ ⦃layout : Layout⦄, layout.Blank → ∀ (depth : Nat) ⦃blanks rest : List Char⦄,
    Blanks blanks → EndsNumber rest →
      read (blanks ++ (renderAt layout depth j ++ rest)) = .ok (w, rest)

/-- What a reader makes of the value it takes. -/
theorem Takes.map {read : Reader α} {j : Json} {w : α} (h : Takes read j w) (f : α → β) :
    Takes (fun text => do let (value, rest) ← read text; return (f value, rest)) j (f w) := by
  intro layout hl depth blanks rest hblanks hrest
  simp only [h hl depth hblanks hrest, ok_bind, pure_eq_ok]

/-! ### Items and keys -/

/-- What stands before an item is passed over. -/
theorem nextItem_lead (hl : layout.Blank) (depth : Nat) (isFirst : Bool) (j : Json)
    (rest : List Char) :
    nextItem isFirst (layout.lead depth isFirst ++ (renderAt layout (depth + 1) j ++ rest))
      = .ok (.item (renderAt layout (depth + 1) j ++ rest)) := by
  obtain ⟨c, more, htext, hc, -⟩ := startsValue_renderAt layout (depth + 1) j
  rw [htext, List.cons_append]
  -- only the first item has no comma before it
  cases isFirst with
  | true =>
    show nextItem true (layout.lineBreak (depth + 1) ++ c :: (more ++ rest)) = _
    unfold nextItem
    rw [skipBlanks_append (hl.lineBreak _) hc.blank]
    simp [hc.list]
  | false =>
    show itemAfterComma (layout.lineBreak (depth + 1) ++ c :: (more ++ rest)) = _
    unfold itemAfterComma
    rw [skipBlanks_append (hl.lineBreak _) hc.blank]
    simp [hc.list]

theorem nextItem_end {blanks : List Char} (h : Blanks blanks) (isFirst : Bool)
    (rest : List Char) : nextItem isFirst (blanks ++ ']' :: rest) = .ok (.done rest) := by
  unfold nextItem
  rw [skipBlanks_append h (by decide)]
  rfl

theorem quote_append (text rest : List Char) :
    quote text ++ rest = '"' :: (text.flatMap escape ++ '"' :: rest) := by
  simp [quote]

/-- A key between its quotes. -/
theorem keyHere_quote (name : String) (rest : List Char) :
    keyHere ('"' :: (name.toList.flatMap escape ++ '"' :: rest)) = .ok (.key name rest) := by
  unfold keyHere
  simp only [readQuoted_flatMap_escape, ok_bind, String.ofList_toList, pure_eq_ok]

/-- What stands before a key is passed over. -/
theorem nextKey_lead (hl : layout.Blank) (depth : Nat) (isFirst : Bool) (name : String)
    (rest : List Char) :
    nextKey isFirst (layout.lead depth isFirst ++ (quote name.toList ++ rest))
      = .ok (.key name rest) := by
  rw [quote_append]
  cases isFirst with
  | true =>
    show nextKey true (layout.lineBreak (depth + 1) ++ '"' :: _) = _
    unfold nextKey
    rw [skipBlanks_append (hl.lineBreak _) (by decide)]
    exact keyHere_quote name rest
  | false =>
    show keyAfterComma (layout.lineBreak (depth + 1)
      ++ '"' :: (name.toList.flatMap escape ++ '"' :: rest)) = _
    unfold keyAfterComma
    rw [skipBlanks_append (hl.lineBreak _) (by decide)]
    exact keyHere_quote name rest

theorem nextKey_end {blanks : List Char} (h : Blanks blanks) (isFirst : Bool)
    (rest : List Char) : nextKey isFirst (blanks ++ '\x7d' :: rest) = .ok (.done rest) := by
  unfold nextKey
  rw [skipBlanks_append h (by decide)]
  rfl

/-- What follows a key is its colon and then, after blanks, the value. -/
theorem Takes.after_colon {read : Reader α} {j : Json} {w : α} (h : Takes read j w)
    (hl : layout.Blank) (depth : Nat) {rest : List Char} (hrest : EndsNumber rest) :
    ∃ text, readColon (layout.colon ++ (renderAt layout depth j ++ rest)) = .ok text
      ∧ read text = .ok (w, rest) := by
  obtain ⟨blanks, hcolon, hblanks⟩ := hl.colon
  refine ⟨blanks ++ (renderAt layout depth j ++ rest), ?_, h hl depth hblanks hrest⟩
  rw [hcolon]
  rfl

namespace Codec

/-- A codec reads a value back as it wrote it. -/
def Keeps (codec : Codec α) (value : α) : Prop := Takes codec.read (codec.write value) value

/-! ### Plain values -/

theorem readNumberAs_append [NumberReader] {wanted : String} {use : Number → Except Fault α}
    {blanks text rest : List Char} (hblanks : Blanks blanks) (hstart : StartsNumber text) :
    readNumberAs wanted use (blanks ++ (text ++ rest)) = do
      let (number, rest) ← readNumber (text ++ rest)
      return (← use number, rest) := by
  obtain ⟨c, more, rfl, hc⟩ := hstart
  rw [List.cons_append]
  unfold readNumberAs
  rw [skipBlanks_append hblanks (startsValue_of_startsNumber hc).1.blank]
  simp only [hc, ↓reduceIte]

theorem read_float [NumberReader] {x : Float} (hx : x.isFinite = true) {blanks rest : List Char}
    (hblanks : Blanks blanks) : float.read (blanks ++ (realText x ++ rest)) = do
      let (number, rest) ← readNumber (realText x ++ rest)
      return (number.toFloat, rest) := by
  dsimp only [float]
  rw [readNumberAs_append hblanks (startsNumber_realText hx)]
  rfl

theorem encode_float [NumberReader] (layout : Layout) (x : Float) :
    float.encode layout x = String.ofList (realText x) := by
  show String.ofList (renderAt layout 0 (.real x)) = _
  rw [renderAt]

end Codec

/-- The text of a double is read as the double. -/
def ReadsBack [NumberReader] (x : Float) : Prop :=
  Codec.float.decode (Codec.float.encode compact x) = .ok x

/-- What is no number is not read back: its text is `null`. -/
theorem ReadsBack.isFinite [NumberReader] {x : Float} (h : ReadsBack x) : x.isFinite = true := by
  cases hx : x.isFinite with
  | true => rfl
  | false =>
    rw [ReadsBack, Codec.encode_float, realText_of_not_isFinite hx] at h
    exact absurd h nofun

/-- A finite double is read back alone if the reader takes it for its numeral, and then it is read
    back wherever it stands. -/
theorem readsBack_iff [NumberReader] {x : Float} {numeral : Numeral} (hx : x.isFinite = true)
    (hread : ∀ rest, EndsNumber rest → readNumber (realText x ++ rest)
      = numeral.toReal >>= fun number => .ok (number, rest)) :
    ReadsBack x ↔ NumberReader.toFloat? numeral = some x := by
  have halone : Codec.float.read ([] ++ (realText x ++ [])) = _ := Codec.read_float hx blanks_nil
  rw [hread [] endsNumber_nil, List.nil_append, List.append_nil] at halone
  rw [ReadsBack, Codec.encode_float, Codec.decode, String.toList_ofList, halone, Numeral.toReal]
  cases NumberReader.toFloat? numeral with
  | none => exact ⟨nofun, nofun⟩
  | some y =>
    constructor
    · intro h
      exact congrArg some (Except.ok.inj h)
    · intro h
      rw [Option.some.inj h]
      rfl

/-- **The nearest double** to the text of a finite double is the double itself. -/
theorem readsBack_nearest {x : Float} (hx : x.isFinite = true) : ReadsBack x := by
  obtain ⟨numeral, hnearest, hread⟩ := readNumber_realText hx
  exact (readsBack_iff hx hread).mpr hnearest

/-- What is read back alone is read back wherever it stands. -/
theorem ReadsBack.readNumber_eq [NumberReader] {x : Float} (h : ReadsBack x) {rest : List Char}
    (hrest : EndsNumber rest) : readNumber (realText x ++ rest) = .ok (.real x, rest) := by
  obtain ⟨numeral, -, hread⟩ := readNumber_realText h.isFinite
  rw [hread rest hrest, Numeral.toReal, (readsBack_iff h.isFinite hread).mp h]
  rfl

namespace Codec

/-- **Doubles** are read back among other values if they are read back alone. -/
theorem keeps_float [NumberReader] {x : Float} (h : ReadsBack x) : float.Keeps x := by
  intro layout hl depth blanks rest hblanks hrest
  dsimp only [float]
  rw [renderAt]
  exact (read_float h.isFinite hblanks).trans (by rw [h.readNumber_eq hrest]; rfl)

/-- **Natural numbers** that fit into a word are read back. -/
theorem keeps_natural [NumberReader] {n : Nat} (hn : n < wordLimit) : natural.Keeps n := by
  intro layout hl depth blanks rest hblanks hrest
  dsimp only [natural]
  rw [renderAt, readNumberAs_append hblanks (startsNumber_toDigits n), readNumber_natural hn hrest]
  rfl

/-- **Strings** are read back, whatever their characters. -/
theorem keeps_string [NumberReader] (text : String) : string.Keeps text := by
  intro layout hl depth blanks rest hblanks hrest
  show readString (blanks ++ (quote text.toList ++ rest)) = _
  rw [quote_append]
  unfold readString
  rw [skipBlanks_append hblanks (by decide)]
  simp only [readQuoted_flatMap_escape, ok_bind, String.ofList_toList, pure_eq_ok]

/-- **Values that may be absent** are read back, unless a value that is there looks absent. -/
theorem keeps_option {codec : Codec α} {value? : Option α}
    (h : ∀ value ∈ value?, codec.Keeps value ∧ (codec.write value).isNull = false) :
    codec.option.Keeps value? := by
  intro layout hl depth blanks rest hblanks hrest
  cases value? with
  | none =>
    show readOption codec.read (blanks ++ 'n' :: ("ull".toList ++ rest)) = _
    unfold readOption
    rw [skipBlanks_append hblanks (by decide)]
    rfl
  | some value =>
    -- the reader decides by the first character, which is not that of null
    obtain ⟨hkeeps, hnull⟩ := h value rfl
    have hread := hkeeps hl depth blanks_nil hrest
    show readOption codec.read (blanks ++ (renderAt layout depth (codec.write value) ++ rest)) = _
    obtain ⟨c, more, htext, hstart, hc⟩ := startsValue_renderAt layout depth (codec.write value)
    rw [htext] at hread ⊢
    unfold readOption
    rw [List.cons_append, skipBlanks_append hblanks hstart.blank]
    split
    case h_1 heq =>
      obtain ⟨rfl, -⟩ := List.cons.inj heq
      rw [hc rfl] at hnull
      contradiction
    case h_2 =>
      rw [List.nil_append, List.cons_append] at hread
      simp only [hread, ok_bind, pure_eq_ok]

/-! ### Lists -/

theorem readItems_item {read : Reader α} {fuel : Nat} {isFirst : Bool}
    {text here after rest : List Char} {v : α} {vs : List α}
    (hnext : nextItem isFirst text = .ok (.item here)) (hread : read here = .ok (v, after))
    (hmore : readItems read fuel false after = .ok (vs, rest)) :
    readItems read (fuel + 1) isFirst text = .ok (v :: vs, rest) := by
  simp only [readItems, hnext, hread, hmore, ok_bind, pure_eq_ok]

/-- The items from some item on, with the end of the list. -/
theorem readItems_partsFrom {codec : Codec α} (hl : layout.Blank) (depth : Nat) (isFirst : Bool)
    {items : List α} (h : ∀ item ∈ items, codec.Keeps item) {fuel : Nat}
    (hfuel : items.length < fuel) (rest : List Char) :
    readItems codec.read fuel isFirst (partsFrom layout depth ']' isFirst
      ((items.map codec.write).map (renderAt layout (depth + 1))) ++ rest) = .ok (items, rest) := by
  -- the induction is on the items; no item after the first one stands without a comma
  induction items generalizing isFirst fuel with
  | nil =>
    obtain ⟨fuel, rfl, -⟩ := exists_fuel_of_lt hfuel
    rw [List.map_nil, List.map_nil, partsFrom, List.append_assoc]
    simp only [readItems, List.cons_append, List.nil_append, nextItem_end (hl.tail depth isFirst),
      ok_bind, pure_eq_ok]
  | cons item items ih =>
    obtain ⟨fuel, rfl, hle⟩ := exists_fuel_of_lt hfuel
    have hread := h item List.mem_cons_self hl (depth + 1) blanks_nil
      (endsNumber_partsFrom hl depth (.inl rfl)
        ((items.map codec.write).map (renderAt layout (depth + 1))) rest)
    have hmore := ih false (fun i hi => h i (List.mem_cons_of_mem _ hi)) hle
    rw [List.map_cons, List.map_cons, partsFrom, List.append_assoc, List.append_assoc]
    exact readItems_item (nextItem_lead hl depth isFirst _ _) hread hmore

/-- **Lists** are read back if their items are. -/
theorem keeps_list [NumberReader] {codec : Codec α} {items : List α}
    (h : ∀ item ∈ items, codec.Keeps item) : codec.list.Keeps items := by
  intro layout hl depth blanks rest hblanks hrest
  show readList codec.read (blanks ++ (renderAt layout depth (.list (items.map codec.write))
    ++ rest)) = _
  rw [renderAt_list, List.cons_append]
  unfold readList
  rw [skipBlanks_append hblanks (by decide)]
  apply readItems_partsFrom hl depth true h
  -- the reader allows one step for each character that is left
  have hlength := length_le_length_partsFrom layout depth ']' true
    ((items.map codec.write).map (renderAt layout (depth + 1)))
  simp only [List.length_map, List.length_append] at hlength ⊢
  omega

/-- **Arrays** are read back if their items are. -/
theorem keeps_array [NumberReader] {codec : Codec α} {items : Array α}
    (h : ∀ item ∈ items, codec.Keeps item) : codec.array.Keeps items := by
  have hlist : codec.list.Keeps items.toList :=
    keeps_list fun item hitem => h item (Array.mem_toList_iff.mp hitem)
  exact Takes.map hlist List.toArray

/-! ### Assignments -/

/-- A name beyond all others comes last. -/
theorem insertEntry_last {entries : List (String × α)} {name : String}
    (h : ∀ e ∈ entries, e.1 < name) (value : α) :
    Assignment.insertEntry name value entries = entries ++ [(name, value)] := by
  induction entries with
  | nil => rfl
  | cons e entries ih =>
    have hlt : e.1 < name := h e List.mem_cons_self
    have hnot : ¬ name < e.1 := String.lt_asymm hlt
    have hne : name ≠ e.1 := (String.ne_of_lt hlt).symm
    rw [Assignment.insertEntry, if_neg hnot, if_neg hne,
      ih fun e he => h e (List.mem_cons_of_mem _ he)]
    rfl

theorem readEntries_key {read : Reader α} {fuel : Nat} {isFirst : Bool} {a : Assignment α}
    {name : String} {text after here rest : List Char} {v : α}
    (hnext : nextKey isFirst text = .ok (.key name after)) (hcolon : readColon after = .ok here)
    (hread : read here = .ok (v, rest)) :
    readEntries read (fuel + 1) isFirst a text
      = readEntries read fuel false (a.insert name v) rest := by
  simp only [readEntries, hnext, hcolon, hread, ok_bind]

/-- The entries after those already taken, with the end of the object. -/
theorem readEntries_partsFrom {codec : Codec α} (hl : layout.Blank) (depth : Nat) (isFirst : Bool)
    {entries : List (String × α)} (h : ∀ e ∈ entries, codec.Keeps e.2) {taken whole : Assignment α}
    (hwhole : whole.entries = taken.entries ++ entries) {fuel : Nat}
    (hfuel : entries.length < fuel) (rest : List Char) :
    readEntries codec.read fuel isFirst taken (partsFrom layout depth '\x7d' isFirst
      ((entries.map fun e => (e.1, codec.write e.2)).map (memberText layout (depth + 1))) ++ rest)
        = .ok (whole, rest) := by
  -- the induction is on the entries to come; those taken before make up the front of the whole
  induction entries generalizing isFirst fuel taken with
  | nil =>
    obtain ⟨fuel, rfl, -⟩ := exists_fuel_of_lt hfuel
    rw [List.append_nil] at hwhole
    rw [List.map_nil, List.map_nil, partsFrom, List.append_assoc]
    simp only [readEntries, List.cons_append, List.nil_append, nextKey_end (hl.tail depth isFirst),
      ok_bind, pure_eq_ok, Assignment.ext hwhole]
  | cons e entries ih =>
    obtain ⟨name, value⟩ := e
    obtain ⟨fuel, rfl, hle⟩ := exists_fuel_of_lt hfuel
    -- the names increase, so the next one goes behind those already taken
    have hlast : ∀ e ∈ taken.entries, e.1 < name := by
      have hincreasing := whole.increasing
      rw [hwhole] at hincreasing
      intro e he
      exact (List.pairwise_append.mp hincreasing).2.2 e he (name, value) List.mem_cons_self
    have hinsert : whole.entries = (taken.insert name value).entries ++ entries := by
      rw [Assignment.entries_insert, insertEntry_last hlast, hwhole, List.append_assoc]
      rfl
    have hvalue : codec.Keeps value := h (name, value) List.mem_cons_self
    obtain ⟨here, hcolon, hread⟩ := Takes.after_colon hvalue hl (depth + 1)
      (endsNumber_partsFrom hl depth (.inr rfl)
        ((entries.map fun e => (e.1, codec.write e.2)).map (memberText layout (depth + 1))) rest)
    rw [List.map_cons, List.map_cons, partsFrom, memberText]
    simp only [List.append_assoc]
    rw [readEntries_key (nextKey_lead hl depth isFirst _ _) hcolon hread]
    exact ih false (fun e he => h e (List.mem_cons_of_mem _ he)) hinsert hle

/-- **Assignments** are read back if their values are. -/
theorem keeps_assignment [NumberReader] {codec : Codec α} {a : Assignment α}
    (h : ∀ e ∈ a.entries, codec.Keeps e.2) : codec.assignment.Keeps a := by
  intro layout hl depth blanks rest hblanks hrest
  show readAssignment codec.read (blanks ++ (renderAt layout depth
    (.object (a.entries.map fun e => (e.1, codec.write e.2))) ++ rest)) = _
  rw [renderAt_object, List.cons_append]
  unfold readAssignment
  rw [skipBlanks_append hblanks (by decide)]
  apply readEntries_partsFrom hl depth true h rfl
  have hlength := length_le_length_partsFrom layout depth '\x7d' true
    ((a.entries.map fun e => (e.1, codec.write e.2)).map (memberText layout (depth + 1)))
  simp only [List.length_map, List.length_append] at hlength ⊢
  omega

/-! ### Enumerations -/

/-- **Values with names of their own** are read back. -/
theorem keeps_choice [NumberReader] {name : α → String} {all : List α} {value : α}
    (h : all.find? (name · == name value) = some value) : (choice name all).Keeps value := by
  intro layout hl depth blanks rest hblanks hrest
  show readChoice name all (blanks ++ (quote (name value).toList ++ rest)) = _
  rw [quote_append]
  unfold readChoice
  rw [skipBlanks_append hblanks (by decide)]
  have hvariant : readVariant ('"' :: ((name value).toList.flatMap escape ++ '"' :: rest))
      = .ok (name value, rest) := by
    unfold readVariant
    rw [← List.nil_append ('"' :: _), skipBlanks_append blanks_nil (by decide)]
    simp only [readQuoted_flatMap_escape, ok_bind, String.ofList_toList, pure_eq_ok]
  simp only [hvariant, variantOf, h, ok_bind, pure_eq_ok]

end Codec

/-! ### Structures -/

/-- A field takes what was written for it as the setting of its value. -/
theorem takes_field {name : String} {codec : Codec α} {get : ρ → α} {set : α → ρ → ρ} {r : ρ}
    (h : codec.Keeps (get r)) :
    Takes (Member.field name codec get set).read ((Member.field name codec get set).write r)
      (set (get r)) :=
  Takes.map h set

theorem takes_optional {name : String} {codec : Codec α} {get : ρ → Option α}
    {set : Option α → ρ → ρ} {r : ρ}
    (h : ∀ value ∈ get r, codec.Keeps value ∧ (codec.write value).isNull = false) :
    Takes (Member.optional name codec get set).read
      ((Member.optional name codec get set).write r) (set (get r)) :=
  Takes.map (Codec.keeps_option h) set

/-- Reading the fields that were written for `r`, one after the other, takes the structure `s` to
    the structure `w`. -/
inductive Fills (r : ρ) : List (Member ρ) → ρ → ρ → Prop
  | done (s : ρ) : Fills r [] s s
  | field {m : Member ρ} {later : List (Member ρ)} {s w : ρ} {set : ρ → ρ}
      (h : Takes m.read (m.write r) set) (hlater : Fills r later (set s) w) :
      Fills r (m :: later) s w

namespace Schema

variable {s : Schema ρ}

/-- A member is found by its name. -/
theorem find?_members (hnames : (s.members.map (·.name)).Nodup) {m : Member ρ}
    (hm : m ∈ s.members) : s.members.find? (·.name == m.name) = some m := by
  cases hfind : s.members.find? (·.name == m.name) with
  | none =>
    have hnone := List.find?_eq_none.mp hfind m hm
    simp at hnone
  | some other =>
    have hother : other.name = m.name := by simpa using List.find?_some hfind
    rw [List.inj_on_of_nodup_map hnames (List.mem_of_find?_eq_some hfind) hm hother]

theorem readMembers_key {fuel : Nat} {isFirst : Bool} {seen : List String} {r : ρ} {m : Member ρ}
    {text after here rest : List Char} {set : ρ → ρ}
    (hfind : s.members.find? (·.name == m.name) = some m) (hseen : m.name ∉ seen)
    (hnext : nextKey isFirst text = .ok (.key m.name after)) (hcolon : readColon after = .ok here)
    (hread : m.read here = .ok (set, rest)) :
    s.readMembers (fuel + 1) isFirst seen r text
      = s.readMembers fuel false (m.name :: seen) (set r) rest := by
  simp only [readMembers, hnext, hcolon, hread, hfind, ok_bind, List.contains_eq_mem, hseen,
    decide_false, Bool.false_eq_true, ↓reduceIte]

/-- Where every field was seen, none is missing. -/
theorem missing?_eq_none {seen : List String} (h : ∀ m ∈ s.members, m.name ∈ seen) :
    s.missing? seen = none := by
  unfold missing?
  rw [Option.map_eq_none_iff, List.find?_eq_none]
  intro m hm
  simp [h m hm]

/-- The members after those already seen, with the end of the object. -/
theorem readMembers_partsFrom (hl : layout.Blank) (depth : Nat) (isFirst : Bool)
    (hnames : (s.members.map (·.name)).Nodup) {r value w : ρ} {before later : List (Member ρ)}
    (hmembers : s.members = before ++ later) (h : Fills r later value w) {fuel : Nat}
    (hfuel : later.length < fuel) (rest : List Char) :
    s.readMembers fuel isFirst (before.map (·.name)).reverse value
      (partsFrom layout depth '\x7d' isFirst
        ((later.map fun m => (m.name, m.write r)).map (memberText layout (depth + 1))) ++ rest)
        = .ok (w, rest) := by
  -- the induction is on the fields to come; the names of those before are the ones seen
  induction h generalizing isFirst fuel before with
  | done value =>
    obtain ⟨fuel, rfl, -⟩ := exists_fuel_of_lt hfuel
    have hmissing : s.missing? (before.map (·.name)).reverse = none := by
      apply missing?_eq_none
      intro m hm
      rw [hmembers, List.append_nil] at hm
      exact List.mem_reverse.mpr (List.mem_map_of_mem hm)
    rw [List.map_nil, List.map_nil, partsFrom, List.append_assoc]
    simp only [readMembers, List.cons_append, List.nil_append, nextKey_end (hl.tail depth isFirst),
      hmissing, ok_bind, pure_eq_ok]
  | @field m later value w set hm hlater ih =>
    obtain ⟨fuel, rfl, hle⟩ := exists_fuel_of_lt hfuel
    have hfind := find?_members hnames (m := m) (by simp [hmembers])
    -- no name stands twice, so the next one was not seen
    have hseen : m.name ∉ (before.map (·.name)).reverse := by
      rw [hmembers, List.map_append, List.nodup_append] at hnames
      intro hmem
      exact hnames.2.2 m.name (List.mem_reverse.mp hmem) m.name (by simp) rfl
    obtain ⟨here, hcolon, hread⟩ := hm.after_colon hl (depth + 1)
      (endsNumber_partsFrom hl depth (.inr rfl)
        ((later.map fun m => (m.name, m.write r)).map (memberText layout (depth + 1))) rest)
    rw [List.map_cons, List.map_cons, partsFrom, memberText]
    simp only [List.append_assoc]
    rw [readMembers_key hfind hseen (nextKey_lead hl depth isFirst _ _) hcolon hread]
    have hsplit : s.members = (before ++ [m]) ++ later := by simp [hmembers]
    have hnext := ih false hsplit hle
    rw [List.map_append, List.reverse_append] at hnext
    exact hnext

/-- **A structure** is read as what its written fields make up, in turn. -/
theorem takes [NumberReader] (hnames : (s.members.map (·.name)).Nodup) {r w : ρ}
    (h : Fills r s.members s.blank w) : Takes s.read (s.write r) w := by
  intro layout hl depth blanks rest hblanks hrest
  show s.read (blanks ++ (renderAt layout depth
    (.object (s.members.map fun m => (m.name, m.write r))) ++ rest)) = _
  rw [renderAt_object, List.cons_append]
  unfold Schema.read
  rw [skipBlanks_append hblanks (by decide)]
  apply readMembers_partsFrom hl depth true hnames (List.nil_append _).symm h
  have hlength := length_le_length_partsFrom layout depth '\x7d' true
    ((s.members.map fun m => (m.name, m.write r)).map (memberText layout (depth + 1)))
  simp only [List.length_map, List.length_append] at hlength ⊢
  omega

end Schema

/-! ### What every reading keeps -/

namespace Member

variable {P : ρ → Prop}

/-- A property of the structure is kept, whatever is read for the member. -/
def Preserves (P : ρ → Prop) (m : Member ρ) : Prop :=
  ∀ text set rest, m.read text = .ok (set, rest) → ∀ r, P r → P (set r)

theorem preserves_field {name : String} {codec : Codec α} {get : ρ → α} {set : α → ρ → ρ}
    (h : ∀ value r, P r → P (set value r)) : (field name codec get set).Preserves P := by
  intro text f rest hread r hr
  obtain ⟨⟨value, after⟩, -, hset⟩ := bind_eq_ok_iff.mp hread
  obtain rfl := (Prod.mk.inj (Except.ok.inj hset)).1
  exact h value r hr

theorem preserves_optional {name : String} {codec : Codec α} {get : ρ → Option α}
    {set : Option α → ρ → ρ} (h : ∀ value r, P r → P (set value r)) :
    (optional name codec get set).Preserves P := by
  intro text f rest hread
  have hfield : (field name codec.option get set).Preserves P := preserves_field h
  exact hfield text f rest hread

end Member

namespace Schema

variable {s : Schema ρ} {P : ρ → Prop}

theorem property_of_readMembers (hmembers : ∀ m ∈ s.members, m.Preserves P) {fuel : Nat}
    {isFirst : Bool} {seen : List String} {value w : ρ} {text rest : List Char} (hvalue : P value)
    (h : s.readMembers fuel isFirst seen value text = .ok (w, rest)) : P w := by
  -- the induction is on the steps of the reader; each leaves a value with the property
  induction fuel generalizing isFirst seen value text with
  | zero => exact absurd h nofun
  | succ fuel ih =>
    obtain ⟨step, -, h⟩ := bind_eq_ok_iff.mp h
    cases step with
    | done after =>
      simp only at h
      split at h
      · exact absurd h nofun
      · exact (Prod.mk.inj (Except.ok.inj h)).1 ▸ hvalue
    | key name after =>
      simp only at h
      split at h
      case h_1 m hfind =>
        split at h
        · exact absurd h nofun
        · obtain ⟨here, -, h⟩ := bind_eq_ok_iff.mp h
          obtain ⟨⟨set, later⟩, hread, h⟩ := bind_eq_ok_iff.mp h
          exact ih (hmembers m (List.mem_of_find?_eq_some hfind) _ _ _ hread _ hvalue) h
      case h_2 =>
        obtain ⟨here, -, h⟩ := bind_eq_ok_iff.mp h
        obtain ⟨later, -, h⟩ := bind_eq_ok_iff.mp h
        exact ih hvalue h

theorem property_of_readFields {members : List (Member ρ)}
    (hmembers : ∀ m ∈ members, m.Preserves P) {count : Nat} {value w : ρ}
    {text rest : List Char} (hvalue : P value)
    (h : s.readFields count value members text = .ok (w, rest)) : P w := by
  induction members generalizing count value text with
  | nil =>
    obtain ⟨after, -, h⟩ := bind_eq_ok_iff.mp h
    exact (Prod.mk.inj (Except.ok.inj h)).1 ▸ hvalue
  | cons m members ih =>
    obtain ⟨hm, hmembers⟩ := List.forall_mem_cons.mp hmembers
    obtain ⟨step, -, h⟩ := bind_eq_ok_iff.mp h
    cases step with
    | done after => exact absurd h nofun
    | item here =>
      obtain ⟨⟨set, later⟩, hread, h⟩ := bind_eq_ok_iff.mp h
      exact ih hmembers (hm _ _ _ hread _ hvalue) h

/-- **What every reading keeps.** A property of the blank structure that no field disturbs holds of
    everything that is decoded, whatever the text is and whatever reads its numbers. -/
theorem property_of_decode [NumberReader] (hblank : P s.blank)
    (hmembers : ∀ m ∈ s.members, m.Preserves P) {text : String} {w : ρ}
    (h : s.codec.decode text = .ok w) : P w := by
  obtain ⟨⟨value, rest⟩, hread, h⟩ := bind_eq_ok_iff.mp h
  have hvalue : P value := by
    change s.read text.toList = _ at hread
    unfold Schema.read at hread
    split at hread
    · exact property_of_readFields hmembers hblank hread
    · exact property_of_readMembers hmembers hblank hread
    · exact absurd hread nofun
  simp only at h
  split at h
  · exact Except.ok.inj h ▸ hvalue
  · exact absurd h nofun

end Schema

/-! ### Whole texts -/

/-- **A whole text** is decoded to what its value is taken for. -/
theorem Codec.decode_encode {codec : Codec α} {layout : Layout} (hl : layout.Blank) {value w : α}
    (h : Takes codec.read (codec.write value) w) :
    codec.decode (codec.encode layout value) = .ok w := by
  have hread := h hl 0 blanks_nil endsNumber_nil
  rw [List.nil_append, List.append_nil] at hread
  unfold Codec.decode Codec.encode Json.render
  rw [String.toList_ofList, hread]
  rfl

/-- The text of a double is `null` exactly if the double is no number. -/
theorem Codec.encode_float_eq_null_iff [NumberReader] {layout : Layout} {x : Float} :
    Codec.float.encode layout x = "null" ↔ x.isFinite = false := by
  rw [encode_float]
  constructor
  · intro hnull
    cases hx : x.isFinite with
    | false => rfl
    | true =>
      obtain ⟨c, more, hreal, hc⟩ := startsNumber_realText hx
      have hn : c :: more = "null".toList := by
        rw [← hreal, ← hnull, String.toList_ofList]
      exact absurd (List.cons.inj hn).1 (startsValue_of_startsNumber hc).2
  · intro hx
    rw [realText_of_not_isFinite hx, String.ofList_toList]

end SimplexTableau.Json
