import SimplexTableau.CommandLine.Arguments
import SimplexTableau.Proofs.Access

namespace SimplexTableau.CommandLine

/-!
# The arguments around a problem

The source of a problem and the other options of a command do not get into each other's way, so
the arguments of the one can be put among those of the others without a change to what they say.

* `Scan.store_cases`, `Scan.resolve_cases` — what taking up a value does, and completing what is
  pending;
* `Scan.SameRules` — two states of a command with the same flags and options;
* `arguments_of_resolve` — taking up early what is pending changes nothing;
* `Scan.Bare` — nothing was said about the source, and `Scan.Indifferent` — a step that, where it
  leaves that so, does the same whatever the source is; `indifferent_argument`: every argument is;
* `Scan.Supplies` — arguments that set the source and nothing else; `parse_supplied`: put among
  other arguments they set the source of what those say.

The argument that ends the options is left out everywhere: after it nothing is an option.
-/

/-! ### What no argument changes -/

namespace Scan

variable {s t : Scan}

/-- `t` is a later state of the command of `s`, with no path and no end of the options between. -/
structure SameRules (s t : Scan) : Prop where
  /-- The flags of the command. -/
  flags_eq : t.flags = s.flags
  /-- The options of the command. -/
  options_eq : t.options = s.options
  /-- Whether options have ended. -/
  trailing_eq : t.trailing = s.trailing
  /-- Whether a path was given. -/
  hasFile_eq : t.hasFile = s.hasFile

theorem SameRules.refl (s : Scan) : s.SameRules s := ⟨rfl, rfl, rfl, rfl⟩

theorem SameRules.trans {u : Scan} (h : s.SameRules t) (h' : t.SameRules u) : s.SameRules u :=
  ⟨h'.flags_eq.trans h.flags_eq, h'.options_eq.trans h.options_eq,
    h'.trailing_eq.trans h.trailing_eq, h'.hasFile_eq.trans h.hasFile_eq⟩

/-- The state with another source. -/
def withSource (s : Scan) (source : Source) (hasFile : Bool) : Scan := { s with source, hasFile }

/-- **What taking up a value does.** A value of the source leaves its mark there and nowhere else;
    any other value is taken up in the same way whatever the source is. -/
theorem store_cases {o : ValueOption} {value : String} (h : s.store o value = .ok t) :
    (o.takesAnything = true ∧ ∃ source : Source, source ≠ default ∧ t = { s with source })
      ∨ (o.takesAnything = false ∧ ∃ maxIterations tolerance format,
          t = { s with maxIterations, tolerance, format }
          ∧ ∀ source hasFile, (s.withSource source hasFile).store o value
              = .ok { s.withSource source hasFile with maxIterations, tolerance, format }) := by
  have hnone : (default : Source) = ⟨none, none, [], none⟩ := rfl
  cases o
  case constraint =>
    obtain ⟨row, -, hresult⟩ := bind_eq_ok_iff.mp h
    obtain rfl := Except.ok.inj hresult
    exact .inl ⟨rfl, _, by simp [hnone], rfl⟩
  all_goals
    obtain ⟨_, hgiven, hstore⟩ := bind_eq_ok_iff.mp h
    obtain ⟨value, hvalue, hresult⟩ := bind_eq_ok_iff.mp hstore
    obtain rfl := Except.ok.inj hresult
  case objective => exact .inl ⟨rfl, _, by simp [hnone], rfl⟩
  case rhs => exact .inl ⟨rfl, _, by simp [hnone], rfl⟩
  all_goals
    refine .inr ⟨rfl, _, _, _, rfl, fun source hasFile => ?_⟩
    simp only [store, withSource, hgiven, hvalue, ok_bind]
    rfl

/-- **What completing does.** Nothing, or a value is taken up, or a path. -/
theorem resolve_cases (h : s.resolve = .ok t) :
    (s.pending = .nothing ∧ t = s)
      ∨ (∃ o value, s.pending = .value o value
          ∧ ({ s with pending := .nothing } : Scan).store o value = .ok t)
      ∨ ∃ path, s.pending = .file path
          ∧ t = { s with pending := .nothing, source := { s.source with file := some path } } := by
  unfold resolve at h
  split at h
  case h_1 hpending => exact .inl ⟨hpending, (Except.ok.inj h).symm⟩
  case h_2 => exact absurd h (by simp)
  case h_3 o value hpending => exact .inr (.inl ⟨o, value, hpending, h⟩)
  case h_4 path hpending =>
    split at h
    · exact absurd h (by simp)
    · exact .inr (.inr ⟨path, hpending, (Except.ok.inj h).symm⟩)

/-- A value that is taken up completes nothing else. -/
theorem sameRules_of_store {o : ValueOption} {value : String} (h : s.store o value = .ok t) :
    s.SameRules t ∧ t.pending = s.pending := by
  obtain ⟨-, source, -, rfl⟩ | ⟨-, maxIterations, tolerance, format, rfl, -⟩ := store_cases h
  · exact ⟨⟨rfl, rfl, rfl, rfl⟩, rfl⟩
  · exact ⟨⟨rfl, rfl, rfl, rfl⟩, rfl⟩

/-- After what was pending is completed, nothing is. -/
theorem sameRules_of_resolve (h : s.resolve = .ok t) : s.SameRules t ∧ t.pending = .nothing := by
  obtain ⟨hpending, rfl⟩ | ⟨o, value, -, hstore⟩ | ⟨path, -, rfl⟩ := resolve_cases h
  · exact ⟨.refl t, hpending⟩
  · obtain ⟨hrules, hpending⟩ := sameRules_of_store hstore
    exact ⟨⟨hrules.flags_eq, hrules.options_eq, hrules.trailing_eq, hrules.hasFile_eq⟩, hpending⟩
  · exact ⟨⟨rfl, rfl, rfl, rfl⟩, rfl⟩

/-! ### One argument after another -/

theorem arguments_cons {text : String} (h : s.argument text = .ok t) (rest : List String) :
    s.arguments (text :: rest) = t.arguments rest := by
  unfold arguments
  rw [List.foldlM_cons, h, ok_bind]

theorem arguments_append {args : List String} (h : args.foldlM argument s = .ok t)
    (rest : List String) : s.arguments (args ++ rest) = t.arguments rest := by
  unfold arguments
  rw [List.foldlM_append, h, ok_bind]

/-! ### Arguments with dashes -/

/-- An argument with two dashes is a flag or an option, if no value is waited for. -/
theorem argument_eq_long {text : String} {long : List Char} (htrailing : s.trailing ≠ true)
    (htext : text.toList = '-' :: '-' :: long) (hne : long ≠ [])
    (hdash : ¬ ('-' :: long = [] ∨ s.takesDash ('-' :: long) = true)) :
    s.argument text = s.long long := by
  rw [argument, if_neg htrailing, htext]
  show (if _ then _ else _) = _
  rw [if_neg hdash]
  cases long with
  | nil => exact absurd rfl hne
  | cons c long => rfl

/-- An argument with one dash is a group of letters, if no value is waited for. -/
theorem argument_eq_short {text : String} {letters : List Char} (htrailing : s.trailing ≠ true)
    (htext : text.toList = '-' :: letters) (hhead : letters.head? ≠ some '-')
    (hdash : ¬ (letters = [] ∨ s.takesDash letters = true)) :
    s.argument text = s.short letters := by
  rw [argument, if_neg htrailing, htext]
  show (if _ then _ else _) = _
  rw [if_neg hdash]
  split
  · exact absurd rfl hhead
  · exact absurd rfl hhead
  · rfl

/-- Any other argument is a value or a path. -/
theorem argument_eq_plain {text : String}
    (h : s.trailing ≠ true →
      ∀ rest, text.toList = '-' :: rest → rest = [] ∨ s.takesDash rest = true) :
    s.argument text = s.plain text := by
  unfold argument
  split
  · rfl
  · next htrailing =>
    split
    · next rest hrest => exact if_pos (h htrailing rest hrest)
    · rfl

/-! ### Taking up early what is pending -/

theorem resolve_of_pending (h : s.pending = .nothing) : s.resolve = .ok s := by
  rw [resolve, h]

/-- Where something can be completed, no option waits for its value. -/
theorem pending_ne_option (h : s.resolve = .ok t) (o : ValueOption) : s.pending ≠ .option o := by
  intro hpending
  rw [resolve, hpending] at h
  exact absurd h (by simp)

theorem resolve_idem (h : s.resolve = .ok t) : t.resolve = .ok t :=
  resolve_of_pending (sameRules_of_resolve h).2

theorem flag_of_resolve (h : s.resolve = .ok t) (f : Flag) : s.flag f = t.flag f := by
  rw [flag, flag, h, resolve_idem h]

theorem option_of_resolve (h : s.resolve = .ok t) (o : ValueOption) (attached : Option String) :
    s.option o attached = t.option o attached := by
  rw [option, option, h, resolve_idem h]

theorem long_of_resolve (h : s.resolve = .ok t) (text : List Char) : s.long text = t.long text := by
  obtain ⟨hrules, -⟩ := sameRules_of_resolve h
  simp only [long, hrules.flags_eq, hrules.options_eq, flag_of_resolve h, option_of_resolve h]

theorem short_of_resolve (h : s.resolve = .ok t) {text : List Char} (htext : text ≠ []) :
    s.short text = t.short text := by
  obtain ⟨hrules, -⟩ := sameRules_of_resolve h
  cases text with
  | nil => exact absurd rfl htext
  | cons c rest =>
    simp only [short, hrules.flags_eq, hrules.options_eq, flag_of_resolve h, option_of_resolve h]

theorem plain_of_resolve (h : s.resolve = .ok t) (text : String) : s.plain text = t.plain text := by
  obtain ⟨hrules, hpending⟩ := sameRules_of_resolve h
  unfold plain
  split
  case h_1 o hoption _ => exact absurd hoption (pending_ne_option h o)
  case h_2 =>
    rw [hpending]
    simp only [hrules.hasFile_eq, h, resolve_idem h]

theorem takesDash_of_resolve (h : s.resolve = .ok t) (rest : List Char) :
    s.takesDash rest = false := by
  unfold takesDash
  split
  case h_1 o hoption => exact absurd hoption (pending_ne_option h o)
  case h_2 => rfl

theorem argument_of_resolve (h : s.resolve = .ok t) {text : String} (htext : text ≠ "--") :
    s.argument text = t.argument text := by
  obtain ⟨hrules, -⟩ := sameRules_of_resolve h
  simp only [argument, hrules.trailing_eq, plain_of_resolve h, takesDash_of_resolve h,
    takesDash_of_resolve (resolve_idem h)]
  split
  · rfl
  · split
    case h_1 rest hrest =>
      split
      · rfl
      · split
        · exact absurd (String.toList_inj.mp hrest) htext
        · exact long_of_resolve h _
        · exact short_of_resolve h (by simp_all)
    case h_2 => rfl

/-- **Taking up early** what is pending changes nothing, if it can be taken up. -/
theorem arguments_of_resolve (h : s.resolve = .ok t) {args : List String}
    (hargs : args.head? ≠ some "--") : s.arguments args = t.arguments args := by
  cases args with
  | nil =>
    show (s.resolve >>= _) = (t.resolve >>= _)
    rw [h, resolve_idem h]
  | cons text args =>
    have htext : text ≠ "--" := fun heq => hargs (congrArg some heq)
    unfold arguments
    rw [List.foldlM_cons, List.foldlM_cons, argument_of_resolve h htext]

end Scan

/-! ### Arguments that say nothing about the source -/

/-- What is pending belongs to the source of the problem. -/
def Pending.onSource : Pending → Bool
  | .nothing => false
  | .option o | .value o _ => o.takesAnything
  | .file _ => true

namespace Scan

/-- Nothing was said about the source. -/
structure Bare (s : Scan) : Prop where
  /-- No part of it is known. -/
  source_eq : s.source = default
  /-- No part of it is pending. -/
  pending_eq : s.pending.onSource = false

/-- A step that leaves a bare state started from one, and it does the same with any source. -/
def Indifferent (step : Scan → Except Usage Scan) : Prop :=
  ∀ ⦃s t : Scan⦄, step s = .ok t → t.Bare →
    (s.Bare ∧ s.SameRules t)
      ∧ ∀ source hasFile, step (s.withSource source hasFile) = .ok (t.withSource source hasFile)

theorem Indifferent.bind {f g : Scan → Except Usage Scan} (hf : Indifferent f)
    (hg : Indifferent g) : Indifferent fun s => f s >>= g := by
  intro s t h ht
  obtain ⟨u, hu, hgt⟩ := bind_eq_ok_iff.mp h
  obtain ⟨⟨hubare, hurules⟩, hug⟩ := hg hgt ht
  obtain ⟨⟨hsbare, hsrules⟩, hsf⟩ := hf hu hubare
  refine ⟨⟨hsbare, hsrules.trans hurules⟩, fun source hasFile => ?_⟩
  simp only [hsf, ok_bind, hug]

theorem indifferent_ok : Indifferent .ok := by
  intro s t h ht
  obtain rfl := Except.ok.inj h
  exact ⟨⟨ht, .refl s⟩, fun _ _ => rfl⟩

theorem indifferent_error (e : Usage) : Indifferent fun _ => .error e :=
  fun _ _ h => absurd h nofun

/-- A step that goes, from every state and whatever its source, like some indifferent one. -/
theorem Indifferent.of_cases {f : Scan → Except Usage Scan}
    (h : ∀ s : Scan, ∃ g, Indifferent g ∧ ∀ source hasFile,
      f (s.withSource source hasFile) = g (s.withSource source hasFile)) : Indifferent f := by
  intro s t hst ht
  obtain ⟨g, hg, hfg⟩ := h s
  have hst : g s = .ok t := (hfg s.source s.hasFile).symm.trans hst
  obtain ⟨hs, hsame⟩ := hg hst ht
  exact ⟨hs, fun source hasFile => (hfg source hasFile).trans (hsame source hasFile)⟩

theorem indifferent_store (o : ValueOption) (value : String) :
    Indifferent fun s => s.store o value := by
  intro s t h ht
  obtain ⟨-, source, hne, rfl⟩ | ⟨-, maxIterations, tolerance, format, rfl, hsame⟩ :=
    store_cases h
  · exact absurd ht.source_eq hne
  · exact ⟨⟨⟨ht.source_eq, ht.pending_eq⟩, rfl, rfl, rfl, rfl⟩, hsame⟩

theorem indifferent_resolve : Indifferent resolve := by
  intro s t h ht
  have hrules := (sameRules_of_resolve h).1
  obtain ⟨hpending, rfl⟩ | ⟨o, value, hpending, hstore⟩ | ⟨path, -, rfl⟩ := resolve_cases h
  · exact ⟨⟨ht, hrules⟩, fun source hasFile => resolve_of_pending hpending⟩
  · obtain ⟨-, source, hne, rfl⟩ | ⟨hother, -⟩ := store_cases hstore
    · exact absurd ht.source_eq hne
    · obtain ⟨⟨hbare, -⟩, hsame⟩ := indifferent_store o value hstore ht
      refine ⟨⟨⟨hbare.source_eq, ?_⟩, hrules⟩, fun source hasFile => ?_⟩
      · rw [hpending]
        exact hother
      · have hpending : (s.withSource source hasFile).pending = .value o value := hpending
        rw [resolve, hpending]
        exact hsame source hasFile
  · have hfile : some path = none := congrArg Source.file ht.source_eq
    exact absurd hfile (by simp)

theorem indifferent_flag (f : Flag) : Indifferent fun s => s.flag f := by
  refine indifferent_resolve.bind ?_
  intro s t h ht
  obtain ⟨seen, hseen, h⟩ := bind_eq_ok_iff.mp h
  obtain rfl := Except.ok.inj h
  refine ⟨⟨⟨ht.source_eq, ht.pending_eq⟩, rfl, rfl, rfl, rfl⟩, fun source hasFile => ?_⟩
  simp only [withSource, hseen, ok_bind]
  rfl

theorem indifferent_option (o : ValueOption) (attached : Option String) :
    Indifferent fun s => s.option o attached := by
  cases attached with
  | some value => exact indifferent_resolve.bind (indifferent_store o value)
  | none =>
    intro s t h ht
    obtain ⟨u, hu, h⟩ := bind_eq_ok_iff.mp h
    obtain rfl := Except.ok.inj h
    -- what was pending is completed before the option waits for its value
    have hbare : u.Bare := by
      refine ⟨ht.source_eq, ?_⟩
      rw [(sameRules_of_resolve hu).2]
      rfl
    obtain ⟨⟨hsbare, hrules⟩, hsame⟩ := indifferent_resolve hu hbare
    refine ⟨⟨hsbare, hrules.trans ⟨rfl, rfl, rfl, rfl⟩⟩, fun source hasFile => ?_⟩
    simp only [option, hsame, ok_bind]
    rfl

theorem indifferent_long (text : List Char) : Indifferent fun s => s.long text := by
  refine .of_cases fun s => ?_
  cases hoption : s.options.find? (·.name == String.ofList (text.span (· ≠ '=')).1) with
  | some o =>
    obtain ⟨attached, heq⟩ : ∃ attached, ∀ source hasFile,
        (s.withSource source hasFile).long text
          = (s.withSource source hasFile).option o attached := by
      refine ⟨?attached, fun source hasFile => ?eq⟩
      case eq =>
        simp only [long, withSource, hoption]
        rfl
    exact ⟨_, indifferent_option o attached, heq⟩
  | none =>
    cases hflag : s.flags.find? (·.name == String.ofList (text.span (· ≠ '=')).1) with
    | some f =>
      -- a flag takes no value
      cases hattached : (text.span (· ≠ '=')).2 with
      | nil =>
        refine ⟨_, indifferent_flag f, fun source hasFile => ?_⟩
        simp only [long, withSource, hoption, hflag, hattached]
        rfl
      | cons _ value =>
        refine ⟨_, indifferent_error .refused, fun source hasFile => ?_⟩
        simp only [long, withSource, hoption, hflag, hattached]
        rfl
    | none =>
      refine ⟨_, indifferent_error .refused, fun source hasFile => ?_⟩
      simp only [long, withSource, hoption, hflag]

theorem indifferent_short (text : List Char) : Indifferent fun s => s.short text := by
  induction text with
  | nil => exact indifferent_ok
  | cons c rest ih =>
    refine .of_cases fun s => ?_
    cases hflag : s.flags.find? (·.letter == c) with
    | some f =>
      refine ⟨_, (indifferent_flag f).bind ih, fun source hasFile => ?_⟩
      simp only [short, withSource, hflag]
    | none =>
      by_cases hformat : c = 'f' ∧ s.options.contains .format = true
      · -- what is left of the group is the value, without an equals sign in front of it
        obtain ⟨rfl, hcontains⟩ := hformat
        cases rest with
        | nil =>
          refine ⟨_, indifferent_option .format none, fun source hasFile => ?_⟩
          simp only [short, withSource, hflag, hcontains, and_self, if_true]
        | cons d value =>
          refine ⟨_, indifferent_option .format
            (some (String.ofList (if d = '=' then value else d :: value))),
            fun source hasFile => ?_⟩
          simp only [short, withSource, hflag, hcontains, and_self, if_true]
          by_cases hd : d = '='
          · subst hd
            rfl
          · rw [if_neg hd]
            split
            · contradiction
            · next heq => exact absurd (List.cons.inj heq).1 hd
            · rfl
      · refine ⟨_, indifferent_error .refused, fun source hasFile => ?_⟩
        simp only [short, withSource, hflag, hformat, if_false]

theorem indifferent_plain (text : String) : Indifferent fun s => s.plain text := by
  intro s t h ht
  simp only [plain] at h
  split at h
  case h_1 o hpending htrailing =>
    obtain rfl := Except.ok.inj h
    have hbare : s.Bare := by
      refine ⟨ht.source_eq, ?_⟩
      rw [hpending]
      exact ht.pending_eq
    refine ⟨⟨hbare, rfl, rfl, rfl, rfl⟩, fun source hasFile => ?_⟩
    simp only [plain, withSource, hpending, htrailing]
  case h_2 =>
    -- a path would be pending
    split at h
    · exact absurd h (by simp)
    · obtain ⟨u, -, h⟩ := bind_eq_ok_iff.mp h
      obtain rfl := Except.ok.inj h
      exact absurd ht.pending_eq (by simp [Pending.onSource])

theorem indifferent_argument {text : String} (htext : text ≠ "--") :
    Indifferent fun s => s.argument text := by
  refine .of_cases fun s => ?_
  by_cases hdash : s.trailing ≠ true
      ∧ ∃ rest, text.toList = '-' :: rest ∧ ¬ (rest = [] ∨ s.takesDash rest = true)
  · obtain ⟨htrailing, rest, hrest, hletters⟩ := hdash
    by_cases hlong : rest.head? = some '-'
    · obtain ⟨long, rfl⟩ := List.head?_eq_some_iff.mp hlong
      have hne : long ≠ [] := by
        rintro rfl
        exact htext (String.toList_inj.mp hrest)
      exact ⟨_, indifferent_long long, fun _ _ => argument_eq_long htrailing hrest hne hletters⟩
    · exact ⟨_, indifferent_short rest,
        fun _ _ => argument_eq_short htrailing hrest hlong hletters⟩
  · refine ⟨_, indifferent_plain text, fun _ _ => argument_eq_plain fun htrailing rest hrest => ?_⟩
    exact Classical.byContradiction fun hletters => hdash ⟨htrailing, rest, hrest, hletters⟩

theorem indifferent_foldlM {args : List String} (hargs : "--" ∉ args) :
    Indifferent fun s => args.foldlM argument s := by
  induction args with
  | nil => exact indifferent_ok
  | cons text args ih =>
    have htext : text ≠ "--" := fun heq => hargs (heq ▸ List.mem_cons_self)
    simp only [List.foldlM_cons]
    exact (indifferent_argument htext).bind (ih fun hmem => hargs (List.mem_cons_of_mem _ hmem))

end Scan

/-! ### The end of the arguments -/

/-- A path and numbers were given together. -/
def Source.isMixed (source : Source) : Bool :=
  source.file.isSome
    && (source.objective.isSome || !source.constraints.isEmpty || source.rhs.isSome)

namespace Scan

/-- At the end what is pending is completed, and a path and numbers exclude each other. -/
theorem arguments_eq_ok_iff {s t : Scan} {args : List String} :
    s.arguments args = .ok t
      ↔ (args.foldlM argument s >>= resolve) = .ok t ∧ t.source.isMixed = false := by
  unfold arguments
  simp only [bind_eq_ok_iff]
  constructor
  · rintro ⟨u, hu, v, hv, h⟩
    split at h
    · obtain ⟨_, hrefused, -⟩ := bind_eq_ok_iff.mp h
      exact absurd hrefused nofun
    · next hmixed =>
      obtain rfl := Except.ok.inj h
      exact ⟨⟨u, hu, hv⟩, Bool.eq_false_iff.mpr hmixed⟩
  · rintro ⟨⟨u, hu, ht⟩, hmixed⟩
    exact ⟨u, hu, t, ht, if_neg (Bool.eq_false_iff.mp hmixed)⟩

/-- **Arguments that say nothing about the source** say the same with any source. -/
theorem arguments_withSource {s t : Scan} {args : List String} (hargs : "--" ∉ args)
    (h : s.arguments args = .ok t) (hsource : t.source = default) :
    (s.Bare ∧ s.SameRules t) ∧ ∀ source hasFile, source.isMixed = false →
      (s.withSource source hasFile).arguments args = .ok (t.withSource source hasFile) := by
  obtain ⟨hsteps, -⟩ := arguments_eq_ok_iff.mp h
  have ht : t.Bare := by
    obtain ⟨u, -, hresolve⟩ := bind_eq_ok_iff.mp hsteps
    refine ⟨hsource, ?_⟩
    rw [(sameRules_of_resolve hresolve).2]
    rfl
  obtain ⟨hs, hsame⟩ := (indifferent_foldlM hargs).bind indifferent_resolve hsteps ht
  exact ⟨hs, fun source hasFile hmixed =>
    arguments_eq_ok_iff.mpr ⟨hsame source hasFile, hmixed⟩⟩

/-! ### Arguments that set the source -/

/-- Nothing is pending and nothing was said about the source, and options still count. -/
structure Ready (s : Scan) : Prop where
  /-- Nothing is pending. -/
  pending_eq : s.pending = .nothing
  /-- No part of the source is known. -/
  source_eq : s.source = default
  /-- No path was given. -/
  hasFile_eq : s.hasFile = false
  /-- The options have not ended. -/
  trailing_eq : s.trailing = false
  /-- The options of the source are among those of the command. -/
  options_eq : ∃ own, s.options = ValueOption.ofSource ++ own

/-- The name of an option of the source finds it. -/
theorem find?_ofSource {o : ValueOption} (ho : o.takesAnything = true) (own : List ValueOption) :
    (ValueOption.ofSource ++ own).find? (·.name == o.name) = some o := by
  cases o
  case objective => rfl
  case constraint => rfl
  case rhs => rfl
  all_goals exact absurd ho (by decide)

/-- An option of the source waits for its value. -/
theorem argument_name {s : Scan} (hpending : s.pending = .nothing) (htrailing : s.trailing = false)
    {own : List ValueOption} (hoptions : s.options = ValueOption.ofSource ++ own)
    {o : ValueOption} (ho : o.takesAnything = true) :
    s.argument ("--" ++ o.name) = .ok { s with pending := .option o } := by
  have hname : ∀ o : ValueOption, o.takesAnything = true →
      ("--" ++ o.name).toList = '-' :: '-' :: o.name.toList ∧ o.name.toList ≠ []
        ∧ o.name.toList.span (· ≠ '=') = (o.name.toList, []) := by
    intro o
    cases o <;> decide
  obtain ⟨htext, hne, hspan⟩ := hname o ho
  have hdash : ¬ ('-' :: o.name.toList = [] ∨ s.takesDash ('-' :: o.name.toList) = true) := by
    simp [takesDash, hpending]
  rw [argument_eq_long (by simp [htrailing]) htext hne hdash]
  have hfind : s.options.find? (·.name == o.name) = some o := hoptions ▸ find?_ofSource ho own
  simp only [long, hspan, String.ofList_toList, hfind, option, resolve_of_pending hpending]
  rfl

/-- The argument after it is its value, whatever it looks like. -/
theorem argument_value {s : Scan} {o : ValueOption} (hpending : s.pending = .option o)
    (htrailing : s.trailing = false) (ho : o.takesAnything = true) (value : String) :
    s.argument value = .ok { s with pending := .value o value } := by
  rw [argument_eq_plain fun _ rest _ => .inr (by simp [takesDash, hpending, ho])]
  simp only [plain, hpending, htrailing]

/-- An option of the source with its value is taken up as a whole. -/
theorem arguments_option {s t : Scan} (hpending : s.pending = .nothing)
    (htrailing : s.trailing = false) {own : List ValueOption}
    (hoptions : s.options = ValueOption.ofSource ++ own) {o : ValueOption}
    (ho : o.takesAnything = true) {value : String} (hstore : s.store o value = .ok t)
    {rest : List String} (hrest : rest.head? ≠ some "--") :
    s.arguments (("--" ++ o.name) :: value :: rest) = t.arguments rest := by
  have hsame : { s with pending := .nothing } = s := by rw [← hpending]
  have hresolve : ({ s with pending := .value o value } : Scan).resolve = .ok t := by
    show Scan.store { s with pending := .nothing } o value = .ok t
    rw [hsame, hstore]
  calc s.arguments (("--" ++ o.name) :: value :: rest)
      = ({ s with pending := .option o } : Scan).arguments (value :: rest) :=
        arguments_cons (argument_name hpending htrailing hoptions ho) _
    _ = ({ s with pending := .value o value } : Scan).arguments rest :=
        arguments_cons (argument_value (s := { s with pending := .option o }) rfl htrailing ho
          value) _
    _ = t.arguments rest := arguments_of_resolve hresolve hrest

/-- Taken up in a state that is ready, the arguments set the source and change nothing else. -/
structure Supplies (args : List String) (source : Source) (hasFile : Bool) : Prop where
  /-- The source is either a path or numbers. -/
  not_mixed : source.isMixed = false
  /-- The options do not end here. -/
  head_ne : args.head? ≠ some "--"
  /-- The arguments after them start from the state with this source. -/
  arguments_eq : ∀ s : Scan, s.Ready → ∀ rest : List String, rest.head? ≠ some "--" →
    s.arguments (args ++ rest) = (s.withSource source hasFile).arguments rest

/-- What was accepted without a problem was in a ready state wherever it was complete. -/
theorem exists_ready {flags : List Flag} {options : List ValueOption} {front after : List String}
    {t : Scan} (hdashes : "--" ∉ front ++ after)
    (hfront : ∃ u, (start flags options).arguments front = .ok u)
    (h : (start flags options).arguments (front ++ after) = .ok t) (hsource : t.source = default) :
    ∃ s : Scan, s.Ready ∧ ∀ rest : List String, rest.head? ≠ some "--" →
      (start flags options).arguments (front ++ rest) = s.arguments rest := by
  obtain ⟨u, hu⟩ := hfront
  obtain ⟨v, hv, hresolve⟩ := bind_eq_ok_iff.mp (arguments_eq_ok_iff.mp hu).1
  have hafter : "--" ∉ after := fun hmem => hdashes (List.mem_append_right _ hmem)
  have hfront : "--" ∉ front := fun hmem => hdashes (List.mem_append_left _ hmem)
  have hhead : after.head? ≠ some "--" := fun heq => hafter (List.mem_of_mem_head? heq)
  rw [arguments_append hv, arguments_of_resolve hresolve hhead] at h
  obtain ⟨⟨hbare, -⟩, -⟩ := arguments_withSource hafter h hsource
  obtain ⟨hresolved, hpending⟩ := sameRules_of_resolve hresolve
  obtain ⟨⟨hvbare, -⟩, -⟩ := indifferent_resolve hresolve hbare
  obtain ⟨⟨-, hscanned⟩, -⟩ := indifferent_foldlM hfront hv hvbare
  have hrules := hscanned.trans hresolved
  refine ⟨u, ⟨hpending, hbare.source_eq, hrules.hasFile_eq, hrules.trailing_eq, options,
    hrules.options_eq⟩, fun rest hrest => ?_⟩
  rw [arguments_append hv, arguments_of_resolve hresolve hrest]

/-- **Supplied among other arguments**, a source is set, and all else is as without it. -/
theorem arguments_supplied {flags : List Flag} {options : List ValueOption}
    {front after args : List String} {t : Scan} {source : Source} {hasFile : Bool}
    (hdashes : "--" ∉ front ++ after)
    (hfront : ∃ u, (start flags options).arguments front = .ok u)
    (h : (start flags options).arguments (front ++ after) = .ok t) (hsource : t.source = default)
    (hargs : Supplies args source hasFile) :
    (start flags options).arguments (front ++ (args ++ after))
      = .ok (t.withSource source hasFile) := by
  obtain ⟨s, hs, heq⟩ := exists_ready hdashes hfront h hsource
  have hafter : "--" ∉ after := fun hmem => hdashes (List.mem_append_right _ hmem)
  have hhead : after.head? ≠ some "--" := fun heq => hafter (List.mem_of_mem_head? heq)
  rw [heq after hhead] at h
  obtain ⟨-, hsame⟩ := arguments_withSource hafter h hsource
  have hall : (args ++ after).head? ≠ some "--" := by
    cases args with
    | nil => exact hhead
    | cons text args => exact hargs.head_ne
  rw [heq _ hall, hargs.arguments_eq s hs after hhead, hsame source hasFile hargs.not_mixed]

end Scan

/-! ### Whole invocations -/

/-- The command with another source. -/
def Command.withSource (source : Source) : Command → Command
  | .solve _ maxIterations tolerance format steps =>
    .solve source maxIterations tolerance format steps
  | .check _ => .check source

/-- What stands in front of a command does not depend on the arguments after it. -/
theorem exists_command_of_parseFrom {before : Flags} {front : List String} {i : Invocation}
    (h : parseFrom before front = .ok i) :
    ∃ (flags : Flags) (name : String) (args : List String), args ⊆ front
      ∧ (∃ result, parseCommand name args = .ok result)
      ∧ ∀ rest, parseFrom before (front ++ rest) = (do
          let (after, command) ← parseCommand name (args ++ rest)
          return ⟨verbosity flags after, command⟩) := by
  induction front generalizing before with
  | nil => exact absurd h nofun
  | cons text front ih =>
    rw [parseFrom] at h
    split at h
    case h_1 hdash =>
      obtain ⟨s, hs, hrest⟩ := bind_eq_ok_iff.mp h
      split at hrest
      · obtain ⟨_, hrefused, -⟩ := bind_eq_ok_iff.mp hrest
        exact absurd hrefused nofun
      · next hend =>
        obtain ⟨flags, name, args, hsub, hcommand, heq⟩ := ih hrest
        refine ⟨flags, name, args, fun a ha => List.mem_cons_of_mem _ (hsub ha), hcommand,
          fun rest => ?_⟩
        rw [List.cons_append, parseFrom]
        split
        · simp only [hs, ok_bind]
          rw [if_neg hend]
          exact heq rest
        · next hname => exact absurd hdash (hname _)
    case h_2 hname =>
      obtain ⟨result, hcommand, -⟩ := bind_eq_ok_iff.mp h
      refine ⟨before, text, front, fun a ha => List.mem_cons_of_mem _ ha, ⟨result, hcommand⟩,
        fun rest => ?_⟩
      rw [List.cons_append, parseFrom]
      split
      · next hdash => exact absurd hdash (hname _)
      · rfl

/-- **A command with a source among its arguments** is the command without one, with that source. -/
theorem parseCommand_supplied {name : String} {front after args : List String} {flags : Flags}
    {command : Command} {source : Source} {hasFile : Bool} (hdashes : "--" ∉ front ++ after)
    (hfront : ∃ result, parseCommand name front = .ok result)
    (h : parseCommand name (front ++ after) = .ok (flags, command))
    (hsource : command.source = default) (hargs : Scan.Supplies args source hasFile) :
    parseCommand name (front ++ (args ++ after)) = .ok (flags, command.withSource source) := by
  obtain ⟨result, hfront⟩ := hfront
  unfold parseCommand at hfront h ⊢
  split
  case isTrue hsolve =>
    rw [if_pos hsolve] at hfront h
    obtain ⟨u, hu, -⟩ := bind_eq_ok_iff.mp hfront
    obtain ⟨t, ht, hresult⟩ := bind_eq_ok_iff.mp h
    obtain ⟨rfl, rfl⟩ := Prod.mk.inj (Except.ok.inj hresult)
    rw [Scan.arguments_supplied hdashes ⟨u, hu⟩ ht hsource hargs]
    rfl
  case isFalse hsolve =>
    rw [if_neg hsolve] at hfront h
    split
    case isTrue hcheck =>
      rw [if_pos hcheck] at hfront h
      obtain ⟨u, hu, -⟩ := bind_eq_ok_iff.mp hfront
      obtain ⟨t, ht, hresult⟩ := bind_eq_ok_iff.mp h
      obtain ⟨rfl, rfl⟩ := Prod.mk.inj (Except.ok.inj hresult)
      rw [Scan.arguments_supplied hdashes ⟨u, hu⟩ ht hsource hargs]
      rfl
    case isFalse hcheck =>
      rw [if_neg hcheck] at h
      exact absurd h nofun

/-- **An invocation with a source among its arguments** is the one without, with that source. -/
theorem parse_supplied {front after args : List String} {i : Invocation} {source : Source}
    {hasFile : Bool} (hdashes : "--" ∉ front ++ after) (hfront : ∃ j, parse front = .ok j)
    (h : parse (front ++ after) = .ok i) (hsource : i.command.source = default)
    (hargs : Scan.Supplies args source hasFile) :
    parse (front ++ (args ++ after)) = .ok ⟨i.verbosity, i.command.withSource source⟩ := by
  obtain ⟨j, hj⟩ := hfront
  obtain ⟨flags, name, own, hsub, hcommand, heq⟩ := exists_command_of_parseFrom hj
  unfold parse at h ⊢
  rw [heq] at h ⊢
  obtain ⟨⟨seen, command⟩, hresult, hi⟩ := bind_eq_ok_iff.mp h
  obtain rfl := Except.ok.inj hi
  have hown : "--" ∉ own ++ after := by
    intro hmem
    refine hdashes ?_
    rcases List.mem_append.mp hmem with hmem | hmem
    · exact List.mem_append_left _ (hsub hmem)
    · exact List.mem_append_right _ hmem
  rw [parseCommand_supplied hown hcommand hresult hsource hargs]
  rfl

end SimplexTableau.CommandLine
