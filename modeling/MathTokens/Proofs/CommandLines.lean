import MathTokens.CommandLine.Arguments

/-!
# Command lines that spell choices

A choice is an option with its value attached, spelled in full. Choices can be spelled in any order and
any number, with the input behind the separator, or anywhere among them if it starts with no dash. Such
a command line is read back as the input and, for each setting, the last choice that concerns it.
-/

namespace MathTokens

inductive Choice where
  /-- The separator is no value: attached to a flag it is dropped. -/
  | output (value : Text) (h : value ≠ ['-', '-'])
  | config (value : Text) (h : value ≠ ['-', '-'])
  | format (f : Format)
  | places (shown : Bool)
  | debug
deriving DecidableEq

namespace Choice

def spelling : Choice → Text
  | output v _ => "--output=".toList ++ v
  | config v _ => "--config=".toList ++ v
  | format f => "--format=".toList ++ f.name
  | places true => "--spans".toList
  | places false => "--no-spans".toList
  | debug => "--debug".toList

def output? : Choice → Option Text
  | output v _ => some v
  | _ => none

def config? : Choice → Option Text
  | config v _ => some v
  | _ => none

def format? : Choice → Option Format
  | format f => some f
  | _ => none

def places? : Choice → Option Bool
  | places shown => some shown
  | _ => none

/-- The word that the spelling is told to be. -/
def word : Choice → Word
  | output v _ => .flag .output false (some v)
  | config v _ => .flag .config false (some v)
  | format f => .flag .format false (some f.name)
  | places shown => .flag (.places shown) false none
  | debug => .flag .debug false none

end Choice

def Setting.ofLast {α : Type} (values : List α) : Setting α :=
  values.getLast?.elim .unset .set

/-- The arguments that the choices `cs` and the input come to. -/
def Arguments.ofChoices (cs : List Choice) (input : Text) : Arguments where
  input := input
  output := .ofLast (cs.filterMap Choice.output?)
  format := .ofLast (cs.filterMap Choice.format?)
  places? := (cs.filterMap Choice.places?).getLast?
  config := .ofLast (cs.filterMap Choice.config?)
  debug := .debug ∈ cs

/-! ## Words -/

theorem Flag.ofSpelling?_eq_none_of_mem {t : Text} (h : '=' ∈ t) : Flag.ofSpelling? t = none := by
  have hfree : ∀ s ∈ Flag.spellings, '=' ∉ s.1 := by decide
  refine List.lookup_eq_none_iff.mpr fun s hs => ?_
  have hne : t ≠ s.1 := fun e => hfree s hs (e ▸ h)
  simpa using hne

namespace Word

theorem ofText_of_spelling {f : Flag} {s : Text} (hf : Flag.ofSpelling? ('-' :: s) = some f) :
    ofText ('-' :: s) = .ok (flag f (isShort ('-' :: s)) none) := by
  simp [ofText, hf]

theorem ofText_attached {f : Flag} {s : Text} (v : Text) (hs : '=' ∉ '-' :: s)
    (hf : Flag.ofSpelling? ('-' :: s) = some f) :
    ofText ('-' :: s ++ '=' :: v) = .ok (flag f (isShort ('-' :: s)) (some v)) := by
  have hfree : ∀ c ∈ '-' :: s, decide (c ≠ '=') = true := by
    intro c hc
    have hne : c ≠ '=' := fun e => hs (e ▸ hc)
    simpa using hne
  have hstop : ∀ c, ('=' :: v).head? = some c → decide (c ≠ '=') = false := by simp
  have hsplit : splitValue ('-' :: s ++ '=' :: v) = ('-' :: s, some v) := by
    rw [splitValue, Text.takeWhile_append_of_stop hfree hstop, Text.dropWhile_append_of_stop hfree hstop]
    rfl
  have hnone : Flag.ofSpelling? ('-' :: s ++ '=' :: v) = none :=
    Flag.ofSpelling?_eq_none_of_mem (by simp)
  have hattached : attachedFlag? ('-' :: s ++ '=' :: v) = some (flag f (isShort ('-' :: s)) (some v)) := by
    simp only [attachedFlag?, hsplit, hf, Option.map_some]
  rw [List.cons_append] at hnone hattached ⊢
  simp [ofText, hnone, hattached]

theorem ofText_of_no_dash {t : Text} (h : t.head? ≠ some '-') : ofText t = .ok (plain t) := by
  cases t with
  | nil => rfl
  | cons c t =>
    have hc : c ≠ '-' := fun e => h (by rw [e]; rfl)
    simp [ofText, hc]

theorem ofText_choice (c : Choice) : ofText c.spelling = .ok c.word := by
  cases c with
  | output v => exact ofText_attached (s := "-output".toList) v (by decide) (by decide)
  | config v => exact ofText_attached (s := "-config".toList) v (by decide) (by decide)
  | format f => exact ofText_attached (s := "-format".toList) f.name (by decide) (by decide)
  | places shown =>
    cases shown with
    | true => exact ofText_of_spelling (s := "-spans".toList) (by decide)
    | false => exact ofText_of_spelling (s := "-no-spans".toList) (by decide)
  | debug => exact ofText_of_spelling (s := "-debug".toList) (by decide)

theorem spelling_ne_separator (c : Choice) : c.spelling ≠ ['-', '-'] := by
  intro h
  -- two dashes alone are the beginning of several flags
  have hambiguous : (ofText ['-', '-']).isOk = false := by decide
  rw [← h, ofText_choice] at hambiguous
  cases hambiguous

theorem listOf_cons {t : Text} {w : Word} {ts : List Text} {ws : List Word} (ht : t ≠ ['-', '-'])
    (hw : ofText t = .ok w) (hws : listOf ts = .ok ws) : listOf (t :: ts) = .ok (w :: ws) := by
  rw [listOf, if_neg ht, hw, hws]
  rfl

theorem listOf_choices {ts : List Text} {ws : List Word} (cs : List Choice) (h : listOf ts = .ok ws) :
    listOf (cs.map Choice.spelling ++ ts) = .ok (cs.map Choice.word ++ ws) := by
  induction cs with
  | nil => exact h
  | cons c cs ih => exact listOf_cons (spelling_ne_separator c) (ofText_choice c) ih

end Word

/-! ## Reading the words -/

namespace Arguments

namespace Partial

/-- What a choice does to what has been read. -/
def choose (p : Partial) : Choice → Partial
  | .output v _ => { p with output := .set v, atInput := false }
  | .config v _ => { p with config := .set v, atInput := false }
  | .format f => { p with format := .set f, atInput := false }
  | .places shown => { p with places? := some shown, atInput := false }
  | .debug => { p with debug := true, atInput := false }

/-- The choices `cs` have been read, and the input if there is one. -/
structure Holds (cs : List Choice) (input? : Option Text) (p : Partial) : Prop where
  input? : p.input? = input?
  output : p.output = .ofLast (cs.filterMap Choice.output?)
  format : p.format = .ofLast (cs.filterMap Choice.format?)
  places? : p.places? = (cs.filterMap Choice.places?).getLast?
  config : p.config = .ofLast (cs.filterMap Choice.config?)
  debug : p.debug = decide (.debug ∈ cs)
  unused : p.unused = []

variable {cs : List Choice} {input? : Option Text} {p : Partial}

theorem holds_start : Holds [] none {} :=
  ⟨rfl, rfl, rfl, rfl, rfl, rfl, rfl⟩

theorem Holds.choose (h : Holds cs input? p) (c : Choice) : Holds (cs ++ [c]) input? (p.choose c) where
  input? := by cases c <;> exact h.input?
  output := by cases c <;> simp [Partial.choose, h.output, Choice.output?, Setting.ofLast]
  format := by cases c <;> simp [Partial.choose, h.format, Choice.format?, Setting.ofLast]
  places? := by cases c <;> simp [Partial.choose, h.places?, Choice.places?]
  config := by cases c <;> simp [Partial.choose, h.config, Choice.config?, Setting.ofLast]
  debug := by cases c <;> simp [Partial.choose, h.debug]
  unused := by cases c <;> exact h.unused

theorem Holds.chooseAll (h : Holds cs input? p) (ds : List Choice) :
    Holds (cs ++ ds) input? (ds.foldl Partial.choose p) := by
  induction ds generalizing cs p with
  | nil => rwa [List.append_nil]
  | cons d ds ih =>
    rw [List.append_cons]
    exact ih (h.choose d)

theorem Holds.plain (h : Holds cs none p) (input : Text) : Holds cs (some input) (p.plain input) := by
  obtain ⟨h1, h2, h3, h4, h5, h6, h7⟩ := h
  unfold Partial.plain
  rw [h1]
  exact ⟨rfl, h2, h3, h4, h5, h6, h7⟩

theorem Holds.separator_eq (h : Holds cs none p) : p.separator = p := by
  simp [Partial.separator, h.input?]

theorem Holds.complete_eq {input : Text} (h : Holds cs (some input) p) :
    complete p = .ok (ofChoices cs input) := by
  unfold complete ofChoices
  rw [h.input?, h.output, h.format, h.places?, h.config, h.debug, h.unused]
  rfl

end Partial

section
variable {p p' : Partial} {f : Flag} {short : Bool}

theorem readWords_attached {v : Text} (ws : List Word) (hf : f.takesValue = true) (hp : p.value f v = .ok p') :
    readWords p (.flag f short (some v) :: ws) = readWords p' ws := by
  rw [readWords, if_pos hf, hp]
  rfl

theorem readWords_switch (ws : List Word) (hf : f.takesValue = false) (hp : p.switch f = .ok p') :
    readWords p (.flag f short none :: ws) = readWords p' ws := by
  cases ws with
  | nil => simp [readWords, hf, hp]
  | cons w ws => simp [readWords, hf, hp, bind, Except.bind]

theorem settingOf_of_ne {v : Text} (h : v ≠ ['-', '-']) : settingOf v = .set v := by
  simp [settingOf, isSeparator, h]

theorem readWords_choice (p : Partial) (c : Choice) (ws : List Word) :
    readWords p (c.word :: ws) = readWords (p.choose c) ws := by
  cases c with
  | output v h => exact readWords_attached ws rfl (by rw [Partial.value, settingOf_of_ne h]; rfl)
  | config v h => exact readWords_attached ws rfl (by rw [Partial.value, settingOf_of_ne h]; rfl)
  | format f => exact readWords_attached ws rfl (by cases f <;> rfl)
  | places shown => exact readWords_switch ws rfl rfl
  | debug => exact readWords_switch ws rfl rfl

theorem readWords_choices (p : Partial) (cs : List Choice) (ws : List Word) :
    readWords p (cs.map Choice.word ++ ws) = readWords (cs.foldl Partial.choose p) ws := by
  induction cs generalizing p with
  | nil => rfl
  | cons c cs ih => rw [List.map_cons, List.cons_append, readWords_choice, ih, List.foldl_cons]

theorem ofCommandLine_of_holds {ts : List Text} {ws : List Word} {cs : List Choice} {input : Text}
    (hts : Word.listOf ts = .ok ws) (hws : readWords {} ws = .ok p) (h : p.Holds cs (some input)) :
    ofCommandLine ts = .ok (ofChoices cs input) := by
  simp only [ofCommandLine, hts, hws]
  exact h.complete_eq

end

/-- **Command lines.** The choices and the input that a command line spells are what is read off it. The
input is any text behind the separator, or a text that starts with no dash at any place. -/
theorem ofCommandLine_choices (cs : List Choice) (input : Text) :
    ofCommandLine (cs.map Choice.spelling ++ [['-', '-'], input]) = .ok (ofChoices cs input) ∧
      (input.head? ≠ some '-' → ∀ before after, cs = before ++ after →
        ofCommandLine (before.map Choice.spelling ++ input :: after.map Choice.spelling) =
          .ok (ofChoices cs input)) := by
  refine ⟨?_, fun hinput before after hcs => ?_⟩
  · have hinputs : Word.listOf [['-', '-'], input] = .ok [.separator, .plain input] := rfl
    have hread := Partial.holds_start.chooseAll cs
    refine ofCommandLine_of_holds (Word.listOf_choices cs hinputs) ?_ (hread.plain input)
    rw [readWords_choices, readWords, hread.separator_eq, readWords, readWords]
  · subst hcs
    rw [← List.append_nil (after.map Choice.spelling)]
    have hne : input ≠ ['-', '-'] := fun e => hinput (by rw [e]; rfl)
    have hafter := Word.listOf_choices after (show Word.listOf [] = .ok [] from rfl)
    have hwords := Word.listOf_choices before (Word.listOf_cons hne (Word.ofText_of_no_dash hinput) hafter)
    have hread := (Partial.holds_start.chooseAll before).plain input
    refine ofCommandLine_of_holds hwords ?_ (hread.chooseAll after)
    rw [readWords_choices, readWords, readWords_choices, readWords]

/-- Values that look like options, one of them replaced by an empty one, with the input between them. -/
theorem ofCommandLine_choices_between :
    let before : List Choice := [.output "--debug".toList (by decide), .places true]
    let after : List Choice := [.config "a=-".toList (by decide), .output [] (by decide), .places false]
    let input := ['a', ' ', 'b']
    input.head? ≠ some '-' ∧
      before.map Choice.spelling = ["--output=--debug".toList, "--spans".toList] ∧
      ofCommandLine (before.map Choice.spelling ++ input :: after.map Choice.spelling) =
        .ok ⟨input, .set [], .unset, some false, .set "a=-".toList, false⟩ := by
  intro before after input
  have hinput : input.head? ≠ some '-' := by decide
  exact ⟨hinput, rfl, (ofCommandLine_choices (before ++ after) input).2 hinput before after rfl⟩

end Arguments

end MathTokens
