import MathTokens.Proofs.Effects

/-!
# Precedence of settings

One configuration file is read: the one that the command line names, or else the one beside the
input. What the command line leaves open is taken from it, and what both leave open has a default. A
form of listing that the configuration gives has to exist, whatever the command line says.
-/

namespace MathTokens

namespace Settings

/-- The table of the configuration that is selected: of the file that the command line names, or else
of the file beside the input, or else of nothing. -/
inductive Selects (disk : Disk) (a : Arguments) : Toml.Table → Prop
  | named {name content table} : a.config = .set name → name ≠ [] → disk (.ofText name) = .ok content →
      Config.ofBytes content = .ok table → Selects disk a table
  | beside {content table} : (∀ name, a.config = .set name → name = []) →
      disk ((Path.ofText a.input).parent.join Config.fileName) = .ok content →
      Config.ofBytes content = .ok table → Selects disk a table
  | nothing {f} : (∀ name, a.config = .set name → name = []) →
      disk ((Path.ofText a.input).parent.join Config.fileName) = .error f → f ≠ .nameTooLong →
      Selects disk a []

/-- The configuration has an entry about the listing. -/
def Gives (table : Toml.Table) (name : String) (value : Toml) : Prop :=
  ∃ entries, table.lookup "output".toList = some (.table entries) ∧
    entries.lookup name.toList = some value

/-- The faults that are told to the user as wrong arguments. -/
inductive Fault.IsRefusal : Fault → Prop
  | missing (file : Path) : IsRefusal (.config (.missing file))
  | unknownFormat (shown : Text) : IsRefusal (.unknownFormat shown)

/-- The settings are what the command line says, or else the configuration `table`, or else the
defaults. -/
structure Follows (s : Settings) (a : Arguments) (table : Toml.Table) : Prop where
  input : s.input = .ofText a.input
  output : ∀ p, s.output? = some p ↔ ∃ name, a.output = .set name ∧ name ≠ [] ∧ p = .ofText name
  debug : s.debug = a.debug
  format_given : ∀ f, a.format = .set f → s.format? = some f
  format_emptied : a.format = .emptied → s.format? = none
  format_config : a.format = .unset → ∀ f : Format, Gives table "format" (.string f.name) →
    s.format? = some f
  format_default : a.format = .unset → (∀ value, ¬Gives table "format" value) → s.format? = some .text
  places_given : ∀ b, a.places? = some b → s.places = b
  places_config : a.places? = none → ∀ b, Gives table "spans" (.bool b) → s.places = b
  places_default : a.places? = none → (∀ b, ¬Gives table "spans" (.bool b)) → s.places = false

/-! ## The configuration that is selected -/

section
variable {disk disk' : Disk} {a : Arguments} {table : Toml.Table} {name : String} {value : Toml}

theorem pathOf?_eq_none_iff {given : Setting Text} :
    pathOf? given = none ↔ ∀ name, given = .set name → name = [] := by
  constructor
  · intro h name hname
    by_contra hne
    cases h.symm.trans (pathOf?_eq_some_iff.mpr ⟨name, hname, hne, rfl⟩)
  · intro h
    rw [Option.eq_none_iff_forall_ne_some]
    intro p hp
    obtain ⟨name, hname, hne, -⟩ := pathOf?_eq_some_iff.mp hp
    exact hne (h name hname)

theorem load_eq_ok_iff {named? : Option Path} {folder : Path} :
    Config.load disk named? folder = .ok table ↔
      (∃ content, disk (Config.source named? folder) = .ok content ∧ Config.ofBytes content = .ok table) ∨
      named? = none ∧ table = [] ∧
        ∃ f, disk (Config.source named? folder) = .error f ∧ f ≠ .nameTooLong := by
  cases hread : disk (Config.source named? folder) with
  | ok content => simp [Config.load_of_ok hread]
  | error f =>
    -- a file that is named and cannot be read is a fault of one kind or the other
    by_cases hf : f = .nameTooLong
    · simp [Config.load, hread, hf]
    · rw [Config.load_of_error hread hf]
      cases named? <;> simp [hf, eq_comm]

theorem selects_iff : Selects disk a table ↔ config disk a = .ok table := by
  rw [config, load_eq_ok_iff]
  constructor
  · intro h
    cases h with
    | named hname hne hread htable =>
      rw [pathOf?_eq_some_iff.mpr ⟨_, hname, hne, rfl⟩]
      exact .inl ⟨_, hread, htable⟩
    | beside hname hread htable =>
      rw [pathOf?_eq_none_iff.mpr hname]
      exact .inl ⟨_, hread, htable⟩
    | nothing hname hread hf =>
      rw [pathOf?_eq_none_iff.mpr hname]
      exact .inr ⟨rfl, rfl, _, hread, hf⟩
  · intro h
    cases hpath : pathOf? a.config with
    | some p =>
      obtain ⟨name, hname, hne, rfl⟩ := pathOf?_eq_some_iff.mp hpath
      rw [hpath] at h
      obtain ⟨content, hread, htable⟩ | ⟨hnone, -⟩ := h
      · exact .named hname hne hread htable
      · cases hnone
    | none =>
      have hname := pathOf?_eq_none_iff.mp hpath
      rw [hpath] at h
      obtain ⟨content, hread, htable⟩ | ⟨-, rfl, f, hread, hf⟩ := h
      · exact .beside hname hread htable
      · exact .nothing hname hread hf

theorem gives_iff : Gives table name value ↔ (outputEntries table).lookup name.toList = some value := by
  unfold Gives outputEntries
  split
  · next entries h =>
    constructor
    · rintro ⟨entries', h', hvalue⟩
      obtain rfl := Toml.table.inj (Option.some.inj (h.symm.trans h'))
      exact hvalue
    · exact fun hvalue => ⟨entries, h, hvalue⟩
  · next h =>
    constructor
    · rintro ⟨entries, hentries, -⟩
      exact absurd hentries (h entries)
    · intro hvalue
      cases hvalue

/-! ## What is made of it -/

theorem ofName?_eq_some_iff {t : Text} {f : Format} : Format.ofName? t = some f ↔ t = f.name := by
  constructor
  · intro h
    have hname : f.name = t := by simpa using List.find?_some h
    exact hname.symm
  · rintro rfl
    cases f <;> rfl

theorem namesFormat_iff :
    NamesFormat value ↔ value = .string "text".toList ∨ value = .string "json".toList := by
  constructor
  · rintro ⟨t, f, rfl, hf⟩
    obtain rfl := ofName?_eq_some_iff.mp hf
    cases f with
    | text => exact .inl rfl
    | json => exact .inr rfl
  · rintro (rfl | rfl)
    · exact ⟨_, .text, rfl, rfl⟩
    · exact ⟨_, .json, rfl, rfl⟩

theorem isRefusal_ofFormat_iff :
    (Fault.ofFormat value).IsRefusal ↔ ∃ shown, value.shown = .ok shown := by
  unfold Fault.ofFormat
  cases value.shown with
  | ok shown => exact ⟨fun _ => ⟨shown, rfl⟩, fun _ => .unknownFormat shown⟩
  | error f =>
    constructor
    · intro h
      cases h
    · rintro ⟨shown, h⟩
      cases h

theorem refusal_iff :
    (∃ f, resolve disk a = .error f ∧ f.IsRefusal) ↔
      (∃ name f, a.config = .set name ∧ name ≠ [] ∧ disk (.ofText name) = .error f ∧
        f ≠ .nameTooLong) ∨
      ∃ table value shown, Selects disk a table ∧ Gives table "format" value ∧
        value ≠ .string "text".toList ∧ value ≠ .string "json".toList ∧ value.shown = .ok shown := by
  constructor
  · rintro ⟨f, hf, hrefusal⟩
    cases resolve_eq_error_iff.mp hf with
    | config h =>
      cases hrefusal with
      | missing file =>
        cases h with
        | missing hnamed hread hlong =>
          obtain ⟨name, hname, hne, rfl⟩ := pathOf?_eq_some_iff.mp hnamed
          exact .inl ⟨name, _, hname, hne, hread, hlong⟩
    | format h hvalue hname =>
      obtain ⟨shown, hshown⟩ := isRefusal_ofFormat_iff.mp hrefusal
      rw [namesFormat_iff, not_or] at hname
      exact .inr ⟨_, _, shown, selects_iff.mpr h, gives_iff.mpr hvalue, hname.1, hname.2, hshown⟩
  · rintro (⟨name, f, hname, hne, hread, hlong⟩ | ⟨table, value, shown, h, hvalue, htext, hjson, hshown⟩)
    · have hpath := pathOf?_eq_some_iff.mpr ⟨name, hname, hne, rfl⟩
      exact ⟨_, resolve_eq_error_iff.mpr (.config (.missing hpath hread hlong)), .missing _⟩
    · have hnames : ¬NamesFormat value := by
        rw [namesFormat_iff, not_or]
        exact ⟨htext, hjson⟩
      exact ⟨_, resolve_eq_error_iff.mpr (.format (selects_iff.mp h) (gives_iff.mp hvalue) hnames),
        isRefusal_ofFormat_iff.mpr ⟨shown, hshown⟩⟩

theorem configFormat_eq_some_iff {f : Format} :
    configFormat (outputEntries table) = .ok (some f) ↔ Gives table "format" (.string f.name) := by
  rw [gives_iff, configFormat]
  cases (outputEntries table).lookup "format".toList with
  | none => simp
  | some value =>
    cases value with
    | string t =>
      have hname := ofName?_eq_some_iff (t := t) (f := f)
      cases h : Format.ofName? t with
      | none => simp [← hname, h]
      | some => simp [← hname, h]
    | _ => simp

theorem configFormat_eq_none_iff :
    configFormat (outputEntries table) = .ok none ↔ ∀ value, ¬Gives table "format" value := by
  simp only [gives_iff]
  rw [configFormat]
  cases (outputEntries table).lookup "format".toList with
  | none => simp
  | some value =>
    cases value with
    | string t => cases h : Format.ofName? t <;> simp [h]
    | _ => simp

theorem configPlaces_eq_some_iff {b : Bool} :
    configPlaces (outputEntries table) = some b ↔ Gives table "spans" (.bool b) := by
  rw [gives_iff, configPlaces]
  split
  · next c h =>
    rw [h]
    simp
  · next h => simpa using h b

theorem configPlaces_eq_none_iff :
    configPlaces (outputEntries table) = none ↔ ∀ b, ¬Gives table "spans" (.bool b) := by
  simp only [← configPlaces_eq_some_iff, Option.eq_none_iff_forall_ne_some, ne_eq]

theorem resolve_follows (h : Selects disk a table)
    (hformat : ∀ value, Gives table "format" value → NamesFormat value) :
    ∃ s, resolve disk a = .ok s ∧ s.Follows a table := by
  rw [resolve_eq, selects_iff.mp h]
  cases hok : configFormat (outputEntries table) with
  | error f =>
    obtain ⟨value, hvalue, hname, -⟩ := configFormat_eq_error_iff.mp hok
    exact absurd (hformat value (gives_iff.mpr hvalue)) hname
  | ok format? =>
    simp only [hok, Except.map]
    refine ⟨_, rfl, rfl, fun p => pathOf?_eq_some_iff, rfl, ?_, ?_, ?_, ?_, ?_, ?_, ?_⟩
    · intro f hf
      simp only [hf, chooseFormat]
    · intro hf
      simp only [hf, chooseFormat]
    · intro hf f hgives
      obtain rfl := Except.ok.inj (hok.symm.trans (configFormat_eq_some_iff.mpr hgives))
      simp only [hf, chooseFormat, Option.getD_some]
    · intro hf hgives
      obtain rfl := Except.ok.inj (hok.symm.trans (configFormat_eq_none_iff.mpr hgives))
      simp only [hf, chooseFormat, Option.getD_none]
    · intro b hb
      simp only [hb, Option.getD_some]
    · intro hb b hgives
      simp only [hb, configPlaces_eq_some_iff.mpr hgives, Option.getD_none, Option.getD_some]
    · intro hb hgives
      simp only [hb, configPlaces_eq_none_iff.mpr hgives, Option.getD_none]

/-! ## What is read for it -/

theorem resolve_congr
    (h : disk' (Config.source (pathOf? a.config) (Path.ofText a.input).parent) =
      disk (Config.source (pathOf? a.config) (Path.ofText a.input).parent)) :
    resolve disk' a = resolve disk a := by
  have hconfig : config disk' a = config disk a := by
    unfold config Config.load
    dsimp only
    rw [h]
  rw [resolve_eq, resolve_eq, hconfig]

theorem resolve_eq_of_selects (h : Selects disk a table) (h' : Selects disk' a table) :
    resolve disk' a = resolve disk a := by
  rw [resolve_eq, resolve_eq, selects_iff.mp h, selects_iff.mp h']

theorem ofBytes_form_and_number :
    ∃ table, Config.ofBytes (Utf8.encode "[output]\nformat = 'json'\nspans = 1".toList) = .ok table ∧
      configFormat (outputEntries table) = .ok (some .json) ∧
      configPlaces (outputEntries table) = none := by
  -- tables have no decidable equality, so what is read off this one is compared
  have hread :
      (Config.ofBytes (Utf8.encode "[output]\nformat = 'json'\nspans = 1".toList)).toOption.map
          (fun table => ((configFormat (outputEntries table)).toOption, configPlaces (outputEntries table))) =
        some (some (some .json), none) := by
    decide +kernel
  cases htable : Config.ofBytes (Utf8.encode "[output]\nformat = 'json'\nspans = 1".toList) with
  | error =>
    rw [htable] at hread
    cases hread
  | ok table =>
    rw [htable] at hread
    obtain ⟨hformat, hplaces⟩ := Prod.mk.inj (Option.some.inj hread)
    refine ⟨table, rfl, ?_, hplaces⟩
    cases hok : configFormat (outputEntries table) with
    | error =>
      rw [hok] at hformat
      cases hformat
    | ok format? =>
      rw [hok] at hformat
      rw [Option.some.inj hformat]

/-- **Precedence.** Wrong arguments are told exactly if the file that the command line names cannot be
read, or if the configuration that is selected gives a form of listing that does not exist, as long as no
name is too long and the form can be shown. A configuration that gives no such form leads to the settings
that follow it. Files with the same configuration lead to the same settings, and so do files that only
agree on the one that is selected. -/
theorem resolve_precedence (disk : Disk) (a : Arguments) :
    ((∃ f, resolve disk a = .error f ∧ f.IsRefusal) ↔
      (∃ name f, a.config = .set name ∧ name ≠ [] ∧ disk (.ofText name) = .error f ∧
        f ≠ .nameTooLong) ∨
      ∃ table value shown, Selects disk a table ∧ Gives table "format" value ∧
        value ≠ .string "text".toList ∧ value ≠ .string "json".toList ∧ value.shown = .ok shown) ∧
    (∀ table, Selects disk a table →
      (∀ value, Gives table "format" value →
        value = .string "text".toList ∨ value = .string "json".toList) →
      ∃ s, resolve disk a = .ok s ∧ s.Follows a table) ∧
    (∀ disk' table, Selects disk a table → Selects disk' a table → resolve disk' a = resolve disk a) ∧
    (∀ disk' name, a.config = .set name → name ≠ [] → disk' (.ofText name) = disk (.ofText name) →
      resolve disk' a = resolve disk a) ∧
    ∀ disk', (∀ name, a.config = .set name → name = []) →
      disk' ((Path.ofText a.input).parent.join Config.fileName) =
        disk ((Path.ofText a.input).parent.join Config.fileName) →
      resolve disk' a = resolve disk a := by
  refine ⟨refusal_iff, ?_, fun disk' table h h' => resolve_eq_of_selects h h', ?_, ?_⟩
  · intro table h hformat
    exact resolve_follows h fun value hvalue => namesFormat_iff.mpr (hformat value hvalue)
  · intro disk' name hname hne hread
    refine resolve_congr ?_
    rw [pathOf?_eq_some_iff.mpr ⟨name, hname, hne, rfl⟩]
    exact hread
  · intro disk' hname hread
    refine resolve_congr ?_
    rw [pathOf?_eq_none_iff.mpr hname]
    exact hread

/-- The file that is named gives a form, and a number where a truth value should stand. The file beside the
input, which is no text, is not read. -/
theorem resolve_precedence_named :
    let content := Utf8.encode "[output]\nformat = 'json'\nspans = 1".toList
    let tree : FileTree := ⟨.folder [(['c'], .file content), (Config.fileName, .file [0xff])], []⟩
    let a : Arguments := ⟨['a'], .unset, .unset, none, .set ['c'], false⟩
    ∃ s, resolve tree.read a = .ok s ∧ s.format? = some .json ∧ s.places = false ∧
      ∀ disk' : Disk, disk' (.ofText ['c']) = tree.read (.ofText ['c']) → resolve disk' a = .ok s := by
  intro content tree a
  obtain ⟨table, htable, hformat, hplaces⟩ := ofBytes_form_and_number
  have hread : tree.read (.ofText ['c']) = .ok content := rfl
  have hselects : Selects tree.read a table := .named rfl (List.cons_ne_nil _ _) hread htable
  have hjson : Gives table "format" (.string Format.json.name) := configFormat_eq_some_iff.mp hformat
  obtain ⟨-, hfollows, -, hnamed, -⟩ := resolve_precedence tree.read a
  obtain ⟨s, hs, h⟩ := hfollows table hselects fun value hvalue =>
    .inr (Option.some.inj ((gives_iff.mp hvalue).symm.trans (gives_iff.mp hjson)))
  have hspans : s.places = false := h.places_default rfl (configPlaces_eq_none_iff.mp hplaces)
  refine ⟨s, hs, h.format_config rfl .json hjson, hspans, ?_⟩
  intro disk' hdisk
  rw [← hs]
  exact hnamed disk' ['c'] rfl (List.cons_ne_nil _ _) hdisk

/-- A file of a name that is too long is not there, but the arguments are not told to be wrong. -/
theorem overlong_config_not_refused :
    let name := List.replicate 256 'n'
    let tree : FileTree := ⟨.folder [(['a'], .file [0x78])], []⟩
    ∃ a, Arguments.ofCommandLine [['a'], "--config".toList, name] = .ok a ∧ a.config = .set name ∧
      (∀ content, tree.read (.ofText name) ≠ .ok content) ∧
      ∃ f, resolve tree.read a = .error f ∧ ¬f.IsRefusal := by
  intro name tree
  have hread : tree.read (.ofText name) = .error .nameTooLong := by decide +kernel
  refine ⟨⟨['a'], .unset, .unset, none, .set name, false⟩, by decide +kernel, rfl, ?_, ?_⟩
  · intro content h
    cases hread.symm.trans h
  · have hfails : Fails tree.read ⟨['a'], .unset, .unset, none, .set name, false⟩
        (.config (.nameTooLong (.ofText name))) :=
      .config (.nameTooLong hread)
    refine ⟨_, resolve_eq_error_iff.mpr hfails, ?_⟩
    intro h
    cases h

end

end Settings

end MathTokens
