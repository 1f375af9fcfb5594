import MathTokens.Proofs.FileTrees
import MathTokens.Run

/-!
# How runs end

A run with arguments ends with a code unless it breaks off. It breaks off where the configuration
file has a name that is too long, is no text, or has a number or a nesting that is too long to be
read or shown, where the path of the input has a NUL in it, and where the output cannot be written.
-/

namespace MathTokens

/-! ## The configuration -/

namespace Config

/-- Why there is no configuration, in terms of the files. -/
inductive Fails (disk : Disk) (named? : Option Path) (folder : Path) : Fault → Prop where
  | missing {file : Path} {f : FileFault} (hnamed : named? = some file) (h : disk file = .error f)
      (hf : f ≠ .nameTooLong) : Fails disk named? folder (.missing file)
  | nameTooLong (h : disk (source named? folder) = .error .nameTooLong) :
      Fails disk named? folder (.nameTooLong (source named? folder))
  | undecodable {content : Utf8.Bytes} {f : Utf8.Fault} (h : disk (source named? folder) = .ok content)
      (hf : Utf8.decode content = .error f) : Fails disk named? folder (.undecodable f)
  | unreadable {content : Utf8.Bytes} {t : Text} {f : Toml.Failure}
      (h : disk (source named? folder) = .ok content) (ht : Utf8.decode content = .ok t)
      (hf : Toml.read t.joinLineEnds = .error f) : Fails disk named? folder (.unreadable f)

variable {disk : Disk} {named? : Option Path} {folder : Path} {content : Utf8.Bytes}

theorem load_of_ok (h : disk (source named? folder) = .ok content) :
    load disk named? folder = ofBytes content := by
  simp only [load, h]

theorem load_of_error {f : FileFault} (h : disk (source named? folder) = .error f)
    (hf : f ≠ .nameTooLong) :
    load disk named? folder =
      match named? with
      | some file => .error (.missing file)
      | none => .ok [] := by
  simp only [load, h]
  cases named? <;> cases f <;> first | rfl | exact absurd rfl hf

theorem load_eq_error_iff {f : Fault} :
    load disk named? folder = .error f ↔ Fails disk named? folder f := by
  constructor
  · intro h
    -- only a name that is too long is a fault of its own, any other file is just not there
    cases hdisk : disk (source named? folder) with
    | error e =>
      by_cases he : e = .nameTooLong
      · subst he
        simp only [load, hdisk, Except.error.injEq] at h
        exact h ▸ .nameTooLong hdisk
      · rw [load_of_error hdisk he] at h
        cases named? with
        | none => cases h
        | some file =>
          obtain rfl := Except.error.inj h
          exact .missing rfl hdisk he
    | ok content =>
      rw [load_of_ok hdisk, ofBytes] at h
      cases hdecode : Utf8.decode content with
      | error e =>
        simp only [hdecode, Except.error.injEq] at h
        exact h ▸ .undecodable hdisk hdecode
      | ok t =>
        simp only [hdecode] at h
        cases hread : Toml.read t.joinLineEnds with
        | error e =>
          rw [hread] at h
          obtain rfl := Except.error.inj h
          exact .unreadable hdisk hdecode hread
        | ok =>
          rw [hread] at h
          cases h
  · intro h
    cases h with
    | missing hnamed h hf =>
      subst hnamed
      exact load_of_error h hf
    | nameTooLong h => simp only [load, h]
    | undecodable h hf => simp only [load_of_ok h, ofBytes, hf]
    | unreadable h ht hf =>
      simp only [load_of_ok h, ofBytes, ht, hf]
      rfl

end Config

namespace Settings

/-- The configuration that the arguments lead to. -/
def config (disk : Disk) (a : Arguments) : Except Config.Fault Toml.Table :=
  Config.load disk (pathOf? a.config) (Path.ofText a.input).parent

/-- A value that names a form of listing. -/
def NamesFormat (value : Toml) : Prop :=
  ∃ t f, value = .string t ∧ Format.ofName? t = some f

/-- Why there are no settings, in terms of the files. -/
inductive Fails (disk : Disk) (a : Arguments) : Fault → Prop where
  | config {f : Config.Fault}
      (h : Config.Fails disk (pathOf? a.config) (Path.ofText a.input).parent f) :
      Fails disk a (.config f)
  | format {table : Toml.Table} {value : Toml} (h : config disk a = .ok table)
      (hvalue : (outputEntries table).lookup "format".toList = some value)
      (hname : ¬NamesFormat value) : Fails disk a (.ofFormat value)

variable {disk : Disk} {a : Arguments}

theorem configFormat_eq_error_iff {entries : Toml.Table} {f : Fault} :
    configFormat entries = .error f ↔
      ∃ value, entries.lookup "format".toList = some value ∧ ¬NamesFormat value ∧
        f = .ofFormat value := by
  unfold configFormat NamesFormat
  cases entries.lookup "format".toList with
  | none => simp
  | some value =>
    cases value with
    | string t => cases h : Format.ofName? t <;> simp [h, eq_comm]
    | _ => simp [eq_comm]

theorem resolve_eq :
    resolve disk a =
      match config disk a with
      | .error f => .error (.config f)
      | .ok table =>
        (configFormat (outputEntries table)).map fun format? =>
          { input := Path.ofText a.input
            output? := pathOf? a.output
            format? := chooseFormat a.format format?
            places := a.places?.getD ((configPlaces (outputEntries table)).getD false)
            debug := a.debug } := by
  unfold resolve config
  dsimp only
  cases Config.load disk (pathOf? a.config) (Path.ofText a.input).parent with
  | error => rfl
  | ok table =>
    show (configFormat (outputEntries table)).bind _ = (configFormat (outputEntries table)).map _
    cases configFormat (outputEntries table) <;> rfl

theorem resolve_eq_error_iff {f : Fault} : resolve disk a = .error f ↔ Fails disk a f := by
  rw [resolve_eq]
  constructor
  · intro h
    cases hconfig : config disk a with
    | error e =>
      simp only [hconfig, Except.error.injEq] at h
      exact h ▸ .config (Config.load_eq_error_iff.mp hconfig)
    | ok table =>
      simp only [hconfig] at h
      cases hformat : configFormat (outputEntries table) with
      | ok => simp [hformat, Except.map] at h
      | error e =>
        obtain ⟨value, hvalue, hname, rfl⟩ := configFormat_eq_error_iff.mp hformat
        simp only [hformat, Except.map, Except.error.injEq] at h
        exact h ▸ .format hconfig hvalue hname
  · intro h
    cases h with
    | config h =>
      have hconfig : config disk a = .error _ := Config.load_eq_error_iff.mpr h
      rw [hconfig]
    | format h hvalue hname =>
      have hformat := configFormat_eq_error_iff.mpr ⟨_, hvalue, hname, rfl⟩
      simp only [h, hformat, Except.map]

theorem resolve_eq_ok {s : Settings} (h : resolve disk a = .ok s) :
    s.input = Path.ofText a.input ∧ s.output? = pathOf? a.output ∧ s.debug = a.debug := by
  rw [resolve_eq] at h
  split at h
  · cases h
  next table htable =>
    cases hformat : configFormat (outputEntries table) with
    | error => simp [hformat, Except.map] at h
    | ok format? =>
      simp only [hformat, Except.map, Except.ok.injEq] at h
      exact h ▸ ⟨rfl, rfl, rfl⟩

def listing (s : Settings) (ts : List Token) : Text :=
  Token.listing (s.format?.getD .text) s.places ts

/-- The breakage that a fault is, unless it is only reported. -/
def Fault.breakage? : Fault → Option Breakage
  | .unknownFormat _ => none
  | .unshowableFormat f => some (.unshowableFormat f)
  | .config (.missing _) => none
  | .config (.nameTooLong file) => some (.file .nameTooLong file)
  | .config (.undecodable f) => some (.undecodableConfig f)
  | .config (.unreadable .malformed) => none
  | .config (.unreadable f) => some (.unreadableConfig f)

end Settings

/-! ## Plans -/

namespace Plan

/-- The input is a file that spells the source. -/
def InputSpells (disk : Disk) (a : Arguments) (source : Text) : Prop :=
  ∃ content, disk (Path.ofText a.input) = .ok content ∧ sourceOf content = .ok source

/-- The arguments have settings, and the input is read as a source that has tokens. -/
structure Lists (disk : Disk) (a : Arguments) (s : Settings) (ts : List Token) : Prop where
  settings : Settings.resolve disk a = .ok s
  source : ∃ source, InputSpells disk a source ∧ Token.listOf source = .ok ts

/-- What breaks a run off before anything is written. -/
inductive Halts (disk : Disk) (a : Arguments) : Breakage → Prop where
  | settings {f : Settings.Fault} {b : Breakage} (h : Settings.Fails disk a f)
      (hb : f.breakage? = some b) : Halts disk a b
  | input {s : Settings} (h : Settings.resolve disk a = .ok s)
      (hnul : disk s.input = .error .nulInPath) : Halts disk a (.file .nulInPath s.input)

/-- The plans that arguments can lead to. -/
inductive Outcome (disk : Disk) (a : Arguments) : Plan → Prop where
  | listed {s : Settings} {ts : List Token} (h : Lists disk a s ts) : Outcome disk a (ofTokens s ts)
  | malformed {s : Settings} {source : Text} {e : Malformed} (h : Settings.resolve disk a = .ok s)
      (hsource : InputSpells disk a source) (he : Token.listOf source = .error e) :
      Outcome disk a { ending := .code 1, err := e.report s.input.toText ++ ['\n'] }
  | refused {message : Text} : Outcome disk a (refuse message)
  | broken {b : Breakage} (h : Halts disk a b) : Outcome disk a { ending := .broken b }

variable {disk : Disk} {a : Arguments} {s : Settings} {ts : List Token} {b : Breakage}

theorem Lists.unique {s' : Settings} {ts' : List Token} (h : Lists disk a s ts)
    (h' : Lists disk a s' ts') : s = s' ∧ ts = ts' := by
  obtain ⟨source, ⟨content, hcontent, hsource⟩, hts⟩ := h.source
  obtain ⟨source', ⟨content', hcontent', hsource'⟩, hts'⟩ := h'.source
  obtain rfl := Except.ok.inj (hcontent.symm.trans hcontent')
  obtain rfl := Except.ok.inj (hsource.symm.trans hsource')
  exact ⟨Except.ok.inj (h.settings.symm.trans h'.settings), Except.ok.inj (hts.symm.trans hts')⟩

theorem ofFault_of_breakage {f : Settings.Fault} (h : f.breakage? = some b) :
    ofFault f = { ending := .broken b } := by
  unfold Settings.Fault.breakage? at h
  split at h
  · cases h
  · obtain rfl := Option.some.inj h
    rfl
  · cases h
  · obtain rfl := Option.some.inj h
    rfl
  · obtain rfl := Option.some.inj h
    rfl
  · cases h
  next hf =>
    obtain rfl := Option.some.inj h
    simp [ofFault]

theorem ofFault_of_none {f : Settings.Fault} (h : f.breakage? = none) :
    ∃ message, ofFault f = refuse message := by
  unfold Settings.Fault.breakage? at h
  split at h <;> first | exact ⟨_, rfl⟩ | cases h

theorem ofArguments_of_lists (h : Lists disk a s ts) : ofArguments disk a = ofTokens s ts := by
  obtain ⟨source, ⟨content, hcontent, hsource⟩, hts⟩ := h.source
  rw [← (Settings.resolve_eq_ok h.settings).1] at hcontent
  simp only [ofArguments, h.settings, ofSettings, hcontent, ofContent, hsource, ofSource, hts]

theorem ofArguments_outcome (disk : Disk) (a : Arguments) : Outcome disk a (ofArguments disk a) := by
  unfold ofArguments
  cases hs : Settings.resolve disk a with
  | error f =>
    have hf := Settings.resolve_eq_error_iff.mp hs
    cases hb : f.breakage? with
    | none =>
      obtain ⟨message, h⟩ := ofFault_of_none hb
      simp only [h]
      exact .refused
    | some b =>
      simp only [ofFault_of_breakage hb]
      exact .broken (.settings hf hb)
  | ok s =>
    simp only [ofSettings]
    cases hcontent : disk s.input with
    | error f =>
      by_cases hf : f = .nulInPath
      · subst hf
        exact .broken (.input hs hcontent)
      · cases f <;> first | exact .refused | exact absurd rfl hf
    | ok content =>
      simp only [ofContent]
      cases hsource : sourceOf content with
      | error => exact .refused
      | ok source =>
        simp only [ofSource]
        have hspells : InputSpells disk a source :=
          ⟨content, (Settings.resolve_eq_ok hs).1 ▸ hcontent, hsource⟩
        cases hts : Token.listOf source with
        | error => exact .malformed hs hspells hts
        | ok => exact .listed ⟨hs, source, hspells, hts⟩

end Plan

/-! ## Runs -/

namespace Run

variable {tree : FileTree} {a : Arguments} {argv : List Text} {b : Breakage}

theorem ofCommandLine_of_ok (h : Arguments.ofCommandLine argv = .ok a) :
    ofCommandLine tree argv = ofPlan tree (.ofArguments tree.read a) := by
  simp only [ofCommandLine, Plan.ofCommandLine, h]

/-! ### Runs that list tokens -/

section Tokens

variable {s : Settings} {ts : List Token} {p : Path}

theorem ofPlan_ofTokens_none (h : s.output? = none) :
    ofPlan tree (.ofTokens s ts) =
      ⟨.code 0, s.listing ts, if s.debug then Token.lines true ts else [], tree⟩ := by
  simp only [Plan.ofTokens, h, ofPlan, Settings.listing]

theorem ofPlan_ofTokens_written {tree' : FileTree} (h : s.output? = some p)
    (hw : tree.write p (Utf8.encode (s.listing ts)) = .ok tree') :
    ofPlan tree (.ofTokens s ts) =
      ⟨.code 0, [], if s.debug then Token.lines true ts else [], tree'⟩ := by
  unfold Settings.listing at hw
  simp only [Plan.ofTokens, h, ofPlan, hw]

theorem ofPlan_ofTokens_refused {f : FileFault} (h : s.output? = some p) (hf : tree.Refuses p f) :
    ofPlan tree (.ofTokens s ts) =
      ⟨.broken (.file f p), [], if s.debug then Token.lines true ts else [], tree⟩ := by
  simp only [Plan.ofTokens, h, ofPlan, FileTree.write_eq_error_iff.mpr hf]

end Tokens

/-! ### Codes -/

end Run

end MathTokens
