import MathTokens.Proofs.Agreement
import MathTokens.Proofs.LineEnds
import MathTokens.Proofs.Precedence

/-!
# Files that are replaced

Two trees that differ in what one file holds have the same folders, so every path means the same in
both, is read the same unless it means that file, and is written the same. A run therefore only sees
the difference if it reads that file. With other line ends in it the run reads the same text.
-/

namespace MathTokens

namespace FileTree

/-- The tree `tree'` is `tree` with the file at `names`, which held `old`, holding `new`. -/
structure Replaces (tree tree' : FileTree) (names : List Text) (old new : Utf8.Bytes) : Prop where
  here : tree'.here = tree.here
  file : tree.entryAt names = some (.file old)
  entry : tree'.entryAt = Function.update tree.entryAt names (some (.file new))

/-- Two trees are left as they are, or the same file is written to both. -/
def WrittenAlike (before before' after after' : FileTree) : Prop :=
  after = before ∧ after' = before' ∨
    ∃ names content, after.here = before.here ∧ after'.here = before'.here ∧
      after.entryAt = Function.update before.entryAt names (some (.file content)) ∧
      after'.entryAt = Function.update before'.entryAt names (some (.file content))

/-! ## Paths -/

section
variable {tree tree' : FileTree} {names : List Text} {old new content : Utf8.Bytes} {p : Path}
  {f : FileFault}

theorem Replaces.locate_eq (h : tree.Replaces tree' names old new) : tree'.locate p = tree.locate p := by
  unfold locate
  rw [h.here, walk_congr]
  intro ns
  have hns : tree'.entryAt ns = _ := congrFun h.entry ns
  by_cases hn : ns = names
  · subst hn
    rw [Function.update_self] at hns
    exact .inr ⟨old, new, h.file, hns⟩
  · rw [Function.update_of_ne hn] at hns
    exact .inl hns

theorem Replaces.read_self (h : tree.Replaces tree' names old new) (hp : tree.locate p = .ok names) :
    tree'.read p = .ok new := by
  rw [read_eq_ok_iff]
  exact ⟨names, h.locate_eq.trans hp, by rw [h.entry, Function.update_self]⟩

theorem Replaces.read_other (h : tree.Replaces tree' names old new) (hp : tree.locate p ≠ .ok names) :
    tree'.read p = tree.read p := by
  rw [read_eq, read_eq, h.locate_eq]
  cases hlocate : tree.locate p with
  | error => rfl
  | ok ns =>
    have hne : ns ≠ names := fun e => hp (by rw [hlocate, e])
    simp only [h.entry, Function.update_of_ne hne]

theorem Replaces.refuses_iff (h : tree.Replaces tree' names old new) :
    tree'.Refuses p f ↔ tree.Refuses p f := by
  unfold Refuses
  have hfolder : ∀ ns, tree'.entryAt ns = some .folder ↔ tree.entryAt ns = some .folder := by
    intro ns
    rw [h.entry]
    by_cases hn : ns = names
    · rw [hn, Function.update_self, h.file]
      simp
    · rw [Function.update_of_ne hn]
  simp only [h.locate_eq, hfolder]

theorem Replaces.grounded (h : tree.Replaces tree' names old new) (hg : tree.Grounded) :
    tree'.Grounded := by
  unfold Grounded at hg ⊢
  have hne : tree.here ≠ names := by
    intro e
    rw [e, h.file] at hg
    cases hg
  rw [h.here, h.entry, Function.update_of_ne hne, hg]

/-- Where a file cannot be written to one tree it cannot be written to the other. -/
theorem Replaces.write (h : tree.Replaces tree' names old new) (hg : tree.Grounded) (p : Path)
    (content : Utf8.Bytes) :
    (∃ f, tree.write p content = .error f ∧ tree'.write p content = .error f) ∨
      ∃ after after', tree.write p content = .ok after ∧ tree'.write p content = .ok after' ∧
        WrittenAlike tree tree' after after' := by
  cases hw : tree.write p content with
  | error f => exact .inl ⟨f, rfl, write_eq_error_iff.mpr (h.refuses_iff.mpr (write_eq_error_iff.mp hw))⟩
  | ok after =>
    cases hw' : tree'.write p content with
    | error f =>
      have hf : tree.write p content = .error f :=
        write_eq_error_iff.mpr (h.refuses_iff.mp (write_eq_error_iff.mp hw'))
      cases hw.symm.trans hf
    | ok after' =>
      obtain ⟨ns, hns, hentry, hhere, -⟩ := write_eq_ok hg hw
      obtain ⟨ns', hns', hentry', hhere', -⟩ := write_eq_ok (h.grounded hg) hw'
      obtain rfl := Except.ok.inj (hns.symm.trans (h.locate_eq.symm.trans hns'))
      exact .inr ⟨after, after', rfl, rfl, .inr ⟨ns, content, hhere, hhere', hentry, hentry'⟩⟩

end

end FileTree

/-! ## Runs -/

section
variable {tree tree' : FileTree} {names : List Text} {old new : Utf8.Bytes} {a : Arguments}
  {argv : List Text}

/-- A plan is carried out alike on both trees. -/
theorem Run.ofPlan_replaces (h : tree.Replaces tree' names old new) (hg : tree.Grounded) (plan : Plan) :
    let run := ofPlan tree plan
    let run' := ofPlan tree' plan
    run'.ending = run.ending ∧ run'.out = run.out ∧ run'.err = run.err ∧
      FileTree.WrittenAlike tree tree' run.tree run'.tree := by
  obtain ⟨ending, out, err, write?⟩ := plan
  cases write? with
  | none => exact ⟨rfl, rfl, rfl, .inl ⟨rfl, rfl⟩⟩
  | some w =>
    obtain ⟨p, content⟩ := w
    rcases h.write hg p content with ⟨f, hw, hw'⟩ | ⟨after, after', hw, hw', halike⟩
    · simp only [ofPlan, hw, hw']
      exact ⟨trivial, trivial, trivial, .inl ⟨rfl, rfl⟩⟩
    · simp only [ofPlan, hw, hw']
      exact ⟨trivial, trivial, trivial, halike⟩

theorem Plan.ofArguments_unifies {t u : Text} (h : tree.Replaces tree' names (Utf8.encode t) (Utf8.encode u))
    (hinput : tree.locate (.ofText a.input) = .ok names)
    (hconfig : tree.locate (Config.source (Settings.pathOf? a.config) (Path.ofText a.input).parent) ≠
      .ok names)
    (hunified : u.unifyLineEnds = t.unifyLineEnds) :
    ofArguments tree'.read a = ofArguments tree.read a := by
  have hresolve : Settings.resolve tree'.read a = Settings.resolve tree.read a :=
    Settings.resolve_congr (h.read_other hconfig)
  have hread : tree.read (.ofText a.input) = .ok (Utf8.encode t) :=
    FileTree.read_eq_ok_iff.mpr ⟨names, hinput, h.file⟩
  cases hs : Settings.resolve tree.read a with
  | error f => rw [ofArguments, ofArguments, hresolve, hs]
  | ok s =>
    rw [ofArguments_of_encoded hs hread, ofArguments_of_encoded (hresolve.trans hs) (h.read_self hinput),
      hunified]

theorem Plan.InputSpells.not_mem {disk : Disk} {source : Text} (h : InputSpells disk a source) :
    '\r' ∉ source := by
  obtain ⟨content, -, hsource⟩ := h
  unfold sourceOf at hsource
  cases hdecode : Utf8.decode content with
  | error => simp [hdecode, Except.map] at hsource
  | ok t =>
    simp only [hdecode, Except.map, Except.ok.injEq] at hsource
    rw [← hsource]
    exact (Text.unifies_unifyLineEnds t).not_mem

/-- **Line ends.** A run on a text without carriage returns ends, prints and writes the same if some of the
newlines in the input are CR LF, or all of them CR. No token that is listed has a carriage return in it. -/
theorem Run.line_ends_do_not_matter :
    (∀ (tree tree' : FileTree) (argv : List Text) (a : Arguments) (names : List Text) (t u : Text),
      tree.Grounded → Arguments.ofCommandLine argv = .ok a →
      tree.locate (.ofText a.input) = .ok names →
      tree.locate (Config.source (Settings.pathOf? a.config) (Path.ofText a.input).parent) ≠ .ok names →
      '\r' ∉ t → t.Mixes u ∨ u = t.withReturns →
      tree.Replaces tree' names (Utf8.encode t) (Utf8.encode u) →
      let run := ofCommandLine tree argv
      let run' := ofCommandLine tree' argv
      run'.ending = run.ending ∧ run'.out = run.out ∧ run'.err = run.err ∧
        FileTree.WrittenAlike tree tree' run.tree run'.tree) ∧
    ∀ (disk : Disk) (a : Arguments) (s : Settings) (ts : List Token), Plan.Lists disk a s ts →
      ∀ t ∈ ts, '\r' ∉ t.raw ∧ ∀ v, t.content.value = .text v → '\r' ∉ v := by
  constructor
  · intro tree tree' argv a names t u hg ha hinput hconfig ht hu h run run'
    have hunified : u.unifyLineEnds = t.unifyLineEnds := by
      have hself : t = t.unifyLineEnds := (Text.unifies_self ht).eq
      rw [← hself]
      rcases hu with hu | rfl
      · exact (hu.unifies ht).eq.symm
      · exact (Text.unifies_withReturns ht).eq.symm
    have hrun' : run' = ofPlan tree' (.ofArguments tree.read a) := by
      rw [← Plan.ofArguments_unifies h hinput hconfig hunified]
      exact ofCommandLine_of_ok ha
    rw [hrun', show run = _ from ofCommandLine_of_ok ha]
    exact ofPlan_replaces h hg _
  · intro disk a s ts h t ht
    obtain ⟨source, hspells, hts⟩ := h.source
    have hsource := hspells.not_mem
    exact ⟨fun hr => hsource ((texts_subset_of_listOf (v := []) hts ht).1 hr),
      fun v hv hr => hsource ((texts_subset_of_listOf hts ht).2 hv hr)⟩

/-- The output is the input, in which a line end in a string and the last one are CR LF. -/
theorem Run.line_ends_do_not_matter_mixed :
    let t := ['"', '\n', 'a', '"', '\n', 'x', '\n']
    let u := ['"', '\r', '\n', 'a', '"', '\n', 'x', '\r', '\n']
    let tree : FileTree := ⟨.folder [(['a'], .file (Utf8.encode t))], []⟩
    let tree' : FileTree := ⟨.folder [(['a'], .file (Utf8.encode u))], []⟩
    let a : Arguments := ⟨['a'], .set ['a'], .unset, none, .unset, false⟩
    let run := ofCommandLine tree [['a'], ['-', 'o'], ['a']]
    let run' := ofCommandLine tree' [['a'], ['-', 'o'], ['a']]
    tree.Replaces tree' [['a']] (Utf8.encode t) (Utf8.encode u) ∧ run'.ending = run.ending ∧
      run'.err = run.err ∧ FileTree.WrittenAlike tree tree' run.tree run'.tree ∧
      ∃ s ts, Plan.Lists tree'.read a s ts ∧ ∀ t ∈ ts, '\r' ∉ t.raw := by
  intro t u tree tree' a run run'
  have hg : tree.Grounded := rfl
  have hwrite : tree.write (.ofText ['a']) (Utf8.encode u) = .ok tree' := rfl
  have hlocate : tree.locate (.ofText ['a']) = .ok [['a']] := rfl
  obtain ⟨names, hnames, hentry, -, -⟩ := FileTree.write_eq_ok hg hwrite
  obtain rfl : [['a']] = names := Except.ok.inj (hlocate.symm.trans hnames)
  have hreplaces : tree.Replaces tree' [['a']] (Utf8.encode t) (Utf8.encode u) := ⟨rfl, rfl, hentry⟩
  have hmixes : Text.Mixes t u := .same (.pair (.same (.same (.same (.same (.pair .nil))))))
  have hconfig : tree.locate (.ofText Config.fileName) ≠ .ok [['a']] := by decide +kernel
  obtain ⟨hending, -, herr, halike⟩ := line_ends_do_not_matter.1 tree tree' [['a'], ['-', 'o'], ['a']] a
    [['a']] t u hg rfl hlocate hconfig (by decide) (.inl hmixes) hreplaces
  let s : Settings := ⟨.ofText ['a'], some (.ofText ['a']), some .text, false, false⟩
  let ts : List Token := [⟨.string ['a'], ['"', '\n', 'a', '"'], ⟨1, 1, 0⟩, ⟨2, 3, 4⟩⟩,
    ⟨.name ['x'], ['x'], ⟨3, 1, 5⟩, ⟨3, 2, 6⟩⟩]
  have hlist : Token.listOf t = .ok ts := by decide +kernel
  have hts : Plan.Lists tree'.read a s ts := ⟨rfl, t, ⟨Utf8.encode u, rfl, rfl⟩, hlist⟩
  exact ⟨hreplaces, hending, herr, halike, s, ts, hts,
    fun tok htok => (line_ends_do_not_matter.2 tree'.read a s ts hts tok htok).1⟩

end

end MathTokens
