import Mathlib.Data.List.Basic
import MathTokens.Proofs.Outcomes

/-!
# What runs leave behind

A run that ends with 0 has listed the tokens of its input, in the output file or in print, and done
nothing else. Any other run leaves all files as they are and prints no listing. The tokens that are
shown for debugging change nothing of this.
-/

namespace MathTokens

/-! ## Debugging -/

section Debug

variable {disk : Disk} {a : Arguments} {debug : Bool}

theorem Settings.resolve_debug :
    resolve disk { a with debug } = (resolve disk a).map ({ · with debug }) := by
  simp only [resolve_eq, config]
  split
  · rfl
  next table _ => cases configFormat (outputEntries table) <;> rfl

theorem Plan.ofArguments_debug :
    ∃ err, ofArguments disk { a with debug } = { ofArguments disk a with err } := by
  unfold ofArguments
  rw [Settings.resolve_debug]
  cases Settings.resolve disk a with
  | error f => exact ⟨(ofFault f).err, rfl⟩
  | ok s =>
    simp only [Except.map, ofSettings]
    cases disk s.input with
    | error f => cases f <;> exact ⟨_, rfl⟩
    | ok content =>
      simp only [ofContent]
      cases sourceOf content with
      | error => exact ⟨_, rfl⟩
      | ok source =>
        simp only [ofSource]
        cases Token.listOf source with
        | error => exact ⟨_, rfl⟩
        | ok ts =>
          refine ⟨if debug then Token.lines true ts else [], ?_⟩
          cases h : s.output? <;> simp [ofTokens, h]

theorem Run.ofPlan_err {tree : FileTree} {plan : Plan} {err : Text} :
    ofPlan tree { plan with err } = { ofPlan tree plan with err } := by
  obtain ⟨ending, out, err', write?⟩ := plan
  cases write? with
  | none => rfl
  | some w =>
    simp only [ofPlan]
    cases tree.write w.1 w.2 <;> rfl

end Debug

/-! ## Listings -/

theorem Settings.pathOf?_eq_some_iff {given : Setting Text} {p : Path} :
    pathOf? given = some p ↔ ∃ t, given = .set t ∧ t ≠ [] ∧ p = .ofText t := by
  unfold pathOf?
  split
  next c t => simp [eq_comm]
  next hne =>
    simp only [reduceCtorEq, false_iff]
    intro ⟨t, ht, hcons, _⟩
    obtain ⟨c, t, rfl⟩ := List.exists_cons_of_ne_nil hcons
    exact hne c t ht

namespace Run

variable {tree : FileTree} {argv : List Text} {a : Arguments} {s : Settings} {ts : List Token}

/-- A run has written a text to the file that `t` names. -/
structure Writes (run : Run) (tree : FileTree) (t text : Text) : Prop where
  out : run.out = []
  here : run.tree.here = tree.here
  read : run.tree.read (.ofText t) = .ok (Utf8.encode text)
  entry : ∃ names, tree.locate (.ofText t) = .ok names ∧
    run.tree.entryAt = Function.update tree.entryAt names (some (.file (Utf8.encode text)))

/-- A run has written a text to the output that is asked for, or else printed it. -/
def Delivers (run : Run) (tree : FileTree) (output : Setting Text) (text : Text) : Prop :=
  (∃ t, output = .set t ∧ t ≠ [] ∧ run.Writes tree t text) ∨
    (∀ t, output = .set t → t = []) ∧ run.out = text ∧ run.tree = tree

theorem delivers_ofTokens (hg : tree.Grounded) (h : Plan.Lists tree.read a s ts)
    (hcode : (ofPlan tree (.ofTokens s ts)).ending = .code 0) :
    (ofPlan tree (.ofTokens s ts)).err = (if a.debug then Token.lines true ts else []) ∧
      (ofPlan tree (.ofTokens s ts)).Delivers tree a.output (s.listing ts) := by
  obtain ⟨-, houtput, hdebug⟩ := Settings.resolve_eq_ok h.settings
  cases hp : s.output? with
  | none =>
    rw [ofPlan_ofTokens_none hp, ← hdebug]
    refine ⟨rfl, .inr ⟨fun t ht => ?_, rfl, rfl⟩⟩
    -- an output with a name would have a path
    by_contra hne
    have hsome := Settings.pathOf?_eq_some_iff.mpr ⟨t, ht, hne, rfl⟩
    cases hsome.symm.trans (houtput.symm.trans hp)
  | some p =>
    obtain ⟨t, ht, hne, rfl⟩ := Settings.pathOf?_eq_some_iff.mp (houtput.symm.trans hp)
    cases hw : tree.write (.ofText t) (Utf8.encode (s.listing ts)) with
    | error f =>
      rw [ofPlan_ofTokens_refused hp (FileTree.write_eq_error_iff.mp hw)] at hcode
      cases hcode
    | ok tree' =>
      rw [ofPlan_ofTokens_written hp hw, ← hdebug]
      obtain ⟨names, hnames, hentry, hhere, hread⟩ := FileTree.write_eq_ok hg hw
      exact ⟨rfl, .inl ⟨t, ht, hne, rfl, hhere, hread, names, hnames, hentry⟩⟩

/-! ## Runs that list nothing -/

theorem leaves_files_ofTokens (hcode : (ofPlan tree (.ofTokens s ts)).ending ≠ .code 0) :
    (ofPlan tree (.ofTokens s ts)).tree = tree ∧ (ofPlan tree (.ofTokens s ts)).out = [] := by
  cases hp : s.output? with
  | none =>
    rw [ofPlan_ofTokens_none hp] at hcode
    exact absurd rfl hcode
  | some p =>
    cases hw : tree.write p (Utf8.encode (s.listing ts)) with
    | error f =>
      rw [ofPlan_ofTokens_refused hp (FileTree.write_eq_error_iff.mp hw)]
      exact ⟨rfl, rfl⟩
    | ok tree' =>
      rw [ofPlan_ofTokens_written hp hw] at hcode
      exact absurd rfl hcode

theorem leaves_files_ofArguments (hcode : (ofPlan tree (.ofArguments tree.read a)).ending ≠ .code 0) :
    (ofPlan tree (.ofArguments tree.read a)).tree = tree ∧
      (ofPlan tree (.ofArguments tree.read a)).out = [] := by
  have h := Plan.ofArguments_outcome tree.read a
  generalize Plan.ofArguments tree.read a = plan at h hcode ⊢
  cases h with
  | listed => exact leaves_files_ofTokens hcode
  | malformed => exact ⟨rfl, rfl⟩
  | refused => exact ⟨rfl, rfl⟩
  | broken => exact ⟨rfl, rfl⟩

theorem lists_of_code (hcode : (ofPlan tree (.ofArguments tree.read a)).ending = .code 0) :
    ∃ s ts, Plan.Lists tree.read a s ts := by
  have h := Plan.ofArguments_outcome tree.read a
  generalize Plan.ofArguments tree.read a = plan at h hcode
  cases h with
  | listed h => exact ⟨_, _, h⟩
  | malformed => cases hcode
  | refused => cases hcode
  | broken => cases hcode

/-! ## All runs -/

theorem leaves_files (hcode : (ofCommandLine tree argv).ending ≠ .code 0) :
    (ofCommandLine tree argv).tree = tree ∧
      ((ofCommandLine tree argv).out = [] ∨
        (ofCommandLine tree argv).ending = .interrupted .help ∧
          (ofCommandLine tree argv).out = Usage.helpText) := by
  cases h : Arguments.ofCommandLine argv with
  | ok a =>
    rw [ofCommandLine_of_ok h] at hcode ⊢
    obtain ⟨htree, hout⟩ := leaves_files_ofArguments hcode
    exact ⟨htree, .inl hout⟩
  | error i =>
    simp only [ofCommandLine, Plan.ofCommandLine, h]
    cases i with
    | help => exact ⟨rfl, .inr ⟨rfl, rfl⟩⟩
    | misuse => exact ⟨rfl, .inl rfl⟩

theorem delivers (hg : tree.Grounded) (hcode : (ofCommandLine tree argv).ending = .code 0) :
    ∃ a s ts, Arguments.ofCommandLine argv = .ok a ∧ Plan.Lists tree.read a s ts ∧
      (ofCommandLine tree argv).err = (if a.debug then Token.lines true ts else []) ∧
      (ofCommandLine tree argv).Delivers tree a.output (s.listing ts) := by
  cases h : Arguments.ofCommandLine argv with
  | ok a =>
    rw [ofCommandLine_of_ok h] at hcode ⊢
    obtain ⟨s, ts, hlists⟩ := lists_of_code hcode
    rw [Plan.ofArguments_of_lists hlists] at hcode ⊢
    exact ⟨a, s, ts, rfl, hlists, delivers_ofTokens hg hlists hcode⟩
  | error i =>
    simp only [ofCommandLine, Plan.ofCommandLine, h] at hcode
    cases i <;> cases hcode

/-- **All or nothing.** A run that ends with 0 writes the listing of its input to the output, or prints
it if no output is named, and shows the tokens for debugging if that is asked for. Any other run
leaves the files as they are and prints at most the help. Without debugging, or with it, a command
line ends, prints and writes the same. -/
theorem delivers_or_leaves_files (hg : tree.Grounded) (argv : List Text) :
    let run := ofCommandLine tree argv
    (run.ending ≠ .code 0 → run.tree = tree ∧
        (run.out = [] ∨ run.ending = .interrupted .help ∧ run.out = Usage.helpText)) ∧
      (run.ending = .code 0 →
        ∃ a s ts, Arguments.ofCommandLine argv = .ok a ∧ Plan.Lists tree.read a s ts ∧
          run.err = (if a.debug then Token.lines true ts else []) ∧
          run.Delivers tree a.output (s.listing ts)) ∧
      ∀ a argv' debug, Arguments.ofCommandLine argv = .ok a →
        Arguments.ofCommandLine argv' = .ok { a with debug } →
        let run' := ofCommandLine tree argv'
        run'.ending = run.ending ∧ run'.out = run.out ∧ run'.tree = run.tree := by
  intro run
  refine ⟨leaves_files, delivers hg, ?_⟩
  intro a argv' debug h h' run'
  -- the two plans only differ in what they show for debugging
  obtain ⟨err, herr⟩ : ∃ err, Plan.ofArguments tree.read { a with debug } =
      { Plan.ofArguments tree.read a with err } := Plan.ofArguments_debug
  have hrun' : run' = { run with err } := by
    rw [show run = _ from ofCommandLine_of_ok h, show run' = _ from ofCommandLine_of_ok h', herr,
      ofPlan_err]
  rw [hrun']
  exact ⟨rfl, rfl, rfl⟩

/-- The output is the input. -/
theorem delivers_or_leaves_files_onto_input :
    let tree : FileTree := ⟨.folder [(['a'], .file [0x78])], []⟩
    let argv := [['a'], ['-', 'o'], ['a']]
    let run := ofCommandLine tree argv
    tree.Grounded ∧ run.ending = .code 0 ∧ run.out = [] ∧
      run.tree.read (.ofText ['a']) = .ok (Utf8.encode "NAME 'x'\n".toList) := by
  intro tree argv run
  let a : Arguments := ⟨['a'], .set ['a'], .unset, none, .unset, false⟩
  let s : Settings := ⟨.ofText ['a'], some (.ofText ['a']), some .text, false, false⟩
  have h : Arguments.ofCommandLine argv = .ok a := rfl
  let ts : List Token := [⟨.name ['x'], ['x'], ⟨1, 1, 0⟩, ⟨1, 2, 1⟩⟩]
  have hts : Token.listOf ['x'] = .ok ts := by decide +kernel
  have hlists : Plan.Lists tree.read a s ts := ⟨rfl, ['x'], ⟨[0x78], rfl, rfl⟩, hts⟩
  have htext : s.listing ts = "NAME 'x'\n".toList := by decide +kernel
  have hg : tree.Grounded := rfl
  have hcode : run.ending = .code 0 := by
    rw [show run = _ from ofCommandLine_of_ok h, Plan.ofArguments_of_lists hlists]
    rfl
  obtain ⟨a', s', ts', h', hlists', -, hdelivers⟩ :=
    (delivers_or_leaves_files hg argv).2.1 hcode
  obtain rfl : a' = a := Except.ok.inj (h'.symm.trans h)
  obtain ⟨rfl, rfl⟩ := hlists'.unique hlists
  rw [htext] at hdelivers
  obtain ⟨t, ht, -, hwrites⟩ | ⟨hnone, -⟩ := hdelivers
  · obtain rfl : ['a'] = t := Setting.set.inj ht
    exact ⟨hg, hcode, hwrites.out, hwrites.read⟩
  · cases hnone ['a'] rfl

end Run

end MathTokens
