import MathTokens.Proofs.EditorPositions
import MathTokens.Proofs.Encoding
import MathTokens.Proofs.Outcomes
import MathTokens.Proofs.QuoteStates

/-!
# Runs and editors

A run reads a file whose line ends were made newlines, an editor sends its text as it is. Where every
carriage return has a newline behind it, the two texts differ in carriage returns alone. Those make
words out of gaps, but the newline behind them ends the word, so the same quotes open strings in both,
on the same lines and columns.
-/

namespace MathTokens

namespace Text

def withoutReturns (t : Text) : Text :=
  t.filter (· ≠ '\r')

/-- Carriage returns are read together with their newlines. -/
inductive Paired : Text → Prop
  | nil : Paired []
  | pair {t} : Paired t → Paired ('\r' :: '\n' :: t)
  | cons {c t} : c ≠ '\r' → Paired t → Paired (c :: t)

variable {t : Text}

theorem withoutReturns_append (a b : Text) :
    (a ++ b).withoutReturns = a.withoutReturns ++ b.withoutReturns :=
  List.filter_append ..

theorem withoutReturns_of_not_mem (h : '\r' ∉ t) : t.withoutReturns = t := by
  apply List.filter_eq_self.mpr
  intro c hc
  simp only [ne_eq, decide_eq_true_eq]
  rintro rfl
  exact h hc

theorem mem_withoutReturns {c : Char} (hc : c ≠ '\r') : c ∈ t.withoutReturns ↔ c ∈ t := by
  simp [withoutReturns, hc]

theorem withoutReturns_pair (t : Text) :
    withoutReturns ('\r' :: '\n' :: t) = '\n' :: t.withoutReturns := by
  simp [withoutReturns]

theorem withoutReturns_cons {c : Char} (hc : c ≠ '\r') (t : Text) :
    withoutReturns (c :: t) = c :: t.withoutReturns := by
  simp [withoutReturns, hc]

theorem ReturnsPaired.paired : ∀ {t : Text}, ReturnsPaired t → Paired t
  | [], _ => .nil
  | c :: t, h => by
    obtain ⟨hc, ht⟩ := returnsPaired_cons.mp h
    by_cases hr : c = '\r'
    · subst hr
      obtain ⟨t, rfl⟩ := List.head?_eq_some_iff.mp (hc rfl)
      exact .pair (paired (returnsPaired_cons.mp ht).2)
    · exact .cons hr (paired ht)

theorem Paired.unifyLineEnds_eq (h : Paired t) : t.unifyLineEnds = t.withoutReturns := by
  induction h with
  | nil => rfl
  | pair _ ih => rw [unifyLineEnds, ih, withoutReturns_pair]
  | cons hc _ ih =>
    rw [withoutReturns_cons hc, ← ih, unifyLineEnds]
    · exact fun _ h => absurd h hc
    · exact hc

theorem count_withoutReturns (t : Text) : t.withoutReturns.count '\n' = t.count '\n' := by
  unfold withoutReturns
  rw [List.count_filter rfl]

theorem ReturnsPaired.lastLine_withoutReturns (h : ReturnsPaired t) :
    t.withoutReturns.lastLine = t.lastLine := by
  induction t with
  | nil => rfl
  | cons c t ih =>
    obtain ⟨hc, ht⟩ := returnsPaired_cons.mp h
    by_cases hn : '\n' ∈ t
    · have hn' := (mem_withoutReturns (by decide)).mpr hn
      rw [← List.singleton_append, withoutReturns_append, lastLine_append_of_mem hn',
        lastLine_append_of_mem hn, ih ht]
    · have hr : '\r' ∉ c :: t := by
        intro hr
        rcases List.mem_cons.mp hr with rfl | hr
        · exact hn (List.mem_of_head? (hc rfl))
        · exact ht.not_mem hn hr
      rw [withoutReturns_of_not_mem hr]

theorem ReturnsPaired.of_append_quote {a b : Text} (h : ReturnsPaired (a ++ quote :: b)) :
    ReturnsPaired a := by
  rintro u v rfl
  have hnext := h u (v ++ quote :: b) (by simp)
  cases v with
  | nil => simp [quote] at hnext
  | cons => exact hnext

end Text

theorem Within.after_withoutReturns {t : Text} (h : t.Paired) :
    after t.withoutReturns = after t := by
  -- from every state, since a pair may stand in a gap, behind a word and in a string
  have foldl_eq (w : Within) : t.withoutReturns.foldl step w = t.foldl step w := by
    induction h generalizing w with
    | nil => rfl
    | pair _ ih =>
      have hstep : step (step w '\r') '\n' = step w '\n' := by cases w <;> decide
      rw [Text.withoutReturns_pair, List.foldl_cons, List.foldl_cons, List.foldl_cons, hstep, ih]
    | cons hc _ ih => rw [Text.withoutReturns_cons hc, List.foldl_cons, List.foldl_cons, ih]
  exact foldl_eq nothing

section
variable {t before tail : Text}

theorem Position.after_withoutReturns (h : before.ReturnsPaired) :
    (Position.after before.withoutReturns).line = (Position.after before).line ∧
      (Position.after before.withoutReturns).column = (Position.after before).column := by
  have hline := before.lineStart_add_length_lastLine
  have hline' := before.withoutReturns.lineStart_add_length_lastLine
  rw [h.lastLine_withoutReturns] at hline'
  unfold Position.after
  rw [Text.count_withoutReturns]
  exact ⟨rfl, by dsimp only; omega⟩

theorem listOf_unifyLineEnds (h : t.ReturnsPaired) :
    (∃ ts ts', Token.listOf t = .ok ts ∧ Token.listOf t.unifyLineEnds = .ok ts') ∨
      ∃ e e', Token.listOf t = .error e ∧ Token.listOf t.unifyLineEnds = .error e' ∧
        e.place.line = e'.place.line ∧ e.place.column = e'.place.column := by
  rw [h.paired.unifyLineEnds_eq]
  cases hlist : Token.listOf t with
  | ok ts =>
    left
    have hafter : Within.after t.withoutReturns ≠ .string := by
      rw [Within.after_withoutReturns h.paired, ne_eq, ← listOf_isError_iff_after, hlist]
      simp
    cases hlist' : Token.listOf t.withoutReturns with
    | ok ts' => exact ⟨ts, ts', rfl, rfl⟩
    | error e' => exact absurd ((listOf_isError_iff_after _).mp ⟨e', hlist'⟩) hafter
  | error e =>
    right
    obtain ⟨before, tail, rfl, htail, hbefore, rfl⟩ := listOf_eq_error_iff.mp hlist
    have hpaired := h.of_append_quote
    obtain ⟨hline, hcolumn⟩ := Position.after_withoutReturns hpaired
    have hsplit : (before ++ quote :: tail).withoutReturns =
        before.withoutReturns ++ quote :: Text.withoutReturns tail := by
      rw [Text.withoutReturns_append, Text.withoutReturns_cons (by decide)]
    refine ⟨_, .unclosed _ before.withoutReturns, rfl,
      listOf_eq_error_iff.mpr ⟨_, _, hsplit, ?_, ?_, rfl⟩, ?_, ?_⟩
    · exact fun hq => htail ((Text.mem_withoutReturns (by decide)).mp hq)
    · rw [Within.after_withoutReturns hpaired.paired, hbefore]
    · exact congrArg Nat.cast hline.symm
    · exact congrArg Nat.cast hcolumn.symm

end

/-! ## Runs -/

section
variable {disk : Disk} {tree : FileTree} {a : Arguments} {s : Settings} {argv : List Text}

theorem Plan.ofArguments_of_encoded {t : Text} (hs : Settings.resolve disk a = .ok s)
    (hread : disk (Path.ofText a.input) = .ok (Utf8.encode t)) :
    ofArguments disk a = ofSource s t.unifyLineEnds := by
  rw [← (Settings.resolve_eq_ok hs).1] at hread
  unfold ofArguments ofSettings ofContent sourceOf
  simp only [hs, hread, Utf8.decode_encode, Except.map]

theorem Run.ending_ofTokens (ts : List Token) (hout : ∀ p f, s.output? = some p → ¬tree.Refuses p f) :
    (ofPlan tree (.ofTokens s ts)).ending = .code 0 := by
  cases hp : s.output? with
  | none => rw [ofPlan_ofTokens_none hp]
  | some p =>
    cases hw : tree.write p (Utf8.encode (s.listing ts)) with
    | ok => rw [ofPlan_ofTokens_written hp hw]
    | error f => exact absurd (FileTree.write_eq_error_iff.mp hw) (hout p f hp)

/-- **Runs and editors agree.** On a file that spells the text of a document whose carriage returns are
paired, a run ends with 1 if the document has a diagnostic and with 0 if it has none. The run then reports
the line and column of the diagnostic, counted from one. -/
theorem Run.agrees_with_editor (w : Workspace) (uri : Text) (ha : Arguments.ofCommandLine argv = .ok a)
    (hs : Settings.resolve tree.read a = .ok s)
    (hout : ∀ p f, s.output? = some p → ¬tree.Refuses p f)
    (hread : tree.read (Path.ofText a.input) = .ok (Utf8.encode (w.textOf uri)))
    (hpaired : (w.textOf uri).ReturnsPaired) :
    let run := ofCommandLine tree argv
    let found := (w.publication uri).diagnostics
    (run.ending = .code 1 ↔ found ≠ []) ∧ (run.ending = .code 0 ↔ found = []) ∧
      (run.ending = .code 1 → ∃ (e : Malformed) (d : Diagnostic), found = [d] ∧
        Token.listOf (w.textOf uri).unifyLineEnds = .error e ∧
        run.err = e.report s.input.toText ++ ['\n'] ∧
        d.line = e.place.line - 1 ∧ d.start = e.place.column - 1) := by
  intro run found
  have hrun : run = ofPlan tree (.ofSource s (w.textOf uri).unifyLineEnds) := by
    rw [← Plan.ofArguments_of_encoded hs hread]
    exact ofCommandLine_of_ok ha
  have hfound : found = Diagnostic.listOf (w.textOf uri) := rfl
  rw [hrun, hfound, Diagnostic.listOf, Plan.ofSource]
  rcases listOf_unifyLineEnds hpaired with ⟨ts, ts', h, h'⟩ | ⟨e, e', h, h', hline, hcolumn⟩
  · have hending : (ofPlan tree (.ofTokens s ts')).ending = .code 0 := Run.ending_ofTokens ts' hout
    rw [h, h']
    simp [hending]
  · rw [h, h']
    have hending : (ofPlan tree { ending := .code 1, err := e'.report s.input.toText ++ ['\n'] }).ending =
        .code 1 := rfl
    refine ⟨?_, ?_, fun _ => ⟨e', .ofMalformed e, rfl, rfl, rfl, ?_, ?_⟩⟩
    · simp [hending]
    · simp [hending]
    · exact congrArg (· - 1) hline
    · exact congrArg (· - 1) hcolumn

/-- The string is opened behind a line end that the run and the editor count alike. -/
theorem Run.agrees_with_editor_crlf :
    let text := ['x', '\r', '\n', 'é', ' ', '"', '\r', '\n']
    let tree : FileTree := ⟨.folder [(['a'], .file (Utf8.encode text))], []⟩
    let w := Workspace.setText [] ['u'] text
    (ofCommandLine tree [['a']]).ending = .code 1 ∧
      ∃ (e : Malformed) (d : Diagnostic), (w.publication ['u']).diagnostics = [d] ∧
      (ofCommandLine tree [['a']]).err = e.report ['a'] ++ ['\n'] ∧
      d.line = e.place.line - 1 ∧ d.start = e.place.column - 1 := by
  intro text tree w
  have ha : Arguments.ofCommandLine [['a']] = .ok ⟨['a'], .unset, .unset, none, .unset, false⟩ := rfl
  obtain ⟨s, hs, hinput, hnone⟩ : ∃ s,
      Settings.resolve tree.read ⟨['a'], .unset, .unset, none, .unset, false⟩ = .ok s ∧
        s.input.toText = ['a'] ∧ s.output? = none := ⟨_, rfl, rfl, rfl⟩
  have htext : w.textOf ['u'] = text := by decide +kernel
  have hpaired : (w.textOf ['u']).ReturnsPaired := by
    rw [htext]
    exact Text.lineEnds_eq_count_iff.mp (by decide)
  have hread : tree.read (Path.ofText ['a']) = .ok (Utf8.encode (w.textOf ['u'])) := by
    rw [htext]
    rfl
  obtain ⟨hcode, -, hreport⟩ := Run.agrees_with_editor w ['u'] ha hs (by simp [hnone]) hread hpaired
  have hending := hcode.mpr (by decide +kernel)
  obtain ⟨e, d, hfound, -, herr, hplace⟩ := hreport hending
  rw [hinput] at herr
  exact ⟨hending, e, d, hfound, herr, hplace⟩

end

end MathTokens
