import MathTokens.Proofs.Agreement
import MathTokens.Proofs.Effects
import MathTokens.Proofs.IllFormed
import MathTokens.Proofs.LineEnds

/-!
# The bytes of the input

A run whose input is the bytes of a text goes by that text, with its line ends made newlines. Any other
bytes are refused: the run reports where the longest text ends that the bytes begin with, and why no
character stands there.
-/

namespace MathTokens

open Utf8 (Bytes encode decode IllFormed)

namespace Run

/-- A run with usable settings lists the tokens of its source, or reports where the source is malformed. -/
inductive Handles (run : Run) (tree : FileTree) (a : Arguments) (s : Settings) (source : Text) : Prop where
  | listed {ts : List Token} (h : Token.listOf source = .ok ts) (hcode : run.ending = .code 0)
      (herr : run.err = if a.debug then Token.lines true ts else [])
      (hdelivers : run.Delivers tree a.output (s.listing ts)) : Handles run tree a s source
  | malformed {e : Malformed} (h : Token.listOf source = .error e) (hcode : run.ending = .code 1)
      (hout : run.out = []) (herr : run.err = e.report (Path.ofText a.input).toText ++ ['\n'])
      (htree : run.tree = tree) : Handles run tree a s source

/-- A run does nothing but report the first bytes of its input that are no character. -/
structure RefusesBytes (run : Run) (tree : FileTree) (input : Path) (content : Bytes) : Prop where
  ending : run.ending = .code 2
  out : run.out = []
  tree : run.tree = tree
  fault : ∃ f : Utf8.Fault,
    IsGreatest {n | ∃ t, encode t <+: content ∧ (encode t).length = n} f.position ∧
      IllFormed (content.drop f.position) f.reason f.length ∧ content[f.position]? = some f.first ∧
      run.err = "error: ".toList ++ (input.toText ++ ": ".toList ++ f.message) ++ ['\n']

section
variable {tree : FileTree} {a : Arguments} {s : Settings} {argv : List Text} {content : Bytes}
  {source : Text}

theorem handles_ofSource (hg : tree.Grounded) (hs : Settings.resolve tree.read a = .ok s)
    (hout : ∀ p f, s.output? = some p → ¬tree.Refuses p f)
    (hsource : Plan.InputSpells tree.read a source) :
    (ofPlan tree (.ofSource s source)).Handles tree a s source := by
  unfold Plan.ofSource
  cases h : Token.listOf source with
  | ok ts =>
    have hcode : (ofPlan tree (.ofTokens s ts)).ending = .code 0 := ending_ofTokens ts hout
    obtain ⟨herr, hdelivers⟩ := delivers_ofTokens hg ⟨hs, source, hsource, h⟩ hcode
    exact .listed h hcode herr hdelivers
  | error e =>
    rw [(Settings.resolve_eq_ok hs).1]
    exact .malformed h rfl rfl rfl rfl

theorem refusesBytes_of_not_text (hs : Settings.resolve tree.read a = .ok s)
    (hread : tree.read (.ofText a.input) = .ok content) (h : ¬∃ t, encode t = content) :
    (ofPlan tree (.ofArguments tree.read a)).RefusesBytes tree (.ofText a.input) content := by
  obtain ⟨f, hf⟩ := Utf8.exists_decode_eq_error h
  have hinput := (Settings.resolve_eq_ok hs).1
  have hplan : Plan.ofArguments tree.read a =
      .refuse ((Path.ofText a.input).toText ++ ": ".toList ++ f.message) := by
    unfold Plan.ofArguments Plan.ofSettings Plan.ofContent Plan.sourceOf
    simp only [hs, hinput, hread, hf, Except.map]
  obtain ⟨hill, hfirst⟩ := Utf8.illFormed_of_decode_eq_error hf
  rw [hplan]
  exact ⟨rfl, rfl, rfl, f, Utf8.isGreatest_position hf, hill, hfirst, rfl⟩

/-- **Strict decoding.** Where everything else can be used, the input is either the bytes of one text, or
of none. A run goes by that text with its line ends made newlines, or else refuses the bytes. -/
theorem decodes_strictly (hg : tree.Grounded) (ha : Arguments.ofCommandLine argv = .ok a)
    (hs : Settings.resolve tree.read a = .ok s)
    (hout : ∀ p f, s.output? = some p → ¬tree.Refuses p f)
    (hread : tree.read (.ofText a.input) = .ok content) :
    let run := ofCommandLine tree argv
    (∀ t, encode t = content → (∀ t', encode t' = content → t' = t) ∧
        ∃ source, t.Unifies source ∧ run.Handles tree a s source) ∧
      ((¬∃ t, encode t = content) → run.RefusesBytes tree (.ofText a.input) content) := by
  intro run
  have hrun : run = ofPlan tree (.ofArguments tree.read a) := ofCommandLine_of_ok ha
  rw [hrun]
  refine ⟨?_, refusesBytes_of_not_text hs hread⟩
  rintro t rfl
  refine ⟨fun t' ht' => Utf8.encode_inj ht', t.unifyLineEnds, Text.unifies_unifyLineEnds t, ?_⟩
  have hsource : Plan.InputSpells tree.read a t.unifyLineEnds :=
    ⟨encode t, hread, by rw [Plan.sourceOf, Utf8.decode_encode]; rfl⟩
  rw [Plan.ofArguments_of_encoded hs hread]
  exact handles_ofSource hg hs hout hsource

/-- The string is opened behind a CR LF. The other file has an encoded surrogate behind its first character. -/
theorem decodes_strictly_surrogate :
    let text := ['é', '\r', '\n', '"']
    let content : Bytes := [0xc3, 0xa9, 0xed, 0xa0, 0x80]
    let tree : FileTree := ⟨.folder [(['a'], .file (encode text)), (['b'], .file content)], []⟩
    let run := ofCommandLine tree [['a']]
    let run' := ofCommandLine tree [['b']]
    tree.Grounded ∧ run.ending = .code 1 ∧
      run'.ending = .code 2 ∧ run'.tree = tree ∧ ∃ f : Utf8.Fault, f.position = 2 ∧ f.first = 0xed ∧
        run'.err = "error: ".toList ++ (['b'] ++ ": ".toList ++ f.message) ++ ['\n'] := by
  intro text content tree run run'
  have hg : tree.Grounded := rfl
  let a : Arguments := ⟨['a'], .unset, .unset, none, .unset, false⟩
  let b : Arguments := ⟨['b'], .unset, .unset, none, .unset, false⟩
  have ha : Arguments.ofCommandLine [['a']] = .ok a := rfl
  have hb : Arguments.ofCommandLine [['b']] = .ok b := rfl
  have hs : Settings.resolve tree.read a = .ok ⟨.ofText ['a'], none, some .text, false, false⟩ := rfl
  have hs' : Settings.resolve tree.read b = .ok ⟨.ofText ['b'], none, some .text, false, false⟩ := rfl
  have hread : tree.read (.ofText a.input) = .ok (encode text) := rfl
  have hread' : tree.read (.ofText b.input) = .ok content := rfl
  obtain ⟨-, source, hunifies, hhandles⟩ :=
    (decodes_strictly hg ha hs (by simp) hread).1 text rfl
  obtain rfl : source = ['é', '\n', '"'] := hunifies.eq
  obtain ⟨e, he⟩ : ∃ e, Token.listOf ['é', '\n', '"'] = .error e :=
    (listOf_isError_iff_after _).mpr (by decide)
  have hdecode : decode content = .error ⟨.invalidContinuation, 2, 0xed, 1⟩ := rfl
  have hnone : ¬∃ t, encode t = content := by
    rintro ⟨t, ht⟩
    cases hdecode.symm.trans (Utf8.decode_eq_ok_iff.mpr ht)
  obtain ⟨hending, -, htree, f, hgreatest, -, hfirst, herr⟩ :=
    (decodes_strictly hg hb hs' (by simp) hread').2 hnone
  have hgreatest' := Utf8.isGreatest_position hdecode
  have hposition : f.position = 2 :=
    Nat.le_antisymm (hgreatest'.2 hgreatest.1) (hgreatest.2 hgreatest'.1)
  rw [hposition] at hfirst
  refine ⟨hg, ?_, hending, htree, f, hposition, (Option.some.inj hfirst).symm, herr⟩
  cases hhandles with
  | listed h => cases he.symm.trans h
  | malformed _ hcode => exact hcode

end

end Run

end MathTokens
