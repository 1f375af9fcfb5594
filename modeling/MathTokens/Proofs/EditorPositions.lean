import MathTokens.Editor
import MathTokens.Proofs.OpenStrings

/-!
# Positions in an editor

An editor ends lines at LF, at CR LF and at a lone CR, and counts the UTF-16 units of a line. The
diagnostics that are published count newlines and characters. The two name the same point exactly if
every carriage return before it is followed by a newline, and no character between the last newline
and the point takes two units.
-/

namespace MathTokens

namespace Text

def isLineEnd (c : Char) : Bool :=
  c = '\n' || c = '\r'

def unitsOf (c : Char) : Nat :=
  if c.toNat < 0x10000 then 1 else 2

def units : Text → Nat
  | [] => 0
  | c :: t => unitsOf c + units t

/-- What follows the first `n` line ends, if there are so many. -/
def afterLineEnds : Nat → Text → Option Text
  | 0, t => some t
  | _ + 1, [] => none
  | n + 1, '\r' :: '\n' :: t => afterLineEnds n t
  | n + 1, c :: t => if isLineEnd c then afterLineEnds n t else afterLineEnds (n + 1) t

/-- What follows the first `n` units of a line, or the whole line if it has fewer. There is no such
point inside a character of two units. -/
def afterUnits : Nat → Text → Option Text
  | 0, t => some t
  | _ + 1, [] => some []
  | n + 1, c :: t =>
    if isLineEnd c then some (c :: t)
    else if unitsOf c ≤ n + 1 then afterUnits (n + 1 - unitsOf c) t
    else none

/-- What follows the point that an editor means by a line and a character, counted from zero. -/
def afterPoint (line character : Nat) (t : Text) : Option Text :=
  (afterLineEnds line t).bind (afterUnits character)

def lineEnds : Text → Nat
  | [] => 0
  | '\r' :: '\n' :: t => lineEnds t + 1
  | c :: t => if isLineEnd c then lineEnds t + 1 else lineEnds t

def lastRow : Text → Text
  | [] => []
  | c :: t => if isLineEnd c || t.any isLineEnd then lastRow t else c :: t

/-- Every carriage return of the text is followed by a newline. -/
def ReturnsPaired (t : Text) : Prop :=
  ∀ a b, t = a ++ '\r' :: b → b.head? = some '\n'

/-! ## Points of a text -/

theorem length_afterUnits_le {n : Nat} {t rest : Text} (h : afterUnits n t = some rest) :
    rest.length ≤ t.length := by
  fun_induction afterUnits n t with
  | case1 t => simp_all
  | case2 => simp_all
  | case3 n c t hc => simp_all
  | case4 n c t hc hu ih => have := ih h; simp; omega
  | case5 => cases h

theorem length_afterLineEnds_le {n : Nat} {t rest : Text} (h : afterLineEnds n t = some rest) :
    rest.length ≤ t.length := by
  fun_induction afterLineEnds n t with
  | case1 t => simp_all
  | case2 => cases h
  | case3 n t ih => have := ih h; simp; omega
  | case4 n c t _ hc ih => have := ih h; simp; omega
  | case5 n c t _ hc ih => have := ih h; simp; omega

theorem unitsOf_pos (c : Char) : 0 < unitsOf c := by
  unfold unitsOf
  split <;> decide

theorem lineEnds_eq_zero_iff {t : Text} : lineEnds t = 0 ↔ t.any isLineEnd = false := by
  fun_induction lineEnds t with
  | case1 => simp
  | case2 t ih => simp [isLineEnd]
  | case3 c t _ hc ih => simp [hc]
  | case4 c t _ hc ih => simp [hc, ih]

section
variable {t tail : Text} {line character : Nat}

theorem afterUnits_ne_of_length_lt {rest : Text} (h : t.length < rest.length) :
    afterUnits character t ≠ some rest := by
  intro he
  have := length_afterUnits_le he
  omega

theorem afterPoint_ne_of_length_lt {rest : Text} (h : t.length < rest.length) :
    afterPoint line character t ≠ some rest := by
  intro he
  obtain ⟨row, hrow, he⟩ := Option.bind_eq_some_iff.mp he
  have := length_afterLineEnds_le hrow
  exact afterUnits_ne_of_length_lt (by omega) he

theorem afterUnits_eq_quote_iff : afterUnits character (t ++ quote :: tail) = some (quote :: tail) ↔
    t.any isLineEnd = false ∧ character = units t := by
  induction t generalizing character with
  | nil =>
    cases character with
    | zero => simp [afterUnits, units]
    | succ n =>
      have hq : isLineEnd quote = false ∧ unitsOf quote = 1 := by decide
      have hne : afterUnits n tail ≠ some (quote :: tail) := afterUnits_ne_of_length_lt (by simp)
      simp [afterUnits, hq.1, hq.2, hne, units]
  | cons c t ih =>
    have hu := unitsOf_pos c
    have hlong : t.length + (tail.length + 1) + 1 ≠ tail.length + 1 := by omega
    have hne : c :: (t ++ quote :: tail) ≠ quote :: tail :=
      fun he => hlong (by simpa using congrArg List.length he)
    cases character with
    | zero =>
      simp only [List.cons_append, afterUnits, Option.some.injEq, hne, false_iff, units, not_and]
      omega
    | succ n =>
      rw [List.cons_append, afterUnits, List.any_cons]
      by_cases hc : isLineEnd c = true
      · simp [hc, hne]
      · by_cases hn : unitsOf c ≤ n + 1
        · rw [if_neg hc, if_pos hn, ih]
          simp only [Bool.not_eq_true] at hc
          simp only [hc, Bool.false_or, units]
          refine and_congr_right fun _ => ?_
          omega
        · rw [if_neg hc, if_neg hn]
          simp only [Bool.not_eq_true] at hc
          simp only [reduceCtorEq, hc, Bool.false_or, units, false_iff, not_and]
          omega

theorem afterUnits_succ {c : Char} {rest : Text} (hc : isLineEnd c = false) (hu : unitsOf c = 1)
    (h : afterUnits character t = some (c :: rest)) : afterUnits (character + 1) t = some rest := by
  fun_induction afterUnits character t with
  | case1 t =>
    obtain rfl := Option.some.inj h
    simp [afterUnits, hc, hu]
  | case2 => cases h
  | case3 n d t hd =>
    cases h
    rw [hc] at hd
    cases hd
  | case4 n d t hd hn ih =>
    rw [afterUnits, if_neg hd, if_pos (by omega), ← ih h]
    congr 1
    omega
  | case5 => cases h

theorem afterPoint_succ_cons {c : Char} (hp : c = '\r' → t.head? ≠ some '\n') :
    afterPoint (line + 1) character (c :: t) =
      if isLineEnd c then afterPoint line character t else afterPoint (line + 1) character t := by
  unfold afterPoint
  rw [afterLineEnds]
  · split
    · rfl
    · rfl
  · intro t' hc ht
    exact hp hc (by rw [ht]; rfl)

theorem afterPoint_zero_eq_quote_iff :
    afterPoint 0 character (t ++ quote :: tail) = some (quote :: tail) ↔
    lineEnds t = 0 ∧ character = units t := by
  rw [lineEnds_eq_zero_iff, ← afterUnits_eq_quote_iff, afterPoint, afterLineEnds, Option.bind_some]

theorem lastRow_of_lineEnds {c : Char} (h : isLineEnd c = true ∨ lineEnds t ≠ 0) :
    lastRow (c :: t) = lastRow t := by
  rw [lastRow, if_pos]
  rw [Bool.or_eq_true]
  refine h.imp_right fun ht => ?_
  rw [ne_eq, lineEnds_eq_zero_iff, Bool.not_eq_false] at ht
  exact ht

theorem lastRow_of_not_lineEnds (h : lineEnds t = 0) : lastRow t = t := by
  cases t with
  | nil => rfl
  | cons c t =>
    rw [lineEnds_eq_zero_iff, List.any_cons] at h
    rw [lastRow, h]
    rfl

theorem head?_append_quote_ne {c : Char} (h : ∀ t', c = '\r' → t = '\n' :: t' → False) :
    c = '\r' → (t ++ quote :: tail).head? ≠ some '\n' := by
  intro hc
  cases t with
  | nil => exact fun he => absurd he (by simp [quote])
  | cons d t =>
    intro he
    obtain rfl : d = '\n' := by simpa using he
    exact h t hc rfl

/-- A point is named by the lines ended before it and the units before it on its own line, and by
nothing else. -/
theorem afterPoint_eq_quote_iff :
    afterPoint line character (t ++ quote :: tail) = some (quote :: tail) ↔
    line = lineEnds t ∧ character = units (lastRow t) := by
  -- the line says how many ends are still to be passed, so it goes down at each end of a line
  fun_induction lineEnds t generalizing line with
  | case1 =>
    cases line with
    | zero => exact afterPoint_zero_eq_quote_iff
    | succ n =>
      rw [List.nil_append, afterPoint_succ_cons (fun h => absurd h (by decide)), if_neg (by decide)]
      simp [afterPoint_ne_of_length_lt]
  | case2 t ih =>
    cases line with
    | zero =>
      have hl : lineEnds ('\r' :: '\n' :: t) ≠ 0 := by simp [lineEnds]
      rw [afterPoint_zero_eq_quote_iff]
      simp [hl]
    | succ n =>
      have hstep : afterPoint (n + 1) character ('\r' :: '\n' :: t ++ quote :: tail) =
          afterPoint n character (t ++ quote :: tail) := by
        simp [afterPoint, afterLineEnds]
      rw [hstep, ih, lastRow_of_lineEnds (.inl rfl), lastRow_of_lineEnds (.inl rfl)]
      simp
  | case3 c t hcr hc ih =>
    cases line with
    | zero =>
      have hl : lineEnds (c :: t) ≠ 0 := by
        rw [ne_eq, lineEnds_eq_zero_iff]
        simp [hc]
      rw [afterPoint_zero_eq_quote_iff]
      simp [hl]
    | succ n =>
      rw [List.cons_append, afterPoint_succ_cons (head?_append_quote_ne hcr), if_pos hc, ih,
        lastRow_of_lineEnds (.inl hc)]
      simp
  | case4 c t hcr hc ih =>
    cases line with
    | zero =>
      have hl : lineEnds (c :: t) = lineEnds t := by
        rw [lineEnds, if_neg hc]
        exact hcr
      rw [afterPoint_zero_eq_quote_iff, hl, eq_comm]
      refine and_congr_right fun h => ?_
      rw [lastRow_of_not_lineEnds (hl.trans h.symm)]
    | succ n =>
      rw [List.cons_append, afterPoint_succ_cons (head?_append_quote_ne hcr), if_neg hc, ih]
      refine and_congr_right fun h => ?_
      rw [lastRow_of_lineEnds (.inr (by omega))]

end

/-! ## Newlines and characters -/

section
variable {t : Text}

theorem returnsPaired_cons {c : Char} :
    ReturnsPaired (c :: t) ↔ (c = '\r' → t.head? = some '\n') ∧ ReturnsPaired t := by
  constructor
  · intro h
    exact ⟨fun hc => h [] t (by rw [hc]; rfl), fun a b ht => h (c :: a) b (by rw [ht]; rfl)⟩
  · intro h a b hab
    cases a with
    | nil =>
      cases hab
      exact h.1 rfl
    | cons d a =>
      cases hab
      exact h.2 a b rfl

theorem ReturnsPaired.not_mem (h : ReturnsPaired t) (hn : '\n' ∉ t) : '\r' ∉ t := by
  intro hr
  obtain ⟨a, b, rfl⟩ := List.append_of_mem hr
  have hb : '\n' ∈ b := List.mem_of_head? (h a b rfl)
  exact hn (by simp [hb])

theorem count_le_lineEnds (t : Text) : t.count '\n' ≤ lineEnds t := by
  fun_induction lineEnds t with
  | case1 => simp
  | case2 t ih => simpa using ih
  | case3 c t _ hc ih =>
    rw [List.count_cons]
    split <;> omega
  | case4 c t _ hc ih =>
    have hn : c ≠ '\n' := fun e => hc (by simp [isLineEnd, e])
    simpa [List.count_cons, hn] using ih

theorem lineEnds_eq_count_iff : lineEnds t = t.count '\n' ↔ ReturnsPaired t := by
  fun_induction lineEnds t with
  | case1 => simp [ReturnsPaired]
  | case2 t ih => simp [returnsPaired_cons, ih]
  | case3 c t hcr hc ih =>
    by_cases hn : c = '\n'
    · simp [returnsPaired_cons, hn, ih]
    · -- a lone carriage return ends a line that no newline ends
      have hr : c = '\r' := by simpa [isLineEnd, hn] using hc
      have hhead : t.head? ≠ some '\n' := fun h => by
        cases t with
        | nil => cases h
        | cons d t => exact hcr t hr (by rw [Option.some.inj h])
      have hle := count_le_lineEnds t
      rw [returnsPaired_cons, List.count_cons_of_ne hn]
      constructor
      · intro h
        omega
      · intro h
        exact absurd (h.1 hr) hhead
  | case4 c t _ hc ih =>
    simp only [isLineEnd, Bool.or_eq_true, decide_eq_true_eq, not_or] at hc
    rw [returnsPaired_cons, List.count_cons_of_ne hc.1, ih]
    simp [hc.2]

theorem ReturnsPaired.lastRow_eq (h : ReturnsPaired t) : lastRow t = lastLine t := by
  induction t with
  | nil => rfl
  | cons c t ih =>
    obtain ⟨hc, ht⟩ := returnsPaired_cons.mp h
    by_cases hn : '\n' ∈ t
    · have hany : t.any isLineEnd = true := List.any_eq_true.mpr ⟨'\n', hn, rfl⟩
      rw [lastRow, hany, Bool.or_true, if_pos rfl, ih ht, ← List.singleton_append,
        lastLine_append_of_mem hn]
    · have hr := ht.not_mem hn
      have hany : t.any isLineEnd = false := by
        rw [List.any_eq_false]
        intro d hd
        have h1 : d ≠ '\n' := fun e => hn (e ▸ hd)
        have h2 : d ≠ '\r' := fun e => hr (e ▸ hd)
        simp [isLineEnd, h1, h2]
      have hcr : c ≠ '\r' := fun e => hn (List.mem_of_head? (hc e))
      rw [← List.singleton_append, lastLine_append_of_not_mem hn, List.singleton_append, lastRow, hany,
        Bool.or_false]
      by_cases hcn : c = '\n'
      · subst hcn
        rw [if_pos (by decide), lastRow_of_not_lineEnds (lineEnds_eq_zero_iff.mpr hany)]
        rfl
      · simp [isLineEnd, hcn, hcr, lastLine]

theorem length_le_units (t : Text) : t.length ≤ units t := by
  induction t with
  | nil => rfl
  | cons c t ih =>
    have := unitsOf_pos c
    simp only [units, List.length_cons] at ih ⊢
    omega

theorem units_eq_length_iff : units t = t.length ↔ ∀ c ∈ t, c.toNat < 0x10000 := by
  induction t with
  | nil => simp [units]
  | cons c t ih =>
    have hle := length_le_units t
    rw [List.forall_mem_cons, ← ih]
    simp only [units, List.length_cons] at hle ⊢
    by_cases hc : c.toNat < 0x10000
    · have hu : unitsOf c = 1 := if_pos hc
      rw [hu]
      omega
    · have hu : unitsOf c = 2 := if_neg hc
      rw [hu]
      omega

theorem afterPoint_newlines_iff {tail : Text} :
    afterPoint (t.count '\n') t.lastLine.length (t ++ quote :: tail) = some (quote :: tail) ↔
      ReturnsPaired t ∧ ∀ c ∈ t.lastLine, c.toNat < 0x10000 := by
  rw [afterPoint_eq_quote_iff, eq_comm, lineEnds_eq_count_iff]
  refine and_congr_right fun h => ?_
  rw [h.lastRow_eq, eq_comm, units_eq_length_iff]

end

end Text

/-- An editor reads the range of the diagnostic as the text `mark` that has `rest` behind it. -/
def Diagnostic.Marks (d : Diagnostic) (text mark rest : Text) : Prop :=
  ∃ line start stop : Nat, d.line = line ∧ d.start = start ∧ d.stop = stop ∧
    text.afterPoint line start = some (mark ++ rest) ∧ text.afterPoint line stop = some rest

theorem Diagnostic.ofMalformed_unclosed_marks_iff {before tail : Text} :
    (ofMalformed (.unclosed (before ++ quote :: tail) before)).Marks (before ++ quote :: tail) [quote] tail ↔
      before.ReturnsPaired ∧ ∀ c ∈ before.lastLine, c.toNat < 0x10000 := by
  have hl := before.lineStart_add_length_lastLine
  have hline :
      (ofMalformed (.unclosed (before ++ quote :: tail) before)).line = (before.count '\n' : Nat) := by
    simp only [ofMalformed, Malformed.unclosed, Position.after, Position.toPlace]
    omega
  have hstart :
      (ofMalformed (.unclosed (before ++ quote :: tail) before)).start = before.lastLine.length := by
    simp only [ofMalformed, Malformed.unclosed, Position.after, Position.toPlace]
    omega
  have hstop : (ofMalformed (.unclosed (before ++ quote :: tail) before)).stop =
      (before.lastLine.length + 1 : Nat) := by
    simp only [ofMalformed, Malformed.unclosed, Position.after, Position.toPlace]
    omega
  rw [← @Text.afterPoint_newlines_iff _ tail]
  constructor
  · intro h
    obtain ⟨line, start, stop, h1, h2, -, h4, -⟩ := h
    rw [hline] at h1
    rw [hstart] at h2
    rw [Int.ofNat_inj.mp h1, Int.ofNat_inj.mp h2]
    exact h4
  · intro h
    refine ⟨_, _, _, hline, hstart, hstop, h, ?_⟩
    obtain ⟨row, hrow, hpoint⟩ := Option.bind_eq_some_iff.mp h
    rw [Text.afterPoint, hrow, Option.bind_some]
    exact Text.afterUnits_succ (by decide) (by decide) hpoint

/-- **Editor positions.** What is published about a text that cannot be read is one diagnostic. An
editor reads its range as the quote that is not closed exactly if every carriage return before the
quote is followed by a newline and no character before it on its line takes two UTF-16 units. -/
theorem publication_marks_quote_iff (w : Workspace) (uri : Text) (e : Malformed)
    (h : Token.listOf (w.textOf uri) = .error e) :
    ∃ before tail d, w.textOf uri = before ++ quote :: tail ∧ quote ∉ tail ∧
      e = .unclosed (w.textOf uri) before ∧ w.publication uri = ⟨uri, [d]⟩ ∧
      (d.Marks (w.textOf uri) [quote] tail ↔
        before.ReturnsPaired ∧ ∀ c ∈ before.lastLine, c.toNat < 0x10000) := by
  obtain ⟨ps, gap, tail, hb⟩ := (listOf_isError_iff _).mp ⟨e, h⟩
  have htext : w.textOf uri = ps.flatMap Piece.text ++ gap ++ quote :: tail := by
    rw [hb.reads.eq, List.append_assoc]
  have he : e = .unclosed (w.textOf uri) (ps.flatMap Piece.text ++ gap) :=
    (Except.error.inj (hb.listOf_eq.symm.trans h)).symm
  refine ⟨_, tail, .ofMalformed e, htext, hb.tail, he, ?_, ?_⟩
  · simp [Workspace.publication, Diagnostic.listOf, h]
  · rw [he, htext]
    exact Diagnostic.ofMalformed_unclosed_marks_iff

/-- Two line ends and letters that take more than one byte, but one unit each. -/
theorem publication_marks_quote_iff_crlf :
    let uri := ['u']
    let before := ['x', '\r', '\n', 'é', '\n', 'ü', ' ']
    let w := Workspace.setText [] uri (before ++ ['"', 'a'])
    let e := Malformed.unclosed (w.textOf uri) before
    Token.listOf (w.textOf uri) = .error e ∧ ∃ d, w.publication uri = ⟨uri, [d]⟩ ∧
      d.Marks (w.textOf uri) [quote] ['a'] := by
  intro uri before w e
  have h : Token.listOf (w.textOf uri) = .error e := by decide +kernel
  have hdoc : w.textOf uri = before ++ ['"', 'a'] := by decide +kernel
  obtain ⟨before', tail, d, htext, -, he, hpub, hmarks⟩ := publication_marks_quote_iff w uri e h
  have hlen : before.length = before'.length :=
    Int.ofNat_inj.mp (congrArg (fun m : Malformed => m.place.offset) he)
  obtain ⟨hb, ht⟩ := List.append_inj (hdoc.symm.trans htext) hlen
  obtain rfl := hb
  obtain rfl : ['a'] = tail := (List.cons.inj ht).2
  have hreturns : Text.ReturnsPaired before := Text.lineEnds_eq_count_iff.mp (by decide)
  have hunits : ∀ c ∈ Text.lastLine before, c.toNat < 0x10000 :=
    Text.units_eq_length_iff.mp (by decide)
  exact ⟨h, d, hpub, hmarks.mpr ⟨hreturns, hunits⟩⟩

/-- An editor takes the range for the space before the quote, because the first character takes two
units. -/
theorem quote_behind_two_units_not_marked :
    let text := ['😀', ' ', '"']
    ∃ d, (Workspace.notify [] (.opened ['u'] text)).1 = ⟨['u'], [d]⟩ ∧ d.Marks text [' '] [quote] ∧
      ¬d.Marks text [quote] [] := by
  intro text
  refine ⟨⟨0, 2, 3, Cause.unterminatedString.message, 1, About.program⟩, by decide +kernel,
    ⟨0, 2, 3, rfl, rfl, rfl, by decide, by decide⟩, ?_⟩
  intro hd
  obtain ⟨line, start, stop, h1, h2, -, h4, -⟩ := hd
  dsimp only at h1 h2
  obtain rfl : line = 0 := by omega
  obtain rfl : start = 2 := by omega
  revert h4
  decide

end MathTokens
