import MathTokens.Proofs.LineTexts

/-!
# JSON texts

The text of a value is told from what follows it, if a comma or a line end does: strings are closed by
their quote, arrays and objects by their brackets, and numbers run as far as they can. So a value is
read back from the front of a text, and a token list from its listing, as far as the listing says.
-/

namespace MathTokens

namespace Json

/-- Claims on values are proved from the items and the members up. -/
@[elab_as_elim, induction_eliminator]
theorem induction {motive : Json → Prop} (string : ∀ t, motive (.string t))
    (integer : ∀ n, motive (.integer n)) (real : ∀ x, motive (.real x))
    (array : ∀ js, (∀ j ∈ js, motive j) → motive (.array js))
    (object : ∀ ms, (∀ m ∈ ms, motive m.2) → motive (.object ms)) : ∀ j, motive j
  | .string t => string t
  | .integer n => integer n
  | .real x => real x
  | .array js => array js fun j _ => induction string integer real array object j
  | .object ms => object ms fun m _ => induction string integer real array object m.2
termination_by j => j
decreasing_by
  · decreasing_tactic
  · next hm =>
    have := List.sizeOf_lt_of_mem hm
    obtain ⟨key, j⟩ := m
    simp only [Prod.mk.sizeOf_spec, Json.object.sizeOf_spec] at *
    omega

/-! ## Escaped units -/

inductive Escaped (u : UInt16) : Text → Prop
  | plain {c} : c.toNat = u.toNat → 0x20 ≤ c.toNat → c.toNat < 0x7f → c ≠ '"' → c ≠ '\\' → Escaped u [c]
  | short {c d} : (c, d) ∈ shortEscapes → c.toNat = u.toNat → Escaped u ['\\', d]
  | unit : Escaped u (escapeUnit u)

theorem escaped_escape (u : UInt16) : Escaped u (escape u) := by
  unfold escape
  split
  · next e he =>
    have hu := List.find?_some he
    exact .short (List.mem_of_find?_eq_some he) (of_decide_eq_true hu)
  next hnone =>
  split
  · next hu =>
    have hc : (Char.ofNat u.toNat).toNat = u.toNat := Text.toNat_ofNat (by omega)
    have not_short {c d : Char} (h : (c, d) ∈ shortEscapes) : Char.ofNat u.toNat ≠ c := by
      rintro rfl
      exact List.find?_eq_none.mp hnone _ h (decide_eq_true hc)
    refine .plain hc (hc.symm ▸ hu.1) (hc.symm ▸ hu.2) (not_short (d := '"') ?_) (not_short (d := '\\') ?_)
    · simp [shortEscapes]
    · simp [shortEscapes]
  · exact .unit

theorem escapeUnit_append_inj {u v : UInt16} {s t : Text} (h : escapeUnit u ++ s = escapeUnit v ++ t) :
    u = v ∧ s = t := by
  simp only [escapeUnit, List.cons_append, List.cons.injEq, true_and] at h
  obtain ⟨hdigits, hrest⟩ := List.append_inj h (by rw [Text.length_digits, Text.length_digits])
  have hlt (u : UInt16) : u.toNat < Nat.pow 16 4 := u.toNat_lt
  exact ⟨UInt16.toNat_inj.mp (Text.digits_inj (hlt u) (hlt v) hdigits), hrest⟩

theorem Escaped.inj {u v : UInt16} {a b s t : Text} (hu : Escaped u a) (hv : Escaped v b)
    (h : a ++ s = b ++ t) : u = v := by
  have short_ne_unit {c d : Char} {u : UInt16} {s t : Text} (hcd : (c, d) ∈ shortEscapes) :
      ['\\', d] ++ s ≠ escapeUnit u ++ t := by
    intro h
    simp only [escapeUnit, List.cons_append, List.cons.injEq, true_and] at h
    obtain rfl := h.1
    revert hcd
    simp [shortEscapes]
  have eq_of_char {c : Char} {u v : UInt16} (hu : c.toNat = u.toNat) (hv : c.toNat = v.toNat) : u = v :=
    UInt16.toNat_inj.mp (hu.symm.trans hv)
  cases hu with
  | plain hc _ _ _ hbackslash =>
    cases hv with
    | plain hd =>
      obtain rfl := (List.cons.inj h).1
      exact eq_of_char hc hd
    | short => exact absurd (List.cons.inj h).1 hbackslash
    | unit => exact absurd (List.cons.inj h).1 hbackslash
  | @short c e he hc =>
    cases hv with
    | plain _ _ _ _ hbackslash => exact absurd (List.cons.inj h).1.symm hbackslash
    | @short d e' he' hd =>
      simp only [List.cons_append, List.cons.injEq, true_and] at h
      obtain ⟨rfl, -⟩ := h
      have once : ∀ p ∈ shortEscapes, ∀ q ∈ shortEscapes, p.2 = q.2 → p.1 = q.1 := by decide
      obtain rfl : c = d := once _ he _ he' rfl
      exact eq_of_char hc hd
    | unit => exact absurd h (short_ne_unit he)
  | unit =>
    cases hv with
    | plain _ _ _ _ hbackslash => exact absurd (List.cons.inj h).1.symm hbackslash
    | short he => exact absurd h.symm (short_ne_unit he)
    | unit => exact (escapeUnit_append_inj h).1

theorem Escaped.not_quote {u : UInt16} {a s t : Text} (hu : Escaped u a) : a ++ s ≠ '"' :: t := by
  intro h
  cases hu with
  | plain _ _ _ hquote => exact hquote (List.cons.inj h).1
  | short => cases (List.cons.inj h).1
  | unit => cases (List.cons.inj h).1

theorem escapes : Text.Escapes '"' escape where
  inj := (escaped_escape _).inj (escaped_escape _)
  not_quote := (escaped_escape _).not_quote

theorem stringText_append_inj {a b : Utf16.Units} {s t : Text}
    (h : stringText a ++ s = stringText b ++ t) : a = b ∧ s = t := by
  unfold stringText at h
  simp only [List.cons_append, List.append_assoc, List.nil_append, List.cons.injEq, true_and] at h
  exact escapes.flatMap_inj h

/-! ## Numbers -/

/-- The words for the infinite numbers are known by their first letter. -/
theorem mem_realText_iff {x : Binary64} : 'I' ∈ realText x ↔ ¬x.isFinite = true := by
  by_cases hx : x.isFinite = true
  · have hne : 'I' ∉ x.toText := fun hi => absurd (Binary64.toText_chars x 'I' hi) (by decide)
    rw [realText, if_pos hx]
    exact iff_of_false hne (not_not_intro hx)
  · rw [realText, if_neg hx]
    refine iff_of_true ?_ hx
    split <;> decide

def numberMarks : List Char := "+-.einftyI".toList

theorem realText_chars (x : Binary64) : ∀ c ∈ realText x, c.isDigit ∨ c ∈ numberMarks := by
  have widen : ∀ c ∈ Binary64.marks, c ∈ numberMarks := by decide
  unfold realText
  split
  · exact fun c hc => (Binary64.toText_chars x c hc).imp_right (widen c)
  · split <;> decide

theorem realText_not_digits (x : Binary64) : ¬Digits (realText x) := by
  by_cases hx : x.isFinite = true
  · rw [realText, if_pos hx]
    exact Binary64.toText_not_digits x
  · exact Binary64.not_digits_of_mem (c := 'I') rfl (mem_realText_iff.mpr hx)

theorem realText_ne_nil (x : Binary64) : realText x ≠ [] := by
  intro h
  apply realText_not_digits x
  simp [h, Digits]

theorem realText_inj {x y : Binary64} (h : realText x = realText y) : x = y := by
  have hfinite : ¬x.isFinite = true ↔ ¬y.isFinite = true := by
    rw [← mem_realText_iff, h, mem_realText_iff]
  by_cases hx : x.isFinite = true
  · have hy := (not_iff_not.mp hfinite).mp hx
    rw [realText, if_pos hx, realText, if_pos hy] at h
    exact Binary64.toText_inj h
  · have hy := hfinite.mp hx
    rw [realText, if_neg hx, realText, if_neg hy] at h
    have hsign : x.negative = y.negative := by
      by_cases hnx : x.negative = true <;> by_cases hny : y.negative = true <;> simp_all
    rw [Bool.not_eq_true] at hx hy
    exact Binary64.ext_of_rank hsign
      ((Binary64.rank_of_infinite hx).trans (Binary64.rank_of_infinite hy).symm)

/-! ## Values in their place -/

def stops : List Char := [',', '\n']

section
variable {α : Type} {write : α → Text}

/-- A value is read back from the front of a text that it is written to. -/
def Recovers (write : α → Text) (a : α) : Prop :=
  ∀ b s t, Text.StopsAt stops s → Text.StopsAt stops t → write a ++ s = write b ++ t →
    a = b ∧ s = t

def rest (depth : Nat) (write : α → Text) (as : List α) : Text :=
  as.flatMap fun a => ',' :: newline depth ++ write a

def enclosed (o c : Char) (depth : Nat) (write : α → Text) : List α → Text
  | [] => [o, c]
  | a :: as =>
    o :: newline (depth + 1) ++ write a ++ rest (depth + 1) write as ++ newline depth ++ [c]

theorem rest_cons (depth : Nat) (a : α) (as : List α) :
    rest depth write (a :: as) = ',' :: newline depth ++ write a ++ rest depth write as := by
  simp [rest]

theorem stopsAt_rest (depth : Nat) (as : List α) (s : Text) :
    Text.StopsAt stops (rest depth write as ++ '\n' :: s) := by
  cases as with
  | nil => exact Text.stopsAt_cons (by simp [stops])
  | cons a as => exact Text.stopsAt_cons (by simp [stops])

theorem rest_append_inj {depth : Nat} {as bs : List α} {s t : Text} (h : ∀ a ∈ as, Recovers write a)
    (he : rest depth write as ++ '\n' :: s = rest depth write bs ++ '\n' :: t) :
    as = bs ∧ s = t := by
  -- a comma goes on with the entries, and a line end does not
  induction as generalizing bs with
  | nil =>
    cases bs with
    | nil => exact ⟨rfl, (List.cons.inj he).2⟩
    | cons b bs => cases (List.cons.inj he).1
  | cons a as ih =>
    cases bs with
    | nil => cases (List.cons.inj he).1
    | cons b bs =>
      rw [rest_cons, rest_cons, List.append_assoc, List.append_assoc, List.append_assoc,
        List.append_assoc] at he
      obtain ⟨rfl, hrest⟩ := h a (by simp) b _ _ (stopsAt_rest _ _ _) (stopsAt_rest _ _ _)
        (List.append_cancel_left he)
      obtain ⟨rfl, rfl⟩ := ih (fun a ha => h a (by simp [ha])) hrest
      exact ⟨rfl, rfl⟩

theorem enclosed_append_inj {o c : Char} {depth : Nat} {as bs : List α} {s t : Text} (hc : c ≠ '\n')
    (h : ∀ a ∈ as, Recovers write a)
    (he : enclosed o c depth write as ++ s = enclosed o c depth write bs ++ t) : as = bs ∧ s = t := by
  cases as with
  | nil =>
    cases bs with
    | nil => exact ⟨rfl, List.append_cancel_left he⟩
    | cons b bs => exact absurd (List.cons.inj (List.cons.inj he).2).1 hc
  | cons a as =>
    cases bs with
    | nil => exact absurd (List.cons.inj (List.cons.inj he).2).1.symm hc
    | cons b bs =>
      simp only [enclosed, newline, List.append_assoc, List.cons_append, List.cons.injEq, true_and,
        List.append_cancel_left_eq, List.nil_append] at he
      obtain ⟨rfl, hrest⟩ := h a (by simp) b _ _ (stopsAt_rest _ _ _) (stopsAt_rest _ _ _) he
      obtain ⟨rfl, hend⟩ := rest_append_inj (fun a ha => h a (by simp [ha])) hrest
      simp only [List.append_cancel_left_eq, List.cons.injEq, true_and] at hend
      exact ⟨rfl, hend⟩

end

def memberText (depth : Nat) (m : Utf16.Units × Json) : Text :=
  stringText m.1 ++ ':' :: ' ' :: toText depth m.2

theorem itemsText_eq (depth : Nat) (js : List Json) :
    itemsText depth js = rest depth (toText depth) js := by
  induction js with
  | nil => rfl
  | cons j js ih => rw [itemsText, ih, rest_cons]

theorem membersText_eq (depth : Nat) (ms : List (Utf16.Units × Json)) :
    membersText depth ms = rest depth (memberText depth) ms := by
  induction ms with
  | nil => rfl
  | cons m ms ih => simp [membersText, ih, rest_cons, memberText]

theorem toText_array (depth : Nat) (js : List Json) :
    toText depth (.array js) = enclosed '[' ']' depth (toText (depth + 1)) js := by
  cases js with
  | nil => rfl
  | cons j js => rw [toText, itemsText_eq, enclosed]

theorem toText_object (depth : Nat) (ms : List (Utf16.Units × Json)) :
    toText depth (.object ms) = enclosed '{' '}' depth (memberText (depth + 1)) ms := by
  cases ms with
  | nil => rfl
  | cons m ms => simp [toText, membersText_eq, enclosed, memberText]

theorem recovers_memberText {depth : Nat} {m : Utf16.Units × Json} (h : Recovers (toText depth) m.2) :
    Recovers (memberText depth) m := by
  intro m' s t hs ht he
  simp only [memberText, List.append_assoc] at he
  obtain ⟨hkey, hmember⟩ := stringText_append_inj he
  simp only [List.cons_append, List.cons.injEq, true_and] at hmember
  obtain ⟨hvalue, rfl⟩ := h _ _ _ hs ht hmember
  exact ⟨Prod.ext hkey hvalue, rfl⟩

/-- What a text begins with if it is not that of a number. -/
def mark : Json → Option Char
  | string _ => some '"'
  | integer _ => none
  | real _ => none
  | array _ => some '['
  | object _ => some '{'

theorem ne_of_number {c : Char} (h : c.isDigit ∨ c ∈ numberMarks) :
    c ∉ ['"', '[', '{'] := by
  intro hc
  have none : ∀ d ∈ ['"', '[', '{'], ¬(d.isDigit ∨ d ∈ numberMarks) := by decide
  exact none c hc h

theorem mark_toText (depth : Nat) (j : Json) :
    ∃ c t, toText depth j = c :: t ∧ j.mark = ['"', '[', '{'].find? (· = c) := by
  have number {t : Text} (hne : t ≠ []) (ht : ∀ c ∈ t, c.isDigit ∨ c ∈ numberMarks) :
      ∃ c u, t = c :: u ∧ none = ['"', '[', '{'].find? (· = c) := by
    obtain ⟨c, u, rfl⟩ := List.exists_cons_of_ne_nil hne
    refine ⟨c, u, rfl, (List.find?_eq_none.mpr ?_).symm⟩
    intro d hd hdc
    obtain rfl := of_decide_eq_true hdc
    exact ne_of_number (ht d (by simp)) hd
  cases j with
  | string t => exact ⟨_, _, rfl, rfl⟩
  | integer n => exact number (Text.ofNat_ne_nil n) fun c hc => .inl (Text.isDigit_of_mem_ofNat c hc)
  | real x => exact number (realText_ne_nil x) (realText_chars x)
  | array js => cases js <;> exact ⟨_, _, rfl, rfl⟩
  | object ms => cases ms <;> exact ⟨_, _, rfl, rfl⟩

theorem mark_eq_of_toText {depth : Nat} {j j' : Json} {s t : Text}
    (h : toText depth j ++ s = toText depth j' ++ t) : j.mark = j'.mark := by
  obtain ⟨c, u, hj, hmark⟩ := mark_toText depth j
  obtain ⟨c', u', hj', hmark'⟩ := mark_toText depth j'
  rw [hj, hj'] at h
  rw [hmark, hmark', (List.cons.inj h).1]

theorem recovers_toText (depth : Nat) (j : Json) : Recovers (toText depth) j := by
  have run {t : Text} (ht : ∀ c ∈ t, c.isDigit ∨ c ∈ numberMarks) : ∀ c ∈ stops, c ∉ t := by
    have none : ∀ c ∈ stops, ¬(c.isDigit ∨ c ∈ numberMarks) := by decide
    exact fun c hc hct => none c hc (ht c hct)
  have integer_run (n : Nat) := run fun c hc => .inl (Text.isDigit_of_mem_ofNat (n := n) c hc)
  have real_run (x : Binary64) := run (realText_chars x)
  -- the first character leaves one kind of value, or the numbers: these run as far as they can
  induction j generalizing depth with
  | string t =>
    intro j' s u hs hu h
    have hmark := mark_eq_of_toText h
    cases j' <;> simp only [mark, reduceCtorEq, Option.some.injEq, Char.reduceEq] at hmark
    obtain ⟨rfl, rfl⟩ := stringText_append_inj h
    exact ⟨rfl, rfl⟩
  | integer n =>
    intro j' s u hs hu h
    have hmark := mark_eq_of_toText h
    cases j' <;> simp only [mark, reduceCtorEq] at hmark
    · obtain ⟨hn, rfl⟩ := Text.append_stopsAt_inj (integer_run _) (integer_run _) hs hu h
      exact ⟨congrArg _ (Text.ofNat_inj hn), rfl⟩
    · obtain ⟨hx, -⟩ := Text.append_stopsAt_inj (integer_run _) (real_run _) hs hu h
      exact absurd (hx ▸ Text.isDigit_of_mem_ofNat) (realText_not_digits _)
  | real x =>
    intro j' s u hs hu h
    have hmark := mark_eq_of_toText h
    cases j' <;> simp only [mark, reduceCtorEq] at hmark
    · obtain ⟨hx, -⟩ := Text.append_stopsAt_inj (real_run _) (integer_run _) hs hu h
      exact absurd (hx ▸ Text.isDigit_of_mem_ofNat) (realText_not_digits x)
    · obtain ⟨hx, rfl⟩ := Text.append_stopsAt_inj (real_run _) (real_run _) hs hu h
      exact ⟨congrArg _ (realText_inj hx), rfl⟩
  | array js ih =>
    intro j' s u hs hu h
    have hmark := mark_eq_of_toText h
    cases j' <;> simp only [mark, reduceCtorEq, Option.some.injEq, Char.reduceEq] at hmark
    rw [toText_array, toText_array] at h
    obtain ⟨rfl, rfl⟩ := enclosed_append_inj (by decide) (fun j hj => ih j hj _) h
    exact ⟨rfl, rfl⟩
  | object ms ih =>
    intro j' s u hs hu h
    have hmark := mark_eq_of_toText h
    cases j' <;> simp only [mark, reduceCtorEq, Option.some.injEq, Char.reduceEq] at hmark
    rw [toText_object, toText_object] at h
    obtain ⟨rfl, rfl⟩ :=
      enclosed_append_inj (by decide) (fun m hm => recovers_memberText (ih m hm _)) h
    exact ⟨rfl, rfl⟩

/-! ## Characters in use -/

def Ascii (t : Text) : Prop :=
  ∀ c ∈ t, c = '\n' ∨ 0x20 ≤ c.toNat ∧ c.toNat < 0x7f

instance (t : Text) : Decidable (Ascii t) :=
  inferInstanceAs (Decidable (∀ c ∈ t, _))

theorem Ascii.append {s t : Text} (hs : Ascii s) (ht : Ascii t) : Ascii (s ++ t) :=
  List.forall_mem_append.mpr ⟨hs, ht⟩

theorem Ascii.cons {c : Char} {t : Text} (hc : Ascii [c]) (ht : Ascii t) : Ascii (c :: t) :=
  hc.append ht

theorem ascii_of_number {t : Text} (h : ∀ c ∈ t, c.isDigit ∨ c ∈ numberMarks) : Ascii t := by
  intro c hc
  have mark : ∀ d ∈ numberMarks, 0x20 ≤ d.toNat ∧ d.toNat < 0x7f := by decide
  rcases h c hc with hd | hm
  · exact .inr (Text.ascii_of_isDigit hd)
  · exact .inr (mark c hm)

theorem ascii_digits (width n : Nat) : Ascii (Text.digits 16 width n) := by
  intro c hc
  have digit : ∀ k < 16, 0x20 ≤ k.digitChar.toNat ∧ k.digitChar.toNat < 0x7f := by decide
  obtain ⟨k, hk, rfl⟩ := Text.exists_digitChar_of_mem_digits hc
  exact .inr (digit k hk)

theorem ascii_escape (u : UInt16) : Ascii (escape u) := by
  have h := escaped_escape u
  generalize escape u = t at h
  cases h with
  | plain _ hlow hhigh => simpa [Ascii] using .inr ⟨hlow, hhigh⟩
  | short hd =>
    have : ∀ p ∈ shortEscapes, Ascii ['\\', p.2] := by decide
    exact this _ hd
  | unit => exact .cons (by decide) (.cons (by decide) (ascii_digits 4 _))

theorem ascii_stringText (us : Utf16.Units) : Ascii (stringText us) := by
  have inside : Ascii (us.flatMap escape) := by
    intro c hc
    obtain ⟨u, -, hc⟩ := List.mem_flatMap.mp hc
    exact ascii_escape u c hc
  exact .cons (by decide) (inside.append (by decide))

theorem ascii_newline (depth : Nat) : Ascii (newline depth) := by
  refine .cons (by decide) ?_
  intro c hc
  rw [List.eq_of_mem_replicate hc]
  decide

theorem ascii_enclosed {α : Type} {o c : Char} {depth : Nat} {write : α → Text} {as : List α}
    (ho : Ascii [o]) (hc : Ascii [c]) (h : ∀ a ∈ as, Ascii (write a)) :
    Ascii (enclosed o c depth write as) := by
  have rest_ascii {as : List α} (h : ∀ a ∈ as, Ascii (write a)) :
      Ascii (rest (depth + 1) write as) := by
    intro c hc
    obtain ⟨a, ha, hc⟩ := List.mem_flatMap.mp hc
    exact ((Ascii.cons (by decide) (ascii_newline _)).append (h a ha)) c hc
  cases as with
  | nil => exact ho.append hc
  | cons a as =>
    obtain ⟨ha, has⟩ := List.forall_mem_cons.mp h
    exact ((((ho.append (ascii_newline _)).append ha).append (rest_ascii has)).append
      (ascii_newline _)).append hc

theorem ascii_toText (depth : Nat) (j : Json) : Ascii (toText depth j) := by
  induction j generalizing depth with
  | string t => exact ascii_stringText t
  | integer n => exact ascii_of_number fun c hc => .inl (Text.isDigit_of_mem_ofNat c hc)
  | real x => exact ascii_of_number (realText_chars x)
  | array js ih =>
    rw [toText_array]
    exact ascii_enclosed (by decide) (by decide) fun j hj => ih j hj _
  | object ms ih =>
    rw [toText_object]
    refine ascii_enclosed (by decide) (by decide) fun m hm => ?_
    exact (ascii_stringText m.1).append (.cons (by decide) (.cons (by decide) (ih m hm _)))

end Json

end MathTokens
