import Mathlib.Data.List.Forall2
import MathTokens.Listing.Basic
import MathTokens.Proofs.NumberTexts
import MathTokens.Stream.Basic

/-!
# Lines

A quoted text is told from what follows it and shows printable characters alone, whatever it stands for.
So no line of a listing is broken, and each is read back: its kind runs to the first blank, its value to
the place or to the line end.
-/

namespace MathTokens

namespace Text

/-! ## Quoted characters -/

/-- The characters with an escape of one letter between quotes `q`, and the letter. -/
def shortEscapes (q : Char) : List (Char × Char) :=
  [(q, q), ('\\', '\\'), ('\t', 't'), ('\n', 'n'), ('\r', 'r')]

/-- The letters of the hexadecimal escapes, and how many digits follow. -/
def hexForms : List (Char × Nat) :=
  [('x', 2), ('u', 4), ('U', 8)]

inductive Shown (q c : Char) : Text → Prop
  | plain : isPrintable c → c ≠ q → c ≠ '\\' → Shown q c [c]
  | short {d} : (c, d) ∈ shortEscapes q → Shown q c ['\\', d]
  | hex {d width} : (d, width) ∈ hexForms → c.toNat < Nat.pow 16 width →
      Shown q c ('\\' :: d :: digits 16 width c.toNat)

theorem shown_hexEscape (q c : Char) : Shown q c (hexEscape c) := by
  unfold hexEscape
  dsimp only
  split
  · next h => exact .hex (by simp [hexForms]) h
  split
  · next h => exact .hex (by simp [hexForms]) h
  · have hlt : c.toNat < 0x110000 := by
      have := toNat_lt c
      omega
    exact .hex (by simp [hexForms]) (hlt.trans (by decide))

theorem shown_escape (q c : Char) : Shown q c (escape q c) := by
  unfold escape
  split
  · next h => exact .short (by rcases h with rfl | rfl <;> simp [shortEscapes])
  next h =>
    obtain ⟨hquote, hbackslash⟩ := not_or.mp h
    split
    · next h => exact .short (by simp [h, shortEscapes])
    split
    · next h => exact .short (by simp [h, shortEscapes])
    split
    · next h => exact .short (by simp [h, shortEscapes])
    split
    · next h => exact .plain h hquote hbackslash
    · exact shown_hexEscape q c

def quotes : List Char := [apostrophe, doubleQuote]

theorem quoteFor_mem (t : Text) : t.quoteFor ∈ quotes := by
  unfold quoteFor
  split <;> simp [quotes]

section
variable {q : Char} (hq : q ∈ quotes)

theorem Shown.marked {c : Char} {t : Text} (h : Shown q c t) : Marked q c t := by
  cases h with
  | plain _ hquote hbackslash => exact .inl ⟨rfl, hquote, hbackslash⟩
  | short => exact .inr ⟨_, rfl⟩
  | hex => exact .inr ⟨_, rfl⟩

include hq in
theorem Shown.inj {c d : Char} {a b s t : Text} (hc : Shown q c a) (hd : Shown q d b)
    (h : a ++ s = b ++ t) : c = d := by
  -- the letter behind a backslash tells which escape it is, and how many digits follow
  have short_ne_hex : ∀ q ∈ quotes, ∀ p ∈ shortEscapes q, ∀ f ∈ hexForms, p.2 ≠ f.1 := by decide
  cases hc with
  | plain _ _ hbackslash => exact hd.marked.eq_of_plain hbackslash h
  | short he =>
    cases hd with
    | plain _ _ hbackslash => exact absurd (List.cons.inj h).1.symm hbackslash
    | short he' =>
      have once : ∀ q ∈ quotes, ∀ p ∈ shortEscapes q, ∀ r ∈ shortEscapes q,
          p.2 = r.2 → p.1 = r.1 := by decide
      simp only [List.cons_append, List.cons.injEq, true_and] at h
      exact once q hq _ he _ he' h.1
    | hex hf =>
      simp only [List.cons_append, List.cons.injEq, true_and] at h
      exact absurd h.1 (short_ne_hex q hq _ he _ hf)
  | hex hf hlt =>
    cases hd with
    | plain _ _ hbackslash => exact absurd (List.cons.inj h).1.symm hbackslash
    | short he =>
      simp only [List.cons_append, List.cons.injEq, true_and] at h
      exact absurd h.1.symm (short_ne_hex q hq _ he _ hf)
    | @hex _ width' hf' hlt' =>
      have once : ∀ f ∈ hexForms, ∀ g ∈ hexForms, f.1 = g.1 → f.2 = g.2 := by decide
      simp only [List.cons_append, List.cons.injEq, true_and] at h
      obtain rfl := once _ hf _ hf' h.1
      obtain ⟨hdigits, -⟩ := List.append_inj h.2 (by rw [length_digits, length_digits])
      exact Char.toNat_inj.mp (digits_inj hlt hlt' hdigits)

include hq in
theorem escapes : Escapes q (escape q) where
  inj := (shown_escape q _).inj hq (shown_escape q _)
  not_quote := by
    have hbackslash : '\\' ≠ q := by
      revert q
      decide
    intro c s t
    exact (shown_escape q c).marked.not_quote hbackslash

end

/-- A quoted text is told from what follows it. -/
theorem quoted_append_inj {a b s t : Text} (h : quoted a ++ s = quoted b ++ t) : a = b ∧ s = t := by
  unfold quoted at h
  simp only [List.cons_append, List.append_assoc, List.nil_append, List.cons.injEq] at h
  obtain ⟨hquote, h⟩ := h
  rw [← hquote] at h
  exact (escapes (quoteFor_mem a)).flatMap_inj h

/-! ## Printable lines -/

def AllPrintable (t : Text) : Prop :=
  ∀ c ∈ t, isPrintable c

instance (t : Text) : Decidable (AllPrintable t) :=
  inferInstanceAs (Decidable (∀ c ∈ t, _))

theorem AllPrintable.append {s t : Text} (hs : AllPrintable s) (ht : AllPrintable t) :
    AllPrintable (s ++ t) :=
  List.forall_mem_append.mpr ⟨hs, ht⟩

theorem allPrintable_of_ascii {t : Text} (h : ∀ c ∈ t, 0x20 ≤ c.toNat ∧ c.toNat < 0x7f) :
    AllPrintable t := by
  intro c hc
  obtain ⟨hlow, hhigh⟩ := h c hc
  simp [isPrintable, hlow, hhigh]

theorem allPrintable_escape {q : Char} (hq : q ∈ quotes) (c : Char) : AllPrintable (escape q c) := by
  have h := shown_escape q c
  generalize escape q c = t at h
  cases h with
  | plain hc => simpa [AllPrintable] using hc
  | short hd =>
    have short : ∀ q ∈ quotes, ∀ p ∈ shortEscapes q, AllPrintable ['\\', p.2] := by decide
    exact short q hq _ hd
  | @hex d width hf =>
    have form : ∀ f ∈ hexForms, AllPrintable ['\\', f.1] := by decide
    have digit : ∀ k < 16, isPrintable k.digitChar := by decide
    refine AllPrintable.append (form _ hf) ?_
    intro e he
    obtain ⟨k, hk, rfl⟩ := exists_digitChar_of_mem_digits he
    exact digit k hk

theorem allPrintable_quoted (t : Text) : AllPrintable (quoted t) := by
  have hq := quoteFor_mem t
  have quote : ∀ q ∈ quotes, AllPrintable [q] := by decide
  have inner : AllPrintable (t.flatMap (escape t.quoteFor)) := by
    intro c hc
    obtain ⟨d, -, hc⟩ := List.mem_flatMap.mp hc
    exact allPrintable_escape hq d c hc
  exact ((quote _ hq).append inner).append (quote _ hq)

/-! ## Lines of a text -/

def lineBreaks : List Char :=
  ['\n', '\r', '\x0b', '\x0c', '\x1c', '\x1d', '\x1e', '\x85', '\u2028', '\u2029']

/-- The lines of a text, a carriage return and a newline after it being one line end. -/
def splitLines : Text → List Text
  | [] => []
  | '\r' :: '\n' :: t => [] :: splitLines t
  | c :: t =>
    if c ∈ lineBreaks then [] :: splitLines t
    else
      match splitLines t with
      | [] => [[c]]
      | l :: ls => (c :: l) :: ls

theorem not_mem_lineBreaks {t : Text} (h : AllPrintable t) : ∀ c ∈ t, c ∉ lineBreaks := by
  have unprintable : ∀ c ∈ lineBreaks, ¬isPrintable c := by decide +kernel
  exact fun c hc hb => unprintable c hb (h c hc)

theorem splitLines_newline (t : Text) : splitLines ('\n' :: t) = [] :: splitLines t := by
  rw [splitLines, if_pos (by simp [lineBreaks])]
  simp

theorem splitLines_append_newline {l : Text} (h : ∀ c ∈ l, c ∉ lineBreaks) (t : Text) :
    splitLines (l ++ '\n' :: t) = l :: splitLines t := by
  induction l with
  | nil => exact splitLines_newline t
  | cons c l ih =>
    obtain ⟨hc, hl⟩ := List.forall_mem_cons.mp h
    rw [List.cons_append, splitLines, if_neg hc, ih hl]
    rintro t rfl -
    exact hc (by simp [lineBreaks])

theorem splitLines_flatMap {ls : List Text} (h : ∀ l ∈ ls, ∀ c ∈ l, c ∉ lineBreaks) :
    splitLines (ls.flatMap (· ++ ['\n'])) = ls := by
  induction ls with
  | nil => rfl
  | cons l ls ih =>
    obtain ⟨hl, hls⟩ := List.forall_mem_cons.mp h
    rw [List.flatMap_cons, List.append_assoc, List.singleton_append, splitLines_append_newline hl, ih hls]

theorem count_flatMap {ls : List Text} (h : ∀ l ∈ ls, ∀ c ∈ l, c ∉ lineBreaks) :
    (ls.flatMap (· ++ ['\n'])).count '\n' = ls.length := by
  induction ls with
  | nil => rfl
  | cons l ls ih =>
    obtain ⟨hl, hls⟩ := List.forall_mem_cons.mp h
    have hcount : l.count '\n' = 0 := List.count_eq_zero.mpr fun hc => hl _ hc (by simp [lineBreaks])
    rw [List.flatMap_cons, List.count_append, List.count_append, ih hls, hcount, List.length_cons]
    simp [Nat.add_comm]

end Text

/-! ## Lines of tokens -/

theorem Kind.label_inj {k l : Kind} (h : k.label = l.label) : k = l := by
  have once : ∀ k ∈ Kind.all, ∀ l ∈ Kind.all, k.label = l.label → k = l := by decide
  have all (k : Kind) : k ∈ Kind.all := by cases k <;> decide
  exact once k (all k) l (all l) h

theorem Kind.label_append_inj {k l : Kind} {s t : Text} (h : k.label ++ ' ' :: s = l.label ++ ' ' :: t) :
    k = l ∧ s = t := by
  have word (k : Kind) : ∀ c ∈ [' '], c ∉ k.label := by cases k <;> decide
  obtain ⟨hlabel, hrest⟩ := Text.append_stopsAt_inj (word k) (word l) (Text.stopsAt_cons (by simp))
    (Text.stopsAt_cons (by simp)) h
  exact ⟨label_inj hlabel, (List.cons.inj hrest).2⟩

def Content.stops : List Char := [' ', '\n']

theorem Content.valueText_append_inj {a b : Content} {s t : Text} (hkind : a.kind = b.kind)
    (hs : Text.StopsAt stops s) (ht : Text.StopsAt stops t) (h : a.valueText ++ s = b.valueText ++ t) :
    a = b ∧ s = t := by
  have run (x : Binary64) : ∀ c ∈ stops, c ∉ x.toText := by
    have none : ∀ c ∈ stops, ¬(c.isDigit ∨ c ∈ Binary64.marks) := by decide
    exact fun c hc hct => none c hc (Binary64.toText_chars x c hct)
  cases a <;> cases b <;> simp only [kind, reduceCtorEq] at hkind
  · obtain ⟨rfl, rfl⟩ := Text.quoted_append_inj h
    exact ⟨rfl, rfl⟩
  · obtain ⟨htext, rfl⟩ := Text.append_stopsAt_inj (run _) (run _) hs ht h
    rw [Binary64.toText_inj htext]
    exact ⟨rfl, rfl⟩
  · obtain ⟨rfl, rfl⟩ := Text.quoted_append_inj h
    exact ⟨rfl, rfl⟩
  · obtain ⟨hsymbol, rfl⟩ := Text.quoted_append_inj h
    obtain rfl := List.singleton_inj.mp hsymbol
    exact ⟨rfl, rfl⟩

namespace Token

theorem placeText_append_inj {p q : Token} {s t : Text}
    (h : p.placeText ++ '\n' :: s = q.placeText ++ '\n' :: t) :
    p.start.line = q.start.line ∧ p.start.column = q.start.column ∧ s = t := by
  simp only [placeText, List.cons_append, List.append_assoc, List.cons.injEq, true_and] at h
  obtain ⟨hline, h⟩ := Text.append_stop_inj (p := Char.isDigit) Text.isDigit_of_mem_ofNat
    Text.isDigit_of_mem_ofNat (by simp) (by simp) h
  obtain ⟨hcolumn, h⟩ := Text.append_stop_inj (p := Char.isDigit) Text.isDigit_of_mem_ofNat
    Text.isDigit_of_mem_ofNat (by simp) (by simp) (List.cons.inj h).2
  exact ⟨Text.ofNat_inj hline, Text.ofNat_inj hcolumn, (List.cons.inj h).2⟩

/-- What a line says of a token is the same of both. -/
structure Alike (places : Bool) (s t : Token) : Prop where
  content : s.content = t.content
  start : places → s.start.line = t.start.line ∧ s.start.column = t.start.column

theorem line_append_inj {places : Bool} {p q : Token} {s t : Text}
    (h : p.line places ++ '\n' :: s = q.line places ++ '\n' :: t) : p.Alike places q ∧ s = t := by
  simp only [line, List.append_assoc, List.cons_append] at h
  obtain ⟨hkind, h⟩ := Kind.label_append_inj h
  have ends (p : Token) (s : Text) :
      Text.StopsAt Content.stops ((if places = true then p.placeText else []) ++ '\n' :: s) := by
    cases places with
    | false => exact Text.stopsAt_cons (by simp [Content.stops])
    | true => exact Text.stopsAt_cons (by simp [Content.stops])
  obtain ⟨hcontent, h⟩ := Content.valueText_append_inj hkind (ends p s) (ends q t) h
  cases places with
  | false => exact ⟨⟨hcontent, nofun⟩, (List.cons.inj h).2⟩
  | true =>
    obtain ⟨hline, hcolumn, rfl⟩ := placeText_append_inj h
    exact ⟨⟨hcontent, fun _ => ⟨hline, hcolumn⟩⟩, rfl⟩

theorem lines_inj {places : Bool} {ss ts : List Token} (h : lines places ss = lines places ts) :
    List.Forall₂ (Alike places) ss ts := by
  induction ss generalizing ts with
  | nil =>
    cases ts with
    | nil => exact .nil
    | cons t ts => simp [lines] at h
  | cons s ss ih =>
    cases ts with
    | nil => simp [lines] at h
    | cons t ts =>
      simp only [lines, List.flatMap_cons, List.append_assoc, List.singleton_append] at h
      obtain ⟨hst, hrest⟩ := line_append_inj h
      exact .cons hst (ih hrest)

theorem allPrintable_line (places : Bool) (t : Token) : (t.line places).AllPrintable := by
  have digits (n : Nat) : (Text.ofNat n).AllPrintable :=
    Text.allPrintable_of_ascii fun c hc => Text.ascii_of_isDigit (Text.isDigit_of_mem_ofNat c hc)
  have number (x : Binary64) : x.toText.AllPrintable := by
    refine Text.allPrintable_of_ascii fun c hc => ?_
    rcases Binary64.toText_chars x c hc with hd | hm
    · exact Text.ascii_of_isDigit hd
    · have mark : ∀ c ∈ Binary64.marks, 0x20 ≤ c.toNat ∧ c.toNat < 0x7f := by decide
      exact mark c hm
  have label : t.content.kind.label.AllPrintable := by cases t.content.kind <;> decide
  have value : t.content.valueText.AllPrintable := by
    cases t.content with
    | number x => exact number x
    | _ => exact Text.allPrintable_quoted _
  have place : t.placeText.AllPrintable :=
    (Text.AllPrintable.append (s := [' ', '@']) (by decide) (digits _)).append
      (Text.AllPrintable.append (s := [':']) (by decide) (digits _))
  have blank : Text.AllPrintable [' '] := by decide
  refine (label.append (blank.append value)).append ?_
  split
  · exact place
  · decide

end Token

/-- **A listing has one line for each token, and is read back.** It is broken at the newlines alone, and
token lists with one listing agree token by token in kind and value, and where it gives places also in
line and column. -/
theorem text_listing_faithful (places : Bool) :
    (∀ ts : List Token, (Token.listing .text places ts).count '\n' = ts.length ∧
      (∀ c ∈ Token.listing .text places ts, c ∈ Text.lineBreaks → c = '\n') ∧
      Text.splitLines (Token.listing .text places ts) = ts.map (Token.line places)) ∧
    ∀ ss ts : List Token, Token.listing .text places ss = Token.listing .text places ts →
      List.Forall₂ (Token.Alike places) ss ts := by
  refine ⟨fun ts => ?_, fun ss ts => Token.lines_inj⟩
  have hline (t : Token) : ∀ c ∈ t.line places, c ∉ Text.lineBreaks :=
    Text.not_mem_lineBreaks (Token.allPrintable_line places t)
  have hlines : ∀ l ∈ ts.map (Token.line places), ∀ c ∈ l, c ∉ Text.lineBreaks :=
    List.forall_mem_map.mpr fun t _ => hline t
  have heq : Token.listing .text places ts = (ts.map (Token.line places)).flatMap (· ++ ['\n']) := by
    rw [List.flatMap_map]
    rfl
  rw [heq]
  refine ⟨?_, ?_, Text.splitLines_flatMap hlines⟩
  · rw [Text.count_flatMap hlines, List.length_map]
  · intro c hc hb
    simp only [List.mem_flatMap, List.mem_append, List.mem_singleton] at hc
    obtain ⟨l, hl, hc | hc⟩ := hc
    · exact absurd hb (hlines l hl c hc)
    · exact hc

/-- Without places two tokens on one line and on two are listed alike. -/
theorem text_listing_faithful_apostrophe :
    let name : Token := ⟨.name ['\x27'], ['\x27'], ⟨1, 1, 0⟩, ⟨1, 2, 1⟩⟩
    let ss := [name, ⟨.symbol '+', ['+'], ⟨1, 3, 2⟩, ⟨1, 4, 3⟩⟩]
    let ts := [name, ⟨.symbol '+', ['+'], ⟨2, 1, 2⟩, ⟨2, 2, 3⟩⟩]
    Token.listOf ['\x27', ' ', '+'] = .ok ss ∧ Token.listOf ['\x27', '\n', '+'] = .ok ts ∧
      Text.splitLines (Token.listing .text false ss) = ["NAME \"'\"".toList, "SYMBOL '+'".toList] ∧
      List.Forall₂ (Token.Alike false) ss ts ∧ ¬List.Forall₂ (Token.Alike true) ss ts := by
  intro name ss ts
  have hsame : Token.listing .text false ss = Token.listing .text false ts := rfl
  refine ⟨by decide +kernel, by decide +kernel, ?_, (text_listing_faithful false).2 ss ts hsame, ?_⟩
  · exact ((text_listing_faithful false).1 ss).2.2
  · intro h
    have := (List.forall₂_iff_get.mp h).2 1 (by decide) (by decide)
    exact absurd (this.start rfl).1 (by decide)

end MathTokens
