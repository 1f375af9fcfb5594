import MathTokens.Proofs.JsonTexts

/-!
# The JSON grammar

What is a JSON text, said on texts alone. The text of a value is one exactly if all its numbers are
finite: the words that stand for infinite numbers have a letter that no JSON text has outside its
strings.
-/

namespace MathTokens

namespace Json

/-! ## Grammar -/

def IsSpace (t : Text) : Prop :=
  ∀ c ∈ t, c ∈ [' ', '\t', '\n', '\r']

inductive IsFraction : Text → Prop
  | mk {t} : Digits t → t ≠ [] → IsFraction ('.' :: t)

inductive IsExponent : Text → Prop
  | mk {e sign t} : e ∈ ['e', 'E'] → sign ∈ [[], ['+'], ['-']] → Digits t → t ≠ [] →
      IsExponent (e :: sign ++ t)

inductive IsNumber : Text → Prop
  | mk {sign whole fraction exponent} : sign ∈ [[], ['-']] → IsWhole whole →
      (fraction = [] ∨ IsFraction fraction) → (exponent = [] ∨ IsExponent exponent) →
      IsNumber (sign ++ whole ++ fraction ++ exponent)

def IsHex (t : Text) : Prop :=
  ∀ c ∈ t, c.isDigit ∨ c ∈ "abcdefABCDEF".toList

inductive IsInside : Text → Prop
  | nil : IsInside []
  | plain {c t} : 0x20 ≤ c.toNat → c ≠ '"' → c ≠ '\\' → IsInside t → IsInside (c :: t)
  | short {c t} : c ∈ ['"', '\\', '/', 'b', 'f', 'n', 'r', 't'] → IsInside t →
      IsInside ('\\' :: c :: t)
  | unit {ds t} : IsHex ds → ds.length = 4 → IsInside t → IsInside ('\\' :: 'u' :: ds ++ t)

inductive IsString : Text → Prop
  | mk {t} : IsInside t → IsString ('"' :: t ++ ['"'])

/-- Entries with commas between them, and white space around each. -/
inductive Items : List Text → Text → Prop
  | last {a t b} : IsSpace a → IsSpace b → Items [t] (a ++ t ++ b)
  | cons {a t b ts u} : IsSpace a → IsSpace b → Items ts u → Items (t :: ts) (a ++ t ++ b ++ ',' :: u)

/-- The entries between two brackets, if there are any. -/
def Entries (ts : List Text) (u : Text) : Prop :=
  ts = [] ∧ IsSpace u ∨ Items ts u

/-- A member of an object: its key, the white space around the colon, its value. -/
structure Member where
  key : Text
  before : Text
  after : Text
  value : Text

namespace Member

def text (m : Member) : Text :=
  m.key ++ m.before ++ ':' :: m.after ++ m.value

structure Keyed (m : Member) : Prop where
  key : IsString m.key
  before : IsSpace m.before
  after : IsSpace m.after

end Member

inductive IsValue : Text → Prop
  | word {t} : t ∈ ["null".toList, "true".toList, "false".toList] → IsValue t
  | number {t} : IsNumber t → IsValue t
  | string {t} : IsString t → IsValue t
  | array {ts u} : (∀ t ∈ ts, IsValue t) → Entries ts u → IsValue ('[' :: u ++ [']'])
  | object {ms : List Member} {u} : (∀ m ∈ ms, m.Keyed) → (∀ m ∈ ms, IsValue m.value) →
      Entries (ms.map Member.text) u → IsValue ('{' :: u ++ ['}'])

inductive IsObject : Text → Prop
  | mk {ms : List Member} {u} : (∀ m ∈ ms, m.Keyed) → (∀ m ∈ ms, IsValue m.value) →
      Entries (ms.map Member.text) u → IsObject ('{' :: u ++ ['}'])

inductive IsText : Text → Prop
  | mk {a t b} : IsSpace a → IsValue t → IsSpace b → IsText (a ++ t ++ b)

/-! ## Outside of strings -/

mutual

/-- The characters outside of strings. -/
def outside : Text → Text
  | [] => []
  | c :: t => if c = '"' then inside t else c :: outside t

def inside : Text → Text
  | [] => []
  | c :: t => if c = '"' then outside t else if c = '\\' then escaped t else inside t

def escaped : Text → Text
  | [] => []
  | _ :: t => inside t

end

/-- No string is left open. -/
def Closed (t : Text) : Prop :=
  ∀ s, outside (t ++ s) = outside t ++ outside s

theorem Closed.append {s t : Text} (hs : Closed s) (ht : Closed t) : Closed (s ++ t) := by
  intro u
  rw [List.append_assoc, hs, ht, hs, List.append_assoc]

section
variable {t : Text} (h : '"' ∉ t)

include h in
theorem outside_append_of_not_mem (s : Text) : outside (t ++ s) = t ++ outside s := by
  induction t with
  | nil => rfl
  | cons c t ih =>
    simp only [List.mem_cons, not_or] at h
    rw [List.cons_append, outside, if_neg (Ne.symm h.1), ih h.2, List.cons_append]

include h in
theorem outside_of_not_mem : outside t = t := by
  have := outside_append_of_not_mem h []
  rwa [List.append_nil, outside, List.append_nil] at this

include h in
theorem closed_of_not_mem : Closed t := by
  intro s
  rw [outside_append_of_not_mem h, outside_of_not_mem h]

end

theorem inside_cons {c : Char} (hquote : c ≠ '"') (hbackslash : c ≠ '\\') (t : Text) :
    inside (c :: t) = inside t := by
  rw [inside, if_neg hquote, if_neg hbackslash]

theorem inside_escape (c : Char) (t : Text) : inside ('\\' :: c :: t) = inside t := by
  rw [inside, if_neg (by decide), if_pos rfl, escaped]

theorem inside_isHex_append {ds : Text} (h : IsHex ds) (s : Text) : inside (ds ++ s) = inside s := by
  have none : ∀ c ∈ ['"', '\\'], ¬(c.isDigit ∨ c ∈ "abcdefABCDEF".toList) := by decide
  induction ds with
  | nil => rfl
  | cons d ds ih =>
    obtain ⟨hd, hds⟩ := List.forall_mem_cons.mp h
    rw [List.cons_append, inside_cons _ _, ih hds]
    · rintro rfl
      exact none _ (by simp) hd
    · rintro rfl
      exact none _ (by simp) hd

theorem IsInside.inside_append {t : Text} (h : IsInside t) (s : Text) : inside (t ++ s) = inside s := by
  induction h with
  | nil => rfl
  | plain _ hquote hbackslash _ ih => rw [List.cons_append, inside_cons hquote hbackslash, ih]
  | short _ _ ih => rw [List.cons_append, List.cons_append, inside_escape, ih]
  | unit hds _ _ ih =>
    simp only [List.cons_append, List.append_assoc, inside_escape, inside_isHex_append hds, ih]

theorem IsString.outside_append {t : Text} (h : IsString t) (s : Text) :
    outside (t ++ s) = outside s := by
  cases h with
  | mk h =>
    rw [List.cons_append, List.cons_append, outside, if_pos rfl, List.append_assoc, h.inside_append]
    rfl

theorem IsString.outside_eq {t : Text} (h : IsString t) : outside t = [] := by
  have := h.outside_append []
  rwa [List.append_nil] at this

theorem IsString.closed {t : Text} (h : IsString t) : Closed t := by
  intro s
  rw [h.outside_append, h.outside_eq, List.nil_append]

theorem mem_outside_cons {c : Char} (hc : c ∉ ['"', 'I']) (t : Text) :
    'I' ∈ outside (c :: t) ↔ 'I' ∈ outside t := by
  simp only [List.mem_cons, List.not_mem_nil, or_false, not_or] at hc
  rw [outside, if_neg hc.1, List.mem_cons]
  exact or_iff_right (Ne.symm hc.2)

theorem Closed.cons {c : Char} {t : Text} (hc : c ∉ ['"', 'I']) (ht : Closed t) : Closed (c :: t) := by
  have hquote : '"' ∉ [c] := by
    rw [List.mem_singleton]
    rintro rfl
    exact hc (by simp)
  exact (closed_of_not_mem hquote).append ht

theorem Closed.mem_outside_append {s : Text} (hs : Closed s) (t : Text) :
    'I' ∈ outside (s ++ t) ↔ 'I' ∈ outside s ∨ 'I' ∈ outside t := by
  rw [hs, List.mem_append]

theorem IsSpace.closed {t : Text} (h : IsSpace t) : Closed t ∧ 'I' ∉ outside t := by
  have hquote : '"' ∉ t := fun hc => absurd (h _ hc) (by decide)
  rw [outside_of_not_mem hquote]
  exact ⟨closed_of_not_mem hquote, fun hc => absurd (h _ hc) (by decide)⟩

section
variable {a b t u : Text} {ts : List Text}

theorem closed_spaced (ha : IsSpace a) (hb : IsSpace b) (ht : Closed t) :
    Closed (a ++ t ++ b) ∧ ('I' ∈ outside (a ++ t ++ b) ↔ 'I' ∈ outside t) := by
  have hat := ha.closed.1.append ht
  refine ⟨hat.append hb.closed.1, ?_⟩
  rw [hat.mem_outside_append, ha.closed.1.mem_outside_append, or_iff_left hb.closed.2,
    or_iff_right ha.closed.2]

theorem closed_items (h : Items ts u) (hts : ∀ t ∈ ts, Closed t) :
    Closed u ∧ ('I' ∈ outside u ↔ ∃ t ∈ ts, 'I' ∈ outside t) := by
  induction h with
  | @last _ t _ ha hb =>
    obtain ⟨hclosed, hmem⟩ := closed_spaced ha hb (hts t (by simp))
    exact ⟨hclosed, by rw [hmem]; simp⟩
  | cons ha hb _ ih =>
    obtain ⟨ht, hts⟩ := List.forall_mem_cons.mp hts
    obtain ⟨hclosed, hmem⟩ := closed_spaced ha hb ht
    obtain ⟨hrest, hmemrest⟩ := ih hts
    refine ⟨hclosed.append (hrest.cons (by decide)), ?_⟩
    rw [hclosed.mem_outside_append, mem_outside_cons (by decide), hmem, hmemrest]
    simp

theorem closed_entries {o c : Char} (ho : o ∉ ['"', 'I']) (hc : c ∉ ['"', 'I']) (h : Entries ts u)
    (hts : ∀ t ∈ ts, Closed t) :
    Closed (o :: u ++ [c]) ∧ ('I' ∈ outside (o :: u ++ [c]) ↔ ∃ t ∈ ts, 'I' ∈ outside t) := by
  have hu : Closed u ∧ ('I' ∈ outside u ↔ ∃ t ∈ ts, 'I' ∈ outside t) := by
    rcases h with ⟨rfl, hspace⟩ | h
    · exact ⟨hspace.closed.1, iff_of_false hspace.closed.2 (by simp)⟩
    · exact closed_items h hts
  have hnil : Closed [] := closed_of_not_mem (by simp)
  refine ⟨(hu.1.cons ho).append (hnil.cons hc), ?_⟩
  rw [(hu.1.cons ho).mem_outside_append, mem_outside_cons ho, mem_outside_cons hc, hu.2]
  exact or_iff_left List.not_mem_nil

end

theorem Member.Keyed.closed {m : Member} (h : m.Keyed) (hvalue : Closed m.value) :
    Closed m.text ∧ ('I' ∈ outside m.text ↔ 'I' ∈ outside m.value) := by
  have hkey := h.key.closed.append h.before.closed.1
  have hback := (h.after.closed.1.append hvalue).cons (by decide : ':' ∉ ['"', 'I'])
  have hno : 'I' ∉ outside m.key := by simp [h.key.outside_eq]
  rw [text, List.append_assoc]
  refine ⟨hkey.append hback, ?_⟩
  rw [hkey.mem_outside_append, h.key.closed.mem_outside_append, List.cons_append,
    mem_outside_cons (by decide), h.after.closed.1.mem_outside_append]
  simp only [hno, h.before.closed.2, h.after.closed.2, false_or]

theorem IsNumber.chars {t : Text} (h : IsNumber t) :
    ∀ c ∈ t, c.isDigit ∨ c ∈ ['+', '-', '.', 'e', 'E'] := by
  have digits {t : Text} (ht : Digits t) : ∀ c ∈ t, c.isDigit ∨ c ∈ ['+', '-', '.', 'e', 'E'] :=
    fun c hc => .inl (ht c hc)
  have cons {c : Char} {t : Text} (hc : c ∈ ['+', '-', '.', 'e', 'E'])
      (ht : ∀ c ∈ t, c.isDigit ∨ c ∈ ['+', '-', '.', 'e', 'E']) :
      ∀ d ∈ c :: t, d.isDigit ∨ d ∈ ['+', '-', '.', 'e', 'E'] :=
    List.forall_mem_cons.mpr ⟨.inr hc, ht⟩
  cases h with
  | @mk sign whole fraction exponent hsign hwhole hfraction hexponent =>
    simp only [List.forall_mem_append]
    refine ⟨⟨⟨?_, digits hwhole.digits⟩, ?_⟩, ?_⟩
    · revert sign
      decide
    · rcases hfraction with rfl | ⟨ht, -⟩
      · simp
      · exact cons (by simp) (digits ht)
    · rcases hexponent with rfl | @⟨e, sign, t, he, hsign, ht, -⟩
      · simp
      · have he : e ∈ ['+', '-', '.', 'e', 'E'] := by
          revert e
          decide
        refine cons he (List.forall_mem_append.mpr ⟨?_, digits ht⟩)
        revert sign
        decide

theorem IsValue.clean {t : Text} (h : IsValue t) : Closed t ∧ 'I' ∉ outside t := by
  have plain {t : Text} (hquote : '"' ∉ t) (hletter : 'I' ∉ t) : Closed t ∧ 'I' ∉ outside t := by
    rw [outside_of_not_mem hquote]
    exact ⟨closed_of_not_mem hquote, hletter⟩
  induction h with
  | word h =>
    have words : ∀ t ∈ ["null".toList, "true".toList, "false".toList], '"' ∉ t ∧ 'I' ∉ t := by decide
    exact plain (words _ h).1 (words _ h).2
  | number h =>
    apply plain
    · exact fun hc => absurd (h.chars _ hc) (by decide)
    · exact fun hc => absurd (h.chars _ hc) (by decide)
  | string h => exact ⟨h.closed, by simp [h.outside_eq]⟩
  | array _ hu ih =>
    obtain ⟨hclosed, hmem⟩ :=
      closed_entries (o := '[') (c := ']') (by decide) (by decide) hu fun t ht => (ih t ht).1
    refine ⟨hclosed, fun hi => ?_⟩
    obtain ⟨t, ht, hi⟩ := hmem.mp hi
    exact (ih t ht).2 hi
  | object hkeyed _ hu ih =>
    have hms := fun m hm => (hkeyed m hm).closed (ih m hm).1
    obtain ⟨hclosed, hmem⟩ := closed_entries (o := '{') (c := '}') (by decide) (by decide) hu
      (List.forall_mem_map.mpr fun m hm => (hms m hm).1)
    refine ⟨hclosed, fun hi => ?_⟩
    obtain ⟨t, ht, hi⟩ := hmem.mp hi
    obtain ⟨m, hm, rfl⟩ := List.mem_map.mp ht
    exact (ih m hm).2 ((hms m hm).2.mp hi)

theorem IsText.clean {t : Text} (h : IsText t) : 'I' ∉ outside t := by
  cases h with
  | mk ha ht hb => exact (not_congr (closed_spaced ha hb ht.clean.1).2).mpr ht.clean.2

/-! ## Printed values -/

inductive Finite : Json → Prop
  | string {t} : Finite (.string t)
  | integer {n} : Finite (.integer n)
  | real {x} : x.isFinite = true → Finite (.real x)
  | array {js} : (∀ j ∈ js, Finite j) → Finite (.array js)
  | object {ms} : (∀ m ∈ ms, Finite m.2) → Finite (.object ms)

theorem isInside_escapeUnit_append (u : UInt16) {t : Text} (h : IsInside t) :
    IsInside (escapeUnit u ++ t) := by
  have hex : ∀ k < 16, k.digitChar.isDigit ∨ k.digitChar ∈ "abcdefABCDEF".toList := by decide
  have hdigits : IsHex (Text.digits 16 4 u.toNat) := by
    intro c hc
    obtain ⟨k, hk, rfl⟩ := Text.exists_digitChar_of_mem_digits hc
    exact hex k hk
  exact .unit hdigits (Text.length_digits ..) h

theorem isInside_flatMap_escape (us : Utf16.Units) : IsInside (us.flatMap escape) := by
  induction us with
  | nil => exact .nil
  | cons u us ih =>
    rw [List.flatMap_cons]
    have h := escaped_escape u
    generalize escape u = t at h
    cases h with
    | plain _ hlow _ hquote hbackslash => exact .plain hlow hquote hbackslash ih
    | short hd =>
      have letters : ∀ p ∈ shortEscapes, p.2 ∈ ['"', '\\', '/', 'b', 'f', 'n', 'r', 't'] := by decide
      exact .short (letters _ hd) ih
    | unit => exact isInside_escapeUnit_append u ih

theorem isString_stringText (us : Utf16.Units) : IsString (stringText us) :=
  .mk (isInside_flatMap_escape us)

theorem isWhole_singleton {c : Char} (h : c.isDigit) : IsWhole [c] := by
  by_cases hc : c = '0'
  · subst hc
    exact .zero
  · exact .lead h hc (by simp [Digits])

theorem isNumber_toText {x : Binary64} (hx : x.isFinite = true) : IsNumber x.toText := by
  have hsign : (if x.negative then ['-'] else []) ∈ [[], ['-']] := by split <;> simp
  have h := Binary64.shows_magnitudeText x
  rw [Binary64.toText_eq]
  generalize (if x.negative then ['-'] else []) = sign at hsign
  generalize Binary64.magnitudeText x.rank = t at h
  cases h with
  | infinite hinf => exact absurd hx (by simp [hinf])
  | @plain whole fraction _ hw hf hne =>
    have h : IsNumber (sign ++ whole ++ ('.' :: fraction) ++ []) :=
      .mk hsign hw (.inr (.mk hf hne)) (.inl rfl)
    rwa [List.append_nil, List.append_assoc] at h
  | @scaled c t e _ _ hc ht =>
    have hfraction : (if t.isEmpty then [] else '.' :: t) = [] ∨
        IsFraction (if t.isEmpty then [] else '.' :: t) := by
      cases t with
      | nil => exact .inl rfl
      | cons => exact .inr (.mk ht (by simp))
    have hexponent : IsExponent
        ('e' :: [if e < 0 then '-' else '+'] ++ Binary64.exponentDigits e) := by
      refine .mk (by simp) ?_ (Binary64.digits_exponentDigits e) (Binary64.exponentDigits_ne_nil e)
      split <;> simp
    have h := IsNumber.mk hsign (isWhole_singleton hc) hfraction (.inr hexponent)
    rw [Binary64.scientific_cons]
    simpa only [List.append_assoc, List.cons_append, List.nil_append] using h

theorem entries_enclosed {α : Type} (o c : Char) (depth : Nat) (write : α → Text) (as : List α) :
    ∃ u, enclosed o c depth write as = o :: u ++ [c] ∧ Entries (as.map write) u := by
  have space (depth : Nat) : IsSpace (newline depth) := by
    intro c hc
    rcases List.mem_cons.mp hc with rfl | hc
    · decide
    · rw [List.eq_of_mem_replicate hc]
      decide
  have items (a : α) (as : List α) : Items ((a :: as).map write)
      (newline (depth + 1) ++ write a ++ rest (depth + 1) write as ++ newline depth) := by
    induction as generalizing a with
    | nil =>
      rw [rest, List.flatMap_nil, List.append_nil]
      exact .last (space _) (space _)
    | cons b as ih =>
      have h := Items.cons (t := write a) (b := []) (space (depth + 1)) (by simp [IsSpace]) (ih b)
      rw [rest_cons]
      simpa only [List.append_assoc, List.cons_append, List.nil_append, List.map_cons] using h
  cases as with
  | nil => exact ⟨[], rfl, .inl ⟨rfl, by simp [IsSpace]⟩⟩
  | cons a as => exact ⟨_, by simp [enclosed], .inr (items a as)⟩

def member (depth : Nat) (m : Utf16.Units × Json) : Member where
  key := stringText m.1
  before := []
  after := [' ']
  value := toText depth m.2

theorem memberText_eq (depth : Nat) (m : Utf16.Units × Json) : memberText depth m = (member depth m).text := by
  simp [memberText, member, Member.text]

theorem keyed_member (depth : Nat) (m : Utf16.Units × Json) : (member depth m).Keyed where
  key := isString_stringText m.1
  before := by simp [member, IsSpace]
  after := by simp [member, IsSpace]

theorem isObject_toText {depth : Nat} {ms : List (Utf16.Units × Json)}
    (h : ∀ m ∈ ms, IsValue (toText (depth + 1) m.2)) : IsObject (toText depth (.object ms)) := by
  obtain ⟨u, heq, hu⟩ := entries_enclosed '{' '}' depth (memberText (depth + 1)) ms
  rw [funext (memberText_eq (depth + 1)), ← Function.comp_def, ← List.map_map] at hu
  rw [toText_object, heq]
  apply IsObject.mk _ _ hu
  · exact List.forall_mem_map.mpr fun m _ => keyed_member _ m
  · exact List.forall_mem_map.mpr h

theorem IsObject.isValue {t : Text} (h : IsObject t) : IsValue t := by
  cases h with
  | mk hkeyed hvalue hu => exact .object hkeyed hvalue hu

theorem isValue_toText {depth : Nat} {j : Json} (h : Finite j) : IsValue (toText depth j) := by
  induction h generalizing depth with
  | string => exact .string (isString_stringText _)
  | @integer n =>
    have hsign : ([] : Text) ∈ [[], ['-']] := by simp
    have h := IsNumber.mk hsign (isWhole_ofNat n) (.inl rfl) (.inl rfl)
    rw [List.append_nil, List.append_nil] at h
    exact .number h
  | real hx =>
    rw [toText, realText, if_pos hx]
    exact .number (isNumber_toText hx)
  | @array js _ ih =>
    obtain ⟨u, heq, hu⟩ := entries_enclosed '[' ']' depth (toText (depth + 1)) js
    rw [toText_array, heq]
    exact .array (List.forall_mem_map.mpr fun j hj => ih j hj) hu
  | object _ ih => exact (isObject_toText fun m hm => ih m hm).isValue

theorem finite_real_iff {x : Binary64} : Finite (.real x) ↔ x.isFinite = true :=
  ⟨fun h => by cases h with | real h => exact h, .real⟩

theorem finite_array_iff {js : List Json} : Finite (.array js) ↔ ∀ j ∈ js, Finite j :=
  ⟨fun h => by cases h with | array h => exact h, .array⟩

theorem finite_object_iff {ms : List (Utf16.Units × Json)} : Finite (.object ms) ↔ ∀ m ∈ ms, Finite m.2 :=
  ⟨fun h => by cases h with | object h => exact h, .object⟩

/-- A number that is not finite leaves its letter outside of strings. -/
theorem mem_outside_toText (depth : Nat) (j : Json) :
    Closed (toText depth j) ∧ ('I' ∈ outside (toText depth j) ↔ ¬Finite j) := by
  -- that the text is closed goes along: a string left open would hide the letters behind it
  induction j generalizing depth with
  | string t =>
    have h := isString_stringText t
    exact ⟨h.closed, by simp [toText, h.outside_eq, Finite.string]⟩
  | integer n =>
    have h : IsValue (toText depth (.integer n)) := isValue_toText .integer
    exact ⟨h.clean.1, iff_of_false h.clean.2 (not_not_intro .integer)⟩
  | real x =>
    have hquote : '"' ∉ realText x := fun hc => absurd (realText_chars x _ hc) (by decide)
    rw [toText, outside_of_not_mem hquote, mem_realText_iff]
    exact ⟨closed_of_not_mem hquote, not_congr finite_real_iff.symm⟩
  | array js ih =>
    obtain ⟨u, heq, hu⟩ := entries_enclosed '[' ']' depth (toText (depth + 1)) js
    obtain ⟨hclosed, hmem⟩ := closed_entries (o := '[') (c := ']') (by decide) (by decide) hu
      (List.forall_mem_map.mpr fun j hj => (ih j hj _).1)
    rw [toText_array, heq, hmem, finite_array_iff]
    refine ⟨hclosed, ?_⟩
    simp only [List.mem_map, exists_exists_and_eq_and, not_forall, exists_prop]
    exact exists_congr fun j => and_congr_right fun hj => (ih j hj _).2
  | object ms ih =>
    have hms := fun m hm => (keyed_member (depth + 1) m).closed (ih m hm _).1
    obtain ⟨u, heq, hu⟩ := entries_enclosed '{' '}' depth (memberText (depth + 1)) ms
    rw [funext (memberText_eq (depth + 1))] at hu
    obtain ⟨hclosed, hmem⟩ := closed_entries (o := '{') (c := '}') (by decide) (by decide) hu
      (List.forall_mem_map.mpr fun m hm => (hms m hm).1)
    rw [toText_object, heq, hmem, finite_object_iff]
    refine ⟨hclosed, ?_⟩
    simp only [List.mem_map, exists_exists_and_eq_and, not_forall, exists_prop]
    exact exists_congr fun m => and_congr_right fun hm => (hms m hm).2.trans (ih m hm _).2

theorem isText_toText_iff {j : Json} : IsText (toText 0 j ++ ['\n']) ↔ Finite j := by
  constructor
  · intro h
    have hclean := h.clean
    obtain ⟨hclosed, hmem⟩ := mem_outside_toText 0 j
    rw [hclosed.mem_outside_append] at hclean
    exact Classical.not_not.mp fun hj => hclean (.inl (hmem.mpr hj))
  · intro h
    exact .mk (a := []) (by simp [IsSpace]) (isValue_toText h) (by simp [IsSpace])

end Json

namespace Token

theorem finite_toJson_iff {places : Bool} {t : Token} :
    (t.points.toJson places).Finite ↔ ∀ x, t.content = .number x → x.isFinite = true := by
  have hplace (p : Position) : p.toJson.Finite := .array (by simp [Json.Finite.integer])
  have hvalue : t.content.value.points.toJson.Finite ↔
      ∀ x, t.content = .number x → x.isFinite = true := by
    cases t.content <;>
      simp [Content.value, Value.points, PointValue.toJson, Json.finite_real_iff, Json.Finite.string]
  rw [PointToken.toJson, Json.finite_object_iff, ← hvalue]
  cases places <;> simp [points, Json.Finite.string, hplace]

theorem finite_listing_iff {places : Bool} {ts : List Token} :
    (Json.array ((ts.map points).map (PointToken.toJson places))).Finite ↔
      ∀ t ∈ ts, ∀ x, t.content = .number x → x.isFinite = true := by
  rw [Json.finite_array_iff, List.map_map, List.forall_mem_map]
  exact forall₂_congr fun t _ => finite_toJson_iff

end Token

/-- **A JSON listing is a JSON text exactly if all its numbers are finite.** Then it is an array that
has an object for each token, and a newline. -/
theorem json_listing_isText_iff (places : Bool) (ts : List Token) :
    (Json.IsText (Token.listing .json places ts) ↔
      ∀ t ∈ ts, ∀ x, t.content = .number x → x.isFinite = true) ∧
    ((∀ t ∈ ts, ∀ x, t.content = .number x → x.isFinite = true) →
      ∃ us inner, us.length = ts.length ∧ (∀ u ∈ us, Json.IsObject u) ∧ Json.Entries us inner ∧
        Token.listing .json places ts = '[' :: inner ++ [']', '\n']) := by
  refine ⟨Json.isText_toText_iff.trans Token.finite_listing_iff, ?_⟩
  intro h
  let objects := (ts.map Token.points).map (PointToken.toJson places)
  obtain ⟨inner, heq, hinner⟩ := Json.entries_enclosed '[' ']' 0 (Json.toText 1) objects
  refine ⟨_, inner, ?_, ?_, hinner, ?_⟩
  · simp only [objects, List.length_map]
  · simp only [objects, List.map_map]
    refine List.forall_mem_map.mpr fun t ht => ?_
    have hfinite : (t.points.toJson places).Finite := Token.finite_toJson_iff.mpr (h t ht)
    exact Json.isObject_toText fun m hm => Json.isValue_toText (Json.finite_object_iff.mp hfinite m hm)
  · rw [Token.listing, PointToken.listing, Json.toText_array, heq]
    simp

/-- The negative zero is written as a number of JSON. -/
theorem json_listing_isText_iff_minus_zero :
    let x := Decimal.toBinary64 ⟨true, 0, 0⟩
    let ts : List Token := [⟨.string ['a'], ['"', 'a', '"'], ⟨1, 1, 0⟩, ⟨1, 4, 3⟩⟩,
      ⟨.number x, ['-', '0'], ⟨1, 4, 3⟩, ⟨1, 6, 5⟩⟩]
    Token.listOf ['"', 'a', '"', '-', '0'] = .ok ts ∧ Json.IsText (Token.listing .json true ts) ∧
      ∃ us inner, us.length = 2 ∧ (∀ u ∈ us, Json.IsObject u) ∧ Json.Entries us inner ∧
        Token.listing .json true ts = '[' :: inner ++ [']', '\n'] := by
  intro x ts
  have hx : x.isFinite = true := by decide +kernel
  have hfinite : ∀ t ∈ ts, ∀ y, t.content = .number y → y.isFinite = true := by
    simp [ts, hx]
  obtain ⟨hiff, hlists⟩ := json_listing_isText_iff true ts
  exact ⟨by decide +kernel, hiff.mpr hfinite, hlists hfinite⟩

/-- One followed by 309 zeros is beyond the doubles. -/
theorem overflowing_listing_no_json :
    let source := '1' :: List.replicate 309 '0'
    let x := Decimal.toBinary64 ⟨false, Nat.pow 10 309, 0⟩
    let ts : List Token := [⟨.number x, source, ⟨1, 1, 0⟩, ⟨1, 311, 310⟩⟩]
    Token.listOf source = .ok ts ∧ ∀ places, ¬Json.IsText (Token.listing .json places ts) := by
  intro source x ts
  have hx : x.isFinite = false := by decide +kernel
  refine ⟨by decide +kernel, fun places h => ?_⟩
  have hfinite := Token.finite_listing_iff.mp (Json.isText_toText_iff.mp h)
  rw [hfinite _ (List.mem_singleton.mpr rfl) x rfl] at hx
  cases hx

end MathTokens
