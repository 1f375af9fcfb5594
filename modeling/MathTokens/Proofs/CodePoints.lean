import Mathlib.Data.List.Chain
import MathTokens.Proofs.Codes
import MathTokens.Proofs.Coverage
import MathTokens.Proofs.Decomposition
import MathTokens.Stream.Points

/-!
# Code points

UTF-16 writes a high and a low surrogate, one behind the other, as it writes a code point beyond the basic
plane. That is all it mixes up: code points among which no two are so placed are known by their units. The
tokens of a source are spelled in pieces of it, and a source of characters has the tokens that are read
from its characters.
-/

namespace MathTokens

/-! ## UTF-16 -/

def Utf16.High (u : UInt16) : Prop :=
  0xd800 ≤ u.toNat ∧ u.toNat < 0xdc00

def Utf16.Low (u : UInt16) : Prop :=
  0xdc00 ≤ u.toNat ∧ u.toNat < 0xe000

/-- How the units of a code point are read. -/
inductive Utf16.Spells (p : CodePoint) : Units → Prop
  | one {u} : u.toNat = p.val → Spells p [u]
  | two {u v} : High u → Low v →
      p.val = 0x10000 + (u.toNat - 0xd800) * 0x400 + (v.toNat - 0xdc00) → Spells p [u, v]

/-- No high surrogate stands before a low one. -/
def Points.Unpaired (w : Points) : Prop :=
  w.IsChain fun p q => ¬(p.isHigh ∧ q.isLow)

instance (w : Points) : Decidable w.Unpaired :=
  inferInstanceAs (Decidable (w.IsChain _))

theorem CodePoint.isHigh_iff {p : CodePoint} : p.isHigh ↔ 0xd800 ≤ p.val ∧ p.val < 0xdc00 := by
  simp [isHigh]

theorem CodePoint.isLow_iff {p : CodePoint} : p.isLow ↔ 0xdc00 ≤ p.val ∧ p.val < 0xe000 := by
  simp [isLow]

namespace Utf16

theorem spells_encodePoint (p : CodePoint) : Spells p (encodePoint p) := by
  have small {n : Nat} (h : n < 0x10000) : (UInt16.ofNat n).toNat = n := by
    rw [UInt16.toNat_ofNat', Nat.mod_eq_of_lt h]
  have hp := p.isLt
  unfold encodePoint
  dsimp only
  split
  · next h => exact .one (small h)
  · have hu := small (n := 0xd800 + (p.val - 0x10000) / 0x400) (by omega)
    have hv := small (n := 0xdc00 + (p.val - 0x10000) % 0x400) (by omega)
    refine .two ?_ ?_ ?_
    · rw [High, hu]
      omega
    · rw [Low, hv]
      omega
    · rw [hu, hv]
      omega

theorem encode_cons (p : CodePoint) (w : Points) : encode (p :: w) = encodePoint p ++ encode w :=
  List.flatMap_cons

theorem Spells.ne_nil {p : CodePoint} {us : Units} (h : Spells p us) : us ≠ [] := by
  cases h <;> exact List.cons_ne_nil _ _

theorem encode_cons_ne_nil (p : CodePoint) (w : Points) : encode (p :: w) ≠ [] := by
  rw [encode_cons]
  exact List.append_ne_nil_of_left_ne_nil (spells_encodePoint p).ne_nil _

theorem isLow_of_encode {w : Points} {u : UInt16} {us : Units} (h : encode w = u :: us) (hu : Low u) :
    ∃ p v, w = p :: v ∧ p.isLow := by
  cases w with
  | nil => cases h
  | cons p w =>
    have hp := spells_encodePoint p
    rw [encode_cons] at h
    generalize encodePoint p = ps at hp h
    cases hp with
    | one hp =>
      obtain rfl := (List.cons.inj h).1
      exact ⟨p, w, rfl, CodePoint.isLow_iff.mpr (hp ▸ hu)⟩
    | two hhigh =>
      obtain rfl := (List.cons.inj h).1
      exact absurd hhigh.2 (Nat.not_lt.mpr hu.1)

/-- A code point read as the first half of another one has the second half behind it. -/
theorem not_unpaired {p : CodePoint} {w : Points} {u v : UInt16} {us : Units} (hp : u.toNat = p.val)
    (hu : High u) (hv : Low v) (h : encode w = v :: us) : ¬Points.Unpaired (p :: w) := by
  intro hw
  obtain ⟨q, w, rfl, hq⟩ := isLow_of_encode h hv
  exact (List.isChain_cons_cons.mp hw).1 ⟨CodePoint.isHigh_iff.mpr (hp ▸ hu), hq⟩

theorem Spells.append_inj {p q : CodePoint} {v w : Points} {us us' : Units} (hp : Spells p us)
    (hq : Spells q us') (hv : Points.Unpaired (p :: v)) (hw : Points.Unpaired (q :: w))
    (h : us ++ encode v = us' ++ encode w) : p = q ∧ encode v = encode w := by
  cases hp with
  | one hp =>
    cases hq with
    | one hq =>
      simp only [List.cons_append, List.nil_append, List.cons.injEq] at h
      obtain ⟨rfl, h⟩ := h
      exact ⟨Fin.ext (hp.symm.trans hq), h⟩
    | two hhigh hlow =>
      simp only [List.cons_append, List.nil_append, List.cons.injEq] at h
      obtain ⟨rfl, h⟩ := h
      exact absurd hv (not_unpaired hp hhigh hlow h)
  | two hhigh hlow hp =>
    cases hq with
    | one hq =>
      simp only [List.cons_append, List.nil_append, List.cons.injEq] at h
      obtain ⟨rfl, h⟩ := h
      exact absurd hw (not_unpaired hq hhigh hlow h.symm)
    | two _ _ hq =>
      simp only [List.cons_append, List.nil_append, List.cons.injEq] at h
      obtain ⟨rfl, rfl, h⟩ := h
      exact ⟨Fin.ext (hp.trans hq.symm), h⟩

theorem encode_inj {v w : Points} (hv : v.Unpaired) (hw : w.Unpaired) (h : encode v = encode w) :
    v = w := by
  induction v generalizing w with
  | nil =>
    cases w with
    | nil => rfl
    | cons q w => exact absurd h.symm (encode_cons_ne_nil q w)
  | cons p v ih =>
    cases w with
    | nil => exact absurd h (encode_cons_ne_nil p v)
    | cons q w =>
      rw [encode_cons, encode_cons] at h
      obtain ⟨rfl, hrest⟩ := (spells_encodePoint p).append_inj (spells_encodePoint q) hv hw h
      exact congrArg (p :: ·) (ih hv.tail hw.tail hrest)

end Utf16

/-! ## Characters -/

namespace CodePoint

theorem ofChar_inj {c d : Char} (h : ofChar c = ofChar d) : c = d :=
  Char.toNat_inj.mp (Fin.mk.inj h)

theorem not_surrogate_ofChar (c : Char) : (ofChar c).isHigh = false ∧ (ofChar c).isLow = false := by
  have hc := Text.toNat_lt c
  rw [← Bool.not_eq_true, ← Bool.not_eq_true, isHigh_iff, isLow_iff, ofChar]
  dsimp only
  omega

theorem character_ofChar (c : Char) : (ofChar c).character = c := by
  obtain ⟨hhigh, hlow⟩ := not_surrogate_ofChar c
  rw [character, hhigh, hlow, Bool.or_false, if_neg Bool.false_ne_true]
  exact Char.ofNat_toNat c

theorem surrogate_in_no_class {p : CodePoint} (h : p.isHigh ∨ p.isLow) :
    isBreakpoint p.character = false ∧ p.character ≠ quote ∧ Text.isBlank p.character = false ∧
      p.character.isDigit = false ∧ p.character ≠ '.' := by
  rw [character, if_pos (Bool.or_eq_true_iff.mpr h)]
  decide

end CodePoint

theorem Text.points_inj {s t : Text} (h : s.points = t.points) : s = t :=
  List.map_injective_iff.mpr (fun _ _ => CodePoint.ofChar_inj) h

theorem Text.unpaired_points (t : Text) : t.points.Unpaired := by
  rw [points, Points.Unpaired, List.isChain_map]
  refine (List.pairwise_of_forall fun c d h => ?_).isChain
  rw [(CodePoint.not_surrogate_ofChar c).1] at h
  exact Bool.false_ne_true h.1

/-! ## Tokens -/

/-- No text of the token has a high surrogate before a low one. -/
structure PointToken.Unpaired (t : PointToken) : Prop where
  value : ∀ w, t.value = .text w → w.Unpaired
  raw : t.raw.Unpaired

namespace Points

theorem text_points (t : Text) : t.points.text = t := by
  simp [text, Text.points, CodePoint.character_ofChar, Function.comp_def]

theorem slice_points (t : Text) (i j : Nat) : t.points.slice i j = (t.slice i j).points := by
  rw [slice, Text.slice, Text.points, Text.points, List.map_drop, List.map_take]

theorem trim_points (t : Text) : trim t.points = t.trim.points := by
  have hblank : isBlank ∘ CodePoint.ofChar = Text.isBlank := by
    funext c
    rw [Function.comp_apply, isBlank, CodePoint.character_ofChar]
  rw [trim, Text.trim, Text.dropEndWhile, Text.points, Text.points, List.dropWhile_map, hblank,
    ← List.map_reverse, List.dropWhile_map, hblank, List.map_reverse]

theorem valueOf_points {l : Lexeme} {rest : Text} (h : Stands l rest) :
    valueOf l.raw.points l.content = l.content.value.points := by
  cases h with
  | @string inner =>
    have hinside : (Text.points (quote :: inner ++ [quote])).tail.dropLast = Text.points inner := by
      simp [Text.points]
    rw [valueOf, hinside, trim_points]
    rfl
  | number => rfl
  | symbol => rfl
  | minus => rfl
  | name => rfl

theorem spell_token {p : Piece} {t rest : Text} (h : p.Opens t rest) (before : Text) :
    spell (before ++ t).points (p.token before) = (p.token before).points := by
  have hraw : (before ++ t).slice (before ++ p.gap).length (before ++ p.gap ++ p.lexeme.raw).length =
      p.lexeme.raw := by
    rw [h.append_eq, slice_append]
  simp only [spell, Piece.token, Token.after, Position.after, Token.points, slice_points, hraw,
    valueOf_points h.stands]

theorem map_spell_tokens {ps : List Piece} {t rest : Text} (h : Reads ps t rest) (before : Text) :
    (Piece.tokens before ps).map (spell (before ++ t).points) =
      (Piece.tokens before ps).map Token.points := by
  induction h generalizing before with
  | nil => rfl
  | @cons p ps t more rest hp _ ih =>
    have ih := ih (before ++ p.text)
    rw [List.append_assoc, ← hp.eq] at ih
    rw [Piece.tokens, List.map_cons, List.map_cons, spell_token hp, ih]

/-- A source of characters has the tokens that are read from its characters. -/
theorem tokens?_points (t : Text) :
    t.points.tokens? = (Token.listOf t).toOption.map (List.map Token.points) := by
  rw [tokens?, text_points]
  cases h : Token.listOf t with
  | error e => rfl
  | ok ts =>
    obtain ⟨ps, last, hd, rfl⟩ := exists_decomposes h
    exact congrArg some (map_spell_tokens hd.reads [])

theorem Unpaired.trim {w : Points} (h : w.Unpaired) : (trim w).Unpaired := by
  have hstart : Points.Unpaired (w.dropWhile isBlank) := h.suffix (List.dropWhile_suffix _)
  refine hstart.prefix ?_
  rw [← List.reverse_suffix, Points.trim, List.reverse_reverse]
  exact List.dropWhile_suffix _

theorem Unpaired.spell {w : Points} (h : w.Unpaired) (t : Token) : (w.spell t).Unpaired := by
  have hraw : (w.slice t.start.offset t.stop.offset).Unpaired := (h.take _).drop _
  refine ⟨?_, hraw⟩
  intro v hv
  simp only [Points.spell] at hv
  cases hc : t.content <;> rw [hc, valueOf] at hv
  case string =>
    obtain rfl := PointValue.text.inj hv
    exact Unpaired.trim hraw.tail.dropLast
  case number => cases hv
  case name =>
    obtain rfl := PointValue.text.inj hv
    exact hraw
  case symbol =>
    obtain rfl := PointValue.text.inj hv
    exact hraw

theorem unpaired_of_tokens? {w : Points} {ts : List PointToken} (hw : w.Unpaired)
    (h : w.tokens? = some ts) : ∀ t ∈ ts, t.Unpaired := by
  obtain ⟨us, -, rfl⟩ := Option.map_eq_some_iff.mp h
  exact List.forall_mem_map.mpr fun u _ => hw.spell u

end Points

end MathTokens
