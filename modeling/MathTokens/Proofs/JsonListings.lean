import MathTokens.Proofs.CodePoints
import MathTokens.Proofs.JsonTexts

/-!
# JSON listings

A listing is read back value by value, and its strings give the UTF-16 units of the texts. So two listings
are one exactly if the tokens agree in all that is listed, their texts unit by unit. A high surrogate before a
low one is listed like the code point that UTF-16 writes with the two; where no source has such a pair, the
texts agree themselves.
-/

namespace MathTokens

def Points.SameUnits (v w : Points) : Prop :=
  Utf16.encode v = Utf16.encode w

inductive PointValue.Agree (same : Points → Points → Prop) : PointValue → PointValue → Prop
  | text {v w} : same v w → Agree same (.text v) (.text w)
  | number {x} : Agree same (.number x) (.number x)

/-- What is listed of a token is the same of both, where `same` compares texts. -/
structure PointToken.Agree (same : Points → Points → Prop) (places : Bool) (s t : PointToken) : Prop where
  kind : s.kind = t.kind
  value : s.value.Agree same t.value
  raw : same s.raw t.raw
  start : places → s.start.line = t.start.line ∧ s.start.column = t.start.column
  stop : places → s.stop.line = t.stop.line ∧ s.stop.column = t.stop.column

theorem Utf16.ofText_inj {s t : Text} (h : ofText s = ofText t) : s = t :=
  Text.points_inj (encode_inj s.unpaired_points t.unpaired_points h)

theorem PointValue.toJson_eq_iff {a b : PointValue} : a.toJson = b.toJson ↔ a.Agree Points.SameUnits b := by
  constructor
  · intro h
    cases a <;> cases b <;> simp only [toJson, reduceCtorEq, Json.string.injEq, Json.real.injEq] at h
    · exact .text h
    · exact h ▸ .number
  · rintro (h | _)
    · exact congrArg Json.string h
    · rfl

theorem Position.toJson_eq_iff {p q : Position} :
    p.toJson = q.toJson ↔ p.line = q.line ∧ p.column = q.column := by
  simp [toJson]

namespace PointToken

theorem toJson_eq_iff {places : Bool} {s t : PointToken} :
    s.toJson places = t.toJson places ↔ s.Agree Points.SameUnits places t := by
  have hkind : Utf16.ofText s.kind.label = Utf16.ofText t.kind.label ↔ s.kind = t.kind :=
    ⟨fun h => Kind.label_inj (Utf16.ofText_inj h), fun h => by rw [h]⟩
  have hbase : s.toJson false = t.toJson false ↔
      s.kind = t.kind ∧ s.value.Agree Points.SameUnits t.value ∧ Points.SameUnits s.raw t.raw := by
    simp [toJson, hkind, PointValue.toJson_eq_iff, Points.SameUnits]
  cases places with
  | false =>
    rw [hbase]
    exact ⟨fun ⟨hk, hv, hr⟩ => ⟨hk, hv, hr, nofun, nofun⟩, fun h => ⟨h.kind, h.value, h.raw⟩⟩
  | true =>
    have hplaces : s.toJson true = t.toJson true ↔
        s.toJson false = t.toJson false ∧ s.start.toJson = t.start.toJson ∧
          s.stop.toJson = t.stop.toJson := by
      simp [toJson, and_assoc]
    rw [hplaces, hbase, Position.toJson_eq_iff, Position.toJson_eq_iff]
    exact ⟨fun ⟨⟨hk, hv, hr⟩, hs, ht⟩ => ⟨hk, hv, hr, fun _ => hs, fun _ => ht⟩,
      fun h => ⟨⟨h.kind, h.value, h.raw⟩, h.start rfl, h.stop rfl⟩⟩

theorem listing_eq_iff {places : Bool} {ss ts : List PointToken} :
    listing places ss = listing places ts ↔ List.Forall₂ (Agree Points.SameUnits places) ss ts := by
  have ends : Text.StopsAt Json.stops ['\n'] := Text.stopsAt_cons (by simp [Json.stops])
  have hread : listing places ss = listing places ts ↔
      ss.map (toJson places) = ts.map (toJson places) := by
    refine ⟨fun h => ?_, fun h => by rw [listing, listing, h]⟩
    exact Json.array.inj (Json.recovers_toText 0 _ _ _ _ ends ends h).1
  rw [hread, ← List.forall₂_eq_eq_eq, List.forall₂_map_left_iff, List.forall₂_map_right_iff]
  simp only [toJson_eq_iff]

theorem Agree.exact {places : Bool} {s t : PointToken} (h : s.Agree Points.SameUnits places t)
    (hs : s.Unpaired) (ht : t.Unpaired) : s.Agree Eq places t := by
  refine ⟨h.kind, ?_, Utf16.encode_inj hs.raw ht.raw h.raw, h.start, h.stop⟩
  have hvalue := h.value
  generalize hv : s.value = v at hvalue
  generalize hw : t.value = w at hvalue
  cases hvalue with
  | text h => exact .text (Utf16.encode_inj (hs.value _ hv) (ht.value _ hw) h)
  | number => exact .number

theorem forall₂_exact {places : Bool} {ss ts : List PointToken}
    (h : List.Forall₂ (Agree Points.SameUnits places) ss ts) (hs : ∀ s ∈ ss, s.Unpaired)
    (ht : ∀ t ∈ ts, t.Unpaired) : List.Forall₂ (Agree Eq places) ss ts := by
  induction h with
  | nil => exact .nil
  | cons hst _ ih =>
    obtain ⟨hs, hss⟩ := List.forall_mem_cons.mp hs
    obtain ⟨ht, hts⟩ := List.forall_mem_cons.mp ht
    exact .cons (hst.exact hs ht) (ih hss hts)

end PointToken

namespace Token

/-- What is listed of a token of characters is the same of both. -/
structure Agree (places : Bool) (s t : Token) : Prop extends Alike places s t where
  raw : s.raw = t.raw
  stop : places → s.stop.line = t.stop.line ∧ s.stop.column = t.stop.column

theorem unpaired_points (t : Token) : t.points.Unpaired := by
  refine ⟨?_, t.raw.unpaired_points⟩
  intro w hw
  have hvalue : t.content.value.points = .text w := hw
  cases hc : t.content.value with
  | text v =>
    rw [hc, Value.points] at hvalue
    exact PointValue.text.inj hvalue ▸ v.unpaired_points
  | number x =>
    rw [hc] at hvalue
    cases hvalue

theorem content_eq {a b : Content} (hkind : a.kind = b.kind)
    (hvalue : a.value.points.Agree Eq b.value.points) : a = b := by
  cases a <;> cases b <;> cases hkind <;> obtain h | _ := hvalue
  case string.string => exact congrArg _ (Text.points_inj h)
  case number.number => rfl
  case name.name => exact congrArg _ (Text.points_inj h)
  case symbol.symbol => exact congrArg _ (List.singleton_inj.mp (Text.points_inj h))

theorem agree_of_points {places : Bool} {s t : Token} (h : s.points.Agree Eq places t.points) :
    s.Agree places t :=
  ⟨⟨content_eq h.kind h.value, h.start⟩, Text.points_inj h.raw, h.stop⟩

theorem forall₂_agree {places : Bool} {ss ts : List Token}
    (h : listing .json places ss = listing .json places ts) : List.Forall₂ (Agree places) ss ts := by
  have unpaired (us : List Token) : ∀ u ∈ us.map points, u.Unpaired :=
    List.forall_mem_map.mpr fun u _ => u.unpaired_points
  have hexact := PointToken.forall₂_exact (PointToken.listing_eq_iff.mp h) (unpaired ss) (unpaired ts)
  rw [List.forall₂_map_left_iff, List.forall₂_map_right_iff] at hexact
  exact hexact.imp fun s t => agree_of_points

end Token

/-- **JSON listings.** Two listings are one exactly if the tokens agree one by one in kind, value and raw
text, and where places are listed in the line and column of both ends, their texts unit by unit. If neither
source has a high surrogate before a low one they agree in the texts themselves, and so do tokens of
characters always. A listing is of printable ASCII characters and newlines. -/
theorem json_listing_faithful (places : Bool) :
    (∀ ss ts : List PointToken, PointToken.listing places ss = PointToken.listing places ts ↔
      List.Forall₂ (PointToken.Agree Points.SameUnits places) ss ts) ∧
    (∀ (v w : Points) ss ts, v.tokens? = some ss → w.tokens? = some ts → v.Unpaired → w.Unpaired →
      PointToken.listing places ss = PointToken.listing places ts →
      List.Forall₂ (PointToken.Agree Eq places) ss ts) ∧
    (∀ ss ts : List Token, Token.listing .json places ss = Token.listing .json places ts →
      List.Forall₂ (Token.Agree places) ss ts) ∧
    ∀ ts, ∀ c ∈ PointToken.listing places ts, c = '\n' ∨ 0x20 ≤ c.toNat ∧ c.toNat < 0x7f := by
  refine ⟨fun _ _ => PointToken.listing_eq_iff, ?_, fun _ _ => Token.forall₂_agree, ?_⟩
  · intro v w ss ts hs ht hv hw h
    exact PointToken.forall₂_exact (PointToken.listing_eq_iff.mp h) (Points.unpaired_of_tokens? hv hs)
      (Points.unpaired_of_tokens? hw ht)
  · intro ts
    exact (Json.ascii_toText 0 _).append (by decide)

/-- Surrogates in the order that makes no pair. Without places a blank and a line end are listed alike. -/
theorem json_listing_faithful_surrogates :
    let v : Points := [0xde00, 0xd83d, 0x20, 0x2b]
    let w : Points := [0xde00, 0xd83d, 0x0a, 0x2b]
    let name : PointToken := ⟨.name, .text [0xde00, 0xd83d], [0xde00, 0xd83d], ⟨1, 1, 0⟩, ⟨1, 3, 2⟩⟩
    let ss := [name, ⟨.symbol, .text [0x2b], [0x2b], ⟨1, 4, 3⟩, ⟨1, 5, 4⟩⟩]
    let ts := [name, ⟨.symbol, .text [0x2b], [0x2b], ⟨2, 1, 3⟩, ⟨2, 2, 4⟩⟩]
    v.tokens? = some ss ∧ w.tokens? = some ts ∧ v.Unpaired ∧ w.Unpaired ∧
      PointToken.listing false ss = PointToken.listing false ts ∧
      List.Forall₂ (PointToken.Agree Eq false) ss ts ∧ ¬List.Forall₂ (PointToken.Agree Eq true) ss ts := by
  intro v w name ss ts
  have hs : v.tokens? = some ss := by decide +kernel
  have ht : w.tokens? = some ts := by decide +kernel
  have hv : v.Unpaired := by decide +kernel
  have hw : w.Unpaired := by decide +kernel
  have hsame : PointToken.listing false ss = PointToken.listing false ts := by decide +kernel
  refine ⟨hs, ht, hv, hw, hsame, (json_listing_faithful false).2.1 v w ss ts hs ht hv hw hsame, ?_⟩
  intro h
  have := (List.forall₂_iff_get.mp h).2 1 (by decide) (by decide)
  exact absurd (this.start rfl).1 (by decide)

/-- The surrogates of U+1F600 are listed like that character, in a string over two lines with places, too. -/
theorem surrogates_listed_as_character :
    let v : Points := [0x22, 0xd83d, 0xde00, 0x0a, 0x22]
    let w : Points := [0x22, 0x1f600, 0x0a, 0x22]
    let s : PointToken := ⟨.string, .text [0xd83d, 0xde00], v, ⟨1, 1, 0⟩, ⟨2, 2, 5⟩⟩
    let t : PointToken := ⟨.string, .text [0x1f600], w, ⟨1, 1, 0⟩, ⟨2, 2, 4⟩⟩
    v.tokens? = some [s] ∧ w.tokens? = some [t] ∧ s.value ≠ t.value ∧ s.raw ≠ t.raw ∧
      ∀ places, PointToken.listing places [s] = PointToken.listing places [t] := by
  decide +kernel

end MathTokens
