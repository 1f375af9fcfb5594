import MathTokens.Proofs.Gaps
import MathTokens.Text.LineEnd

/-!
# Line ends

A text without carriage returns can be written with other line ends: some of its newlines as CR LF,
or all of them as CR. Making the line ends of any of these newlines gives the text back. A text whose
line ends are newlines has no carriage return, and so has none of its tokens.
-/

namespace MathTokens

namespace Text

/-- The text `u` is `t` with CR LF, a lone CR and LF each made a newline. -/
inductive Unifies : Text → Text → Prop
  | nil : Unifies [] []
  | pair {t u} : Unifies t u → Unifies ('\r' :: '\n' :: t) ('\n' :: u)
  | alone {t u} : t.head? ≠ some '\n' → Unifies t u → Unifies ('\r' :: t) ('\n' :: u)
  | other {c t u} : c ≠ '\r' → Unifies t u → Unifies (c :: t) (c :: u)

/-- The text `u` is `t` with some newlines written as CR LF. -/
inductive Mixes : Text → Text → Prop
  | nil : Mixes [] []
  | pair {t u} : Mixes t u → Mixes ('\n' :: t) ('\r' :: '\n' :: u)
  | same {c t u} : Mixes t u → Mixes (c :: t) (c :: u)

/-- The text with each newline written as CR. -/
def withReturns (t : Text) : Text :=
  t.map fun c => if c = '\n' then '\r' else c

variable {t u : Text}

theorem unifies_unifyLineEnds (t : Text) : Unifies t t.unifyLineEnds := by
  fun_induction unifyLineEnds t with
  | case1 => exact .nil
  | case2 t ih => exact .pair ih
  | case3 t hpair ih =>
    refine .alone ?_ ih
    intro h
    obtain ⟨t, rfl⟩ := List.head?_eq_some_iff.mp h
    exact hpair t rfl
  | case4 c t hpair halone ih => exact .other halone ih

theorem Unifies.eq (h : Unifies t u) : u = t.unifyLineEnds := by
  induction h with
  | nil => rfl
  | pair _ ih => rw [unifyLineEnds, ih]
  | alone hn _ ih =>
    rw [unifyLineEnds, ih]
    rintro t rfl
    exact hn rfl
  | other hc _ ih =>
    rw [unifyLineEnds, ih]
    · exact fun _ h => absurd h hc
    · exact hc

theorem Unifies.not_mem (h : Unifies t u) : '\r' ∉ u := by
  induction h with
  | nil => simp
  | pair _ ih => simpa using ih
  | alone _ _ ih => simpa using ih
  | other hc _ ih => simpa [Ne.symm hc] using ih

theorem Mixes.unifies (h : Mixes t u) (ht : '\r' ∉ t) : Unifies u t := by
  induction h with
  | nil => exact .nil
  | pair _ ih =>
    simp only [List.mem_cons, not_or] at ht
    exact .pair (ih ht.2)
  | same _ ih =>
    simp only [List.mem_cons, not_or] at ht
    exact .other (Ne.symm ht.1) (ih ht.2)

theorem unifies_self (ht : '\r' ∉ t) : Unifies t t := by
  induction t with
  | nil => exact .nil
  | cons c t ih =>
    simp only [List.mem_cons, not_or] at ht
    exact .other (Ne.symm ht.1) (ih ht.2)

theorem newline_not_mem_withReturns (t : Text) : '\n' ∉ t.withReturns := by
  intro h
  obtain ⟨c, -, hc⟩ := List.mem_map.mp h
  split at hc
  · cases hc
  · contradiction

theorem unifies_withReturns (ht : '\r' ∉ t) : Unifies t.withReturns t := by
  induction t with
  | nil => exact .nil
  | cons c t ih =>
    simp only [List.mem_cons, not_or] at ht
    by_cases hc : c = '\n'
    · subst hc
      exact .alone (fun h => newline_not_mem_withReturns t (List.mem_of_head? h)) (ih ht.2)
    · rw [withReturns, List.map_cons, if_neg hc]
      exact .other (Ne.symm ht.1) (ih ht.2)

theorem trim_subset (t : Text) : t.trim ⊆ t := by
  intro c hc
  exact (List.dropWhile_suffix isBlank).subset (dropEndWhile_subset _ _ hc)

end Text

/-! ## Tokens -/

theorem Stands.value_subset {l : Lexeme} {rest v : Text} (h : Stands l rest)
    (hv : l.content.value = .text v) : v ⊆ l.raw := by
  cases h with
  | string =>
    obtain rfl := Value.text.inj hv
    intro c hc
    simp [Text.trim_subset _ hc]
  | number => cases hv
  | symbol =>
    obtain rfl := Value.text.inj hv
    exact List.Subset.refl _
  | minus =>
    obtain rfl := Value.text.inj hv
    exact List.Subset.refl _
  | name =>
    obtain rfl := Value.text.inj hv
    exact List.Subset.refl _

theorem Reads.raw_subset {ps : List Piece} {t rest : Text} (h : Reads ps t rest) :
    ∀ p ∈ ps, p.lexeme.raw ⊆ t := by
  intro p hp c hc
  rw [h.eq]
  exact List.mem_append_left _ (List.mem_flatMap.mpr ⟨p, hp, List.mem_append_right _ hc⟩)

theorem texts_subset_of_listOf {source v : Text} {ts : List Token} {t : Token}
    (h : Token.listOf source = .ok ts) (ht : t ∈ ts) :
    t.raw ⊆ source ∧ (t.content.value = .text v → v ⊆ source) := by
  obtain ⟨ps, last, hd, rfl⟩ := exists_decomposes h
  have hl := List.mem_map_of_mem (f := Token.lexeme) ht
  rw [Piece.map_lexeme_tokens] at hl
  obtain ⟨p, hp, hpt⟩ := List.mem_map.mp hl
  have hraw : t.raw ⊆ source := by
    rw [show t.raw = p.lexeme.raw from congrArg Lexeme.raw hpt.symm]
    exact hd.reads.raw_subset p hp
  refine ⟨hraw, fun hv => ?_⟩
  obtain ⟨rest, hstands⟩ := hd.reads.fits.occurs p hp
  have hvalue : p.lexeme.content.value = .text v := by rw [hpt]; exact hv
  have hsub := hstands.value_subset hvalue
  rw [hpt] at hsub
  exact fun c hc => hraw (hsub hc)

end MathTokens
