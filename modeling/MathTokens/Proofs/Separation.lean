import MathTokens.Proofs.Sharing

/-!
# Streams apart

Two collections of streams and readers that agree on one stream, on its readers, and on how many
others there are answer alike to everything that is done with that stream. A step on another stream
keeps them agreeing, so it can be left out.
-/

namespace MathTokens

namespace Readers

/-- The collections have the stream `i` and its readers in common. -/
structure AgreeOn (i : Nat) (r r' : Readers) : Prop where
  streams_length : r.streams.length = r'.streams.length
  stream : r.streams[i]? = r'.streams[i]?
  readers_length : r.readers.length = r'.readers.length
  reader : ∀ (k : Nat) (reader : Reader), r.readers[k]? = some reader → reader.stream = i →
    r'.readers[k]? = some reader

variable {r r' : Readers} {i k : Nat} {m : Move} {targets : List Nat}

/-! ## Moves that both make -/

theorem AgreeOn.addStream (h : AgreeOn i r r') (source : Text) :
    AgreeOn i { r with streams := r.streams ++ [.ofText source] }
      { r' with streams := r'.streams ++ [.ofText source] } where
  streams_length := by simp [h.streams_length]
  stream := by
    by_cases hi : i < r.streams.length
    · rw [List.getElem?_append_left hi, List.getElem?_append_left (h.streams_length ▸ hi)]
      exact h.stream
    · rw [List.getElem?_append_right (by omega),
        List.getElem?_append_right (by rw [← h.streams_length]; omega),
        h.streams_length]
  readers_length := h.readers_length
  reader := h.reader

theorem AgreeOn.addReader (h : AgreeOn i r r') (j : Nat) :
    AgreeOn i { r with readers := r.readers ++ [⟨j, false⟩] }
      { r' with readers := r'.readers ++ [⟨j, false⟩] } where
  streams_length := h.streams_length
  stream := h.stream
  readers_length := by simp [h.readers_length]
  reader k reader hk hi := by
    by_cases hlt : k < r.readers.length
    · rw [List.getElem?_append_left hlt] at hk
      rw [List.getElem?_append_left (h.readers_length ▸ hlt)]
      exact h.reader k reader hk hi
    · rw [List.getElem?_append_right (by omega)] at hk
      rw [List.getElem?_append_right (by rw [← h.readers_length]; omega), ← h.readers_length]
      exact hk

theorem AgreeOn.next (h : AgreeOn i r r') (s : Stream) :
    AgreeOn i { r with streams := r.streams.set i s } { r' with streams := r'.streams.set i s } where
  streams_length := by simp [h.streams_length]
  stream := by simp [List.getElem?_set, h.streams_length]
  readers_length := h.readers_length
  reader := h.reader

theorem AgreeOn.setReader (h : AgreeOn i r r') (k : Nat) (reader : Reader) :
    AgreeOn i { r with readers := r.readers.set k reader }
      { r' with readers := r'.readers.set k reader } where
  streams_length := h.streams_length
  stream := h.stream
  readers_length := by simp [h.readers_length]
  reader j reader' hj hi := by
    by_cases hkj : k = j
    · subst hkj
      simp only [List.getElem?_set, if_pos, h.readers_length] at hj ⊢
      exact hj
    · rw [List.getElem?_set_ne hkj] at hj ⊢
      exact h.reader j reader' hj hi

/-- What is done with the stream `i`, and what is made, has the same answer in both. -/
theorem AgreeOn.perform (h : AgreeOn i r r')
    (ht : ∀ (k : Nat) (reader : Reader), r.readers[k]? = some reader → targets[k]? = some reader.stream)
    (hm : m.spares i targets = true) :
    (r.perform m).1 = (r'.perform m).1 ∧ AgreeOn i (r.perform m).2 (r'.perform m).2 := by
  cases m with
  | addStream source => exact ⟨rfl, h.addStream source⟩
  | addReader j => exact ⟨rfl, h.addReader j⟩
  | next j =>
    obtain rfl : j = i := by simpa [Move.spares] using hm
    cases hs : r.streams[j]? with
    | none =>
      rw [perform_next_missing hs, perform_next_missing (h.stream ▸ hs)]
      exact ⟨rfl, h⟩
    | some s =>
      rw [perform_next hs, perform_next (h.stream ▸ hs)]
      exact ⟨rfl, h.next _⟩
  | read k =>
    cases hk : r.readers[k]? with
    | none =>
      have hlen := List.getElem?_eq_none_iff.mp hk
      have hk' : r'.readers[k]? = none := List.getElem?_eq_none_iff.mpr (h.readers_length ▸ hlen)
      rw [perform_read_missing hk, perform_read_missing hk']
      exact ⟨rfl, h⟩
    | some reader =>
      have hi : reader.stream = i := by
        have := ht k reader hk
        simp only [Move.spares, this, Option.some.injEq, decide_eq_true_eq] at hm
        exact hm
      have hk' := h.reader k reader hk hi
      cases hr : reader.stopped with
      | true =>
        rw [perform_read_stopped hk hr, perform_read_stopped hk' hr]
        exact ⟨rfl, h⟩
      | false =>
        have hstream : r.streams[reader.stream]? = r'.streams[reader.stream]? := hi ▸ h.stream
        cases hs : r.streams[reader.stream]? with
        | none =>
          rw [perform_read_waiting hk hr hs, perform_read_waiting hk' hr (hstream ▸ hs)]
          exact ⟨rfl, h⟩
        | some s =>
          rw [perform_read hk hr hs, perform_read hk' hr (hstream ▸ hs), hi]
          exact ⟨rfl, (h.next _).setReader k _⟩

/-! ## Moves that only one makes -/

/-- A step on another stream is no event of the stream `i` and keeps the agreement. -/
theorem AgreeOn.perform_other (h : AgreeOn i r r')
    (ht : ∀ (k : Nat) (reader : Reader), r.readers[k]? = some reader → targets[k]? = some reader.stream)
    (hm : m.spares i targets = false) :
    (∀ e, (r.perform m).1 = some e → e.stream ≠ i) ∧ AgreeOn i (r.perform m).2 r' := by
  have hmove := r.takes_perform m
  generalize (r.perform m).1 = e? at hmove ⊢
  generalize (r.perform m).2 = r'' at hmove ⊢
  cases hmove with
  | addStream => cases hm
  | addReader => cases hm
  | nothing => exact ⟨by simp, h⟩
  | @next j s hs =>
    have hj : j ≠ i := by simpa [Move.spares] using hm
    refine ⟨fun e he => ?_, ?_, ?_, h.readers_length, h.reader⟩
    · obtain rfl := Option.some.inj he
      exact hj
    · rw [List.length_set]
      exact h.streams_length
    · rw [List.getElem?_set_ne hj]
      exact h.stream
  | @read k reader s hk hr hs =>
    have hj : reader.stream ≠ i := by
      have := ht k reader hk
      simpa [Move.spares, this] using hm
    refine ⟨fun e he => ?_, ?_, ?_, ?_, fun k' reader' hk' hi => ?_⟩
    · obtain rfl := Option.some.inj he
      exact hj
    · rw [List.length_set]
      exact h.streams_length
    · rw [List.getElem?_set_ne hj]
      exact h.stream
    · rw [List.length_set]
      exact h.readers_length
    · by_cases hkk : k = k'
      · -- the reader that was stepped is none of the stream `i`
        subst hkk
        rw [List.getElem?_set_self (List.getElem?_eq_some_iff.mp hk).1] at hk'
        obtain rfl := Option.some.inj hk'
        exact absurd hi hj
      · rw [List.getElem?_set_ne hkk] at hk'
        exact h.reader k' reader' hk' hi
  | @stopped k reader hk hr =>
    have hj : reader.stream ≠ i := by
      have := ht k reader hk
      simpa [Move.spares, this] using hm
    refine ⟨fun e he => ?_, h⟩
    obtain rfl := Option.some.inj he
    exact hj

end Readers

/-! ## Histories -/

namespace History

variable {i k : Nat}

theorem eventsOn_after (h : History) (m : Move) :
    (h.after m).eventsOn i = h.eventsOn i ++ (h.now.perform m).1.toList.filter (·.stream = i) := by
  unfold eventsOn after
  rw [List.filter_append]

theorem events_isPrefix (ms more : List Move) : (of ms).events <+: (of (ms ++ more)).events := by
  induction more using List.reverseRecOn with
  | nil => simp
  | append_singleton more m ih =>
    rw [← List.append_assoc, of_concat]
    exact ih.trans (List.prefix_append _ _)

theorem halted_of_isPrefix {before ms : List Move} (h : before <+: ms)
    (hk : (of before).halted k = true) :
    (of ms).halted k = true := by
  obtain ⟨more, rfl⟩ := h
  obtain ⟨e, he, hke⟩ := List.any_eq_true.mp hk
  exact List.any_eq_true.mpr ⟨e, (events_isPrefix before more).subset he, hke⟩

theorem eventsOn_filter_spares {targets : List Nat} (ms : List Move)
    (ht : Move.targets ms <+: targets) :
    (of ms).eventsOn i = (of (ms.filter (Move.spares i targets))).eventsOn i ∧
      Readers.AgreeOn i (of ms).now (of (ms.filter (Move.spares i targets))).now := by
  induction ms using List.reverseRecOn with
  | nil => exact ⟨rfl, rfl, rfl, rfl, fun _ _ hk _ => hk⟩
  | append_singleton ms m ih =>
    have hpre : Move.targets ms <+: targets := by
      unfold Move.targets at ht ⊢
      rw [List.filterMap_append] at ht
      exact (List.prefix_append _ _).trans ht
    obtain ⟨hev, hag⟩ := ih hpre
    have hread : ∀ (k : Nat) (reader : Reader), (of ms).now.readers[k]? = some reader →
        targets[k]? = some reader.stream := by
      intro k reader hk
      have hk' := ((keeps_of ms).stopped_eq hk).1
      obtain ⟨more, rfl⟩ := hpre
      rw [List.getElem?_append_left (List.getElem?_eq_some_iff.mp hk').1]
      exact hk'
    rw [List.filter_append, of_concat, eventsOn_after]
    cases hm : m.spares i targets with
    | true =>
      obtain ⟨he, hag'⟩ := hag.perform hread hm
      rw [List.filter_cons, hm, if_pos rfl, List.filter_nil, of_concat, eventsOn_after, hev, he]
      exact ⟨rfl, hag'⟩
    | false =>
      obtain ⟨he, hag'⟩ := hag.perform_other hread hm
      rw [List.filter_cons, hm, if_neg (by simp), List.filter_nil, List.append_nil]
      refine ⟨?_, hag'⟩
      cases hp : ((of ms).now.perform m).1 with
      | none => simpa using hev
      | some e => simpa [he e hp] using hev

end History

/-- **Shared streams.** However the steps of readers and direct steps are mixed, a stream is where it
is after some run of its own, and the tokens given to all who asked are those of that run: the first of
all its tokens, and the rest is left to read. Whoever asks next is answered from there, but a reader
that was ever given no token is told that there are none, and changes nothing. Without the steps on
other streams all this is the same. -/
theorem readers_share_one_stream (ms : List Move) (i : Nat) (source : Text)
    (hi : (Move.sources ms)[i]? = some source) :
    let h := History.of ms
    let only := History.of (ms.filter (Move.spares i (Move.targets ms)))
    (∃ n, let s := ((Stream.ofText source).run n).2
      h.now.streams[i]? = some s ∧
      h.tokensOn i = ((Stream.ofText source).run n).1.filterMap Step.token? ∧
      h.tokensOn i <+: (Stream.ofText source).drain.tokens ∧
      h.tokensOn i ++ s.drain.tokens = (Stream.ofText source).drain.tokens ∧
      h.now.perform (.next i) =
        (some ⟨none, i, s.next.1⟩, ⟨h.now.streams.set i s.next.2, h.now.readers⟩) ∧
      ∀ k, (Move.targets ms)[k]? = some i → h.halted k = false →
        (h.now.perform (.read k)).1 = some ⟨some k, i, s.next.1⟩ ∧
          (h.now.perform (.read k)).2.streams = h.now.streams.set i s.next.2) ∧
    (∀ k before, (Move.targets ms)[k]? = some i → before <+: ms → (History.of before).halted k = true →
      h.now.perform (.read k) = (some ⟨some k, i, .finished⟩, h.now)) ∧
    h.eventsOn i = only.eventsOn i ∧ h.now.streams[i]? = only.now.streams[i]? := by
  intro h only
  have hk := History.keeps_of ms
  have reader : ∀ k, (Move.targets ms)[k]? = some i →
      h.now.readers[k]? = some (Reader.mk i (h.halted k)) := by
    intro k hki
    rw [hk.readers k, hki]
    rfl
  refine ⟨?_, fun k before hki hpre hb => ?_, ?_⟩
  · obtain ⟨n, hs, ht⟩ := hk.streams i source hi
    have hrest := Stream.run_append_drain source n
    rw [← ht] at hrest
    refine ⟨n, hs, ht, ⟨_, hrest⟩, hrest, Readers.perform_next hs, fun k hki hkf => ?_⟩
    rw [Readers.perform_read (reader k hki) hkf hs]
    exact ⟨rfl, rfl⟩
  · exact Readers.perform_read_stopped (reader k hki) (History.halted_of_isPrefix hpre hb)
  · obtain ⟨he, hag⟩ := History.eventsOn_filter_spares (i := i) ms (List.prefix_refl _)
    exact ⟨he, hag.stream⟩

/-- Two readers of a stream that fails behind its first token, and a stream over the same source that
has been stepped before. The second reader sees the failure, a direct step sees it again. -/
theorem readers_share_one_stream_failing :
    let source := ['a', ' ', '"']
    let before : List Move := [.addStream source, .addStream source, .addReader 0, .next 1, .addReader 0,
      .read 0, .read 1]
    let h := History.of (before ++ [.next 0])
    (Move.sources (before ++ [.next 0]))[0]? = some source ∧ (History.of before).halted 1 = true ∧
      h.tokensOn 0 = [⟨.name ['a'], ['a'], ⟨1, 1, 0⟩, ⟨1, 2, 1⟩⟩] ∧
      h.tokensOn 0 <+: (Stream.ofText source).drain.tokens ∧
      h.now.perform (.read 1) = (some ⟨some 1, 0, .finished⟩, h.now) ∧ h.halted 0 = false ∧
      (h.now.perform (.read 0)).1 =
        some ⟨some 0, 0, .failed ⟨.unterminatedString, ⟨1, 3, 2⟩, source⟩⟩ := by
  intro source before h
  have hs : (Move.sources (before ++ [.next 0]))[0]? = some source := by decide
  have hb : (History.of before).halted 1 = true := by decide
  have ht : h.tokensOn 0 = [⟨.name ['a'], ['a'], ⟨1, 1, 0⟩, ⟨1, 2, 1⟩⟩] := by decide
  have hr : (h.now.perform (.read 0)).1 =
      some ⟨some 0, 0, .failed ⟨.unterminatedString, ⟨1, 3, 2⟩, source⟩⟩ := by decide
  obtain ⟨⟨n, -, -, hpre, -⟩, hstop, -⟩ := readers_share_one_stream (before ++ [.next 0]) 0 source hs
  exact ⟨hs, hb, ht, hpre, hstop 1 before (by decide) (List.prefix_append _ _) hb, by decide, hr⟩

end MathTokens
