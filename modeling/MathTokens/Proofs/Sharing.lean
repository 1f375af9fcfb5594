import Mathlib.Data.List.Induction
import MathTokens.Proofs.Coverage
import MathTokens.Proofs.Decomposition
import MathTokens.Proofs.Shifts
import MathTokens.Stream.Readers

/-!
# Shared streams

Streams and readers are made, and steps are taken by readers or directly, in any order. Whoever asks
for the next token of a stream is answered as if the stream were read alone: only a reader that has
stopped is told nothing more. So the tokens given to all who read one stream are the first ones of
that stream, and what is done with one stream cannot be told from another.
-/

namespace MathTokens

/-- What can be done with streams and readers, which go by their numbers. -/
inductive Move where
  | addStream (source : Text)
  | addReader (stream : Nat)
  | next (stream : Nat)
  | read (reader : Nat)

/-- A step that was taken: by which reader if by one, on which stream, and the answer to it. -/
structure Event where
  reader? : Option Nat
  stream : Nat
  answer : Step
deriving DecidableEq

structure History where
  events : List Event
  now : Readers

namespace Move

def source? : Move → Option Text
  | addStream source => some source
  | _ => none

def target? : Move → Option Nat
  | addReader i => some i
  | _ => none

def sources (ms : List Move) : List Text :=
  ms.filterMap source?

def targets (ms : List Move) : List Nat :=
  ms.filterMap target?

/-- Whether a move is no step on a stream other than `i`, where `targets` are the streams of the
readers. -/
def spares (i : Nat) (targets : List Nat) : Move → Bool
  | next j => j = i
  | read k => targets[k]? = some i
  | _ => true

end Move

namespace Readers

/-- What a move does. A step of a stream or reader that there is not does nothing. -/
def perform (r : Readers) : Move → Option Event × Readers
  | .addStream source => (none, (r.addStream source).2)
  | .addReader i => (none, (r.addReader i).2)
  | .next i =>
    match r.next? i with
    | none => (none, r)
    | some (a, r') => (some ⟨none, i, a⟩, r')
  | .read k =>
    match r.readers[k]?, r.read? k with
    | some reader, some (a, r') => (some ⟨some k, reader.stream, a⟩, r')
    | _, _ => (none, r)

end Readers

namespace History

def after (h : History) (m : Move) : History :=
  ⟨h.events ++ (h.now.perform m).1.toList, (h.now.perform m).2⟩

def of (ms : List Move) : History :=
  ms.foldl after ⟨[], .empty⟩

def eventsOn (h : History) (i : Nat) : List Event :=
  h.events.filter (·.stream = i)

/-- The tokens of the stream `i`, in the order in which they were given, whoever asked for them. -/
def tokensOn (h : History) (i : Nat) : List Token :=
  (h.eventsOn i).filterMap (·.answer.token?)

/-- Whether the reader `k` was ever given an answer that is no token. -/
def halted (h : History) (k : Nat) : Bool :=
  h.events.any fun e => e.reader? = some k && e.answer.token?.isNone

end History

/-! ## What is left to read -/

namespace Stream

/-- A step takes its token off what is left to read. After the end or a failure nothing is left. -/
theorem At.drain_tokens {source before : Text} {s : Stream} (h : s.At source before) :
    s.drain.tokens = s.next.1.token?.toList ++ s.next.2.drain.tokens := by
  cases isGap_or_opens_or_unclosed s.rest with
  | inl hg =>
    obtain ⟨ha, hs⟩ := h.next_finished hg
    have hrest : s.next.2.rest = [] := hs.rest_eq (by rw [List.append_nil]; exact h.split)
    have hend : s.next.2.drain.tokens = [] := (hs.drain_finished (by rw [hrest]; simp [IsGap])).1
    rw [(h.drain_finished hg).1, ha, hend, List.append_nil]
    rfl
  | inr hr =>
    cases hr with
    | inl hp =>
      obtain ⟨p, more, hp⟩ := hp
      have hn : s.next = (.token (p.token before), s.next.2) := Prod.ext (h.next_token hp).1 rfl
      rw [drain_eq, hn]
      rfl
    | inr hu =>
      obtain ⟨gap, tail, hu⟩ := hu
      obtain ⟨ha, hs⟩ := h.next_failed hu
      have hrest : s.next.2.rest = quote :: tail :=
        hs.rest_eq (by rw [List.append_assoc, ← hu.eq]; exact h.split)
      have hagain : Unclosed s.next.2.rest [] tail := ⟨hrest, by simp [IsGap], hu.tail⟩
      rw [(h.drain_failed hu).1, ha, (hs.drain_failed hagain).1]
      rfl

/-- The tokens read so far and those left to read are all the tokens, however long the run. -/
theorem run_append_drain (source : Text) (n : Nat) :
    ((ofText source).run n).1.filterMap Step.token? ++ ((ofText source).run n).2.drain.tokens =
      (ofText source).drain.tokens := by
  induction n with
  | zero => rfl
  | succ n ih =>
    obtain ⟨before, -, hs⟩ := course_run source n
    rw [← ih, hs.drain_tokens, run, Step.tokens_concat, List.append_assoc]

end Stream

/-! ## One move -/

namespace Readers

/-- What a move does to the streams and readers, and the step that it takes. -/
inductive Takes (r : Readers) : Move → Option Event → Readers → Prop
  | addStream {source} :
      Takes r (.addStream source) none { r with streams := r.streams ++ [.ofText source] }
  | addReader {i} : Takes r (.addReader i) none { r with readers := r.readers ++ [⟨i, false⟩] }
  | next {i s} : r.streams[i]? = some s →
      Takes r (.next i) (some ⟨none, i, s.next.1⟩) { r with streams := r.streams.set i s.next.2 }
  | read {k reader s} : r.readers[k]? = some reader → reader.stopped = false →
      r.streams[reader.stream]? = some s →
      Takes r (.read k) (some ⟨some k, reader.stream, s.next.1⟩)
        { streams := r.streams.set reader.stream s.next.2
          readers := r.readers.set k { reader with stopped := s.next.1.token?.isNone } }
  | stopped {k reader} : r.readers[k]? = some reader → reader.stopped = true →
      Takes r (.read k) (some ⟨some k, reader.stream, .finished⟩) r
  | nothing {m} : m.source? = none → m.target? = none → Takes r m none r

variable {r : Readers} {i k : Nat} {s : Stream} {reader : Reader}

theorem perform_next (hs : r.streams[i]? = some s) :
    r.perform (.next i) =
      (some ⟨none, i, s.next.1⟩, { r with streams := r.streams.set i s.next.2 }) := by
  simp [perform, next?, hs]

theorem perform_next_missing (hs : r.streams[i]? = none) : r.perform (.next i) = (none, r) := by
  simp [perform, next?, hs]

theorem perform_read (hk : r.readers[k]? = some reader) (hr : reader.stopped = false)
    (hs : r.streams[reader.stream]? = some s) :
    r.perform (.read k) = (some ⟨some k, reader.stream, s.next.1⟩,
      { streams := r.streams.set reader.stream s.next.2
        readers := r.readers.set k { reader with stopped := s.next.1.token?.isNone } }) := by
  unfold perform read? next?
  simp only [hk, hs, hr, Option.bind_some, Option.map_some]
  cases s.next.1 with
  | token t =>
    -- a reader that goes on is put back as it was
    have : r.readers.set k { reader with stopped := (Step.token t).token?.isNone } = r.readers := by
      have he : { reader with stopped := (Step.token t).token?.isNone } = reader := by
        cases reader
        simpa [Step.token?] using hr.symm
      obtain ⟨hlt, hget⟩ := List.getElem?_eq_some_iff.mp hk
      rw [he, ← hget, List.set_getElem_self]
    rw [this]
    rfl
  | finished => rfl
  | failed e => rfl

theorem perform_read_stopped (hk : r.readers[k]? = some reader) (hr : reader.stopped = true) :
    r.perform (.read k) = (some ⟨some k, reader.stream, .finished⟩, r) := by
  simp [perform, read?, hk, hr]

theorem perform_read_missing (h : r.readers[k]? = none) : r.perform (.read k) = (none, r) := by
  simp [perform, h]

theorem perform_read_waiting (hk : r.readers[k]? = some reader) (hr : reader.stopped = false)
    (hs : r.streams[reader.stream]? = none) : r.perform (.read k) = (none, r) := by
  simp [perform, read?, next?, hk, hr, hs]

theorem takes_perform (r : Readers) (m : Move) : r.Takes m (r.perform m).1 (r.perform m).2 := by
  cases m with
  | addStream source => exact .addStream
  | addReader i => exact .addReader
  | next i =>
    cases hs : r.streams[i]? with
    | none =>
      rw [perform_next_missing hs]
      exact .nothing rfl rfl
    | some s =>
      rw [perform_next hs]
      exact .next hs
  | read k =>
    cases hk : r.readers[k]? with
    | none =>
      rw [perform_read_missing hk]
      exact .nothing rfl rfl
    | some reader =>
      cases hr : reader.stopped with
      | true =>
        rw [perform_read_stopped hk hr]
        exact .stopped hk hr
      | false =>
        cases hs : r.streams[reader.stream]? with
        | none =>
          rw [perform_read_waiting hk hr hs]
          exact .nothing rfl rfl
        | some s =>
          rw [perform_read hk hr hs]
          exact .read hk hr hs

end Readers

/-! ## Histories -/

namespace History

variable {h : History} {i k : Nat} {e : Event} {r : Readers} {m : Move} {sources : List Text}
  {targets : List Nat}

theorem of_concat (ms : List Move) (m : Move) : of (ms ++ [m]) = (of ms).after m := by
  simp [of]

theorem tokensOn_of_not_mem (hi : ∀ e ∈ h.events, e.stream ≠ i) : h.tokensOn i = [] := by
  have : h.eventsOn i = [] := by
    unfold eventsOn
    exact List.filter_eq_nil_iff.mpr fun e he => by simpa using hi e he
  simp [tokensOn, this]

theorem halted_of_not_mem (hk : ∀ e ∈ h.events, e.reader? ≠ some k) : h.halted k = false := by
  unfold halted
  rw [List.any_eq_false]
  intro e he
  simp [hk e he]

theorem tokensOn_concat : tokensOn ⟨h.events ++ [e], r⟩ i =
    h.tokensOn i ++ if e.stream = i then e.answer.token?.toList else [] := by
  unfold tokensOn eventsOn
  rw [List.filter_append, List.filterMap_append]
  by_cases he : e.stream = i
  · cases ht : e.answer.token? <;> simp [he, ht]
  · simp [he]

theorem halted_concat : halted ⟨h.events ++ [e], r⟩ k =
    (h.halted k || (e.reader? = some k && e.answer.token?.isNone)) := by
  simp [halted]

/-- Stream by stream and reader by reader, what moves have made so far. -/
structure Keeps (sources : List Text) (targets : List Nat) (h : History) : Prop where
  streams : ∀ i source, sources[i]? = some source → ∃ n,
    h.now.streams[i]? = some ((Stream.ofText source).run n).2 ∧
      h.tokensOn i = ((Stream.ofText source).run n).1.filterMap Step.token?
  length : h.now.streams.length = sources.length
  readers : ∀ k, h.now.readers[k]? = targets[k]?.map (Reader.mk · (h.halted k))
  known : ∀ e ∈ h.events, e.stream < sources.length ∧
    ∀ k, e.reader? = some k → targets[k]? = some e.stream

theorem Keeps.addStream (hk : h.Keeps sources targets) {source : Text} :
    Keeps (sources ++ [source]) targets
      ⟨h.events, { h.now with streams := h.now.streams ++ [.ofText source] }⟩ where
  streams j t hj := by
    by_cases hlt : j < sources.length
    · rw [List.getElem?_append_left hlt] at hj
      obtain ⟨n, hs, ht⟩ := hk.streams j t hj
      exact ⟨n, by rw [List.getElem?_append_left (hk.length ▸ hlt)]; exact hs, ht⟩
    · -- the new stream has not been stepped yet
      have hlen := (List.getElem?_eq_some_iff.mp hj).1
      have hjl : j = sources.length := by simp at hlen; omega
      subst hjl
      obtain rfl : source = t := by simpa using hj
      refine ⟨0, by simp [← hk.length, Stream.run], ?_⟩
      refine tokensOn_of_not_mem fun e he hej => ?_
      have := (hk.known e he).1
      omega
  length := by simp [hk.length]
  readers := hk.readers
  known e he := by
    obtain ⟨h1, h2⟩ := hk.known e he
    exact ⟨by simp; omega, h2⟩

theorem Keeps.length_readers (hk : h.Keeps sources targets) :
    h.now.readers.length = targets.length := by
  have hle : ∀ k, h.now.readers.length ≤ k ↔ targets.length ≤ k := by
    intro k
    rw [← List.getElem?_eq_none_iff, hk.readers, Option.map_eq_none_iff, List.getElem?_eq_none_iff]
  exact Nat.le_antisymm ((hle _).mpr (Nat.le_refl _)) ((hle _).mp (Nat.le_refl _))

theorem Keeps.addReader (hk : h.Keeps sources targets) :
    Keeps sources (targets ++ [i])
      ⟨h.events, { h.now with readers := h.now.readers ++ [⟨i, false⟩] }⟩ where
  streams := hk.streams
  length := hk.length
  readers j := by
    by_cases hlt : j < targets.length
    · rw [List.getElem?_append_left hlt, List.getElem?_append_left (hk.length_readers ▸ hlt)]
      exact hk.readers j
    · by_cases hj : j = targets.length
      · -- no step was taken by the new reader yet
        have hnew : h.halted j = false := by
          refine halted_of_not_mem fun e he hej => ?_
          have := (List.getElem?_eq_some_iff.mp ((hk.known e he).2 j hej)).1
          omega
        have hnew' :
            halted ⟨h.events, { h.now with readers := h.now.readers ++ [⟨i, false⟩] }⟩ j = false :=
          hnew
        rw [hnew', hj, List.getElem?_concat_length, ← hk.length_readers, List.getElem?_concat_length]
        rfl
      · have hlen := hk.length_readers
        rw [List.getElem?_eq_none (by simp; omega), List.getElem?_eq_none (by simp; omega)]
        rfl
  known e he := by
    obtain ⟨h1, h2⟩ := hk.known e he
    refine ⟨h1, fun k hek => ?_⟩
    rw [List.getElem?_append_left (List.getElem?_eq_some_iff.mp (h2 k hek)).1]
    exact h2 k hek

theorem Keeps.step (hk : h.Keeps sources targets) {s : Stream} (hs : h.now.streams[i]? = some s)
    {reader? : Option Nat} {readers : List Reader} (ht : ∀ k, reader? = some k → targets[k]? = some i)
    (hr : ∀ j, readers[j]? = targets[j]?.map
      (Reader.mk · (h.halted j || (reader? = some j && s.next.1.token?.isNone)))) :
    Keeps sources targets
      ⟨h.events ++ [⟨reader?, i, s.next.1⟩], ⟨h.now.streams.set i s.next.2, readers⟩⟩ where
  streams j source hj := by
    obtain ⟨n, hn, htok⟩ := hk.streams j source hj
    by_cases hij : i = j
    · subst hij
      obtain rfl : ((Stream.ofText source).run n).2 = s := Option.some.inj (hn.symm.trans hs)
      have hi := (List.getElem?_eq_some_iff.mp hs).1
      refine ⟨n + 1, by simp [hi, Stream.run], ?_⟩
      rw [tokensOn_concat, htok, Stream.run, List.filterMap_append, if_pos rfl]
      cases h : ((Stream.ofText source).run n).2.next.1.token? <;> simp [h]
    · refine ⟨n, by rw [List.getElem?_set_ne hij]; exact hn, ?_⟩
      rw [tokensOn_concat, if_neg hij, List.append_nil, htok]
  length := by rw [List.length_set, hk.length]
  readers j := by rw [hr j, halted_concat]
  known e he := by
    cases List.mem_append.mp he with
    | inl he => exact hk.known e he
    | inr he =>
      rw [List.mem_singleton.mp he]
      exact ⟨hk.length ▸ (List.getElem?_eq_some_iff.mp hs).1, ht⟩

theorem Keeps.next (hk : h.Keeps sources targets) {s : Stream} (hs : h.now.streams[i]? = some s) :
    Keeps sources targets
      ⟨h.events ++ [⟨none, i, s.next.1⟩], { h.now with streams := h.now.streams.set i s.next.2 }⟩ := by
  refine hk.step hs (fun k hk => by cases hk) fun j => ?_
  rw [hk.readers j]
  simp

theorem Keeps.stopped_eq (hk : h.Keeps sources targets) {reader : Reader}
    (hr : h.now.readers[k]? = some reader) :
    targets[k]? = some reader.stream ∧ reader.stopped = h.halted k := by
  have := hk.readers k
  rw [hr] at this
  obtain ⟨i, hi, he⟩ := Option.map_eq_some_iff.mp this.symm
  subst he
  exact ⟨hi, rfl⟩

theorem Keeps.read (hk : h.Keeps sources targets) {s : Stream} {reader : Reader}
    (hr : h.now.readers[k]? = some reader) (hrs : reader.stopped = false)
    (hs : h.now.streams[reader.stream]? = some s) :
    Keeps sources targets ⟨h.events ++ [⟨some k, reader.stream, s.next.1⟩],
      { streams := h.now.streams.set reader.stream s.next.2
        readers := h.now.readers.set k { reader with stopped := s.next.1.token?.isNone } }⟩ := by
  obtain ⟨ht, hh⟩ := hk.stopped_eq hr
  refine hk.step hs (fun j hj => ?_) fun j => ?_
  · obtain rfl := Option.some.inj hj
    exact ht
  · by_cases hkj : k = j
    · subst hkj
      have hlt := (List.getElem?_eq_some_iff.mp hr).1
      rw [List.getElem?_set_self hlt, ht, ← hh, hrs]
      simp
    · rw [List.getElem?_set_ne hkj, hk.readers j]
      simp [hkj]

theorem Keeps.stopped (hk : h.Keeps sources targets) {reader : Reader}
    (hr : h.now.readers[k]? = some reader) (hrs : reader.stopped = true) :
    Keeps sources targets ⟨h.events ++ [⟨some k, reader.stream, .finished⟩], h.now⟩ := by
  obtain ⟨ht, hh⟩ := hk.stopped_eq hr
  rw [hrs] at hh
  refine ⟨fun j source hj => ?_, hk.length, fun j => ?_, fun e he => ?_⟩
  · obtain ⟨n, hn, htok⟩ := hk.streams j source hj
    refine ⟨n, hn, ?_⟩
    rw [tokensOn_concat, htok]
    simp [Step.token?]
  · rw [halted_concat, hk.readers j]
    by_cases hkj : k = j
    · subst hkj
      simp [← hh]
    · simp [hkj]
  · cases List.mem_append.mp he with
    | inl he => exact hk.known e he
    | inr he =>
      -- the stream was there when the reader stopped
      rw [List.mem_singleton.mp he]
      obtain ⟨e', he', hke⟩ := List.any_eq_true.mp hh.symm
      simp only [Bool.and_eq_true, decide_eq_true_eq] at hke
      obtain ⟨hlt, ht'⟩ := hk.known e' he'
      have hstream : e'.stream = reader.stream := Option.some.inj ((ht' k hke.1).symm.trans ht)
      refine ⟨hstream ▸ hlt, fun j hj => ?_⟩
      obtain rfl := Option.some.inj hj
      exact ht

theorem Keeps.after (hk : h.Keeps sources targets) (m : Move) :
    (h.after m).Keeps (sources ++ m.source?.toList) (targets ++ m.target?.toList) := by
  unfold History.after
  have ht := h.now.takes_perform m
  generalize (h.now.perform m).1 = e? at ht ⊢
  generalize (h.now.perform m).2 = r at ht ⊢
  cases ht with
  | addStream => simpa [Move.source?, Move.target?] using hk.addStream
  | addReader => simpa [Move.source?, Move.target?] using hk.addReader
  | next hs => simpa [Move.source?, Move.target?] using hk.next hs
  | read hr hrs hs => simpa [Move.source?, Move.target?] using hk.read hr hrs hs
  | stopped hr hrs => simpa [Move.source?, Move.target?] using hk.stopped hr hrs
  | nothing h1 h2 =>
    simp only [h1, h2, Option.toList_none, List.append_nil]
    exact hk

theorem keeps_of (ms : List Move) : (of ms).Keeps (Move.sources ms) (Move.targets ms) := by
  induction ms using List.reverseRecOn with
  | nil => exact ⟨by simp [Move.sources], rfl, by simp [of, Readers.empty, Move.targets], by simp [of]⟩
  | append_singleton ms m ih =>
    rw [of_concat]
    have hsources : Move.sources (ms ++ [m]) = Move.sources ms ++ m.source?.toList := by
      unfold Move.sources
      cases h : m.source? <;> simp [h]
    have htargets : Move.targets (ms ++ [m]) = Move.targets ms ++ m.target?.toList := by
      unfold Move.targets
      cases h : m.target? <;> simp [h]
    rw [hsources, htargets]
    exact ih.after m

end History

end MathTokens
