import MathTokens.Stream.Basic

/-!
# Readers

Several readers can share a stream. A reader asks its stream for one token at a time, so the readers
of one stream divide its tokens among themselves; a reader to which the stream answers anything but
a token has stopped for good and leaves the stream alone from then on.

Streams and readers are known by the order in which they were made.
-/

namespace MathTokens

structure Reader where
  stream : Nat
  stopped : Bool
deriving DecidableEq

structure Readers where
  streams : List Stream
  readers : List Reader
deriving DecidableEq

namespace Readers

def empty : Readers := ⟨[], []⟩

def addStream (r : Readers) (source : Text) : Nat × Readers :=
  (r.streams.length, { r with streams := r.streams ++ [.ofText source] })

def addReader (r : Readers) (i : Nat) : Nat × Readers :=
  (r.readers.length, { r with readers := r.readers ++ [⟨i, false⟩] })

def cursor? (r : Readers) (i : Nat) : Option Nat :=
  r.streams[i]?.map Stream.cursor

def next? (r : Readers) (i : Nat) : Option (Step × Readers) :=
  r.streams[i]?.map fun s =>
    let (step, s') := s.next
    (step, { r with streams := r.streams.set i s' })

def drain? (r : Readers) (i : Nat) : Option (Stream.Drained × Readers) :=
  r.streams[i]?.map fun s =>
    let d := s.drain
    (d, { r with streams := r.streams.set i d.stream })

/-- A step of the reader `k`. One that has stopped answers `finished` and changes nothing. -/
def read? (r : Readers) (k : Nat) : Option (Step × Readers) :=
  r.readers[k]?.bind fun reader =>
    if reader.stopped then some (.finished, r)
    else
      (r.next? reader.stream).map fun (step, r') =>
        match step with
        | .token _ => (step, r')
        | _ => (step, { r' with readers := r'.readers.set k { reader with stopped := true } })

end Readers

end MathTokens
