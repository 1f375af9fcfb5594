import MathTokens.Text.Basic

/-!
# UTF-8

The bytes of a text, and the text of bytes. Bytes that are no text are refused at the first
sequence that is ill-formed, with the longest start of that sequence that could still have become a
character; or else each such start is replaced.
-/

namespace MathTokens.Utf8

abbrev Bytes := List UInt8

def byte (n : Nat) : UInt8 := UInt8.ofNat n

/-- The continuation byte that holds the low six bits of `n`. -/
def tail (n : Nat) : UInt8 := byte (0x80 + n % 0x40)

def encodeChar (c : Char) : Bytes :=
  let n := c.toNat
  if n < 0x80 then [byte n]
  else if n < 0x800 then [byte (0xc0 + n / 0x40), tail n]
  else if n < 0x10000 then [byte (0xe0 + n / 0x1000), tail (n / 0x40), tail n]
  else [byte (0xf0 + n / 0x40000), tail (n / 0x1000), tail (n / 0x40), tail n]

def encode (t : Text) : Bytes :=
  t.flatMap encodeChar

/-! ## Decoding -/

inductive Reason where
  | invalidStart
  | invalidContinuation
  | unexpectedEnd
deriving DecidableEq

/-- An ill-formed sequence: where it starts, its first byte, and how many of its bytes are well
formed, the first one counted in any case. -/
structure Fault where
  reason : Reason
  position : Nat
  first : UInt8
  length : Nat
deriving DecidableEq

/-- A character of which `read` bytes have been read: their bits are `value`, `tails` bytes are still to
come, and the next one lies between `low` and `high`. -/
structure Pending where
  first : UInt8
  read : Nat
  value : Nat
  tails : Nat
  low : Nat
  high : Nat

/-- What a first byte starts, if it can start a character. Overlong forms, surrogates and numbers
beyond U+10FFFF are ruled out by the range of the second byte. -/
def start? (b : UInt8) : Option Pending :=
  let n := b.toNat
  if n < 0x80 then some ⟨b, 1, n, 0, 0x80, 0xbf⟩
  else if n < 0xc2 then none
  else if n < 0xe0 then some ⟨b, 1, n - 0xc0, 1, 0x80, 0xbf⟩
  else if n < 0xf0 then
    some ⟨b, 1, n - 0xe0, 2, if n = 0xe0 then 0xa0 else 0x80, if n = 0xed then 0x9f else 0xbf⟩
  else if n < 0xf5 then
    some ⟨b, 1, n - 0xf0, 3, if n = 0xf0 then 0x90 else 0x80, if n = 0xf4 then 0x8f else 0xbf⟩
  else none

def Pending.continue? (p : Pending) (b : UInt8) : Option Pending :=
  let n := b.toNat
  if p.low ≤ n ∧ n ≤ p.high then
    some ⟨p.first, p.read + 1, p.value * 0x40 + (n - 0x80), p.tails - 1, 0x80, 0xbf⟩
  else none

/-- Decodes bytes from `position` on, where `pending?` is the character that starts there. -/
def decodeFrom (position : Nat) : Option Pending → Bytes → Except Fault Text
  | none, [] => .ok []
  | some p, [] => .error ⟨.unexpectedEnd, position, p.first, p.read⟩
  | none, b :: bs =>
    match start? b with
    | none => .error ⟨.invalidStart, position, b, 1⟩
    | some p =>
      if p.tails = 0 then (decodeFrom (position + 1) none bs).map (Char.ofNat p.value :: ·)
      else decodeFrom position (some p) bs
  | some p, b :: bs =>
    match p.continue? b with
    | none => .error ⟨.invalidContinuation, position, p.first, p.read⟩
    | some q =>
      if q.tails = 0 then
        (decodeFrom (position + q.read) none bs).map (Char.ofNat q.value :: ·)
      else decodeFrom position (some q) bs

def decode (bs : Bytes) : Except Fault Text :=
  decodeFrom 0 none bs

/-! ## Decoding all bytes -/

def replacement : Char := '\ufffd'

def startLossy (b : UInt8) : Text × Option Pending :=
  match start? b with
  | none => ([replacement], none)
  | some p => if p.tails = 0 then ([Char.ofNat p.value], none) else ([], some p)

/-- What one more byte settles. A byte that cannot continue a character starts the next one. -/
def stepLossy : Option Pending → UInt8 → Text × Option Pending
  | none, b => startLossy b
  | some p, b =>
    match p.continue? b with
    | none => (replacement :: (startLossy b).1, (startLossy b).2)
    | some q => if q.tails = 0 then ([Char.ofNat q.value], none) else ([], some q)

def decodeLossyFrom : Option Pending → Bytes → Text
  | none, [] => []
  | some _, [] => [replacement]
  | pending?, b :: bs => (stepLossy pending? b).1 ++ decodeLossyFrom (stepLossy pending? b).2 bs

def decodeLossy (bs : Bytes) : Text :=
  decodeLossyFrom none bs

/-! ## Messages -/

def Reason.message : Reason → Text
  | invalidStart => "invalid start byte".toList
  | invalidContinuation => "invalid continuation byte".toList
  | unexpectedEnd => "unexpected end of data".toList

namespace Fault

def span (f : Fault) : Text :=
  if f.length = 1 then
    "byte 0x".toList ++ Text.digits 16 2 f.first.toNat ++ " in position ".toList ++
      Text.ofNat f.position
  else
    "bytes in position ".toList ++ Text.ofNat f.position ++ '-' ::
      Text.ofNat (f.position + f.length - 1)

def message (f : Fault) : Text :=
  "'utf-8' codec can't decode ".toList ++ f.span ++ ": ".toList ++ f.reason.message

end Fault

end MathTokens.Utf8
