import MathTokens.Json.Printer
import MathTokens.Listing.Lines
import MathTokens.PointToken

/-!
# Listings

A token list is shown as lines or as a JSON array. In JSON the places are the line and column of
both ends.
-/

namespace MathTokens

inductive Format where
  | text
  | json
deriving DecidableEq

namespace Format

def name : Format → Text
  | text => "text".toList
  | json => "json".toList

def all : List Format := [text, json]

def ofName? (t : Text) : Option Format :=
  all.find? (·.name == t)

end Format

def PointValue.toJson : PointValue → Json
  | text w => .string (Utf16.encode w)
  | number x => .real x

def Position.toJson (p : Position) : Json :=
  .array [.integer p.line, .integer p.column]

namespace PointToken

def toJson (places : Bool) (t : PointToken) : Json :=
  .object ([(Utf16.ofText "type".toList, .string (Utf16.ofText t.kind.label)),
      (Utf16.ofText "value".toList, t.value.toJson),
      (Utf16.ofText "raw".toList, .string (Utf16.encode t.raw))] ++
    if places then
      [(Utf16.ofText "start".toList, t.start.toJson), (Utf16.ofText "end".toList, t.stop.toJson)]
    else [])

def listing (places : Bool) (ts : List PointToken) : Text :=
  (Json.array (ts.map (toJson places))).toText 0 ++ ['\n']

end PointToken

def Token.listing (format : Format) (places : Bool) (ts : List Token) : Text :=
  match format with
  | .text => lines places ts
  | .json => PointToken.listing places (ts.map points)

end MathTokens
