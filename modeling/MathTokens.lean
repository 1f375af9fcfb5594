import MathTokens.About
import MathTokens.Editor
import MathTokens.Main
import MathTokens.Stream.Readers
import MathTokens.Proofs.Decimals
import MathTokens.Proofs.Positions
import MathTokens.Proofs.Lexemes
import MathTokens.Proofs.Pieces
import MathTokens.Proofs.Bookkeeping
import MathTokens.Proofs.Coverage
import MathTokens.Proofs.Decomposition
import MathTokens.Proofs.OpenStrings
import MathTokens.Proofs.Shifts
import MathTokens.Proofs.Joints
import MathTokens.Proofs.Adjacency
import MathTokens.Proofs.Gaps
import MathTokens.Proofs.Separation
import MathTokens.Proofs.EditorPositions
import MathTokens.Proofs.Effects
import MathTokens.Proofs.Codes
import MathTokens.Proofs.ReadingBack
import MathTokens.Proofs.NumberTexts
import MathTokens.Proofs.LineTexts
import MathTokens.Proofs.JsonGrammar
import MathTokens.Proofs.JsonListings
import MathTokens.Proofs.Encoding
import MathTokens.Proofs.QuoteStates
import MathTokens.Proofs.Agreement
import MathTokens.Proofs.Decoding
import MathTokens.Proofs.LineEnds
import MathTokens.Proofs.Precedence
import MathTokens.Proofs.Replacing
import MathTokens.Proofs.EditorSessions
import MathTokens.Proofs.IllFormed
import MathTokens.Proofs.InputBytes
import MathTokens.Proofs.Halfways
import MathTokens.Proofs.CorrectRounding
import MathTokens.Proofs.Numerals
import MathTokens.Proofs.NumeralValues
import MathTokens.Proofs.ScanningBack
import MathTokens.Proofs.SourceLines
import MathTokens.Proofs.Reports
import MathTokens.Proofs.Appending
import MathTokens.Proofs.Padding
import MathTokens.Proofs.Standstill
import MathTokens.Proofs.CommandLines
import MathTokens.Proofs.Progress
import MathTokens.Proofs.LineSearches
