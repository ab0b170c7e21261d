import FortranTokens.Cursor.Walk
import FortranTokens.Lines
import FortranTokens.Render
import FortranTokens.Session
import FortranTokens.Proofs.Frame
import FortranTokens.Proofs.GoingBack
import FortranTokens.Proofs.Rounds
import FortranTokens.Proofs.Engine
import FortranTokens.Proofs.Speculation
import FortranTokens.Proofs.Chain
import FortranTokens.Proofs.Characters
import FortranTokens.Proofs.Reading
import FortranTokens.Proofs.BozText
import FortranTokens.Proofs.Twins
import FortranTokens.Proofs.Locality
import FortranTokens.Proofs.LiteralText
import FortranTokens.Proofs.LiteralReading
import FortranTokens.Proofs.LiteralRoundTrip
import FortranTokens.Proofs.KeywordSpelling
import FortranTokens.Proofs.DecimalValue
import FortranTokens.Proofs.HollerithText
import FortranTokens.Proofs.NumeralRoundTrip
import FortranTokens.Proofs.DecodedText
import FortranTokens.Proofs.Faultless
import FortranTokens.Proofs.Repetition
import FortranTokens.Proofs.LoopLaws
import FortranTokens.Proofs.ChoiceLaws
import FortranTokens.Proofs.Rules
import FortranTokens.Proofs.Placement
import FortranTokens.Proofs.ByteSearch
import FortranTokens.Proofs.WalkPlaces
import FortranTokens.Proofs.Marks
import FortranTokens.Proofs.Lockstep
import FortranTokens.Proofs.Modes
import FortranTokens.Proofs.Overflow
import FortranTokens.Proofs.LiteralStops
import FortranTokens.Proofs.HollerithReading
import FortranTokens.Proofs.OptionalPart
import FortranTokens.Proofs.MedialSpace
import FortranTokens.Proofs.Slices
import FortranTokens.Proofs.LineStarts
import FortranTokens.Proofs.LineLookup
import FortranTokens.Proofs.LineOrder
import FortranTokens.Proofs.Blanks
