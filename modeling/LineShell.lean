import LineShell.Main
import LineShell.Proofs.RoundTrip
import LineShell.Proofs.Joining
import LineShell.Proofs.Suspension
import LineShell.Proofs.Refusals
import LineShell.Proofs.Regularity
import LineShell.Proofs.Tallest
import LineShell.Proofs.LongestMatch
import LineShell.Proofs.Derivation
import LineShell.Proofs.Tiling
import LineShell.Proofs.Display
import LineShell.Proofs.Echoing
import LineShell.Proofs.Piping
import LineShell.Proofs.History
import LineShell.Proofs.Transcripts
import LineShell.Proofs.Accounting
import LineShell.Proofs.Slices
import LineShell.Proofs.Footprint
import LineShell.Proofs.Resolution
import LineShell.Proofs.CallDepth
import LineShell.Proofs.ByteLines
import LineShell.Proofs.TypedTexts
import LineShell.Proofs.TidyPaths
import LineShell.Proofs.Gluing
import LineShell.Proofs.Spacing
import LineShell.Proofs.UnknownNames
import LineShell.Proofs.Compounds
import LineShell.Proofs.FaultPlaces
import LineShell.Proofs.Words
import LineShell.Proofs.Numerals
import LineShell.Proofs.WrittenNumbers
import LineShell.Proofs.TokenStream
import LineShell.Proofs.Tables
import LineShell.Proofs.EchoFlag
import LineShell.Proofs.LoopBounds
