import StyleSplit.Main
import StyleSplit.Proofs.Extraction.Tags
import StyleSplit.Proofs.Css.Excerpt
import StyleSplit.Proofs.Css.Piece
import StyleSplit.Proofs.Extraction.Reread
import StyleSplit.Proofs.Sheet.PreludeText
import StyleSplit.Proofs.Files.Kind
import StyleSplit.Proofs.Files.Parent
import StyleSplit.Proofs.Files.Creation
import StyleSplit.Proofs.Files.History
import StyleSplit.Proofs.Run.Writes
import StyleSplit.Proofs.Files.SamePlace
import StyleSplit.Proofs.Files.Shape
import StyleSplit.Proofs.Run.Again
import StyleSplit.Proofs.Run.Accounting
import StyleSplit.Proofs.Extraction.Interleaving
import StyleSplit.Proofs.Extraction.Collections
import StyleSplit.Proofs.Extraction.Hidden
import StyleSplit.Proofs.Extraction.Placement
import StyleSplit.Proofs.Extraction.Confinement
import StyleSplit.Proofs.Media.Merging
import StyleSplit.Proofs.Sheet.CutComment
import StyleSplit.Proofs.Media.Sorting
import StyleSplit.Proofs.Sheet.Location
import StyleSplit.Proofs.Sheet.Value
import StyleSplit.Proofs.Sheet.Property
import StyleSplit.Proofs.Sheet.Uncommented
import StyleSplit.Proofs.Extraction.Emptiness
import StyleSplit.Proofs.Extraction.Layout
import StyleSplit.Proofs.Run.NameLength
import StyleSplit.Proofs.Media.Variant
import StyleSplit.Proofs.Text.LineEnding
import StyleSplit.Proofs.Run.Search
import StyleSplit.Proofs.Media.Breakpoint
