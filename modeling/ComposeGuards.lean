import ComposeGuards.Main
import ComposeGuards.Proofs.Bytecode.Index
import ComposeGuards.Proofs.Bytecode.Positions
import ComposeGuards.Proofs.Guard.Recognition
import ComposeGuards.Proofs.Listing.Comments
import ComposeGuards.Proofs.Text.LineBreaks
import ComposeGuards.Proofs.Listing.Spelling
import ComposeGuards.Proofs.Listing.Steps
import ComposeGuards.Proofs.Listing.Grammar
import ComposeGuards.Proofs.Listing.WellFormed
import ComposeGuards.Proofs.Text.Numerals
import ComposeGuards.Proofs.Listing.PrintedWords
import ComposeGuards.Proofs.Listing.PrintedLines
import ComposeGuards.Proofs.Listing.RoundTrip
import ComposeGuards.Proofs.Listing.Stability
import ComposeGuards.Proofs.Listing.SpacedTexts
import ComposeGuards.Proofs.Listing.ErrorLines
import ComposeGuards.Proofs.Coverage.Mask
import ComposeGuards.Proofs.Guard.Reports
import ComposeGuards.Proofs.Json.Values
import ComposeGuards.Proofs.Command.PrintedReports
import ComposeGuards.Proofs.Listing.Concatenation
import ComposeGuards.Proofs.Guard.BoundTargets
import ComposeGuards.Proofs.Guard.Drift
import ComposeGuards.Proofs.Command.Strictness
import ComposeGuards.Proofs.Guard.Independence
import ComposeGuards.Proofs.Guard.Aliases
import ComposeGuards.Proofs.Guard.Congruence
import ComposeGuards.Proofs.Bytecode.Padding
import ComposeGuards.Proofs.Guard.Padding
import ComposeGuards.Proofs.Command.Failures
import ComposeGuards.Proofs.Listing.LineParts
import ComposeGuards.Proofs.Listing.Cuts
import ComposeGuards.Proofs.Listing.Remarks
import ComposeGuards.Proofs.Listing.Respacing
import ComposeGuards.Proofs.Guard.Extents
import ComposeGuards.Proofs.Bytecode.Renaming
import ComposeGuards.Proofs.Guard.Renaming
import ComposeGuards.Proofs.Listing.Outline
import ComposeGuards.Proofs.Listing.LabelOffences
import ComposeGuards.Proofs.Listing.Quotations
import ComposeGuards.Proofs.Listing.SurplusWords
import ComposeGuards.Proofs.Json.Grammar
import ComposeGuards.Proofs.Json.Reading
import ComposeGuards.Proofs.Guard.SettingsObject
import ComposeGuards.Proofs.Listing.Stripping
import ComposeGuards.Proofs.Text.Escapes
import ComposeGuards.Proofs.Listing.LabelNumbers
