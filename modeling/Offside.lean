import Offside.CommandLine
import Offside.Editor.Entry
import Offside.Editor.Highlight
import Offside.Editor.Prompt
import Offside.Main
import Offside.Proofs.Apostrophes
import Offside.Proofs.Chunks
import Offside.Proofs.Discipline
import Offside.Proofs.Effects
import Offside.Proofs.Entries
import Offside.Proofs.Files
import Offside.Proofs.Flattening
import Offside.Proofs.Integers
import Offside.Proofs.Interchange
import Offside.Proofs.Locality
import Offside.Proofs.OnePass
import Offside.Proofs.Positions
import Offside.Proofs.Provenance
import Offside.Proofs.Refill
import Offside.Proofs.Relayout
import Offside.Proofs.Renaming.Isolation
import Offside.Proofs.Scoping
import Offside.Proofs.Spans
import Offside.Proofs.Sums
import Offside.Proofs.Survival
import Offside.Proofs.Unescaping
import Offside.Proofs.Writing.Program
import Offside.Proofs.Writing.Quotation
import Offside.Source.File
