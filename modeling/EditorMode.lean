import EditorMode.Cli.Folder
import EditorMode.Main
import EditorMode.SharedStack
import EditorMode.Proofs.Overflow
import EditorMode.Proofs.Run
import EditorMode.Proofs.Partition
import EditorMode.Proofs.Construct
import EditorMode.Proofs.Stepping
import EditorMode.Proofs.Lexeme
import EditorMode.Proofs.Segmentation
import EditorMode.Proofs.Nesting
import EditorMode.Proofs.WellFormed
import EditorMode.Proofs.Convergence
import EditorMode.Proofs.Independence
import EditorMode.Proofs.Transparency
import EditorMode.Proofs.Effect
import EditorMode.Proofs.BracketDiscipline
import EditorMode.Proofs.ClosingIndent
import EditorMode.Proofs.Bounds
import EditorMode.Proofs.Provenance
import EditorMode.Proofs.Resumption
import EditorMode.Proofs.Folding
import EditorMode.Proofs.History
import EditorMode.Proofs.FoldNesting
import EditorMode.Proofs.Opening
import EditorMode.Proofs.Margin
import EditorMode.Proofs.BraceMatching
import EditorMode.Proofs.InStep
import EditorMode.Proofs.ExtraAtoms
import EditorMode.Proofs.LeadingBlanks
import EditorMode.Proofs.TrailingBlanks
import EditorMode.Proofs.Movement
import EditorMode.Proofs.Scanning
import EditorMode.Proofs.Skipping
import EditorMode.Proofs.RestoredIndent
import EditorMode.Proofs.ConfiguredAtoms
import EditorMode.Proofs.BaseColumn
import EditorMode.Proofs.Terminators
import EditorMode.Proofs.Ownership
import EditorMode.Proofs.SharedStack
import EditorMode.Proofs.IndentReport
import EditorMode.Proofs.TokenRows
import EditorMode.Proofs.ConfigOptions
import EditorMode.Proofs.ConfigText
import EditorMode.Proofs.TabStops
