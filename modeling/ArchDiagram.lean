import ArchDiagram.Main
import ArchDiagram.Proofs.Diagram.Handles
import ArchDiagram.Proofs.Diagram.Independence
import ArchDiagram.Proofs.Diagram.Redeclaration
import ArchDiagram.Proofs.Diagram.Unplaced
import ArchDiagram.Proofs.Diagram.Violations
import ArchDiagram.Proofs.Log.Accounting
import ArchDiagram.Proofs.Nesting.Depth
import ArchDiagram.Proofs.Nesting.Walk
import ArchDiagram.Proofs.Statement.Composition
import ArchDiagram.Proofs.Statement.Stability
import ArchDiagram.Proofs.Token.Placement
import ArchDiagram.Proofs.Nesting.SelfNesting
import ArchDiagram.Proofs.Workbench
import ArchDiagram.Proofs.Command.Effects
import ArchDiagram.Proofs.Diagram.Json
import ArchDiagram.Proofs.Token.Word
import ArchDiagram.Proofs.Statement.Extent
import ArchDiagram.Proofs.Problem
import ArchDiagram.Proofs.Diagram.Dimensions
import ArchDiagram.Proofs.Token.Lexeme
import ArchDiagram.Proofs.Diagram.RelationText
import ArchDiagram.Proofs.Diagram.Relexing
import ArchDiagram.Proofs.Nesting.Guard
import ArchDiagram.Proofs.Token.Quotation
import ArchDiagram.Proofs.Diagram.Pruning
import ArchDiagram.Proofs.Log.Skipping
import ArchDiagram.Proofs.Statement.Insertion
import ArchDiagram.Proofs.Statement.Wording
import ArchDiagram.Proofs.Diagnostic
import ArchDiagram.Proofs.Diagram.Finiteness
import ArchDiagram.Proofs.Diagram.Spelling
