import ArchDiagram.Diagram.Build
import ArchDiagram.Diagram.Reference
import ArchDiagram.Statement.Parser
import ArchDiagram.Token.Lexer

/-! Diagrams from source text. -/
namespace ArchDiagram

namespace Diagram

/-- The diagram that a source declares; its references may dangle. -/
def parse (source : String) : Attempt Failure Diagram := do
  let tokens := tokenize source
  Logged.report (.tokenized tokens.length)
  let statements ← (parseStatements tokens).mapError fun fault => ⟨[fault.diagnostic]⟩
  let d ← (buildDiagram statements).mapError fun fault => ⟨[fault.diagnostic]⟩
  Logged.report .parsed
  return d

/-- The diagram that a source declares, if no reference of it dangles. -/
def parseValid (source : String) : Attempt Failure Diagram := do
  let d ← parse source
  d.validate
  return d

end Diagram

end ArchDiagram
