/- The diagnostics of a tree by a walk over every node: those of the topmost faults. -/
import SyntaxReport.Diagnostic.Basic

namespace SyntaxReport

namespace Node

mutual

/-- Every node in preorder, and whether a fault lies above it. -/
def visits (covered : Bool) : Node → List (Node × Bool)
  | .mk l cs => (.mk l cs, covered) :: visitsAll (covered || l.isFault) cs

def visitsAll (covered : Bool) : List Node → List (Node × Bool)
  | [] => []
  | n :: ns => n.visits covered ++ visitsAll covered ns

end

/-- The faults with no fault above them. -/
def topmostFaults (root : Node) : List Node :=
  ((root.visits false).filter fun (n, covered) => n.label.isFault && !covered).map Prod.fst

end Node

namespace Diagnostic

/-- The diagnostic of a fault. A missing token counts as missing even if it is an error too. -/
def ofFault (source : Bytes) (n : Node) : Diagnostic :=
  if n.label.missing then ofRange source n .missing (missingMessage n)
  else ofRange source n .unexpected (unexpectedMessage source n)

/-- One diagnostic for each topmost fault. -/
def all (source : Bytes) (root : Node) : List Diagnostic :=
  root.topmostFaults.map (ofFault source)

end Diagnostic
end SyntaxReport
