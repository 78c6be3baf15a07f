import DecisionDiagram.Proofs.DepthFirstVisits
import DecisionDiagram.Proofs.FaultWording
import DecisionDiagram.Proofs.NodeLineGraph
import Mathlib
/-! Which node lines count, however the lines refer to each other. The numbers below the root line
are met depth first, the last child of a line before the others, and the first of them without a
line is reported. -/
namespace DecisionDiagram.Document
open Numeral Relation

variable {lines : Lines} {root id : Int} {seen pending order : List Int}

end DecisionDiagram.Document
