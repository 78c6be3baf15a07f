import DecisionDiagram.CommandLine
import DecisionDiagram.Comparison
import DecisionDiagram.Connective
import DecisionDiagram.Connective.Name
import DecisionDiagram.Counting
import DecisionDiagram.Cursor
import DecisionDiagram.Diagram
import DecisionDiagram.Display
import DecisionDiagram.Document
import DecisionDiagram.Document.Build
import DecisionDiagram.Document.Line
import DecisionDiagram.Document.Write
import DecisionDiagram.Equality
import DecisionDiagram.Evaluation
import DecisionDiagram.Fault
import DecisionDiagram.Folder
import DecisionDiagram.Keyed
import DecisionDiagram.Layers
import DecisionDiagram.Main
import DecisionDiagram.Numeral.Binary64
import DecisionDiagram.Numeral.Digit
import DecisionDiagram.Numeral.Fraction
import DecisionDiagram.Numeral.Integer
import DecisionDiagram.Numeral.Power
import DecisionDiagram.Numeral.Real
import DecisionDiagram.Order.Merge
import DecisionDiagram.Order.Run
import DecisionDiagram.Order.Search
import DecisionDiagram.Order.Sort
import DecisionDiagram.Probability
import DecisionDiagram.Proofs.AssignmentMean
import DecisionDiagram.Proofs.BranchVariables
import DecisionDiagram.Proofs.BuildDecides
import DecisionDiagram.Proofs.BuildFaults
import DecisionDiagram.Proofs.BuildFrame
import DecisionDiagram.Proofs.BuildLines
import DecisionDiagram.Proofs.CallHistory
import DecisionDiagram.Proofs.CanonicalInstance
import DecisionDiagram.Proofs.CanonicalText
import DecisionDiagram.Proofs.CircularLines
import DecisionDiagram.Proofs.CombineEvaluations
import DecisionDiagram.Proofs.CursorPreorder
import DecisionDiagram.Proofs.DecidingTables
import DecisionDiagram.Proofs.DecimalNumerals
import DecisionDiagram.Proofs.DependencyLayers
import DecisionDiagram.Proofs.DepthFirstVisits
import DecisionDiagram.Proofs.DepthFirstWalk
import DecisionDiagram.Proofs.DiagramLayers
import DecisionDiagram.Proofs.DiagramRanking
import DecisionDiagram.Proofs.DirectedWalk
import DecisionDiagram.Proofs.EdgeSelectors
import DecisionDiagram.Proofs.EditTells
import DecisionDiagram.Proofs.EqualVertices
import DecisionDiagram.Proofs.EqualityBisimulation
import DecisionDiagram.Proofs.EquivalentDiagrams
import DecisionDiagram.Proofs.EvaluationOutcome
import DecisionDiagram.Proofs.EvaluationReads
import DecisionDiagram.Proofs.EvaluationSteps
import DecisionDiagram.Proofs.FailedCalls
import DecisionDiagram.Proofs.FaultMessages
import DecisionDiagram.Proofs.GuardedQuestions
import DecisionDiagram.Proofs.GuardedWalks
import DecisionDiagram.Proofs.IsomorphicDiagrams
import DecisionDiagram.Proofs.LayerHeights
import DecisionDiagram.Proofs.LayeredProbability
import DecisionDiagram.Proofs.MatchingLines
import DecisionDiagram.Proofs.MergeOrder
import DecisionDiagram.Proofs.MethodEffects
import DecisionDiagram.Proofs.MissingRootLine
import DecisionDiagram.Proofs.ModelCount
import DecisionDiagram.Proofs.NodeLineGraph
import DecisionDiagram.Proofs.NumeralMargins
import DecisionDiagram.Proofs.PairedMethods
import DecisionDiagram.Proofs.PairedWalks
import DecisionDiagram.Proofs.ParentLabels
import DecisionDiagram.Proofs.ParentRecords
import DecisionDiagram.Proofs.ProperBranches
import DecisionDiagram.Proofs.ReachableLines
import DecisionDiagram.Proofs.ReachableVertices
import DecisionDiagram.Proofs.ReadWrittenLines
import DecisionDiagram.Proofs.ReducedDiagram
import DecisionDiagram.Proofs.RelationCycles
import DecisionDiagram.Proofs.RisingNumbers
import DecisionDiagram.Proofs.RootSearch
import DecisionDiagram.Proofs.RoundTrip
import DecisionDiagram.Proofs.RunOutcomes
import DecisionDiagram.Proofs.SessionIsolation
import DecisionDiagram.Proofs.SessionReplies
import DecisionDiagram.Proofs.SetEdgeOrder
import DecisionDiagram.Proofs.SettledDiagrams
import DecisionDiagram.Proofs.SortFaults
import DecisionDiagram.Proofs.SortOrder
import DecisionDiagram.Proofs.SortTells
import DecisionDiagram.Proofs.StorePairing
import DecisionDiagram.Proofs.StrayCycles
import DecisionDiagram.Proofs.TableInvariant
import DecisionDiagram.Proofs.TerminalWarning
import DecisionDiagram.Proofs.TextRows
import DecisionDiagram.Proofs.UsableDiagrams
import DecisionDiagram.Proofs.Utf8RoundTrip
import DecisionDiagram.Proofs.ValidateDecides
import DecisionDiagram.Proofs.ValidatedCalls
import DecisionDiagram.Proofs.VertexBody
import DecisionDiagram.Proofs.VertexTruth
import DecisionDiagram.Proofs.WeightRows
import DecisionDiagram.Proofs.WiredDiagram
import DecisionDiagram.Proofs.WriteAgreement
import DecisionDiagram.Proofs.WrittenDocument
import DecisionDiagram.Report
import DecisionDiagram.Store
import DecisionDiagram.Text.Blank
import DecisionDiagram.Text.Capital
import DecisionDiagram.Text.Lines
import DecisionDiagram.Text.Quoted
import DecisionDiagram.Text.Unprintable
import DecisionDiagram.Text.Utf8
import DecisionDiagram.Validation
import DecisionDiagram.Vertex
import DecisionDiagram.Walk.DepthFirst
import DecisionDiagram.Walk.Directed
import DecisionDiagram.Walk.Unseen
import DecisionDiagram.Weight
import DecisionDiagram.WeightTable
import DecisionDiagram.Wiring
