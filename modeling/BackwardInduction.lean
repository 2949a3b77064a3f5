import BackwardInduction.Command.Generate
import BackwardInduction.Command.Report
import BackwardInduction.Command.Solve
import BackwardInduction.Decimal.Notation
import BackwardInduction.Decimal.Numeral
import BackwardInduction.Decimal.Shortest
import BackwardInduction.Dict
import BackwardInduction.Fault
import BackwardInduction.Files.Access
import BackwardInduction.Files.Document
import BackwardInduction.Files.Tree
import BackwardInduction.Json.Complaint
import BackwardInduction.Json.Reader
import BackwardInduction.Json.Writer
import BackwardInduction.Layout
import BackwardInduction.Main
import BackwardInduction.Model
import BackwardInduction.Model.Normal
import BackwardInduction.Model.Reading
import BackwardInduction.Options
import BackwardInduction.Path
import BackwardInduction.Problem
import BackwardInduction.Problem.DeliveryRobot
import BackwardInduction.Problem.Document
import BackwardInduction.Problem.Summary
import BackwardInduction.Problem.Synthetic
import BackwardInduction.Random.Twister
import BackwardInduction.Scalar
import BackwardInduction.Scalar.Binary64
import BackwardInduction.Scalar.Rational
import BackwardInduction.Solution
import BackwardInduction.Text.Blank
import BackwardInduction.Text.Digit
import BackwardInduction.Text.Printable
import BackwardInduction.Text.Quoted
import BackwardInduction.Text.Utf8
import BackwardInduction.Trace
import BackwardInduction.Value
import BackwardInduction.Value.Literal
import BackwardInduction.Proofs.AcceptedInstances
import BackwardInduction.Proofs.AgreeingStages
import BackwardInduction.Proofs.AssembledDocuments
import BackwardInduction.Proofs.BellmanConsistency
import BackwardInduction.Proofs.CarriedModels
import BackwardInduction.Proofs.CellInvariants
import BackwardInduction.Proofs.ClampedDiscounts
import BackwardInduction.Proofs.ComparedInstances
import BackwardInduction.Proofs.CostUnits
import BackwardInduction.Proofs.CutHorizons
import BackwardInduction.Proofs.DeclaredKeys
import BackwardInduction.Proofs.DecodedTables
import BackwardInduction.Proofs.DictLookup
import BackwardInduction.Proofs.DirectRecursion
import BackwardInduction.Proofs.DistinctStages
import BackwardInduction.Proofs.DocumentFaults
import BackwardInduction.Proofs.DocumentGrammar
import BackwardInduction.Proofs.DocumentInstances
import BackwardInduction.Proofs.DocumentParts
import BackwardInduction.Proofs.DocumentRoundTrip
import BackwardInduction.Proofs.DrawnProblems
import BackwardInduction.Proofs.ExportedSolutions
import BackwardInduction.Proofs.FileDocuments
import BackwardInduction.Proofs.FlattenedModels
import BackwardInduction.Proofs.FormRuns
import BackwardInduction.Proofs.GeneratedProblems
import BackwardInduction.Proofs.InstanceRequirements
import BackwardInduction.Proofs.JsonNumbers
import BackwardInduction.Proofs.JsonReading
import BackwardInduction.Proofs.JsonRoundTrip
import BackwardInduction.Proofs.JsonTexts
import BackwardInduction.Proofs.JsonValues
import BackwardInduction.Proofs.KeptEntries
import BackwardInduction.Proofs.KeyTexts
import BackwardInduction.Proofs.LeastCandidates
import BackwardInduction.Proofs.ListedNames
import BackwardInduction.Proofs.MarkedModels
import BackwardInduction.Proofs.MarkedTables
import BackwardInduction.Proofs.MatchingDicts
import BackwardInduction.Proofs.ModelContents
import BackwardInduction.Proofs.ModelGrammar
import BackwardInduction.Proofs.NormalizationOrder
import BackwardInduction.Proofs.NormalizedModels
import BackwardInduction.Proofs.Notices
import BackwardInduction.Proofs.Optimality
import BackwardInduction.Proofs.OptionTexts
import BackwardInduction.Proofs.Outcomes
import BackwardInduction.Proofs.OverriddenParts
import BackwardInduction.Proofs.ProblemDocuments
import BackwardInduction.Proofs.RationalRows
import BackwardInduction.Proofs.ReadModels
import BackwardInduction.Proofs.ReadingBack
import BackwardInduction.Proofs.RenamedInstances
import BackwardInduction.Proofs.RenamedModels
import BackwardInduction.Proofs.ReportedFaults
import BackwardInduction.Proofs.RescaledRows
import BackwardInduction.Proofs.RescaledWeights
import BackwardInduction.Proofs.RestoredModels
import BackwardInduction.Proofs.RowMass
import BackwardInduction.Proofs.ScalarOrder
import BackwardInduction.Proofs.ShuffledInstances
import BackwardInduction.Proofs.ShuffledModels
import BackwardInduction.Proofs.ShuffledValues
import BackwardInduction.Proofs.SolveNotices
import BackwardInduction.Proofs.SolveRuns
import BackwardInduction.Proofs.StageGrammar
import BackwardInduction.Proofs.StageLocality
import BackwardInduction.Proofs.StageParting
import BackwardInduction.Proofs.StageTables
import BackwardInduction.Proofs.StageTexts
import BackwardInduction.Proofs.UndeclaredNotices
import BackwardInduction.Proofs.WholeNumbers
import BackwardInduction.Proofs.WrittenDatasets
import BackwardInduction.Proofs.WrittenFiles
