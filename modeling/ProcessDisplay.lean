import ProcessDisplay.Main
import ProcessDisplay.Proofs.Actions
import ProcessDisplay.Proofs.NameKeys
import ProcessDisplay.Proofs.Motion
import ProcessDisplay.Proofs.FormulaContract
import ProcessDisplay.Proofs.Evaluations
import ProcessDisplay.Proofs.Constructions
import ProcessDisplay.Proofs.Resolution
import ProcessDisplay.Proofs.TriggerEdges
import ProcessDisplay.Proofs.WellFormed
import ProcessDisplay.Proofs.WellFormedSteps
import ProcessDisplay.Proofs.Rollback
import ProcessDisplay.Proofs.Evolutions
import ProcessDisplay.Proofs.Propagations
import ProcessDisplay.Proofs.Sessions
import ProcessDisplay.Proofs.Atomicity
import ProcessDisplay.Proofs.Currency
import ProcessDisplay.Proofs.FormulaCurrency
import ProcessDisplay.Proofs.ExpressionContract
import ProcessDisplay.Proofs.Registrations
import ProcessDisplay.Proofs.TickSchedule
import ProcessDisplay.Proofs.TriggerDelivery
import ProcessDisplay.Proofs.Transitions
import ProcessDisplay.Proofs.RegistryIntegrity
import ProcessDisplay.Proofs.NameIdentity
import ProcessDisplay.Proofs.VisibleChanges
import ProcessDisplay.Proofs.RedrawFlag
import ProcessDisplay.Proofs.ScriptWrites
import ProcessDisplay.Proofs.ParserYields
import ProcessDisplay.Proofs.GrammarNesting
import ProcessDisplay.Proofs.EvaluationSteps
import ProcessDisplay.Proofs.EvaluationSafety
import ProcessDisplay.Proofs.FailureRecords
import ProcessDisplay.Proofs.ContainedFailures
import ProcessDisplay.Proofs.InterpreterMemory
import ProcessDisplay.Proofs.TickReturns
import ProcessDisplay.Proofs.BundledUnits
import ProcessDisplay.Proofs.TickSurvival
import ProcessDisplay.Proofs.RepeatedCreation
import ProcessDisplay.Proofs.NameLookup
import ProcessDisplay.Proofs.TriggerLedger
import ProcessDisplay.Proofs.Readings
import ProcessDisplay.Proofs.WriteAuthority
import ProcessDisplay.Proofs.RingContents
import ProcessDisplay.Proofs.RunIsolation
import ProcessDisplay.Proofs.SideBySide
import ProcessDisplay.Proofs.Renewal
import ProcessDisplay.Proofs.WholeNumbers
import ProcessDisplay.Proofs.TracePoints
import ProcessDisplay.Proofs.TraceFeeding
import ProcessDisplay.Proofs.PropagationRounds
import ProcessDisplay.Proofs.PropagationEnds
import ProcessDisplay.Proofs.EvaluationCounts
import ProcessDisplay.Proofs.Lexemes
import ProcessDisplay.Proofs.TextParts
import ProcessDisplay.Proofs.LexemeRows
import ProcessDisplay.Proofs.TokenPassage
import ProcessDisplay.Proofs.TermNames
import ProcessDisplay.Proofs.ExpressionNames
import ProcessDisplay.Proofs.OperationFaults
import ProcessDisplay.Proofs.VariableLookups
import ProcessDisplay.Proofs.NumberedNames
import ProcessDisplay.Proofs.Identifiers
import ProcessDisplay.Proofs.AccessorScans
import ProcessDisplay.Proofs.AccessorNames
import ProcessDisplay.Proofs.AccessorBinding
import ProcessDisplay.Proofs.ReferencePieces
import ProcessDisplay.Proofs.ReferenceHygiene
import ProcessDisplay.Proofs.FormulaSegments
import ProcessDisplay.Proofs.KeyReadings
import ProcessDisplay.Proofs.EditLogs
import ProcessDisplay.Proofs.PointPairs
import ProcessDisplay.Proofs.UpdateModes
import ProcessDisplay.Proofs.NumberOrder
import ProcessDisplay.Proofs.Snapshots
import ProcessDisplay.Proofs.ZeroSigns
import ProcessDisplay.Proofs.UntimedRuns
import ProcessDisplay.Proofs.UnreportedSamples
import ProcessDisplay.Proofs.RuleChains
import ProcessDisplay.Proofs.WriteLists
import ProcessDisplay.Proofs.InputPositions
import ProcessDisplay.Proofs.IdleTicks
import ProcessDisplay.Proofs.ExactQuotients
import ProcessDisplay.Proofs.EmissionIntervals
import ProcessDisplay.Proofs.RandomStreams
import ProcessDisplay.Proofs.NoiseStreams
import ProcessDisplay.Proofs.RandomStates
import ProcessDisplay.Proofs.BinaryRounding
import ProcessDisplay.Proofs.DecimalReadings
import ProcessDisplay.Proofs.ShortestDigits
import ProcessDisplay.Proofs.DocumentLines
import ProcessDisplay.Proofs.WrittenNumbers
import ProcessDisplay.Proofs.WrittenTexts
import ProcessDisplay.Proofs.SavedSettings
import ProcessDisplay.Proofs.RampPeriod
import ProcessDisplay.Proofs.PlainNumerals
import ProcessDisplay.Proofs.LiteralSpellings
import ProcessDisplay.Proofs.HistoryRelease
import ProcessDisplay.Proofs.CreationNesting
