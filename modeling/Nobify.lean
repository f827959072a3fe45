import Nobify.Evaluator.Rollback
import Nobify.Evaluator.TargetSync
import Nobify.BuildModel.Rebasing
import Nobify.BuildModel.Prerequisites
import Nobify.BuildModel.BeforeCalls
import Nobify.BuildModel.RawProperties
import Nobify.Codegen.CString
import Nobify.BuildModel.FreezeReport
import Nobify.Genex.Stacked
import Nobify.Daemon.Connections
import Nobify.Arena.Cleanups
import Nobify.BuildModel.SourceProducers
import Nobify.Parser.RawStrings
import Nobify.Evaluator.Grammar
import Nobify.Evaluator.SinglePass
import Nobify.Parser.DepthRecovery
import Nobify.Evaluator.QuotedText
import Nobify.BuildModel.ExplicitCycles
import Nobify.Evaluator.DottedVersions
import Nobify.Codegen.PathForms
import Nobify.Codegen.ObjectPaths
import Nobify.Codegen.IncludeArgs
import Nobify.Genex.Conditional
import Nobify.Genex.Concat
import Nobify.Evaluator.MathCommand
import Nobify.Codegen.LinkOrder
import Nobify.Codegen.RebuildInputs
import Nobify.BuildModel.CommandReads
import Nobify.Daemon.Protocol
import Nobify.Evaluator.CommandLine
import Nobify.Evaluator.NormalPrefixes
import Nobify.Evaluator.ListSort
import Nobify.Evaluator.JsonEqual
import Nobify.Evaluator.JsonEdit
import Nobify.Evaluator.ParseArguments
import Nobify.Evaluator.PolicyEngine
import Nobify.Evaluator.CmakePath
import Nobify.Evaluator.FileGlob
import Nobify.BuildModel.StackedQuery
