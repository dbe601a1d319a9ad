import DottedNames.CommandLine.Run
import DottedNames.Main
import DottedNames.Report
import DottedNames.Server.Wire
import DottedNames.Workspace.Watcher
import DottedNames.Proofs.Attribution
import DottedNames.Proofs.Captures
import DottedNames.Proofs.EditorCopies
import DottedNames.Proofs.Paths
import DottedNames.Proofs.Trails
import DottedNames.Proofs.DiskEdit
import DottedNames.Proofs.SurveyTree
import DottedNames.Proofs.Interleaving
import DottedNames.Proofs.LateCommit
import DottedNames.Proofs.LiveServer
import DottedNames.Proofs.ProjectRoots
import DottedNames.Proofs.ModulePaths
import DottedNames.Proofs.CommandCalls
import DottedNames.Proofs.FrontEnds
import DottedNames.Proofs.DocumentUris
import DottedNames.Proofs.PositionRequests
import DottedNames.Proofs.LineArguments
import DottedNames.Proofs.SourceReports
import DottedNames.Proofs.LongerPaths
import DottedNames.Proofs.LoadingInPlace
import DottedNames.Proofs.SurveyReach
import DottedNames.Proofs.Loading
import DottedNames.Proofs.LinkedRoots
import DottedNames.Proofs.EventFrames
import DottedNames.Proofs.Queries
import DottedNames.Proofs.Refusals
import DottedNames.Proofs.Outlines
import DottedNames.Proofs.Provenance
import DottedNames.Proofs.LeftoverWatchers
import DottedNames.Proofs.Characters
import DottedNames.Proofs.JsonStrings
import DottedNames.Proofs.WrittenJson
import DottedNames.Proofs.JsonReports
import DottedNames.Proofs.Indentation
import DottedNames.Proofs.IndentStyles
import DottedNames.Proofs.NamelessModules
import DottedNames.Proofs.UnreadableUris
import DottedNames.Proofs.ConstantLines
import DottedNames.Proofs.LineEndings
import DottedNames.Proofs.ShownLines
import DottedNames.Proofs.ImportedSymbols
