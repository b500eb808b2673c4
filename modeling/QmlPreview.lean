import QmlPreview.FileTree.Answer
import QmlPreview.Main
import QmlPreview.Proofs.Printing
import QmlPreview.Proofs.Reindenting
import QmlPreview.Proofs.Outlines
import QmlPreview.Proofs.Shells
import QmlPreview.Proofs.Generated
import QmlPreview.Proofs.HeaderRoundTrip
import QmlPreview.Proofs.Hosting
import QmlPreview.Proofs.Stripping
import QmlPreview.Proofs.Rehosting
import QmlPreview.Proofs.Rereading
import QmlPreview.Proofs.Presenting
import QmlPreview.Proofs.SingleElements
import QmlPreview.Proofs.Tokenization
import QmlPreview.Proofs.Agreement
import QmlPreview.Proofs.MaskedContents
import QmlPreview.Proofs.PathLiterals
import QmlPreview.Proofs.Runs
import QmlPreview.Proofs.Removals
import QmlPreview.Proofs.Polling
import QmlPreview.Proofs.LiveRuns
import QmlPreview.Proofs.Failures
import QmlPreview.Proofs.EditTracking
import QmlPreview.Proofs.SideFileNames
import QmlPreview.Proofs.Directories
import QmlPreview.Proofs.Inventory
import QmlPreview.Proofs.Transactions
import QmlPreview.Proofs.Segments
import QmlPreview.Proofs.Literals
import QmlPreview.Proofs.FailureCounts
import QmlPreview.Proofs.SharedDirectories
import QmlPreview.Proofs.MaskedPlaces
import QmlPreview.Proofs.HeaderCuts
import QmlPreview.Proofs.RootMembers
import QmlPreview.Proofs.ImportStatements
import QmlPreview.Proofs.VisibleText
import QmlPreview.Proofs.Cuts
import QmlPreview.Proofs.Offsets
import QmlPreview.Proofs.DeviceGeometry
import QmlPreview.Proofs.EngineReloads
import QmlPreview.Proofs.Walking
import QmlPreview.Proofs.PathSpellings
import QmlPreview.Proofs.Unlinking
import QmlPreview.Proofs.ExpiredLogs
import QmlPreview.Proofs.Seams
import QmlPreview.Proofs.SweptNames
