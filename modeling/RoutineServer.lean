import RoutineServer.Command.Basic
import RoutineServer.Command.Error
import RoutineServer.Command.Move
import RoutineServer.Command.Skeleton
import RoutineServer.Files.Glob
import RoutineServer.Files.Ignore
import RoutineServer.Files.Tree
import RoutineServer.Files.Walk
import RoutineServer.Index.Basic
import RoutineServer.Index.Refresh
import RoutineServer.Index.Summary
import RoutineServer.Json.Basic
import RoutineServer.Json.Decode
import RoutineServer.Json.Reader
import RoutineServer.Json.Writer
import RoutineServer.Keyword
import RoutineServer.Lexical.Mask
import RoutineServer.Lexical.Mode
import RoutineServer.Lexical.Parens
import RoutineServer.Main
import RoutineServer.Routine.Anchor
import RoutineServer.Routine.Declaration
import RoutineServer.Routine.Description
import RoutineServer.Routine.Ending
import RoutineServer.Routine.Kind
import RoutineServer.Routine.Layout
import RoutineServer.Routine.Name
import RoutineServer.Server.Basic
import RoutineServer.Server.Connection
import RoutineServer.Server.Decode
import RoutineServer.Server.Encode
import RoutineServer.Server.Message
import RoutineServer.Server.Notification
import RoutineServer.Server.Request
import RoutineServer.Service.Completion
import RoutineServer.Service.Documents
import RoutineServer.Service.Edit
import RoutineServer.Service.Hover
import RoutineServer.Service.Navigation
import RoutineServer.Service.Rename
import RoutineServer.Service.Signature
import RoutineServer.Settings.Basic
import RoutineServer.Settings.Load
import RoutineServer.Text.Basic
import RoutineServer.Text.Blank
import RoutineServer.Text.CharTable
import RoutineServer.Text.Fold
import RoutineServer.Text.Lines
import RoutineServer.Text.Lower
import RoutineServer.Text.Order
import RoutineServer.Text.Pattern
import RoutineServer.Text.Utf8
import RoutineServer.Text.Word
import RoutineServer.Text.WordChar
import RoutineServer.Toml.Document
import RoutineServer.Toml.Scalar
import RoutineServer.Toml.Value
import RoutineServer.Uri.Basic
import RoutineServer.Uri.Percent
import RoutineServer.Workspace
import RoutineServer.Proofs.Routine.Anchor
import RoutineServer.Proofs.Routine.Seam
import RoutineServer.Proofs.Lexical.Resume
import RoutineServer.Proofs.Lexical.ByteScan
import RoutineServer.Proofs.Lexical.Token
import RoutineServer.Proofs.Routine.Ending
import RoutineServer.Proofs.Routine.Segment
import RoutineServer.Proofs.Routine.Division
import RoutineServer.Proofs.Routine.Alignment
import RoutineServer.Proofs.Routine.Mask
import RoutineServer.Proofs.Routine.Placement
import RoutineServer.Proofs.Lexical.MaskImage
import RoutineServer.Proofs.Routine.Locality
import RoutineServer.Proofs.Routine.Site
import RoutineServer.Proofs.Routine.Independence
import RoutineServer.Proofs.Routine.EndingAlignment
import RoutineServer.Proofs.Routine.Reading
import RoutineServer.Proofs.Routine.Concealment
import RoutineServer.Proofs.Text.Bytes
import RoutineServer.Proofs.Text.Position
import RoutineServer.Proofs.Text.Coordinates
import RoutineServer.Proofs.Text.Spelling
import RoutineServer.Proofs.Text.Occurrence
import RoutineServer.Proofs.Text.WholeWord
import RoutineServer.Proofs.Text.Replacement
import RoutineServer.Proofs.Service.Editing
import RoutineServer.Proofs.Service.RenameInverse
import RoutineServer.Proofs.Text.Matches
import RoutineServer.Proofs.Service.RenameReach
import RoutineServer.Proofs.Routine.LineAnchor
import RoutineServer.Proofs.Service.RenameScope
import RoutineServer.Proofs.Command.MovedText
import RoutineServer.Proofs.Service.RenameRanges
import RoutineServer.Proofs.Text.Collation
import RoutineServer.Proofs.Index.Consistency
import RoutineServer.Proofs.Index.History
import RoutineServer.Proofs.Index.Refresh
import RoutineServer.Proofs.Index.Scheduling
import RoutineServer.Proofs.Uri.FileUri
import RoutineServer.Proofs.Workspace.Scan
import RoutineServer.Proofs.Server.Events
import RoutineServer.Proofs.Server.Convergence
import RoutineServer.Proofs.Server.Completion
import RoutineServer.Proofs.Routine.CodeWords
import RoutineServer.Proofs.Routine.Walk
import RoutineServer.Proofs.Routine.OuterEnd
import RoutineServer.Proofs.Routine.StatementEnd
import RoutineServer.Proofs.Text.CursorWord
import RoutineServer.Proofs.Service.RenameCoverage
import RoutineServer.Proofs.Lexical.Enclosure
import RoutineServer.Proofs.Lexical.Splitting
import RoutineServer.Proofs.Routine.NameForm
import RoutineServer.Proofs.Routine.NamePlace
import RoutineServer.Proofs.Service.References
import RoutineServer.Proofs.Text.WordSearch
import RoutineServer.Proofs.Service.Definition
import RoutineServer.Proofs.Routine.WrittenName
import RoutineServer.Proofs.Service.CalledName
import RoutineServer.Proofs.Routine.LoneAnchor
import RoutineServer.Proofs.Command.SkeletonText
import RoutineServer.Proofs.Routine.DescriptionStatement
import RoutineServer.Proofs.Routine.DescriptionText
import RoutineServer.Proofs.Lexical.OpenToken
import RoutineServer.Proofs.Server.QuietPlaces
import RoutineServer.Proofs.Service.Presentation
import RoutineServer.Proofs.Service.Resolution
import RoutineServer.Proofs.Command.MoveEdits
import RoutineServer.Proofs.Uri.FilePath
import RoutineServer.Proofs.Workspace.Candidates
import RoutineServer.Proofs.Service.Outline
