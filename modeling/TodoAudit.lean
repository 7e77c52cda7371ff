import TodoAudit.Main
import TodoAudit.Proofs.Bytes.Todos
import TodoAudit.Proofs.CommandLine.Decoding
import TodoAudit.Proofs.CommandLine.Results
import TodoAudit.Proofs.CommandLine.Settings
import TodoAudit.Proofs.Comment.LineEnds
import TodoAudit.Proofs.Comment.Places
import TodoAudit.Proofs.Comment.SelfDelimiting
import TodoAudit.Proofs.Config.Texts
import TodoAudit.Proofs.DatePattern.Chunks
import TodoAudit.Proofs.DatePattern.FixedWidth
import TodoAudit.Proofs.DatePattern.QuotedText
import TodoAudit.Proofs.DueDate.Cut
import TodoAudit.Proofs.DueDate.Possible
import TodoAudit.Proofs.DueDate.Trailing
import TodoAudit.Proofs.DueDate.Window
import TodoAudit.Proofs.Location
import TodoAudit.Proofs.Mention
import TodoAudit.Proofs.Phases
import TodoAudit.Proofs.Report.Overdue
import TodoAudit.Proofs.Report.Verification
import TodoAudit.Proofs.SourceTree.Building
import TodoAudit.Proofs.Terminal
