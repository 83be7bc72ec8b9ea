import LineScript.ActiveCalls
import LineScript.Command
import LineScript.CommandLine
import LineScript.Device
import LineScript.Environment
import LineScript.Evaluation
import LineScript.Execution
import LineScript.Expression
import LineScript.Fault
import LineScript.FileTree
import LineScript.Machine
import LineScript.Main
import LineScript.OrderedMap.Basic
import LineScript.OrderedMap.Lemmas
import LineScript.Outcome
import LineScript.Proofs.Assignments
import LineScript.Proofs.Balance
import LineScript.Proofs.ByteLexer
import LineScript.Proofs.CallLimit
import LineScript.Proofs.CommentStarts
import LineScript.Proofs.Comments
import LineScript.Proofs.Delivery
import LineScript.Proofs.Devices
import LineScript.Proofs.Escapes
import LineScript.Proofs.FailureSite
import LineScript.Proofs.History
import LineScript.Proofs.Inlining
import LineScript.Proofs.Insertions
import LineScript.Proofs.LimitedRuns
import LineScript.Proofs.LineByLine
import LineScript.Proofs.Listing
import LineScript.Proofs.NameLists
import LineScript.Proofs.Names
import LineScript.Proofs.Provenance
import LineScript.Proofs.QuotedBodies
import LineScript.Proofs.Quoting
import LineScript.Proofs.Reading
import LineScript.Proofs.Runs
import LineScript.Proofs.Sendings
import LineScript.Proofs.Simulation
import LineScript.Proofs.Sinks
import LineScript.Proofs.SourceRuns
import LineScript.Proofs.Spacing
import LineScript.Proofs.StandardLibrary
import LineScript.Proofs.Termination
import LineScript.Proofs.TokenGrammar
import LineScript.Proofs.UnambiguousListing
import LineScript.Proofs.Utf8Offsets
import LineScript.Proofs.ValueEquality
import LineScript.Proofs.WellFormed
import LineScript.Proofs.WrittenState
import LineScript.Services
import LineScript.Services.Reply
import LineScript.Session
import LineScript.Sink
import LineScript.Statement
import LineScript.Statement.Listing
import LineScript.Statement.Parser
import LineScript.Text.Blank
import LineScript.Text.Comment
import LineScript.Text.Escape
import LineScript.Text.Line
import LineScript.Text.Quoted
import LineScript.Text.Utf8
import LineScript.Text.Visible
import LineScript.Token
import LineScript.Value
