import MarkerSweep.Text.Delimiter
import MarkerSweep.Text.Utf8
import MarkerSweep.Text.Utf8.RoundTrip
import MarkerSweep.Token
import MarkerSweep.Marker
import MarkerSweep.Path
import MarkerSweep.Path.Order
import MarkerSweep.Text.Json
import MarkerSweep.Tree
import MarkerSweep.SystemError
import MarkerSweep.Tree.Resolve
import MarkerSweep.Tree.Access
import MarkerSweep.Storage
import MarkerSweep.Walk
import MarkerSweep.Survey
import MarkerSweep.Settings
import MarkerSweep.Report
import MarkerSweep.Text.Printable
import MarkerSweep.Text.Quoted
import MarkerSweep.Text.Style
import MarkerSweep.Text.Terminal
import MarkerSweep.Output
import MarkerSweep.Console
import MarkerSweep.Job
import MarkerSweep.Log
import MarkerSweep.CommandLine.Argument
import MarkerSweep.CommandLine.Declared
import MarkerSweep.CommandLine.UsageError
import MarkerSweep.CommandLine.Request
import MarkerSweep.CommandLine.Help
import MarkerSweep.Program
import MarkerSweep.Tree.Build
import MarkerSweep.Tree.Change
import MarkerSweep.Snapshot
import MarkerSweep.Main
import MarkerSweep.Proofs.Sweep.Cut
import MarkerSweep.Proofs.Sweep.Seam
import MarkerSweep.Proofs.Sweep.Pieces
import MarkerSweep.Proofs.Sweep.Remade
import MarkerSweep.Proofs.Sweep.Removed
import MarkerSweep.Proofs.Sweep.Changed
import MarkerSweep.Proofs.Sweep.Delimiters
import MarkerSweep.Proofs.Text.Lossy
import MarkerSweep.Proofs.Tree.Leads
import MarkerSweep.Proofs.Tree.Rooted
import MarkerSweep.Proofs.Path.Parts
import MarkerSweep.Proofs.Path.Order
import MarkerSweep.Proofs.Tree.Lookup
import MarkerSweep.Proofs.Tree.WithFile
import MarkerSweep.Proofs.Storage.Staging
import MarkerSweep.Proofs.Storage.Replacement
import MarkerSweep.Proofs.Storage.Occupied
import MarkerSweep.Proofs.Tree.Outline
import MarkerSweep.Proofs.Job.OneFile
import MarkerSweep.Proofs.Job.Effect
import MarkerSweep.Proofs.Walk.Visits
import MarkerSweep.Proofs.Sweep.Words
import MarkerSweep.Proofs.Path.Below
import MarkerSweep.Proofs.Tree.Onward
import MarkerSweep.Proofs.Walk.Route
import MarkerSweep.Proofs.Walk.Listing
import MarkerSweep.Proofs.Walk.Extent
import MarkerSweep.Proofs.Job.Course
import MarkerSweep.Proofs.Job.DryRun
import MarkerSweep.Proofs.Sweep.InTurn
import MarkerSweep.Proofs.CommandLine.Item
import MarkerSweep.Proofs.CommandLine.Reading
import MarkerSweep.Proofs.CommandLine.Grammar
import MarkerSweep.Proofs.Console.Transcript
import MarkerSweep.Proofs.Program.Ending
import MarkerSweep.Proofs.Storage.Answer
import MarkerSweep.Proofs.Job.SecondRun
import MarkerSweep.Proofs.Job.Extension
import MarkerSweep.Proofs.CommandLine.Final
import MarkerSweep.Proofs.CommandLine.Environment
import MarkerSweep.Proofs.Console.Broken
import MarkerSweep.Proofs.Json.Layout
import MarkerSweep.Proofs.Json.Lexer
import MarkerSweep.Proofs.Json.Reader
import MarkerSweep.Proofs.Report.Lossless
