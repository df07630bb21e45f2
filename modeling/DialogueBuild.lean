import DialogueBuild.Text.Blank
import DialogueBuild.Text.Columns
import DialogueBuild.CommandLine.Run
import DialogueBuild.Main
import DialogueBuild.Proofs.Json.NumberText
import DialogueBuild.Proofs.Lua.Registration
import DialogueBuild.Proofs.Rejection
import DialogueBuild.Proofs.WireFormat
import DialogueBuild.Proofs.Agreement
import DialogueBuild.Proofs.Lua.Placement
import DialogueBuild.Proofs.ExitStatus
import DialogueBuild.Proofs.Project.Saving
import DialogueBuild.Proofs.Json.Compact
import DialogueBuild.Proofs.Report
import DialogueBuild.Compiler.Conversation
import DialogueBuild.Proofs.Compiler.Conversation
import DialogueBuild.Proofs.Job
import DialogueBuild.Proofs.Program.Listing
import DialogueBuild.Proofs.Diagnostic.Place
import DialogueBuild.Proofs.Project.Definitions
import DialogueBuild.Proofs.Path.Components
import DialogueBuild.Proofs.Project.Sources
import DialogueBuild.Proofs.FileSystem.Listing
import DialogueBuild.Proofs.Glob.Reading
import DialogueBuild.Proofs.Glob.Finding
import DialogueBuild.Proofs.Glob.Walk
import DialogueBuild.Proofs.Glob.Escaping
import DialogueBuild.Proofs.Program.Recovery
import DialogueBuild.Proofs.Path.FileName
import DialogueBuild.Proofs.Project.Created
import DialogueBuild.Proofs.Project.Inputs
import DialogueBuild.Proofs.Program.OperandForms
import DialogueBuild.Proofs.Line
import DialogueBuild.Proofs.Program.Coloring
import DialogueBuild.Proofs.CommandLine.Arguments
import DialogueBuild.Proofs.Diagnostic.Printer
import DialogueBuild.Proofs.Lua.Layout
