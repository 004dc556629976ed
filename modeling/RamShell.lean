import RamShell.Datum.Records
import RamShell.Main
import RamShell.Proofs.Console.Stream
import RamShell.Proofs.Path.Parts
import RamShell.Proofs.Shell.Calculation
import RamShell.Proofs.Shell.Colors
import RamShell.Proofs.Shell.Columns
import RamShell.Proofs.Shell.Drawing
import RamShell.Proofs.Shell.Failure
import RamShell.Proofs.Shell.Mode
import RamShell.Proofs.Shell.Open
import RamShell.Proofs.Shell.Privilege
import RamShell.Proofs.Shell.Prompt
import RamShell.Proofs.Shell.ReadBack
import RamShell.Proofs.Shell.Recall
import RamShell.Proofs.Shell.Redirection
import RamShell.Proofs.Shell.Tokens
import RamShell.Proofs.Terminal.Agreement
import RamShell.Proofs.Terminal.Laps
import RamShell.Proofs.Terminal.Lines
import RamShell.Proofs.Terminal.Secrecy
import RamShell.Proofs.Volume.Atomic
import RamShell.Proofs.Volume.Clock
import RamShell.Proofs.Volume.Commute
import RamShell.Proofs.Volume.Growth
import RamShell.Proofs.Volume.Journal
import RamShell.Proofs.Volume.LastWrite
import RamShell.Proofs.Volume.Packing
import RamShell.Proofs.Volume.Refusal
import RamShell.Proofs.Volume.Registry
import RamShell.Proofs.Volume.Removal
import RamShell.Proofs.Volume.Reset
import RamShell.Proofs.Volume.Seeding
import RamShell.Proofs.Volume.Spelling
import RamShell.Proofs.Volume.Stored
import RamShell.Proofs.Volume.Written
import RamShell.Volume.Request
