import LS8.Main
import LS8.Proofs.Command.Arguments
import LS8.Proofs.Command.Conclusion
import LS8.Proofs.Command.Precedence
import LS8.Proofs.Command.Report
import LS8.Proofs.Command.Session
import LS8.Proofs.Command.SingleLine
import LS8.Proofs.Command.Verdict
import LS8.Proofs.Device.Contents
import LS8.Proofs.Fault.Message
import LS8.Proofs.Image.Composition
import LS8.Proofs.Image.Language
import LS8.Proofs.Image.Layout
import LS8.Proofs.Instruction.Encoding
import LS8.Proofs.Listing.Agreement
import LS8.Proofs.Listing.Coverage
import LS8.Proofs.Listing.Recovery
import LS8.Proofs.Machine.Aftermath
import LS8.Proofs.Machine.Bookkeeping
import LS8.Proofs.Machine.Capture
import LS8.Proofs.Machine.Footprint
import LS8.Proofs.Machine.InstructionSet
import LS8.Proofs.Machine.Lifecycle
import LS8.Proofs.Machine.Limits
import LS8.Proofs.Machine.Profiling
import LS8.Proofs.Machine.SavedRegisters
import LS8.Proofs.Machine.ShadowStack
import LS8.Proofs.Machine.StraightLine
import LS8.Proofs.Machine.Termination
import LS8.Proofs.Machine.TraceLine
import LS8.Proofs.Machine.Transcript
import LS8.Proofs.Memory.Loading
import LS8.Proofs.Profile.Report
import LS8.Proofs.Settings.Loading
import LS8.Proofs.Settings.Merging
import LS8.Proofs.Settings.Nearest
import LS8.Proofs.Settings.Variables
import LS8.Proofs.Settings.Written
import LS8.Proofs.Text.Lines
import LS8.Proofs.Text.Numeral
