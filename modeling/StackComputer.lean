import StackComputer.Main
import StackComputer.Proofs.StackRefinement
import StackComputer.Proofs.FaultAtomicity
import StackComputer.Proofs.OpcodeLocality
import StackComputer.Proofs.ListingAssembly
import StackComputer.Proofs.InstructionDecoding
import StackComputer.Proofs.InstructionLine
import StackComputer.Proofs.SourceLayout
import StackComputer.Proofs.ImageText
import StackComputer.Proofs.FileContent
import StackComputer.Proofs.ImageOrigin
import StackComputer.Proofs.BaseAddress
import StackComputer.Proofs.LabelOperand
import StackComputer.Proofs.LabelReference
import StackComputer.Proofs.InstructionCodec
import StackComputer.Proofs.InstructionSource
import StackComputer.Proofs.DeviceTransfers
import StackComputer.Proofs.SourceSegments
import StackComputer.Proofs.FlagDiscipline
import StackComputer.Proofs.RunBudget
import StackComputer.Proofs.Coupling
import StackComputer.Proofs.TracedRun
import StackComputer.Proofs.CallNesting
import StackComputer.Proofs.ShiftSteps
import StackComputer.Proofs.OperandReplacement
import StackComputer.Proofs.AdditionFlags
import StackComputer.Proofs.Division
import StackComputer.Proofs.RealEncoding
import StackComputer.Proofs.RealConversion
import StackComputer.Proofs.OperandGrammar
import StackComputer.Proofs.OperandEncoding
import StackComputer.Proofs.LabelReach
import StackComputer.Proofs.PrinterOperation
import StackComputer.Proofs.PrinterSession
import StackComputer.Proofs.PrinterOutput
import StackComputer.Proofs.ImageGrammar
import StackComputer.Proofs.DirectiveLine
import StackComputer.Proofs.TextDirective
import StackComputer.Proofs.DataDirectives
import StackComputer.Proofs.FillerLines
import StackComputer.Proofs.SourceCase
import StackComputer.Proofs.StoppedMachine
import StackComputer.Proofs.TrapFreedom
import StackComputer.Proofs.BlockTransfer
import StackComputer.Proofs.DeviceCodes
import StackComputer.Proofs.LiteralReading
