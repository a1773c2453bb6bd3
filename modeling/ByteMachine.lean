import ByteMachine.Main
import ByteMachine.Machine.Session
import ByteMachine.Proofs.Execution.Step
import ByteMachine.Proofs.Execution.Stepping
import ByteMachine.Proofs.Execution.Termination
import ByteMachine.Proofs.Execution.Alike
import ByteMachine.Proofs.Execution.Horizon
import ByteMachine.Proofs.Execution.JumpOrigins
import ByteMachine.Proofs.Execution.GuardedRun
import ByteMachine.Proofs.Execution.Control
import ByteMachine.Proofs.Execution.Configure
import ByteMachine.Proofs.Execution.RevisitGuard
import ByteMachine.Proofs.Execution.StepLimit
import ByteMachine.Proofs.Execution.InstructionSet
import ByteMachine.Proofs.Output.FailedStep
import ByteMachine.Proofs.Output.Pieces
import ByteMachine.Proofs.Output.BoundedSink
import ByteMachine.Proofs.Program.Grammar
import ByteMachine.Proofs.Program.Parsing
import ByteMachine.Proofs.Session.Transcript
import ByteMachine.Proofs.Session.Reload
import ByteMachine.Proofs.Session.Induction
import ByteMachine.Proofs.Session.Invariant
import ByteMachine.Proofs.Session.Resumption
import ByteMachine.Proofs.Execution.StraightLine
import ByteMachine.Proofs.Session.Recurrence
import ByteMachine.Proofs.Execution.Unreached
import ByteMachine.Proofs.Program.Layout
import ByteMachine.Proofs.Session.Tracing
import ByteMachine.Proofs.CommandLine.Pipeline
import ByteMachine.Proofs.Execution.Effects
import ByteMachine.Proofs.Session.Trail
import ByteMachine.Proofs.Session.FaultOrder
import ByteMachine.Proofs.Session.JumpHistory
import ByteMachine.Proofs.Execution.ForwardJumps
import ByteMachine.Proofs.Session.LastComparison
import ByteMachine.Proofs.Program.Concatenation
import ByteMachine.Proofs.Program.LayoutEdit
import ByteMachine.Proofs.Program.Evidence
import ByteMachine.Proofs.Execution.RunLog
import ByteMachine.Proofs.Session.Patching
import ByteMachine.Proofs.Output.Decoding
import ByteMachine.Proofs.Program.Utf8
import ByteMachine.Proofs.Program.FileLoading
import ByteMachine.Proofs.Execution.RegisterFile
import ByteMachine.Proofs.Session.TraceLine
