import ControlFlow.Files.Directory
import ControlFlow.Main
import ControlFlow.Proofs.Graph.Distance
import ControlFlow.Proofs.Graph.Tables
import ControlFlow.Proofs.Json.Export
import ControlFlow.Proofs.Lowering.Dead
import ControlFlow.Proofs.Lowering.Effects
import ControlFlow.Proofs.Lowering.Ensured
import ControlFlow.Proofs.Lowering.Frame
import ControlFlow.Proofs.Lowering.Idle
import ControlFlow.Proofs.Lowering.Protocol
import ControlFlow.Proofs.Lowering.Sugar
import ControlFlow.Proofs.Reading.Classes
import ControlFlow.Proofs.Reading.Journal
import ControlFlow.Proofs.Reading.Kept
import ControlFlow.Proofs.Reading.Reread
import ControlFlow.Proofs.Reading.Spans
