import T4P4SRuntime.Library.Scan
import T4P4SRuntime.Library.Probing
import T4P4SRuntime.Library.FirstBinding
import T4P4SRuntime.Library.Parking
import T4P4SRuntime.Library.Overflow
import T4P4SRuntime.Library.Exec
import T4P4SRuntime.Library.Heap
import T4P4SRuntime.Library.Layout
import T4P4SRuntime.Library.Positional
import T4P4SRuntime.Library.BigEndian
import T4P4SRuntime.Library.TwoWords
import T4P4SRuntime.Library.Replay
import T4P4SRuntime.CString
import T4P4SRuntime.IdMap.Map
import T4P4SRuntime.IdMap.Bindings
import T4P4SRuntime.IdMap.Capacity
import T4P4SRuntime.IdMap.Allocation
import T4P4SRuntime.Proto
import T4P4SRuntime.Uint128
import T4P4SRuntime.Device.Messages
import T4P4SRuntime.Device.Manager
import T4P4SRuntime.Device.ConfigFile
import T4P4SRuntime.Device.Pipeline
import T4P4SRuntime.Device.GetConfig
import T4P4SRuntime.Device.TableInsert
import T4P4SRuntime.Device.InsertSpec
import T4P4SRuntime.Device.Write
import T4P4SRuntime.Device.Read
import T4P4SRuntime.Server
import T4P4SRuntime.L2fwd
import T4P4SRuntime.Device.StatusEffect
import T4P4SRuntime.Device.WriteReport
import T4P4SRuntime.Device.Registration
import T4P4SRuntime.Device.Resolution
import T4P4SRuntime.Device.History
import T4P4SRuntime.Device.FailedLookups
import T4P4SRuntime.Device.BatchWrite
import T4P4SRuntime.Device.ServerSteps
import T4P4SRuntime.Device.IdKinds
import T4P4SRuntime.Device.ValueBytes
import T4P4SRuntime.Device.ReadReport
import T4P4SRuntime.Device.PushOutcome
import T4P4SRuntime.Device.HistoryIndependence
import T4P4SRuntime.Device.PushFrame
import T4P4SRuntime.Device.Repush
import T4P4SRuntime.Device.Allocated
import T4P4SRuntime.Device.Digest
import T4P4SRuntime.Device.DigestMap
import T4P4SRuntime.Session.Step
import T4P4SRuntime.Session.Turns
import T4P4SRuntime.Session.Ledger
import T4P4SRuntime.Session.FirstConfig
import T4P4SRuntime.Session.ConfigReturn
import T4P4SRuntime.Session.DigestDelivery
import T4P4SRuntime.Session.Subscription
import T4P4SRuntime.Codegen.Hlir
import T4P4SRuntime.Codegen.Generator
import T4P4SRuntime.Codegen.Emitted
import T4P4SRuntime.Codegen.AddSpec
import T4P4SRuntime.Codegen.Dispatch
import T4P4SRuntime.Codegen.KeyBytes
import T4P4SRuntime.Switch.Install
import T4P4SRuntime.Switch.L2fwdCode
import T4P4SRuntime.Switch.ExactInstall
import T4P4SRuntime.Switch.SilentLoss
import T4P4SRuntime.Switch.OrderIndependence
import T4P4SRuntime.Switch.RecordReads
import T4P4SRuntime.Device.ConfigStore
import T4P4SRuntime.Device.CounterCells
import T4P4SRuntime.Device.Translation
import T4P4SRuntime.Session.DigestContent
import T4P4SRuntime.Codegen.KeyLayout
import T4P4SRuntime.Switch.LpmDepth
import T4P4SRuntime.Device.BoundedInsert
import T4P4SRuntime.Device.Capacities
import T4P4SRuntime.Session.ListIds
import T4P4SRuntime.Session.Transcript
import T4P4SRuntime.Session.Planes
import T4P4SRuntime.Session.PushBudget
import T4P4SRuntime.Codegen.CallAgreement
import T4P4SRuntime.Switch.LpmInstall
import T4P4SRuntime.Switch.Rules
import T4P4SRuntime.Switch.System
import T4P4SRuntime.Switch.Promotes
import T4P4SRuntime.Switch.Forwarding
import T4P4SRuntime.Switch.Packets
import T4P4SRuntime.Onos.Interpreter
import T4P4SRuntime.Onos.PortNumbers
import T4P4SRuntime.Onos.Pipeliner
import T4P4SRuntime.Onos.Treatments
import T4P4SRuntime.Onos.PacketOut
import T4P4SRuntime.Onos.PacketIn
import T4P4SRuntime.Lifecycle
