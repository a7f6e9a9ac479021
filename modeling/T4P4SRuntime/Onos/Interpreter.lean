import T4P4SRuntime.Proto

namespace Onos

inductive JavaException where
  | piInterpreter (message : String)
  | indexOutOfBounds
  | classCast
  deriving DecidableEq, Repr

-- `P` are the port numbers and `T` the types of the instructions that are not `OUTPUT`.
inductive Instruction (P T : Type) where
  | output (port : P)
  | other (type : T)
  deriving DecidableEq

structure TrafficTreatment (P T : Type) where
  allInstructions : List (Instruction P T)
  deriving DecidableEq

-- The classes of ONOS the interpreter calls: `S` are its immutable byte sequences, `B` the byte
-- buffers and `D` the device ids.
structure Platform (P T S B D : Type) where
  isLogical : P → Bool
  toLong : P → Int64
  portEquals : P → P → Bool
  controller : P
  flood : P
  portName : P → String
  typeName : T → String
  treatmentName : TrafficTreatment P T → String
  copyFromLong : Int64 → S
  copyFromBuffer : B → S
  fit : S → Nat → Except String S
  asArray : S → Bytes
  contents : B → Bytes
  getPorts : D → List P

-- An object is told from every other one by the number of objects made before it, so `=` compares
-- references.
structure PiTableId where
  serial : Nat
  id : String
  deriving DecidableEq, Repr

def PiTableId.of (made : Nat) (id : String) : PiTableId := { serial := made, id := id }

def PiTableId.equals (a b : PiTableId) : Bool := a.id = b.id

structure PiActionParam (S : Type) where
  id : String
  value : S
  deriving DecidableEq

structure PiAction (S : Type) where
  id : String
  parameters : List (PiActionParam S)
  deriving DecidableEq

inductive PiPacketOperationType where
  | packetIn
  | packetOut
  deriving DecidableEq

structure PiPacketMetadata (S : Type) where
  id : String
  value : S
  deriving DecidableEq

structure PiPacketOperation (S : Type) where
  type : PiPacketOperationType
  data : S
  metadatas : List (PiPacketMetadata S)
  deriving DecidableEq

structure OutboundPacket (P T B D : Type) where
  sendThrough : D
  treatment : TrafficTreatment P T
  data : B

def tL2Fwd : String := "dmac"

def egressPort : String := "egress_port"

def portFieldBitwidth : Nat := 9

def actIdNop : String := "_nop"

def actIdSendToCpu : String := "bcast"

def actIdSetEgressPort : String := "forward"

def actParamIdPort : String := "port"

-- The one static field of `PipelineInterpreterImpl` that is compared by reference.
structure PipelineInterpreterImpl where
  tableL2FwdId : PiTableId
  named : tableL2FwdId.id = tL2Fwd
  deriving DecidableEq

variable {P T S B D : Type}

def TrafficTreatment.get (treatment : TrafficTreatment P T) (i : Nat) :
    Except JavaException (Instruction P T) :=
  match treatment.allInstructions[i]? with
  | none => throw .indexOutOfBounds
  | some instruction => pure instruction

theorem TrafficTreatment.get_zero {treatment : TrafficTreatment P T} {first : Instruction P T}
    {rest : List (Instruction P T)} (h : treatment.allInstructions = first :: rest) :
    treatment.get 0 = .ok first := by
  rw [TrafficTreatment.get, h]
  rfl

theorem TrafficTreatment.get_of_empty {treatment : TrafficTreatment P T} (i : Nat)
    (h : treatment.allInstructions = []) : treatment.get i = .error .indexOutOfBounds := by
  rw [TrafficTreatment.get, h]
  rfl

def Instruction.isOutput : Instruction P T → Bool
  | .output _ => true
  | .other _ => false

-- `((OutputInstruction) instruction).port()`
def Instruction.outputPort : Instruction P T → Except JavaException P
  | .output port => pure port
  | .other _ => throw .classCast

def logicalPortMessage (platform : Platform P T S B D) (port : P) : String :=
  "Output on logical port '" ++ platform.portName port ++ "' not supported"

def PipelineInterpreterImpl.mapTreatment (interpreter : PipelineInterpreterImpl)
    (platform : Platform P T S B D) (treatment : TrafficTreatment P T) (piTableId : PiTableId) :
    Except JavaException (PiAction S) :=
  if piTableId ≠ interpreter.tableL2FwdId then
    throw (.piInterpreter "Can map treatments only for 't_l2_fwd' table")
  else if treatment.allInstructions.length = 0 then pure { id := actIdNop, parameters := [] }
  else if treatment.allInstructions.length > 1 then
    throw (.piInterpreter "Treatment has multiple instructions")
  else do
    let instruction ← treatment.get 0
    match instruction with
    | .other type =>
        throw (.piInterpreter
          ("Instruction of type '" ++ platform.typeName type ++ "' not supported"))
    | .output port =>
        if platform.isLogical port = false then
          pure
            { id := actIdSetEgressPort
              parameters :=
                [{ id := actParamIdPort, value := platform.copyFromLong (platform.toLong port) }] }
        else if platform.portEquals port platform.controller then
          pure { id := actIdSendToCpu, parameters := [] }
        else throw (.piInterpreter (logicalPortMessage platform port))

def createPacketMetadata (platform : Platform P T S B D) (portNumber : Int64) :
    Except JavaException (PiPacketMetadata S) :=
  match platform.fit (platform.copyFromLong portNumber) portFieldBitwidth with
  | .ok value => pure { id := egressPort, value := value }
  | .error message =>
      throw (.piInterpreter
        ("Port number " ++ toString portNumber.toInt ++ " too big, " ++ message))

def createPiPacketOp (platform : Platform P T S B D) (data : B) (portNumber : Int64) :
    Except JavaException (PiPacketOperation S) := do
  let metadata ← createPacketMetadata platform portNumber
  pure { type := .packetOut, data := platform.copyFromBuffer data, metadatas := [metadata] }

-- `size() != 1 && get(0).type() != OUTPUT`
def unsupportedGuard (treatment : TrafficTreatment P T) : Except JavaException Bool :=
  if treatment.allInstructions.length ≠ 1 then do
    let instruction ← treatment.get 0
    pure (!instruction.isOutput)
  else pure false

def mapOutboundPacket (platform : Platform P T S B D) (packet : OutboundPacket P T B D) :
    Except JavaException (List (PiPacketOperation S)) := do
  let unsupported ← unsupportedGuard packet.treatment
  if unsupported then
    throw (.piInterpreter
      ("Treatment not supported: " ++ platform.treatmentName packet.treatment))
  else do
    let instruction ← packet.treatment.get 0
    let port ← instruction.outputPort
    if platform.isLogical port = false then do
      let op ← createPiPacketOp platform packet.data (platform.toLong port)
      pure [op]
    else if platform.portEquals port platform.flood then
      (platform.getPorts packet.sendThrough).mapM
        (fun p => createPiPacketOp platform packet.data (platform.toLong p))
    else throw (.piInterpreter (logicalPortMessage platform port))

end Onos
