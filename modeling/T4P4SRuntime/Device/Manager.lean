import T4P4SRuntime.Device.Messages
import T4P4SRuntime.IdMap.Map
import T4P4SRuntime.Library.Exec

namespace Device

open Messages

inductive StatusCode where
  | ok
  | unknown
  | invalidArgument
  | failedPrecondition
  | permissionDenied
  | unimplemented
  deriving DecidableEq, Repr

structure Status where
  errorCode : StatusCode
  errorMessage : String
  errorDetails : String
  deriving DecidableEq, Repr

def Status.make (code : StatusCode) (message : String) : Status :=
  { errorCode := code, errorMessage := message, errorDetails := "" }

def Status.success : Status := Status.make .ok ""

def Status.ok (s : Status) : Bool := s.errorCode = .ok

@[simp] theorem Status.success_ok : Status.success.ok = true := rfl

inductive Fault where
  | nullElement
  | nullArgument
  | argsOverflow
  | nameOverflow
  | counterOutOfBounds
  deriving DecidableEq, Repr

inductive Effect where
  | cb (msg : CtrlMsg)
  | getCounterByName (name : CString) (isBytes : Bool)
  deriving DecidableEq

abbrev Run (A : Type) := Exec Effect Fault A

structure DigestState where
  name : String
  id : UInt64
  active : Bool
  deriving DecidableEq

-- `std::map` keeps its entries in the order of their keys.
abbrev DigestMap := List DigestState

def DigestMap.set : DigestMap → DigestState → DigestMap
  | [], d => [d]
  | e :: es, d =>
      if d.name = e.name then d :: es
      else if d.name < e.name then d :: e :: es
      else e :: DigestMap.set es d

structure DeviceMgr where
  deviceId : UInt64
  digestMap : DigestMap
  idMap : IdMap.Map
  hasP4info : Bool
  p4info : P4Config.P4Info
  stream : Option Nat

end Device
