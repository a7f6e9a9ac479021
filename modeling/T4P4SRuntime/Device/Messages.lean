import T4P4SRuntime.CString
import T4P4SRuntime.Proto

namespace Messages

inductive FieldMatchRecord where
  | exact (name : CString) (length : UInt64) (bitmap : Bytes)
  | lpm (name : CString) (prefixLength : Int32) (bitmap : Bytes)
  | ternary (name : CString) (length : UInt64) (bitmap mask : Bytes)
  deriving DecidableEq

structure ActionParameter where
  name : CString
  length : UInt64
  bitmap : Bytes
  deriving DecidableEq

inductive CtrlMsgType where
  | addTableEntry
  | setDefaultAction
  | ctrlInitialized
  deriving DecidableEq

structure CtrlMsg where
  type : CtrlMsgType
  tableName : CString
  fieldMatches : List FieldMatchRecord
  actionName : CString
  actionParams : List ActionParameter
  deriving DecidableEq

end Messages
