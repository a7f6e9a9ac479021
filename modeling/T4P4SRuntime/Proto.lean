import Mathlib.Tactic

abbrev Bytes := List UInt8

namespace P4Config

structure Preamble where
  id : UInt32
  name : String
  deriving DecidableEq, Repr

-- `MatchField` of a table and `Param` of an action: the server reads the same three parts of both.
structure FieldDecl where
  id : UInt32
  name : String
  bitwidth : Int32
  deriving DecidableEq, Repr

structure Table where
  preamble : Preamble
  matchFields : List FieldDecl
  actionRefs : List UInt32
  deriving DecidableEq, Repr

structure Action where
  preamble : Preamble
  params : List FieldDecl
  deriving DecidableEq, Repr

structure Counter where
  preamble : Preamble
  deriving DecidableEq, Repr

structure Digest where
  preamble : Preamble
  deriving DecidableEq, Repr

structure P4Info where
  tables : List Table
  actions : List Action
  counters : List Counter
  digests : List Digest
  deriving DecidableEq, Repr

def P4Info.empty : P4Info := { tables := [], actions := [], counters := [], digests := [] }

end P4Config

namespace P4v1

inductive FieldMatchType where
  | exact (value : Bytes)
  | lpm (value : Bytes) (prefixLen : Int32)
  | ternary (value mask : Bytes)
  | range (low high : Bytes)
  | other
  | notSet
  deriving DecidableEq, Repr

structure FieldMatch where
  fieldId : UInt32
  fieldMatchType : FieldMatchType
  deriving DecidableEq, Repr

structure Param where
  paramId : UInt32
  value : Bytes
  deriving DecidableEq, Repr

structure Action where
  actionId : UInt32
  params : List Param
  deriving DecidableEq, Repr

inductive TableAction where
  | action (action : Action)
  | actionProfileMemberId (id : UInt32)
  | actionProfileGroupId (id : UInt32)
  | actionProfileActionSet
  | notSet
  deriving DecidableEq, Repr

structure TableEntry where
  tableId : UInt32
  matchList : List FieldMatch
  action : TableAction
  isDefaultAction : Bool
  deriving DecidableEq, Repr

structure CounterData where
  byteCount : Int64
  packetCount : Int64
  deriving DecidableEq, Repr

structure CounterEntry where
  counterId : UInt32
  index : Option Int64
  data : Option CounterData
  deriving DecidableEq, Repr

structure DigestEntry where
  digestId : UInt32
  deriving DecidableEq, Repr

inductive Entity where
  | tableEntry (entry : TableEntry)
  | counterEntry (entry : CounterEntry)
  | directCounterEntry
  | digestEntry (entry : DigestEntry)
  | other
  deriving DecidableEq, Repr

inductive UpdateType where
  | unspecified
  | insert
  | modify
  | delete
  | unrecognized (value : Int32)
  deriving DecidableEq, Repr

structure Update where
  type : UpdateType
  entity : Entity
  deriving DecidableEq, Repr

inductive Atomicity where
  | continueOnError
  | rollbackOnError
  | dataplaneAtomic
  | unrecognized (value : Int32)
  deriving DecidableEq, Repr

structure WriteRequest where
  deviceId : UInt64
  updates : List Update
  atomicity : Atomicity
  deriving DecidableEq, Repr

structure ReadRequest where
  deviceId : UInt64
  entities : List Entity
  deriving DecidableEq, Repr

structure ReadResponse where
  entities : List Entity
  deriving DecidableEq, Repr

inductive ConfigAction where
  | unspecified
  | verify
  | verifyAndSave
  | verifyAndCommit
  | commit
  | reconcileAndCommit
  | unrecognized (value : Int32)
  deriving DecidableEq, Repr

structure ForwardingPipelineConfig where
  p4info : P4Config.P4Info
  p4DeviceConfig : Bytes
  cookie : Option UInt64
  deriving DecidableEq, Repr

structure SetForwardingPipelineConfigRequest where
  deviceId : UInt64
  action : ConfigAction
  config : ForwardingPipelineConfig
  deriving DecidableEq, Repr

inductive ResponseType where
  | all
  | cookieOnly
  | p4infoAndCookie
  | deviceConfigAndCookie
  | unrecognized (value : Int32)
  deriving DecidableEq, Repr

structure GetForwardingPipelineConfigRequest where
  deviceId : UInt64
  responseType : ResponseType
  deriving DecidableEq, Repr

-- The `ForwardingPipelineConfig` of a response, which need not have all its parts.
structure ReturnedConfig where
  p4info : Option P4Config.P4Info
  p4DeviceConfig : Bytes
  cookie : Option UInt64
  deriving DecidableEq, Repr

def ReturnedConfig.empty : ReturnedConfig := { p4info := none, p4DeviceConfig := [], cookie := none }

structure Uint128 where
  high : UInt64
  low : UInt64
  deriving DecidableEq, Repr

inductive StreamMessageRequest where
  | arbitration (deviceId : UInt64) (electionId : Uint128)
  | packet
  | digestAck
  | other
  deriving DecidableEq, Repr

structure MasterArbitrationUpdate where
  deviceId : UInt64
  electionId : Uint128
  code : Int32
  message : String
  deriving DecidableEq, Repr

structure DigestList where
  digestId : UInt32
  listId : UInt64
  data : List (List Bytes)
  timestamp : Int64
  deriving DecidableEq, Repr

inductive StreamMessageResponse where
  | arbitration (update : MasterArbitrationUpdate)
  | digest (list : DigestList)
  deriving DecidableEq, Repr

end P4v1
