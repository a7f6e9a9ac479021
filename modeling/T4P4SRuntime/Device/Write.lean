import T4P4SRuntime.Device.TableInsert

namespace Device

open P4v1 Exec

inductive P4Ids where
  | table
  | counter
  deriving DecidableEq, Repr

def checkP4Id (_ : UInt32) (_ : P4Ids) : Bool := true

def tableModify : Status := Status.make .unimplemented "table_modify is not implemented"

def tableDelete : Status := Status.make .unimplemented "table_delete is not implemented"

def tableWrite (dm : DeviceMgr) (update : UpdateType) (entry : TableEntry) : Run Status :=
  if checkP4Id entry.tableId .table then
    match update with
    | .unspecified => pure (Status.make .invalidArgument "Invalid argument")
    | .insert => tableInsert dm entry
    | .modify => pure tableModify
    | .delete => pure tableDelete
    | .unrecognized _ => pure (Status.make .unknown "Unknown update message")
  else pure (Status.make .unknown "P4ID is not unknown")

def counterWrite (_ : UpdateType) (entry : CounterEntry) : Status :=
  if checkP4Id entry.counterId .counter then
    match entry.index with
    | none => Status.make .unimplemented "Wildcard write is not supported"
    | some index =>
        if index < 0 then
          Status.make .unimplemented "A negative number is not a valid index value."
        else Status.make .unknown "Unknown update message"
  else Status.make .unknown "P4ID is not unknown"

structure P4ErrorReporter where
  errors : List (Nat × Status)
  index : Nat
  deriving DecidableEq, Repr

def P4ErrorReporter.empty : P4ErrorReporter := { errors := [], index := 0 }

-- The body of `push_back` is commented out in the source.
def P4ErrorReporter.pushBack (reporter : P4ErrorReporter) (_ : Status) : P4ErrorReporter := reporter

def P4ErrorReporter.getStatus (reporter : P4ErrorReporter) : Status :=
  if reporter.errors.isEmpty then Status.success else Status.make .unknown "Unknown"

def activateDigest : DigestMap → UInt64 → DigestMap
  | [], _ => []
  | d :: ds, id => if d.id = id then { d with active := true } :: ds else d :: activateDigest ds id

def writeOne (dm : DeviceMgr) (update : Update) (status : Status) : Run (DeviceMgr × Status) :=
  match update.entity with
  | .tableEntry entry => do
      let status ← tableWrite dm update.type entry
      pure (dm, status)
  | .counterEntry entry => pure (dm, counterWrite update.type entry)
  | .directCounterEntry => pure (dm, status)
  | .digestEntry entry =>
      pure ({ dm with digestMap := activateDigest dm.digestMap entry.digestId.toUInt64 }, status)
  | .other => pure (dm, Status.make .unknown "Entity case is unknown")

def writeLoop (dm : DeviceMgr) :
    List Update → Status → P4ErrorReporter → Run (DeviceMgr × P4ErrorReporter)
  | [], _, reporter => pure (dm, reporter)
  | update :: updates, status, reporter => do
      let (dm, status) ← writeOne dm update status
      writeLoop dm updates status (reporter.pushBack status)

def devMgrWrite (dm : DeviceMgr) (request : WriteRequest) : Run (DeviceMgr × Status) :=
  if request.atomicity = .continueOnError then do
    let (dm, reporter) ← writeLoop dm request.updates Status.success P4ErrorReporter.empty
    pure (dm, reporter.getStatus)
  else pure (dm, Status.make .unimplemented "Not implemented")

end Device
