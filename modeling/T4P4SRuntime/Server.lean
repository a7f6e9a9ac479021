import T4P4SRuntime.Device.Read

namespace Device

open P4Config P4v1 Exec

def noPipelineConfigStatus : Status :=
  Status.make .failedPrecondition "No forwarding pipeline config set for this device"

-- A call together with what its environment answers while it is served.
inductive Rpc where
  | write (request : WriteRequest)
  | read (request : ReadRequest) (getCounterByName : CounterReader)
  | setForwardingPipelineConfig (request : SetForwardingPipelineConfigRequest) (disk : Disk)

inductive Reply where
  | write (status : Status)
  | read (response : Option ReadResponse) (status : Status)
  | setForwardingPipelineConfig (status : Status)
  deriving DecidableEq

def Reply.status : Reply → Status
  | .write status | .read _ status | .setForwardingPipelineConfig status => status

def serviceWrite (server : Server) (request : WriteRequest) : Run (Server × Reply) :=
  if server.dm.hasP4info = false then pure (server, .write noPipelineConfigStatus)
  else do
    let (dm, status) ← devMgrWrite server.dm request
    pure ({ server with dm := dm }, .write status)

def serviceRead (server : Server) (request : ReadRequest) (getCounterByName : CounterReader) :
    Run (Server × Reply) :=
  if server.dm.hasP4info = false then pure (server, .read none noPipelineConfigStatus)
  else do
    let (response, status) ← devMgrRead getCounterByName server.dm request
    pure (server, .read (some response) status)

def serviceSetForwardingPipelineConfig (server : Server)
    (request : SetForwardingPipelineConfigRequest) (disk : Disk) : Run (Server × Reply) := do
  let server := { server with dm := { server.dm with deviceId := request.deviceId } }
  let (server, status) ← devMgrSetPipelineConfig disk server request.action request.config
  pure (server, .setForwardingPipelineConfig status)

def serve (server : Server) : Rpc → Run (Server × Reply)
  | .write request => serviceWrite server request
  | .read request getCounterByName => serviceRead server request getCounterByName
  | .setForwardingPipelineConfig request disk =>
      serviceSetForwardingPipelineConfig server request disk

def ConfigAction.accepted : ConfigAction → Bool
  | .verifyAndSave | .verifyAndCommit | .reconcileAndCommit => true
  | .unspecified | .verify | .commit | .unrecognized _ => false

def acceptedP4info (last : Option P4Info) : Rpc → Option P4Info
  | .setForwardingPipelineConfig request _ =>
      if ConfigAction.accepted request.action then some request.config.p4info else last
  | .write _ | .read _ _ => last

inductive Reachable (deviceId : UInt64) : Server → Option P4Info → Prop where
  | init : Reachable deviceId (Server.init deviceId) none
  | step {server server' : Server} {last : Option P4Info} {rpc : Rpc} {log : List Effect}
      {reply : Reply} : Reachable deviceId server last →
      serve server rpc = ⟨log, .ok (server', reply)⟩ →
      Reachable deviceId server' (acceptedP4info last rpc)

end Device
