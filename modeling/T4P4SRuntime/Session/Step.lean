import T4P4SRuntime.Device.Digest
import T4P4SRuntime.Device.GetConfig
import T4P4SRuntime.Library.Replay
import T4P4SRuntime.Server

namespace Session

open Device P4v1 Exec

inductive Output where
  | device (effect : Effect)
  | stream (write : StreamWrite)
  deriving DecidableEq

inductive SessionFault where
  | device (fault : Fault)
  | stream (fault : StreamFault)
  deriving DecidableEq

abbrev Serve (A : Type) := Exec Output SessionFault A

def ofDevice {A : Type} (x : Run A) : Serve A := hoist Output.device SessionFault.device x

def ofStream {A : Type} (x : Exec StreamWrite StreamFault A) : Serve A :=
  hoist Output.stream SessionFault.stream x

-- `running` are the `StreamChannel` calls whose handlers have not returned; a call is named by the
-- number of calls opened before it.
structure State where
  server : Server
  running : List Nat
  opened : Nat

def State.init (deviceId : UInt64) : State :=
  { server := Server.init deviceId, running := [], opened := 0 }

inductive Event where
  | rpc (rpc : Rpc)
  | getForwardingPipelineConfig (request : GetForwardingPipelineConfigRequest) (disk : ReadDisk)
  | openStream
  | streamMessage (stream : Nat) (request : StreamMessageRequest)
  | closeStream (stream : Nat)
  | sendDigest (digest : DigestRecord) (digestId : UInt64) (timestamp : Int64)

inductive Outcome where
  | reply (reply : Reply)
  | config (config : Option ReturnedConfig) (status : Status)
  | opened (stream : Nat)
  | arbitrated
  | ignored
  | ended (status : Status)
  | sent
  deriving DecidableEq

def serviceGetForwardingPipelineConfig (disk : ReadDisk) (server : Server)
    (request : GetForwardingPipelineConfigRequest) : Server × Outcome :=
  if server.dm.hasP4info = false then (server, .config none noPipelineConfigStatus)
  else
    let (server, config, status) :=
      devMgrGetPipelineConfig disk server request.responseType ReturnedConfig.empty
    (server, .config (some config) status)

def notifyOne (stream : Nat) (deviceId : UInt64) (electionId : Uint128) : StreamWrite :=
  { stream := stream
    response := .arbitration
      { deviceId := deviceId, electionId := electionId, code := 0, message := "Is master" } }

def State.endStream (state : State) (stream : Nat) : State :=
  { state with running := state.running.filter (· ≠ stream) }

def State.registerStream (state : State) (stream : Nat) : State :=
  { state with
    server := { state.server with dm := { state.server.dm with stream := some stream } } }

def handleMessage (state : State) (stream : Nat) : StreamMessageRequest → Serve (State × Outcome)
  | .arbitration deviceId electionId =>
      if state.server.dm.deviceId ≠ deviceId then
        pure (state.endStream stream,
          .ended (Status.make .failedPrecondition "Invalid device id"))
      else do
        emit (.stream (notifyOne stream deviceId electionId))
        pure (state.registerStream stream, .arbitrated)
  | .packet | .digestAck | .other => pure (state, .ignored)

def step (state : State) : Event → Serve (State × Outcome)
  | .rpc rpc => do
      let (server, reply) ← ofDevice (serve state.server rpc)
      pure ({ state with server := server }, .reply reply)
  | .getForwardingPipelineConfig request disk =>
      let (server, outcome) := serviceGetForwardingPipelineConfig disk state.server request
      pure ({ state with server := server }, outcome)
  | .openStream =>
      pure ({ state with running := state.opened :: state.running, opened := state.opened + 1 },
        .opened state.opened)
  -- No handler reads from a stream whose call has returned.
  | .streamMessage stream request =>
      if stream ∈ state.running then handleMessage state stream request else pure (state, .ignored)
  | .closeStream stream => pure (state.endStream stream, .ended (Status.make .ok ""))
  | .sendDigest digest digestId timestamp => do
      ofStream (devMgrSendDigest state.server.dm digest digestId timestamp)
      pure (state, .sent)

structure Moment where
  event : Event
  outcome : Outcome

def Happens (deviceId : UInt64) : List Moment → State → Prop :=
  Replay.Runs (State.init deviceId)
    (fun state moment state' => ∃ log, step state moment.event = ⟨log, .ok (state', moment.outcome)⟩)

end Session
