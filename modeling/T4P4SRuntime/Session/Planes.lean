import T4P4SRuntime.Session.Transcript

namespace Session

open Device P4Config P4v1 Exec

def withStream (server : Server) (stream : Option Nat) : Server :=
  { server with dm := { server.dm with stream := stream } }

def isCall (moment : Moment) : Bool :=
  match moment.event with
  | .rpc _ | .getForwardingPipelineConfig _ _ => true
  | .openStream | .streamMessage _ _ | .closeStream _ | .sendDigest _ _ _ => false

-- The state of a server on which no stream was ever opened.
def withoutStreams (state : State) : State :=
  { server := withStream state.server none, running := [], opened := 0 }

def leavesTrace (moment : Moment) : Bool :=
  match moment.event with
  | .rpc (.read _ _) | .sendDigest _ _ _ => false
  | .rpc (.write request) => digestUpdates request.updates ≠ []
  | .streamMessage _ _ => moment.outcome ≠ .ignored
  | .rpc (.setForwardingPipelineConfig _ _) | .getForwardingPipelineConfig _ _ | .openStream
  | .closeStream _ => true

variable {deviceId : UInt64} {history : List Moment} {state state' : State} {moment : Moment}
  {log : List Output} {stream : Option Nat} {server server' : Server} {effects : List Effect}
  {reply : Reply}

theorem writeOne_stream (dm : DeviceMgr) (update : Update) (status : Status) :
    writeOne { dm with stream := stream } update status =
      (fun result => ({ result.1 with stream := stream }, result.2)) <$>
        writeOne dm update status := by
  rw [writeOne, writeOne]
  cases update.entity with
  | tableEntry entry =>
      have hsame : tableWrite { dm with stream := stream } update.type entry =
          tableWrite dm update.type entry := rfl
      simp only [hsame, map_bind, map_pure]
  | counterEntry | directCounterEntry | digestEntry | other => rfl

theorem writeLoop_stream (dm : DeviceMgr) (updates : List Update) (status : Status)
    (reporter : P4ErrorReporter) :
    writeLoop { dm with stream := stream } updates status reporter =
      (fun result => ({ result.1 with stream := stream }, result.2)) <$>
        writeLoop dm updates status reporter := by
  induction updates generalizing dm status reporter with
  | nil => rfl
  | cons update updates ih =>
      rw [writeLoop, writeOne_stream, writeLoop, map_bind, bind_map_left]
      exact congrArg _ (funext fun result => ih result.1 result.2 (reporter.pushBack result.2))

theorem readLoop_stream (getCounterByName : CounterReader) (dm : DeviceMgr)
    (entities : List Entity) (response : ReadResponse) :
    readLoop getCounterByName { dm with stream := stream } entities response =
      readLoop getCounterByName dm entities response := by
  induction entities generalizing response with
  | nil => rfl
  | cons entity entities ih =>
      have hone : devMgrReadOne getCounterByName { dm with stream := stream } entity response =
          devMgrReadOne getCounterByName dm entity response := rfl
      rw [readLoop, hone, readLoop]
      refine congrArg _ (funext fun result => ?_)
      obtain ⟨response', status⟩ := result
      simp only [ih]

theorem serve_stream {rpc : Rpc} (h : serve server rpc = ⟨effects, .ok (server', reply)⟩) :
    serve (withStream server stream) rpc = ⟨effects, .ok (withStream server' stream, reply)⟩ := by
  have hmap : serve (withStream server stream) rpc =
      (fun result => (withStream result.1 stream, result.2)) <$> serve server rpc := by
    cases rpc with
    | write request =>
        simp only [serve, serviceWrite, devMgrWrite, withStream, writeLoop_stream]
        split_ifs <;> simp
    | read request getCounterByName =>
        simp only [serve, serviceRead, devMgrRead, withStream, readLoop_stream]
        split_ifs <;> simp
    | setForwardingPipelineConfig request disk =>
        simp only [serve, serviceSetForwardingPipelineConfig, devMgrSetPipelineConfig, withStream]
        split_ifs <;> simp [configured]
  rw [hmap, h, map_eq_pure_bind, mk_bind, pure_def, List.append_nil]

theorem serviceGet_stream (request : GetForwardingPipelineConfigRequest) (disk : ReadDisk) :
    serviceGetForwardingPipelineConfig disk (withStream server stream) request =
      (withStream (serviceGetForwardingPipelineConfig disk server request).1 stream,
        (serviceGetForwardingPipelineConfig disk server request).2) := by
  rw [serviceGetForwardingPipelineConfig, serviceGetForwardingPipelineConfig]
  have hp : (withStream server stream).dm.hasP4info = server.dm.hasP4info := rfl
  rw [hp]
  split_ifs
  · rfl
  · cases request.responseType <;> rfl

theorem call_without_streams
    (hs : step state moment.event = ⟨log, .ok (state', moment.outcome)⟩)
    (hcall : isCall moment = true) :
    step (withoutStreams state) moment.event =
      ⟨log, .ok (withoutStreams state', moment.outcome)⟩ := by
  obtain ⟨event, outcome⟩ := moment
  cases event with
  | rpc rpc =>
      obtain ⟨effects, server, reply, hserve, rfl, rfl, rfl⟩ := step_rpc_ok hs
      exact step_rpc_of_serve (serve_stream hserve)
  | getForwardingPipelineConfig request disk =>
      rw [step_get_eq] at hs ⊢
      obtain ⟨rfl, hout⟩ := Exec.mk.inj hs
      obtain ⟨rfl, rfl⟩ := Prod.mk.inj (Except.ok.inj hout)
      simp only [withoutStreams, serviceGet_stream]
  | openStream | streamMessage | closeStream | sendDigest => cases hcall

theorem stream_event_without_streams
    (hs : step state moment.event = ⟨log, .ok (state', moment.outcome)⟩)
    (hcall : isCall moment = false) : withoutStreams state' = withoutStreams state := by
  obtain ⟨event, outcome⟩ := moment
  cases event with
  | rpc | getForwardingPipelineConfig => cases hcall
  | streamMessage stream request => cases step_message_ok hs <;> rfl
  | openStream | closeStream =>
      obtain ⟨rfl, -⟩ := Prod.mk.inj (Except.ok.inj (Exec.mk.inj hs).2)
      rfl
  | sendDigest digest digestId timestamp =>
      obtain ⟨rfl, -⟩ := step_digest_ok hs
      rfl

theorem calls_independent_of_streams (h : Happens deviceId history state) :
    Happens deviceId (history.filter isCall) (withoutStreams state) := by
  obtain ⟨alone, hrun, rfl⟩ : ∃ alone, Happens deviceId (history.filter isCall) alone ∧
      alone = withoutStreams state := by
    apply Replay.Runs.project (R := fun state alone => alone = withoutStreams state) isCall rfl
      _ _ h
    · rintro s m s' _ rfl ⟨log, hs⟩ hcall
      exact ⟨withoutStreams s', ⟨log, call_without_streams hs hcall⟩, rfl⟩
    · rintro s m s' _ rfl ⟨log, hs⟩ hcall
      exact (stream_event_without_streams hs hcall).symm
  exact hrun

theorem write_without_trace {request : WriteRequest}
    (hs : serve server (.write request) = ⟨effects, .ok (server', reply)⟩)
    (hnone : digestUpdates request.updates = []) : server' = server := by
  cases hp : server.dm.hasP4info with
  | false =>
      rw [serve_write_unconfigured request hp] at hs
      exact (Prod.mk.inj (Except.ok.inj (Exec.mk.inj hs).2)).1.symm
  | true =>
      rw [(serve_write_ok hp hs).2]
      split_ifs
      · rw [foldl_afterUpdate, hnone]
        rfl
      · rfl

theorem step_without_trace
    (hs : step state moment.event = ⟨log, .ok (state', moment.outcome)⟩)
    (hnone : leavesTrace moment = false) : state' = state := by
  obtain ⟨event, outcome⟩ := moment
  cases event with
  | rpc rpc =>
      obtain ⟨effects, server, reply, hserve, -, -, rfl⟩ := step_rpc_ok hs
      cases rpc with
      | write request =>
          rw [write_without_trace hserve (by simpa [leavesTrace] using hnone)]
      | read request getCounterByName => rw [(serve_read_ok hserve).1]
      | setForwardingPipelineConfig => cases hnone
  | streamMessage stream request =>
      cases step_message_ok hs with
      | refused | arbitrated => simp [leavesTrace] at hnone
      | ignored => rfl
  | getForwardingPipelineConfig | openStream | closeStream => cases hnone
  | sendDigest digest digestId timestamp => exact (step_digest_ok hs).1

theorem traceless_moments_removable (h : Happens deviceId history state) :
    Happens deviceId (history.filter leavesTrace) state :=
  h.skip leavesTrace fun _ _ _ ⟨_, hs⟩ hnone => step_without_trace hs hnone

namespace Planes

theorem calls_connected :
    Happens 1 (L2fwd.connected.filter isCall) (withoutStreams L2fwd.connectedState) :=
  calls_independent_of_streams L2fwd.happens_connected

theorem trace_connected : Happens 1 (L2fwd.connected.filter leavesTrace) L2fwd.connectedState :=
  traceless_moments_removable L2fwd.happens_connected

end Planes

end Session
