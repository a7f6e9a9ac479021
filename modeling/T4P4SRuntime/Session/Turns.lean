import T4P4SRuntime.Device.ServerSteps
import T4P4SRuntime.Session.Step

namespace Session

open Device P4v1 Exec

variable {state state' : State} {log : List Output} {outcome : Outcome}

theorem step_rpc_ok {rpc : Rpc} (h : step state (.rpc rpc) = ⟨log, .ok (state', outcome)⟩) :
    ∃ effects server reply, serve state.server rpc = ⟨effects, .ok (server, reply)⟩ ∧
      log = effects.map Output.device ∧ outcome = .reply reply ∧
      state' = { state with server := server } := by
  rw [step, ofDevice] at h
  obtain ⟨_, ⟨server, reply⟩, _, hserve, hret, rfl⟩ := bind_eq_ok_iff.mp h
  obtain ⟨effects, he, rfl⟩ := hoist_eq_ok_iff.mp hserve
  simp only [pure_eq_ok_iff, Prod.mk.injEq] at hret
  obtain ⟨rfl, rfl, rfl⟩ := hret
  exact ⟨effects, server, reply, he, List.append_nil _, rfl, rfl⟩

structure SameButFile (server server' : Server) : Prop where
  others : server' = { server with savedDeviceConfig := server'.savedDeviceConfig }
  saved : SavedAs server.savedDeviceConfig server'.savedDeviceConfig

theorem SameButFile.refl (server : Server) : SameButFile server server := ⟨rfl, SavedAs.refl _⟩

theorem readDeviceConfig_frame (disk : ReadDisk) (server : Server) (config : ReturnedConfig) :
    SameButFile server (server.readDeviceConfig disk config).1 :=
  ⟨rfl, readConfig_savedAs disk server.savedDeviceConfig config⟩

theorem devMgrGetPipelineConfig_frame (disk : ReadDisk) (server : Server)
    (responseType : ResponseType) (config : ReturnedConfig) :
    SameButFile server (devMgrGetPipelineConfig disk server responseType config).1 := by
  cases responseType with
  | all | deviceConfigAndCookie => exact readDeviceConfig_frame disk server _
  | cookieOnly | p4infoAndCookie | unrecognized => exact SameButFile.refl server

theorem serviceGet_frame (disk : ReadDisk) (server : Server)
    (request : GetForwardingPipelineConfigRequest) :
    SameButFile server (serviceGetForwardingPipelineConfig disk server request).1 := by
  rw [serviceGetForwardingPipelineConfig]
  split
  · exact SameButFile.refl server
  · exact devMgrGetPipelineConfig_frame disk server request.responseType ReturnedConfig.empty

theorem step_get_eq (request : GetForwardingPipelineConfigRequest) (disk : ReadDisk) :
    step state (.getForwardingPipelineConfig request disk) =
      ⟨[], .ok ({ state with
          server := (serviceGetForwardingPipelineConfig disk state.server request).1 },
        (serviceGetForwardingPipelineConfig disk state.server request).2)⟩ := rfl

inductive Handled (state : State) (stream : Nat) : StreamMessageRequest → List Output → Outcome →
    State → Prop where
  | refused {deviceId : UInt64} {electionId : Uint128} : stream ∈ state.running →
      state.server.dm.deviceId ≠ deviceId →
      Handled state stream (.arbitration deviceId electionId) []
        (.ended (Status.make .failedPrecondition "Invalid device id")) (state.endStream stream)
  | arbitrated {deviceId : UInt64} {electionId : Uint128} : stream ∈ state.running →
      state.server.dm.deviceId = deviceId →
      Handled state stream (.arbitration deviceId electionId)
        [.stream (notifyOne stream deviceId electionId)] .arbitrated (state.registerStream stream)
  | ignored {request : StreamMessageRequest} : Handled state stream request [] .ignored state

theorem step_message_ok {stream : Nat} {request : StreamMessageRequest}
    (h : step state (.streamMessage stream request) = ⟨log, .ok (state', outcome)⟩) :
    Handled state stream request log outcome state' := by
  rw [step] at h
  split at h
  · rename_i hmem
    cases request with
    | arbitration deviceId electionId =>
        rw [handleMessage] at h
        split at h
        · rename_i hid
          simp only [pure_eq_ok_iff, Prod.mk.injEq] at h
          obtain ⟨rfl, rfl, rfl⟩ := h
          exact .refused hmem hid
        · rename_i hid
          simp only [emit, mk_bind, pure_def, mk.injEq, Except.ok.injEq, Prod.mk.injEq] at h
          obtain ⟨rfl, rfl, rfl⟩ := h
          exact .arbitrated hmem (not_not.mp hid)
    | packet | digestAck | other =>
        simp only [handleMessage, pure_eq_ok_iff, Prod.mk.injEq] at h
        obtain ⟨rfl, rfl, rfl⟩ := h
        exact .ignored
  · simp only [pure_eq_ok_iff, Prod.mk.injEq] at h
    obtain ⟨rfl, rfl, rfl⟩ := h
    exact .ignored

theorem step_digest_ok {digest : DigestRecord} {digestId : UInt64} {timestamp : Int64}
    (h : step state (.sendDigest digest digestId timestamp) = ⟨log, .ok (state', outcome)⟩) :
    state' = state ∧ outcome = .sent := by
  rw [step] at h
  obtain ⟨_, _, _, -, hret, -⟩ := bind_eq_ok_iff.mp h
  simp only [pure_eq_ok_iff, Prod.mk.injEq] at hret
  exact ⟨hret.2.1.symm, hret.2.2.symm⟩

theorem step_rpc_of_serve {rpc : Rpc} {effects : List Effect} {server : Server} {reply : Reply}
    (h : serve state.server rpc = ⟨effects, .ok (server, reply)⟩) :
    step state (.rpc rpc) =
      ⟨effects.map Output.device, .ok ({ state with server := server }, .reply reply)⟩ := by
  rw [step, ofDevice, h, hoist_ok, mk_bind]
  simp [pure_def]

end Session
