import T4P4SRuntime.Device.BatchWrite

namespace Device

open IdMap P4Config P4v1 Exec

variable {server server' : Server} {log : List Effect} {reply : Reply}

theorem storeArg_log (map : Map) (slot : Nat) (decl : FieldDecl) :
    (storeArg map slot decl).log = [] := by
  rw [storeArg]
  apply bind_log_nil (by cases map.data slot <;> rfl)
  intro elem
  split
  · split <;> rfl
  · rfl

theorem storeArgs_log (map : Map) (elem : Option Nat) (decls : List FieldDecl) :
    (storeArgs map elem decls).log = [] := by
  induction decls generalizing map with
  | nil => rfl
  | cons decl decls ih =>
      rw [storeArgs]
      exact bind_log_nil (by cases elem <;> rfl) fun slot =>
        bind_log_nil (storeArg_log map slot decl) fun map => ih map

theorem tableLoop_log (map : Map) (tables : List Table) : (tableLoop map tables).log = [] := by
  induction tables generalizing map with
  | nil => rfl
  | cons table tables ih =>
      rw [tableLoop]
      split
      · rfl
      · exact bind_log_nil (storeArgs_log _ _ _) fun map => ih map

theorem actionLoop_log (map : Map) (actions : List P4Config.Action) :
    (actionLoop map actions).log = [] := by
  induction actions generalizing map with
  | nil => rfl
  | cons action actions ih => exact bind_log_nil (storeArgs_log _ _ _) fun map => ih map

theorem loadP4info_log (map : Map) (p4info : P4Info) : (loadP4info map p4info).log = [] :=
  bind_log_nil (tableLoop_log _ _) fun _ => bind_log_nil (actionLoop_log _ _) fun _ => rfl

theorem loadP4info_of_ok {map map' : Map} {p4info : P4Info} {log : List Effect}
    (h : loadP4info map p4info = ⟨log, .ok map'⟩) : loadP4info map p4info = pure map' := by
  have hlog := loadP4info_log map p4info
  rw [h] at hlog ⊢
  rw [pure_def, show log = [] from hlog]

def withDeviceId (server : Server) (deviceId : UInt64) : Server :=
  { server with dm := { server.dm with deviceId := deviceId } }

inductive PushedTo (disk : Disk) (server : Server) (action : ConfigAction)
    (config : ForwardingPipelineConfig) : Server → Prop where
  | applied {map : Map} : ConfigAction.applied action = true →
      loadP4info server.dm.idMap config.p4info = pure map →
      PushedTo disk server action config (configured disk server config map)
  | ignored : ConfigAction.applied action = false → PushedTo disk server action config server

theorem pushedTo_of_ok {disk : Disk} {action : ConfigAction} {config : ForwardingPipelineConfig}
    {status : Status}
    (h : devMgrSetPipelineConfig disk server action config = ⟨log, .ok (server', status)⟩) :
    log = [] ∧ status = Status.make .ok "ok" ∧ PushedTo disk server action config server' := by
  rw [devMgrSetPipelineConfig] at h
  split at h
  · rename_i ha
    obtain ⟨l₁, map, l₂, hload, hret, rfl⟩ := bind_eq_ok_iff.mp h
    simp only [pure_eq_ok_iff, Prod.mk.injEq] at hret
    obtain ⟨rfl, rfl, rfl⟩ := hret
    have hlog := loadP4info_log server.dm.idMap config.p4info
    rw [hload] at hlog
    exact ⟨by simpa using hlog, rfl, .applied ha (loadP4info_of_ok hload)⟩
  · rename_i ha
    simp only [pure_eq_ok_iff, Prod.mk.injEq] at h
    obtain ⟨rfl, rfl, rfl⟩ := h
    exact ⟨rfl, rfl, .ignored (by simpa using ha)⟩

theorem serve_set_ok {request : SetForwardingPipelineConfigRequest} {disk : Disk}
    (h : serve server (.setForwardingPipelineConfig request disk) = ⟨log, .ok (server', reply)⟩) :
    log = [] ∧ reply = .setForwardingPipelineConfig (Status.make .ok "ok") ∧
      PushedTo disk (withDeviceId server request.deviceId) request.action request.config server' := by
  rw [serve, serviceSetForwardingPipelineConfig] at h
  obtain ⟨l₁, ⟨server₁, status⟩, l₂, hset, hret, rfl⟩ := bind_eq_ok_iff.mp h
  simp only [pure_eq_ok_iff, Prod.mk.injEq] at hret
  obtain ⟨rfl, rfl, rfl⟩ := hret
  obtain ⟨rfl, rfl, hpushed⟩ := pushedTo_of_ok hset
  exact ⟨rfl, rfl, hpushed⟩

theorem serve_write_unconfigured (request : WriteRequest) (hp : server.dm.hasP4info = false) :
    serve server (.write request) = ⟨[], .ok (server, .write noPipelineConfigStatus)⟩ := by
  rw [serve, serviceWrite, if_pos hp]
  rfl

theorem serve_read_unconfigured (request : ReadRequest) (getCounterByName : CounterReader)
    (hp : server.dm.hasP4info = false) :
    serve server (.read request getCounterByName) =
      ⟨[], .ok (server, .read none noPipelineConfigStatus)⟩ := by
  rw [serve, serviceRead, if_pos hp]
  rfl

theorem serve_write_ok {request : WriteRequest} (hp : server.dm.hasP4info = true)
    (h : serve server (.write request) = ⟨log, .ok (server', reply)⟩) :
    reply.status.errorCode ≠ .failedPrecondition ∧
      server' = if request.atomicity = .continueOnError then
        { server with dm := request.updates.foldl afterUpdate server.dm } else server := by
  rcases eq_or_ne request.atomicity .continueOnError with ha | ha
  · rw [serveWrite_eq hp ha, map_eq_pure_bind] at h
    obtain ⟨_, dm', _, hall, hret, -⟩ := bind_eq_ok_iff.mp h
    simp only [pure_eq_ok_iff, Prod.mk.injEq] at hret
    obtain ⟨-, rfl, rfl⟩ := hret
    rw [if_pos ha, applyAll_ok hall]
    exact ⟨by decide, rfl⟩
  · rw [serve, serviceWrite, if_neg (by simp [hp]), devMgrWrite, if_neg ha] at h
    simp only [pure_def, mk_bind, mk.injEq, Except.ok.injEq, Prod.mk.injEq] at h
    obtain ⟨-, rfl, rfl⟩ := h
    rw [if_neg ha]
    exact ⟨by decide, rfl⟩

theorem serve_read_ok {request : ReadRequest} {getCounterByName : CounterReader}
    (h : serve server (.read request getCounterByName) = ⟨log, .ok (server', reply)⟩) :
    server' = server ∧ (server.dm.hasP4info = true → reply.status = Status.success) := by
  rw [serve, serviceRead] at h
  split at h
  · rename_i hp
    simp only [pure_eq_ok_iff, Prod.mk.injEq] at h
    exact ⟨h.2.1.symm, fun ht => by simp [hp] at ht⟩
  · obtain ⟨_, ⟨response, status⟩, _, hread, hret, -⟩ := bind_eq_ok_iff.mp h
    obtain ⟨_, _, _, -, hok, -⟩ := bind_eq_ok_iff.mp hread
    simp only [pure_eq_ok_iff, Prod.mk.injEq] at hret hok
    obtain ⟨-, -, rfl⟩ := hok
    exact ⟨hret.2.1.symm, fun _ => by rw [← hret.2.2, Reply.status]⟩

theorem serve_set_log (request : SetForwardingPipelineConfigRequest) (disk : Disk) :
    (serve server (.setForwardingPipelineConfig request disk)).log = [] := by
  refine bind_log_nil ?_ fun _ => rfl
  rw [devMgrSetPipelineConfig]
  split
  · exact bind_log_nil (loadP4info_log _ _) fun _ => rfl
  · rfl

-- An invariant of the device manager: writes keep it, a configuration push keeps or establishes it.
theorem reachable_induction {deviceId : UInt64} {last : Option P4Info} {P : Server → Prop}
    (hinit : P (Server.init deviceId))
    (hwrite : ∀ server server', P server → WriteFrame server server' → P server')
    (hpush : ∀ server disk id action config server', P server →
      PushedTo disk (withDeviceId server id) action config server' → P server')
    (h : Reachable deviceId server last) : P server := by
  induction h with
  | init => exact hinit
  | @step server server' last rpc log reply _ hs ih =>
      cases rpc with
      | write request => exact hwrite _ _ ih (serveWrite_frame hs)
      | read request getCounterByName =>
          rw [(serve_read_ok hs).1]
          exact ih
      | setForwardingPipelineConfig request disk => exact hpush _ _ _ _ _ _ ih (serve_set_ok hs).2.2

end Device
