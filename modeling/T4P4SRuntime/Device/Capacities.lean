import T4P4SRuntime.Device.BoundedInsert
import T4P4SRuntime.Device.PushOutcome

namespace Device

open IdMap P4Config P4v1 Exec

variable {map : Map} {server : Server} {capacity : Capacity}

def AllFit (p4info : P4Info) : Prop := ∀ d ∈ declarations p4info, d.Fits

instance (p4info : P4Info) : Decidable (AllFit p4info) :=
  inferInstanceAs (Decidable (∀ d ∈ declarations p4info, d.Fits))

structure PushKept (disk : Disk) (server : Server) (action : ConfigAction)
    (config : ForwardingPipelineConfig) : Prop where
  args : (devMgrSetPipelineConfig disk server action config).out ≠ .error .argsOverflow
  names : (devMgrSetPipelineConfig disk server action config).out ≠ .error .nameOverflow
  refused : ¬AllFit config.p4info → ∃ log server' status,
    devMgrSetPipelineConfig disk server action config = ⟨log, .ok (server', status)⟩ ∧
      status.ok = false

-- The calls of `table_insert` a batch makes before one of its updates faults.
def insertCalls (dm : DeviceMgr) : List Update → List (DeviceMgr × TableEntry)
  | [] => []
  | update :: updates =>
      let rest :=
        match (applyUpdate dm update).out with
        | .ok dm' => insertCalls dm' updates
        | .error _ => []
      match update.type, update.entity with
      | .insert, .tableEntry entry => (dm, entry) :: rest
      | _, _ => rest

def StepKept (capacity : Capacity) (server : Server) : Rpc → Prop
  | .write request =>
      server.dm.hasP4info = true → request.atomicity = .continueOnError →
        ∀ call ∈ insertCalls server.dm request.updates, InsertKept capacity call.1 call.2
  | .read _ _ => True
  | .setForwardingPipelineConfig request disk =>
      ConfigAction.applied request.action = true →
        PushKept disk (withDeviceId server request.deviceId) request.action request.config

def StepWithin (capacity : Capacity) (server : Server) : Rpc → Prop
  | .write request =>
      server.dm.hasP4info = true → request.atomicity = .continueOnError →
        ∀ call ∈ insertCalls server.dm request.updates,
          EntryFits capacity call.2 ∨ RefusedFirst capacity call.1 call.2
  | .read _ _ => True
  | .setForwardingPipelineConfig request _ =>
      ConfigAction.applied request.action = true → AllFit request.config.p4info

def IdMapWithin (map : Map) : Prop :=
  ∀ slot elem, map.data slot = some elem →
    elem.args.length ≤ maxArgs ∧ ∀ arg ∈ elem.args, strlen arg.name + 1 ≤ maxNameSize

def KeptAlong (capacity : Capacity) (server : Server) : List Rpc → Prop
  | [] => IdMapWithin server.dm.idMap
  | rpc :: rpcs => IdMapWithin server.dm.idMap ∧ StepKept capacity server rpc ∧
      ∀ log server' reply, serve server rpc = ⟨log, .ok (server', reply)⟩ →
        KeptAlong capacity server' rpcs

def WithinAlong (capacity : Capacity) (server : Server) : List Rpc → Prop
  | [] => True
  | rpc :: rpcs => StepWithin capacity server rpc ∧
      ∀ log server' reply, serve server rpc = ⟨log, .ok (server', reply)⟩ →
        WithinAlong capacity server' rpcs

theorem pushKept_iff {disk : Disk} {action : ConfigAction} {config : ForwardingPipelineConfig}
    (ha : ConfigAction.applied action = true) :
    PushKept disk server action config ↔ AllFit config.p4info := by
  constructor
  · intro h
    by_contra hfit
    obtain ⟨log, server', status, he, hs⟩ := h.refused hfit
    obtain ⟨-, rfl, -⟩ := pushedTo_of_ok he
    cases hs
  · intro hfit
    rcases loadP4info_or_null server.dm.idMap hfit with ⟨map', hload⟩ | hload
    · have hok := @devMgrSetPipelineConfig_of_load disk server action config map' ha hload
      exact ⟨by rw [hok]; simp, by rw [hok]; simp, fun hn => absurd hfit hn⟩
    · have hfault : devMgrSetPipelineConfig disk server action config = fault .nullElement := by
        rw [devMgrSetPipelineConfig, if_pos ha, hload, fault_bind]
      exact ⟨by rw [hfault]; simp [fault], by rw [hfault]; simp [fault],
        fun hn => absurd hfit hn⟩

theorem stepKept_iff (rpc : Rpc) : StepKept capacity server rpc ↔ StepWithin capacity server rpc := by
  cases rpc with
  | write request =>
      refine imp_congr_right fun _ => imp_congr_right fun _ => ?_
      exact forall_congr' fun call => imp_congr_right fun _ => insertKept_iff
  | read request getCounterByName => exact Iff.rfl
  | setForwardingPipelineConfig request disk => exact imp_congr_right fun ha => pushKept_iff ha

theorem idMapWithin (map : Map) : IdMapWithin map :=
  fun _ elem _ => ⟨elem.args_fit, fun arg _ => arg.name_fits⟩

theorem keptAlong_iff (rpcs : List Rpc) :
    KeptAlong capacity server rpcs ↔ WithinAlong capacity server rpcs := by
  induction rpcs generalizing server with
  | nil => exact iff_of_true (idMapWithin _) trivial
  | cons rpc rpcs ih =>
      rw [KeptAlong, WithinAlong, stepKept_iff, and_iff_right (idMapWithin _)]
      refine and_congr_right fun _ => ?_
      refine forall_congr' fun log => forall_congr' fun server' => forall_congr' fun reply => ?_
      exact imp_congr_right fun _ => ih

theorem capacities_kept_iff (capacity : Capacity) (deviceId : UInt64) (rpcs : List Rpc) :
    KeptAlong capacity (Server.init deviceId) rpcs ↔
      WithinAlong capacity (Server.init deviceId) rpcs :=
  keptAlong_iff rpcs

namespace Capacities

def wideTable : Table :=
  { L2fwd.dmac with
    matchFields :=
      (List.range 11).map (fun i => { id := i.toUInt32, name := "headers.field", bitwidth := 8 }) }

def wideInfo : P4Info := { L2fwd.p4info with tables := [wideTable] }

def wordyTable : Table :=
  { L2fwd.dmac with
    matchFields :=
      [{ id := 1, name := "headers.ethernet_frame_of_the_outer_tunnel.dst_addr", bitwidth := 48 }] }

def wordyInfo : P4Info := { L2fwd.p4info with tables := [wordyTable] }

def repeatedMatch : TableEntry :=
  { tableId := 33610402
    matchList := List.replicate 11 { fieldId := 1, fieldMatchType := .exact [0, 0, 0, 0, 0, 7] }
    action := .action { actionId := 16811908, params := [{ paramId := 1, value := [0, 1] }] }
    isDefaultAction := false }

def insertRepeated : WriteRequest :=
  { deviceId := 1
    updates := [{ type := .insert, entity := .tableEntry repeatedMatch }]
    atomicity := .continueOnError }

def pushed (p4info : P4Info) : Rpc :=
  .setForwardingPipelineConfig (L2fwd.pushOf p4info) Disk.reliable

theorem capacities_exceeded :
    ¬KeptAlong ⟨10, 10⟩ (Server.init 1) [pushed wideInfo] ∧
      ¬KeptAlong ⟨10, 10⟩ (Server.init 1) [pushed wordyInfo] ∧
      ¬KeptAlong ⟨10, 10⟩ (Server.init 1) [pushed L2fwd.p4info, .write insertRepeated] := by
  simp only [keptAlong_iff]
  refine ⟨fun h => ?_, fun h => ?_, fun h => ?_⟩
  · exact absurd (h.1 rfl) (by decide)
  · exact absurd (h.1 rfl) (by decide)
  · have hstep := (h.2 _ _ _ L2fwd.served).1 rfl rfl (L2fwd.server.dm, repeatedMatch)
      List.mem_cons_self
    have hmany : 10 < stores repeatedMatch.matchList := by decide
    rcases hstep with ⟨hm, -⟩ | ⟨hm, -, -⟩
    · exact absurd hm (Nat.not_le.mpr hmany)
    · exact absurd hm (Nat.not_le.mpr hmany)

end Capacities

end Device
