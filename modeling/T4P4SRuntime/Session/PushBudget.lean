import T4P4SRuntime.Device.Repush
import T4P4SRuntime.Session.Ledger

namespace Session

open Device IdMap P4v1 Exec Parking

def room (state : State) (r : Nat) : Nat :=
  Parking.room scheme state.server.dm.idMap.data (r * redundancyMap)

def pushedActions (r : Nat) (moment : Moment) : Nat :=
  match moment.event with
  | .rpc (.setForwardingPipelineConfig request _) =>
      if ConfigAction.applied request.action then actionsFrom request.config.p4info r else 0
  | .rpc (.write _) | .rpc (.read _ _) | .getForwardingPipelineConfig _ _ | .openStream
  | .streamMessage _ _ | .closeStream _ | .sendDigest _ _ _ => 0

variable {deviceId : UInt64} {history : List Moment} {state state' : State} {moment : Moment}
  {log : List Output}

theorem pushedTo_room {disk : Disk} {id : UInt64} {action : ConfigAction}
    {config : ForwardingPipelineConfig} {server server' : Server}
    (h : PushedTo disk (withDeviceId server id) action config server') (r : Nat) :
    Parking.room scheme server'.dm.idMap.data (r * redundancyMap) +
        (if ConfigAction.applied action then actionsFrom config.p4info r else 0) ≤
      Parking.room scheme server.dm.idMap.data (r * redundancyMap) := by
  cases h with
  | applied ha hload =>
      rw [if_pos ha]
      exact load_room hload r
  | ignored ha =>
      rw [if_neg (by simp [ha])]
      exact Nat.le_refl _

theorem step_room (h : step state moment.event = ⟨log, .ok (state', moment.outcome)⟩) (r : Nat) :
    room state' r + pushedActions r moment ≤ room state r := by
  obtain ⟨event, outcome⟩ := moment
  cases event with
  | rpc rpc =>
      obtain ⟨_, server, reply, hserve, -, -, rfl⟩ := step_rpc_ok h
      cases rpc with
      | write request =>
          have hframe := serveWrite_frame hserve
          have hmap : server.dm.idMap = state.server.dm.idMap := by rw [hframe]
          rw [room, room, hmap]
          exact Nat.le_refl _
      | read request getCounterByName =>
          obtain ⟨rfl, -⟩ := serve_read_ok hserve
          exact Nat.le_refl _
      | setForwardingPipelineConfig request disk => exact pushedTo_room (serve_set_ok hserve).2.2 r
  | getForwardingPipelineConfig request disk =>
      rw [step_get_eq] at h
      simp only [mk.injEq, Except.ok.injEq, Prod.mk.injEq] at h
      obtain ⟨-, rfl, -⟩ := h
      have hframe := (serviceGet_frame disk state.server request).others
      rw [room, room, hframe]
      exact Nat.le_refl _
  | openStream | closeStream =>
      simp only [step, pure_eq_ok_iff, Prod.mk.injEq] at h
      obtain ⟨-, rfl, -⟩ := h
      exact Nat.le_refl _
  | streamMessage stream request =>
      cases step_message_ok h with
      | refused | arbitrated | ignored => exact Nat.le_refl _
  | sendDigest digest digestId timestamp =>
      obtain ⟨rfl, -⟩ := step_digest_ok h
      exact Nat.le_refl _

theorem run_room (h : Happens deviceId history state) (r : Nat) :
    room state r + (history.map (pushedActions r)).sum ≤ maxMapSize - r * redundancyMap := by
  induction h with
  | start => exact Nat.le_of_eq (room_init _)
  | step _ hs ih =>
      obtain ⟨log, hs⟩ := hs
      have hone := step_room hs r
      rw [List.map_cons, List.sum_cons]
      omega

theorem pushes_bounded (h : Happens deviceId history state) (r : Nat) :
    (history.map (pushedActions r)).sum ≤ redundancyMap * (maxHashSize - r) := by
  have hroom := run_room h r
  simp only [maxMapSize, redundancyMap, maxHashSize] at hroom ⊢
  omega

namespace PushBudget

-- The id of `forward` leaves room for it 496 times.
theorem pushes_bounded_pushed :
    ([L2fwd.pushed].map (pushedActions 900)).sum = 1 ∧
      ([L2fwd.pushed].map (pushedActions 900)).sum ≤ redundancyMap * (maxHashSize - 900) :=
  ⟨by decide, pushes_bounded L2fwd.happens_pushed 900⟩

end PushBudget

end Session
