import T4P4SRuntime.Switch.System

namespace Switch

open Device Codegen Messages Exec P4v1 Session

structure ValueFor (action : Hlir.ActionObject) (value : ActionValue) : Prop where
  action_id : value.actionId = action.name
  params : value.params.map (fun p => (p.1, p.2.length)) =
    action.parameters.map (fun q => (q.name, (q.size + 7) / 8))

-- No promote is made for a ternary table.
inductive ForTable (program : Hlir.Program) (table : Hlir.Table) (ks : List Hlir.KeyElement)
    (value : ActionValue) : Promote → Prop where
  | setdefault : ForTable program table ks value (.setdefault table.name value)
  | exact {key : Buffer} : table.matchType = .exact → key.length = keySizeOf program table ks →
      ForTable program table ks value (.exactAdd table.name key value)
  | lpm {key : Buffer} {depth : UInt8} : table.matchType = .lpm →
      key.length = keySizeOf program table ks →
      ForTable program table ks value (.lpmAdd table.name key depth value)

def OfProgram (program : Hlir.Program) (promote : Promote) : Prop :=
  ∃ table ks action value, (table, ks) ∈ tablesWithKeys program ∧ action ∈ table.actions ∧
    ValueFor action value ∧ ForTable program table ks value promote

def insertsEntry (update : Update) : Bool :=
  match update.entity with
  | .tableEntry _ => update.type = .insert
  | .counterEntry _ | .directCounterEntry | .digestEntry _ | .other => false

-- A server with a program takes an event on to at most this many table updates.
def insertCount : Event → Nat
  | .rpc (.write request) =>
      if request.atomicity = .continueOnError then request.updates.countP insertsEntry else 0
  | .rpc (.read _ _) | .rpc (.setForwardingPipelineConfig _ _) | .getForwardingPipelineConfig _ _
  | .openStream | .streamMessage _ _ | .closeStream _ | .sendDigest _ _ _ => 0

variable {layout : RecordLayout} {program : Hlir.Program} {code : Code} {deviceId : UInt64}
  {table : Hlir.Table} {ks : List Hlir.KeyElement} {act : Hlir.ActionObject} {msg : CtrlMsg}
  {dm dm' : DeviceMgr} {state state' : State} {event : Event} {outcome : Outcome}
  {ticks : List Tick} {promotes : List Promote} {update : Update} {updates : List Update}
  {effects : List Effect} {entry : TableEntry} {status : Status} {value : ActionValue}

theorem valueFor_valueOf (msg : CtrlMsg) (act : Hlir.ActionObject) :
    ValueFor act (valueOf msg act) where
  action_id := rfl
  params := by
    have hread (p : ParamCopy) : ((paramValue msg p).1, (paramValue msg p).2.length) =
        (p.name, p.length) := by
      simp [paramValue, readBytes]
    rw [valueOf, List.map_map, Function.comp_def, funext hread, paramCopies, List.map_map]
    have hfst := congrArg (List.map fun q : Hlir.Parameter => (q.name, (q.size + 7) / 8))
      (List.zipIdx_map_fst 0 act.parameters)
    rwa [List.map_map] at hfst

theorem Reaches.ofProgram {promote : Promote} (h : Reaches program code msg table ks act)
    (hp : ForTable program table ks (valueOf msg act) promote) : OfProgram program promote :=
  ⟨table, ks, act, valueOf msg act, h.mem, List.mem_of_find?_eq_some h.selects,
    valueFor_valueOf msg act, hp⟩

theorem finishAdd_forTable {views : Field → ByteView} (h : Finishes program code table ks)
    (depth : UInt8) (value : ActionValue) :
    ∃ promote, finishAdd code program table views depth ks value = ⟨[promote], .ok ()⟩ ∧
      ForTable program table ks value promote := by
  obtain ⟨key, hkey⟩ := @builtKey_of_fits program table ks views h.fits
  have hlength := builtKey_length hkey
  cases ht : table.matchType with
  | exact => exact ⟨_, finishAdd_exact ht hkey depth value, .exact ht hlength⟩
  | lpm =>
      refine ⟨_, finishAdd_lpm h ht hkey depth value, .lpm ht ?_⟩
      rw [reversePrefix, List.length_append, List.length_reverse, ← List.length_append,
        List.take_append_drop, hlength]
  | ternary => exact absurd ht h.promotes

theorem recv_forTable (hb : Emits program code) (h : Reaches program code msg table ks act)
    (htype : msg.type ≠ .ctrlInitialized) :
    ∃ promote, recvFromController layout code msg = ⟨[promote], .ok ()⟩ ∧
      ForTable program table ks (valueOf msg act) promote := by
  cases ht : msg.type with
  | addTableEntry =>
      obtain ⟨promote, he, hp⟩ := @finishAdd_forTable program code table ks
        (shownAt layout msg act) (h.entry ht).2 (depthOf layout msg ks) (valueOf msg act)
      exact ⟨promote, (recv_entry_shown hb h ht).trans he, hp⟩
  | setDefaultAction => exact ⟨_, recv_default_of_reaches hb h ht, .setdefault⟩
  | ctrlInitialized => exact absurd ht htype

theorem recv_ofProgram (hb : Emits program code)
    (h : recvFromController layout code msg = ⟨promotes, .ok ()⟩) :
    promotes.length ≤ 1 ∧ ∀ promote ∈ promotes, OfProgram program promote := by
  rcases eq_or_ne promotes [] with rfl | hne
  · exact ⟨Nat.zero_le 1, fun _ hp => absurd hp List.not_mem_nil⟩
  · have hlog : (recvFromController layout code msg).log ≠ [] := by rwa [h]
    have htype : msg.type ≠ .ctrlInitialized := by
      intro ht
      rw [recvFromController, ht] at hlog
      exact hlog rfl
    obtain ⟨table, ks, act, hreach⟩ := reaches_of_log hb hlog
    obtain ⟨promote, he, hp⟩ := @recv_forTable layout program code table ks act msg hb hreach htype
    obtain ⟨rfl, -⟩ := Exec.mk.inj (h.symm.trans he)
    refine ⟨Nat.le_refl 1, fun p hmem => ?_⟩
    rw [List.mem_singleton.mp hmem]
    exact hreach.ofProgram hp

theorem deliver_ofProgram (hb : Emits program code)
    (h : deliver layout code effects = ⟨promotes, .ok ()⟩) :
    promotes.length ≤ effects.countP isCallback ∧ ∀ promote ∈ promotes, OfProgram program promote := by
  induction effects generalizing promotes with
  | nil =>
      obtain ⟨rfl, -⟩ := pure_eq_ok_iff.mp h
      exact ⟨Nat.le_refl 0, fun _ hp => absurd hp List.not_mem_nil⟩
  | cons effect effects ih =>
      cases effect with
      | cb msg =>
          obtain ⟨now, _, later, hnow, hlater, rfl⟩ := bind_eq_ok_iff.mp h
          obtain ⟨hone, hof⟩ := recv_ofProgram hb hnow
          obtain ⟨hrest, hofRest⟩ := ih hlater
          rw [List.countP_cons_of_pos rfl, List.length_append]
          refine ⟨by omega, fun promote hp => ?_⟩
          exact (List.mem_append.mp hp).elim (hof promote) (hofRest promote)
      | getCounterByName name bytes =>
          rw [List.countP_cons_of_neg Bool.false_ne_true]
          exact ih h

theorem tableInsert_callbacks (h : tableInsert dm entry = ⟨effects, .ok status⟩) :
    effects.countP isCallback ≤ 1 := by
  cases hok : status.ok with
  | false =>
      rw [insert_not_ok h hok]
      exact Nat.zero_le 1
  | true =>
      by_cases hc : ∃ elem, InsertClean dm entry elem
      · obtain ⟨elem, hc⟩ := hc
        have hi : Device.Installs (tableInsert dm entry) := by
          by_contra hi
          obtain ⟨status', he, hs⟩ := (refuses_iff hc).mpr hi
          obtain rfl := Except.ok.inj (Exec.mk.inj (h.symm.trans he)).2
          simp [hok] at hs
        obtain ⟨msg, status', he, -⟩ := hi
        rw [(Exec.mk.inj (h.symm.trans he)).1]
        exact Nat.le_refl 1
      · obtain ⟨f, hf⟩ := @tableInsert_faults dm entry fun elem he => hc ⟨elem, he⟩
        rw [hf] at h
        cases h

theorem applyUpdate_callbacks (h : applyUpdate dm update = ⟨effects, .ok dm'⟩) :
    effects.countP isCallback ≤ if insertsEntry update then 1 else 0 := by
  rw [applyUpdate] at h
  by_cases hi : ∃ entry, update.entity = .tableEntry entry ∧ update.type = .insert
  · obtain ⟨entry, he, ht⟩ := hi
    have hins : insertsEntry update = true := by simp [insertsEntry, he, ht]
    have hstatus : updateStatus dm update = tableInsert dm entry := by
      rw [updateStatus, he, ht]
      rfl
    rw [hstatus] at h
    rw [if_pos hins]
    generalize hrun : tableInsert dm entry = run at h
    obtain ⟨log, f | status⟩ := run
    · cases h
    · rw [map_ok] at h
      rw [← (Exec.mk.inj h).1]
      exact tableInsert_callbacks hrun
  · obtain ⟨status, he⟩ := @updateStatus_quiet dm update fun entry he ht => hi ⟨entry, he, ht⟩
    rw [he, map_pure] at h
    rw [← (pure_eq_ok_iff.mp h).1]
    exact Nat.zero_le _

theorem applyAll_callbacks (h : applyAll dm updates = ⟨effects, .ok dm'⟩) :
    effects.countP isCallback ≤ updates.countP insertsEntry := by
  induction updates generalizing dm effects with
  | nil =>
      rw [← (pure_eq_ok_iff.mp h).1]
      exact Nat.le_refl 0
  | cons update updates ih =>
      obtain ⟨now, dm₁, later, hnow, hlater, rfl⟩ := bind_eq_ok_iff.mp h
      have hone := applyUpdate_callbacks hnow
      have hrest := ih hlater
      rw [List.countP_append, List.countP_cons]
      omega

theorem write_callbacks {server server' : Server} {request : WriteRequest} {reply : Reply}
    (h : serve server (.write request) = ⟨effects, .ok (server', reply)⟩) :
    effects.countP isCallback ≤ insertCount (.rpc (.write request)) := by
  by_cases hc : server.dm.hasP4info = true ∧ request.atomicity = .continueOnError
  · obtain ⟨hp, ha⟩ := hc
    rw [serveWrite_eq hp ha] at h
    rw [insertCount, if_pos ha]
    generalize hrun : applyAll server.dm request.updates = run at h
    obtain ⟨log, f | dm⟩ := run
    · cases h
    · rw [map_ok] at h
      rw [← (Exec.mk.inj h).1]
      exact applyAll_callbacks hrun
  · obtain ⟨reply', he, -⟩ := serveWrite_rejected hc
    rw [(Exec.mk.inj (h.symm.trans he)).1]
    exact Nat.zero_le _

theorem react_promotes (hb : Emits program code)
    (h : react layout code state event = ⟨promotes, .ok (state', outcome)⟩) :
    promotes.length ≤ insertCount event ∧ ∀ promote ∈ promotes, OfProgram program promote := by
  by_cases hw : ∃ request, event = .rpc (.write request)
  · obtain ⟨request, rfl⟩ := hw
    obtain ⟨log, hs, hd⟩ := react_eq_ok_iff.mp h
    obtain ⟨effects, server, reply, hserve, rfl, -⟩ := step_rpc_ok hs
    rw [callbacks_device] at hd
    obtain ⟨hlen, hof⟩ := deliver_ofProgram hb hd
    exact ⟨hlen.trans (write_callbacks hserve), hof⟩
  · rw [react_silent h fun request he => hw ⟨request, he⟩]
    exact ⟨Nat.zero_le _, fun _ hp => absurd hp List.not_mem_nil⟩

theorem promotes_of_program (hb : Emits program code)
    (h : Operates layout code deviceId ticks state) :
    ∀ tick ∈ ticks, tick.promotes.length ≤ insertCount tick.moment.event ∧
      ∀ promote ∈ tick.promotes, OfProgram program promote := by
  induction h with
  | start => exact fun _ ht => absurd ht List.not_mem_nil
  | step _ hr ih => exact List.forall_mem_cons.mpr ⟨react_promotes hb hr, ih⟩

namespace Promotes

theorem promotes_of_l2fwd :
    System.insertTick.promotes.length ≤ insertCount System.insertTick.moment.event ∧
      ∀ promote ∈ System.insertTick.promotes, OfProgram L2fwd.program promote :=
  promotes_of_program L2fwd.builds_code.toEmits System.operates_inserted System.insertTick
    (List.mem_append_left _ (List.mem_singleton_self _))

end Promotes

end Switch
