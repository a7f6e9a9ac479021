import T4P4SRuntime.Device.Resolution
import T4P4SRuntime.Device.WriteReport

namespace Device

open IdMap P4Config P4v1 Exec Parking

variable {dm : DeviceMgr} {entry : TableEntry} {server : Server}

inductive InsertLookupFails (dm : DeviceMgr) (entry : TableEntry) : Prop where
  | table : getElement dm.idMap entry.tableId.toUInt64 = none → InsertLookupFails dm entry
  | field {elem : Element} {m : FieldMatch} : TableResolves dm entry elem → m ∈ entry.matchList →
      getArgument elem m.fieldId.toUInt64 = none → InsertLookupFails dm entry
  | action {action : P4v1.Action} : entry.action = .action action →
      getElement dm.idMap action.actionId.toUInt64 = none → InsertLookupFails dm entry
  | param {action : P4v1.Action} {actionElem : Element} {p : Param} :
      ActionResolves dm entry action actionElem → p ∈ action.params →
      getArgument actionElem p.paramId.toUInt64 = none → InsertLookupFails dm entry

def UpdateLookupFails (dm : DeviceMgr) (update : Update) : Prop :=
  match update.entity with
  | .tableEntry entry => update.type = .insert ∧ InsertLookupFails dm entry
  | _ => False

def ReadLookupFails (dm : DeviceMgr) : Entity → Prop
  | .counterEntry entry => getElement dm.idMap entry.counterId.toUInt64 = none
  | _ => False

def AddFails (dm : DeviceMgr) (action : ConfigAction) (p4info : P4Info) : Prop :=
  ConfigAction.applied action = true ∧ ∃ r ∈ (addElements dm.idMap (addCalls p4info)).1, r = none

def FailedLookupsRejected (server : Server) : Rpc → Prop
  | .write request =>
      server.dm.hasP4info = true → request.atomicity = .continueOnError →
        ∀ update ∈ request.updates, UpdateLookupFails server.dm update →
          Refuses (updateStatus server.dm update)
  | .read request getCounterByName =>
      server.dm.hasP4info = true →
        ∀ entity ∈ request.entities, ReadLookupFails server.dm entity →
          ∀ response, Refuses
            (Prod.snd <$> devMgrReadOne getCounterByName server.dm entity response)
  | .setForwardingPipelineConfig request disk =>
      AddFails server.dm request.action request.config.p4info →
        Refuses ((fun r => r.2.status) <$> serve server (.setForwardingPipelineConfig request disk))

def InsertGuarded (dm : DeviceMgr) (entry : TableEntry) : Prop :=
  ∃ elem, InsertClean dm entry elem ∧
    ((∀ m ∈ entry.matchList, getArgument elem m.fieldId.toUInt64 ≠ none) ∨
      (∀ action actionElem, ¬ActionResolves dm entry action actionElem) ∨
      RejectionStands entry.matchList)

def UpdateGuarded (dm : DeviceMgr) (update : Update) : Prop :=
  match update.entity with
  | .tableEntry entry => update.type = .insert → InsertGuarded dm entry
  | _ => True

def ReadGuarded (dm : DeviceMgr) : Entity → Prop
  | .counterEntry entry => getElement dm.idMap entry.counterId.toUInt64 ≠ none
  | _ => True

def PushFits (map : Map) (p4info : P4Info) : Prop :=
  ∀ p, demand scheme ((declarations p4info).map (fun d => d.id.toUInt64)) p ≤ room scheme map.data p

def LookupsGuarded (server : Server) : Rpc → Prop
  | .write request =>
      server.dm.hasP4info = true → request.atomicity = .continueOnError →
        ∀ update ∈ request.updates, UpdateGuarded server.dm update
  | .read request _ =>
      server.dm.hasP4info = true → ∀ entity ∈ request.entities, ReadGuarded server.dm entity
  | .setForwardingPipelineConfig request _ =>
      ConfigAction.applied request.action = true → PushFits server.dm.idMap request.config.p4info

theorem lookupFails_of_not_clean (h : ∀ elem, ¬InsertClean dm entry elem) :
    InsertLookupFails dm entry := by
  by_contra hno
  cases ht : getElement dm.idMap entry.tableId.toUInt64 with
  | none => exact hno (.table ht)
  | some elem =>
      refine h elem ⟨ht, fun m hm _ hn => hno (.field ht hm hn), ?_⟩
      intro action actionElem ha p hp hn
      exact hno (.param ha hp hn)

theorem action_of_lookupFails {elem : Element} (hc : InsertClean dm entry elem)
    (hf : ∀ m ∈ entry.matchList, getArgument elem m.fieldId.toUInt64 ≠ none)
    (h : InsertLookupFails dm entry) :
    ∀ action actionElem, ¬ActionResolves dm entry action actionElem := by
  intro action actionElem ha
  cases h with
  | table hn =>
      have ht := hc.table
      rw [TableResolves, hn] at ht
      cases ht
  | field ht hm hn =>
      obtain rfl := Option.some.inj (hc.table.symm.trans ht)
      exact hf _ hm hn
  | action he hn =>
      obtain rfl := TableAction.action.inj (ha.1.symm.trans he)
      rw [ha.2] at hn
      cases hn
  | param ha' hp hn => exact hc.params _ _ ha' _ hp hn

theorem insert_lookups_rejected_iff :
    (InsertLookupFails dm entry → Refuses (tableInsert dm entry)) ↔ InsertGuarded dm entry := by
  rw [refuses_tableInsert_iff]
  constructor
  · intro h
    by_cases hfails : InsertLookupFails dm entry
    · obtain ⟨elem, hc, hcase⟩ := h hfails
      exact ⟨elem, hc, Or.inr hcase⟩
    · have hclean : ∃ elem, InsertClean dm entry elem := by
        by_contra hno
        exact hfails (lookupFails_of_not_clean fun elem hc => hno ⟨elem, hc⟩)
      obtain ⟨elem, hc⟩ := hclean
      exact ⟨elem, hc, Or.inl fun m hm hn => hfails (.field hc.table hm hn)⟩
  · rintro ⟨elem, hc, hf | hcase⟩ hfails
    · exact ⟨elem, hc, Or.inl (action_of_lookupFails hc hf hfails)⟩
    · exact ⟨elem, hc, hcase⟩

theorem update_lookups_rejected_iff (update : Update) :
    (UpdateLookupFails dm update → Refuses (updateStatus dm update)) ↔
      UpdateGuarded dm update := by
  cases hu : update.entity with
  | tableEntry entry =>
      cases ht : update.type with
      | insert =>
          simpa [UpdateLookupFails, UpdateGuarded, updateStatus, tableWrite, checkP4Id, hu, ht]
            using @insert_lookups_rejected_iff dm entry
      | unspecified | modify | delete | unrecognized =>
          simp [UpdateLookupFails, UpdateGuarded, hu, ht]
  | counterEntry | directCounterEntry | digestEntry | other =>
      simp [UpdateLookupFails, UpdateGuarded, hu]

theorem read_lookups_rejected_iff (getCounterByName : CounterReader) (entity : Entity) :
    (ReadLookupFails dm entity →
      ∀ response, Refuses (Prod.snd <$> devMgrReadOne getCounterByName dm entity response)) ↔
      ReadGuarded dm entity := by
  cases entity with
  | counterEntry entry =>
      constructor
      · intro h hn
        have hr := h hn { entities := [] }
        rw [devMgrReadOne, counterRead_of_none getCounterByName hn, map_eq_pure_bind,
          fault_bind] at hr
        exact not_refuses_fault .nullElement hr
      · intro h hn
        exact absurd hn h
  | tableEntry | directCounterEntry | digestEntry | other =>
      simp [ReadLookupFails, ReadGuarded]

theorem devMgrSetPipelineConfig_status {disk : Disk} {action : ConfigAction}
    {config : ForwardingPipelineConfig} {server' : Server} {status : Status} {log : List Effect}
    (h : devMgrSetPipelineConfig disk server action config = ⟨log, .ok (server', status)⟩) :
    status = Status.make .ok "ok" := by
  rw [devMgrSetPipelineConfig] at h
  split at h
  · obtain ⟨_, map, _, -, hret, -⟩ := bind_eq_ok_iff.mp h
    simp only [pure_eq_ok_iff, Prod.mk.injEq] at hret
    exact hret.2.2.symm
  · simp only [pure_eq_ok_iff, Prod.mk.injEq] at h
    exact h.2.2.symm

theorem set_never_refuses (request : SetForwardingPipelineConfigRequest) (disk : Disk) :
    ¬Refuses ((fun r => r.2.status) <$>
      serve server (.setForwardingPipelineConfig request disk)) := by
  rintro ⟨status, he, hs⟩
  rw [map_eq_pure_bind] at he
  obtain ⟨_, ⟨server₁, reply⟩, _, hserve, hret, -⟩ := bind_eq_ok_iff.mp he
  rw [serve, serviceSetForwardingPipelineConfig] at hserve
  obtain ⟨_, ⟨server₂, status₂⟩, _, hset, hpure, -⟩ := bind_eq_ok_iff.mp hserve
  obtain rfl := devMgrSetPipelineConfig_status hset
  simp only [pure_eq_ok_iff, Prod.mk.injEq] at hpure hret
  obtain rfl : Reply.setForwardingPipelineConfig (Status.make .ok "ok") = reply := hpure.2.2
  rw [← hret.2] at hs
  cases hs

theorem placed_iff_addElements (calls : List AddCall) {map : Map} :
    AllPlaced scheme map.data (calls.map (fun c => newElement c.1 c.2)) ↔
      ∀ r ∈ (addElements map calls).1, r ≠ none := by
  induction calls generalizing map with
  | nil => simp [AllPlaced, addElements]
  | cons c cs ih =>
      have hrest := @ih (addElement map c.1 c.2).2
      rw [addElement_eq] at hrest
      simp only [List.map_cons, AllPlaced, addElements, List.mem_cons, forall_eq_or_imp,
        addElement_eq, hrest]

theorem addFails_iff {action : ConfigAction} {p4info : P4Info} :
    ¬AddFails dm action p4info ↔
      (ConfigAction.applied action = true → PushFits dm.idMap p4info) := by
  have hplaced := @placed_iff_addElements (addCalls p4info) dm.idMap
  rw [allPlaced_iff, addCalls, List.map_map, List.map_map] at hplaced
  have hfits : PushFits dm.idMap p4info ↔
      ∀ r ∈ (addElements dm.idMap (addCalls p4info)).1, r ≠ none := hplaced
  rw [hfits, AddFails]
  push Not
  rfl

theorem failed_lookups_rejected_iff (server : Server) (rpc : Rpc) :
    FailedLookupsRejected server rpc ↔ LookupsGuarded server rpc := by
  cases rpc with
  | write request =>
      simp only [FailedLookupsRejected, LookupsGuarded, update_lookups_rejected_iff]
  | read request getCounterByName =>
      simp only [FailedLookupsRejected, LookupsGuarded, read_lookups_rejected_iff]
  | setForwardingPipelineConfig request disk =>
      rw [LookupsGuarded, ← addFails_iff]
      exact ⟨fun h hfails => set_never_refuses request disk (h hfails),
        fun h hfails => absurd hfails h⟩

namespace FailedLookups

def undeclaredField : WriteRequest :=
  { deviceId := 1
    updates :=
      [{ type := .insert
         entity := .tableEntry
           { tableId := 33610402
             matchList := [{ fieldId := 2, fieldMatchType := .exact [0, 0, 0, 0, 0, 7] }]
             action := .action { actionId := 16792690, params := [] }
             isDefaultAction := false } }]
    atomicity := .continueOnError }

theorem undeclared_field_dereferenced :
    Reachable 1 L2fwd.server (some L2fwd.p4info) ∧
      ¬FailedLookupsRejected L2fwd.server (.write undeclaredField) := by
  refine ⟨L2fwd.reachable_server, fun h => ?_⟩
  have hu := h (by decide) rfl _ (List.mem_singleton.mpr rfl)
  obtain ⟨elem, hc, -⟩ := (update_lookups_rejected_iff _).mp hu rfl
  have he : getElement L2fwd.server.dm.idMap 33610402 = some elem := hc.table
  have hn : (getElement L2fwd.server.dm.idMap 33610402).bind (getArgument · 2) = none := by decide
  rw [he] at hn
  exact hc.fields _ (List.mem_singleton.mpr rfl) rfl hn

end FailedLookups

end Device
