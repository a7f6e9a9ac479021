import T4P4SRuntime.Device.ServerSteps

namespace Device

open IdMap P4Config P4v1 Exec

inductive ObjectKind where
  | table
  | action
  | counter
  deriving DecidableEq, Repr

abbrev Kinds := UInt64 → Option ObjectKind

def boundAs (kinds : Kinds) (kind : ObjectKind) (map : Map) : Kinds :=
  fun k => (kinds k).or ((getElement map k).map fun _ => kind)

def kindsOfPush (kinds : Kinds) (map : Map) (p4info : P4Info) : Kinds :=
  match (tableLoop map p4info.tables).out with
  | .error _ => kinds
  | .ok map₁ =>
      match (actionLoop map₁ p4info.actions).out with
      | .error _ => kinds
      | .ok map₂ =>
          boundAs (boundAs (boundAs kinds .table map₁) .action map₂) .counter
            (counterLoop map₂ p4info.counters)

def kindsAfter (kinds : Kinds) (server : Server) : Rpc → Kinds
  | .setForwardingPipelineConfig request _ =>
      if ConfigAction.applied request.action then
        kindsOfPush kinds server.dm.idMap request.config.p4info
      else kinds
  | .write _ | .read _ _ => kinds

-- `kinds` records how each id came into the id map: the kind of its first declaration.
inductive Traced (deviceId : UInt64) : Server → Option P4Info → Kinds → Prop where
  | init : Traced deviceId (Server.init deviceId) none (fun _ => none)
  | step {server server' : Server} {last : Option P4Info} {kinds : Kinds} {rpc : Rpc}
      {log : List Effect} {reply : Reply} : Traced deviceId server last kinds →
      serve server rpc = ⟨log, .ok (server', reply)⟩ →
      Traced deviceId server' (acceptedP4info last rpc) (kindsAfter kinds server rpc)

variable {deviceId : UInt64} {server server' : Server} {last : Option P4Info} {kinds : Kinds}
  {dm dm' : DeviceMgr} {entry : TableEntry}

theorem Reachable.traced (h : Reachable deviceId server last) :
    ∃ kinds, Traced deviceId server last kinds := by
  induction h with
  | init => exact ⟨_, Traced.init⟩
  | step _ hs ih =>
      obtain ⟨kinds, hk⟩ := ih
      exact ⟨_, Traced.step hk hs⟩

theorem loadP4info_ok {map map' : Map} {p4info : P4Info} {log : List Effect}
    (h : loadP4info map p4info = ⟨log, .ok map'⟩) :
    ∃ map₁ map₂, (tableLoop map p4info.tables).out = .ok map₁ ∧
      (actionLoop map₁ p4info.actions).out = .ok map₂ ∧
      map' = counterLoop map₂ p4info.counters := by
  rw [loadP4info] at h
  obtain ⟨_, map₁, _, ht, hrest, -⟩ := bind_eq_ok_iff.mp h
  obtain ⟨_, map₂, _, ha, hret, -⟩ := bind_eq_ok_iff.mp hrest
  simp only [pure_def, mk.injEq, Except.ok.injEq] at hret
  exact ⟨map₁, map₂, by rw [ht], by rw [ha], hret.2.symm⟩

def Recorded (dm : DeviceMgr) (kinds : Kinds) : Prop :=
  ∀ k, getElement dm.idMap k ≠ none → kinds k ≠ none

theorem recorded_push {map map' : Map} {p4info : P4Info} {log : List Effect}
    (h : loadP4info map p4info = ⟨log, .ok map'⟩) (k : UInt64) (hk : getElement map' k ≠ none) :
    kindsOfPush kinds map p4info k ≠ none := by
  obtain ⟨map₁, map₂, ht, ha, rfl⟩ := loadP4info_ok h
  simp [kindsOfPush, ht, ha, boundAs, hk]

theorem serve_recorded {rpc : Rpc} {log : List Effect} {reply : Reply}
    (h : serve server rpc = ⟨log, .ok (server', reply)⟩) (hr : Recorded server.dm kinds) :
    Recorded server'.dm (kindsAfter kinds server rpc) := by
  cases rpc with
  | write request =>
      rw [serveWrite_frame h]
      exact hr
  | read request getCounterByName =>
      rw [(serve_read_ok h).1]
      exact hr
  | setForwardingPipelineConfig request disk =>
      obtain ⟨-, -, hpushed⟩ := serve_set_ok h
      intro k hk
      rw [kindsAfter]
      cases hpushed with
      | applied ha hload =>
          rw [if_pos ha]
          exact recorded_push hload k hk
      | ignored ha =>
          rw [if_neg (by simp [ha])]
          exact hr k hk

theorem Traced.recorded (h : Traced deviceId server last kinds) : Recorded server.dm kinds := by
  induction h with
  | init => exact fun k hk => absurd (getElement_initMap k) hk
  | step _ hs ih => exact serve_recorded hs ih

def idsOf (p4info : P4Info) : ObjectKind → List UInt32
  | .table => p4info.tables.map (·.preamble.id)
  | .action => p4info.actions.map (·.preamble.id)
  | .counter => p4info.counters.map (·.preamble.id)

def DeclaredAs (last : Option P4Info) (kind : ObjectKind) (id : UInt32) : Prop :=
  ∃ p4info, last = some p4info ∧ id ∈ idsOf p4info kind

def ListedRef (last : Option P4Info) (tableId actionId : UInt32) : Prop :=
  ∃ p4info, last = some p4info ∧
    ∃ table ∈ p4info.tables, table.preamble.id = tableId ∧ actionId ∈ table.actionRefs

def Misused (dm : DeviceMgr) (last : Option P4Info) (kinds : Kinds) (kind : ObjectKind)
    (id : UInt32) : Prop :=
  getElement dm.idMap id.toUInt64 ≠ none ∧
    ((∃ other, other ≠ kind ∧ kinds id.toUInt64 = some other) ∨ ¬DeclaredAs last kind id)

def InsertUsesDeclared (last : Option P4Info) (entry : TableEntry) : Prop :=
  ∃ action, entry.action = .action action ∧ DeclaredAs last .table entry.tableId ∧
    DeclaredAs last .action action.actionId ∧ ListedRef last entry.tableId action.actionId

structure InsertRespectsKinds (dm : DeviceMgr) (last : Option P4Info) (kinds : Kinds)
    (entry : TableEntry) (run : Run Status) : Prop where
  invokes : ∀ msg, Effect.cb msg ∈ run.log → InsertUsesDeclared last entry
  table : Misused dm last kinds .table entry.tableId → Refuses run
  action : ∀ action, entry.action = .action action →
    Misused dm last kinds .action action.actionId → Refuses run

def UpdateRespectsKinds (dm : DeviceMgr) (last : Option P4Info) (kinds : Kinds)
    (update : Update) : Prop :=
  match update.entity with
  | .tableEntry entry => InsertRespectsKinds dm last kinds entry (updateStatus dm update)
  | .counterEntry entry =>
      Misused dm last kinds .counter entry.counterId → Refuses (updateStatus dm update)
  | .directCounterEntry | .digestEntry _ | .other => (updateStatus dm update).log = []

structure CounterRespectsKinds (dm : DeviceMgr) (last : Option P4Info) (kinds : Kinds)
    (entry : CounterEntry) (run : Run (ReadResponse × Status)) : Prop where
  invokes : ∀ name isBytes, Effect.getCounterByName name isBytes ∈ run.log →
    DeclaredAs last .counter entry.counterId
  refused : Misused dm last kinds .counter entry.counterId → Refuses (Prod.snd <$> run)

def EntityRespectsKinds (getCounterByName : CounterReader) (dm : DeviceMgr)
    (last : Option P4Info) (kinds : Kinds) (entity : Entity) : Prop :=
  ∀ response,
    match entity with
    | .counterEntry entry =>
        CounterRespectsKinds dm last kinds entry
          (devMgrReadOne getCounterByName dm entity response)
    | _ => (devMgrReadOne getCounterByName dm entity response).log = []

def KindsRespected (server : Server) (last : Option P4Info) (kinds : Kinds) : Rpc → Prop
  | .write request =>
      server.dm.hasP4info = true → request.atomicity = .continueOnError →
        ∀ update ∈ request.updates, UpdateRespectsKinds server.dm last kinds update
  | .read request getCounterByName =>
      server.dm.hasP4info = true →
        ∀ entity ∈ request.entities,
          EntityRespectsKinds getCounterByName server.dm last kinds entity
  | .setForwardingPipelineConfig request disk =>
      (serve server (.setForwardingPipelineConfig request disk)).log = []

def ProperUse (dm : DeviceMgr) (last : Option P4Info) (kinds : Kinds) (kind : ObjectKind)
    (id : UInt32) : Prop :=
  getElement dm.idMap id.toUInt64 ≠ none → kinds id.toUInt64 = some kind ∧ DeclaredAs last kind id

structure InsertProper (dm : DeviceMgr) (last : Option P4Info) (kinds : Kinds)
    (entry : TableEntry) : Prop where
  table : ProperUse dm last kinds .table entry.tableId
  action : ∀ action, entry.action = .action action →
    ProperUse dm last kinds .action action.actionId
  listed : ∀ action, entry.action = .action action → InsertAccepted dm entry →
    ListedRef last entry.tableId action.actionId

def InsertRefusable (dm : DeviceMgr) (entry : TableEntry) : Prop :=
  ∃ elem, InsertClean dm entry elem ∧
    ((∀ action actionElem, ¬ActionResolves dm entry action actionElem) ∨
      RejectionStands entry.matchList)

def UpdateKindsGuarded (dm : DeviceMgr) (last : Option P4Info) (kinds : Kinds)
    (update : Update) : Prop :=
  match update.entity with
  | .tableEntry entry =>
      update.type = .insert → InsertRefusable dm entry ∨ InsertProper dm last kinds entry
  | _ => True

def EntityKindsGuarded (dm : DeviceMgr) (last : Option P4Info) (kinds : Kinds) : Entity → Prop
  | .counterEntry entry => ProperUse dm last kinds .counter entry.counterId
  | _ => True

def KindsGuarded (server : Server) (last : Option P4Info) (kinds : Kinds) : Rpc → Prop
  | .write request =>
      server.dm.hasP4info = true → request.atomicity = .continueOnError →
        ∀ update ∈ request.updates, UpdateKindsGuarded server.dm last kinds update
  | .read request _ =>
      server.dm.hasP4info = true →
        ∀ entity ∈ request.entities, EntityKindsGuarded server.dm last kinds entity
  | .setForwardingPipelineConfig _ _ => True

theorem properUse_iff (hr : Recorded dm kinds) (kind : ObjectKind) (id : UInt32) :
    ¬Misused dm last kinds kind id ↔ ProperUse dm last kinds kind id := by
  rw [Misused, ProperUse]
  constructor
  · intro h hid
    obtain ⟨bound, hb⟩ := Option.ne_none_iff_exists'.mp (hr id.toUInt64 hid)
    obtain ⟨hother, hdecl⟩ := not_or.mp fun hc => h ⟨hid, hc⟩
    refine ⟨?_, not_not.mp hdecl⟩
    by_contra hne
    exact hother ⟨bound, fun he => hne (he ▸ hb), hb⟩
  · rintro h ⟨hid, hother | hdecl⟩
    · obtain ⟨other, hne, ho⟩ := hother
      rw [(h hid).1] at ho
      exact hne (Option.some.inj ho).symm
    · exact hdecl (h hid).2

theorem insertAccepted_of_cb {msg : Messages.CtrlMsg}
    (h : Effect.cb msg ∈ (tableInsert dm entry).log) : InsertAccepted dm entry := by
  by_cases hc : ∃ elem, InsertClean dm entry elem
  · obtain ⟨elem, hc⟩ := hc
    refine ⟨elem, hc, (installs_iff hc).mp ?_⟩
    by_contra hn
    obtain ⟨status, he, -⟩ := (refuses_iff hc).mpr hn
    simp [he] at h
  · obtain ⟨f, hf⟩ := tableInsert_faults fun elem hce => hc ⟨elem, hce⟩
    simp [hf, fault] at h

theorem respects_of_refuses {run : Run Status} (h : Refuses run) :
    InsertRespectsKinds dm last kinds entry run where
  invokes := fun msg hm => by
    obtain ⟨status, he, -⟩ := h
    simp [he] at hm
  table := fun _ => h
  action := fun _ _ _ => h

theorem insert_respects_iff (hr : Recorded dm kinds) :
    InsertRespectsKinds dm last kinds entry (tableInsert dm entry) ↔
      InsertRefusable dm entry ∨ InsertProper dm last kinds entry := by
  constructor
  · intro h
    by_cases href : Refuses (tableInsert dm entry)
    · exact Or.inl (refuses_tableInsert_iff.mp href)
    · refine Or.inr ⟨?_, fun action ha => ?_, fun action ha hacc => ?_⟩
      · exact (properUse_iff hr _ _).mp fun hm => href (h.table hm)
      · exact (properUse_iff hr _ _).mp fun hm => href (h.action action ha hm)
      · obtain ⟨elem, hc, hinst⟩ := hacc
        obtain ⟨msg, status, he, -⟩ := (installs_iff hc).mpr hinst
        obtain ⟨action', ha', -, -, hl⟩ := h.invokes msg (by simp [he])
        obtain rfl := TableAction.action.inj (ha.symm.trans ha')
        exact hl
  · rintro (href | hp)
    · exact respects_of_refuses (refuses_tableInsert_iff.mpr href)
    · refine ⟨fun msg hm => ?_, fun hm => ?_, fun action ha hm => ?_⟩
      · have hacc := insertAccepted_of_cb hm
        obtain ⟨elem, hc, ⟨action, actionElem, ha⟩, -⟩ := id hacc
        have ht : getElement dm.idMap entry.tableId.toUInt64 = some elem := hc.table
        exact ⟨action, ha.1, (hp.table (by simp [ht])).2,
          (hp.action action ha.1 (by simp [ha.2])).2, hp.listed action ha.1 hacc⟩
      · exact absurd hm ((properUse_iff hr _ _).mpr hp.table)
      · exact absurd hm ((properUse_iff hr _ _).mpr (hp.action action ha))

theorem counterWrite_refuses (type : UpdateType) (entry : CounterEntry) :
    Refuses (pure (counterWrite type entry)) :=
  ⟨counterWrite type entry, rfl, counterWrite_fails type entry⟩

theorem update_respects_iff (hr : Recorded dm kinds) (update : Update) :
    UpdateRespectsKinds dm last kinds update ↔ UpdateKindsGuarded dm last kinds update := by
  cases hu : update.entity with
  | tableEntry entry =>
      cases ht : update.type with
      | insert =>
          simpa [UpdateRespectsKinds, UpdateKindsGuarded, updateStatus, tableWrite, checkP4Id, hu,
            ht] using insert_respects_iff hr
      | unspecified | modify | delete | unrecognized =>
          simp only [UpdateRespectsKinds, UpdateKindsGuarded, updateStatus, tableWrite, checkP4Id,
            hu, ht, if_true, reduceCtorEq, false_implies, iff_true]
          exact respects_of_refuses ⟨_, rfl, rfl⟩
  | counterEntry entry =>
      simp [UpdateRespectsKinds, UpdateKindsGuarded, updateStatus, hu, counterWrite_refuses]
  | directCounterEntry | digestEntry | other =>
      simp [UpdateRespectsKinds, UpdateKindsGuarded, updateStatus, hu, pure_def]

theorem devMgrReadOne_of_some (getCounterByName : CounterReader) {entry : CounterEntry}
    {elem : Element} (he : getElement dm.idMap entry.counterId.toUInt64 = some elem)
    (response : ReadResponse) :
    Effect.getCounterByName elem.value true ∈
      (devMgrReadOne getCounterByName dm (.counterEntry entry) response).log := by
  simp only [devMgrReadOne, counterRead, checkP4Id, Bool.not_true, Bool.false_and, Bool.false_eq_true,
    if_false, he, deref_some, pure_bind, emit, mk_bind, List.cons_append, List.mem_cons, true_or]

theorem entity_respects_iff (hr : Recorded dm kinds) (getCounterByName : CounterReader)
    (entity : Entity) :
    EntityRespectsKinds getCounterByName dm last kinds entity ↔
      EntityKindsGuarded dm last kinds entity := by
  cases entity with
  | counterEntry entry =>
      rw [EntityKindsGuarded, ← properUse_iff hr]
      cases he : getElement dm.idMap entry.counterId.toUInt64 with
      | none =>
          have hm : ¬Misused dm last kinds .counter entry.counterId := fun hm => hm.1 he
          refine iff_of_true (fun response => ⟨fun name isBytes hn => ?_, fun h => absurd h hm⟩) hm
          rw [devMgrReadOne, counterRead_of_none getCounterByName he] at hn
          cases hn
      | some elem =>
          have hlog := devMgrReadOne_of_some getCounterByName he
          constructor
          · intro h hm
            obtain ⟨status, hrun, -⟩ := (h { entities := [] }).refused hm
            have hmem := hlog { entities := [] }
            rw [map_eq_pure_bind] at hrun
            obtain ⟨_, _, _, hone, -, hnil⟩ := bind_eq_ok_iff.mp hrun
            rw [hone, (List.append_eq_nil_iff.mp hnil.symm).1] at hmem
            cases hmem
          · intro hm response
            have hproper := (properUse_iff hr _ _).mp hm (by simp [he])
            exact ⟨fun _ _ _ => hproper.2, fun h => absurd h hm⟩
  | tableEntry | directCounterEntry | digestEntry | other =>
      simp [EntityRespectsKinds, EntityKindsGuarded, devMgrReadOne, pure_def]

theorem id_kinds_respected_iff (h : Traced deviceId server last kinds) (rpc : Rpc) :
    KindsRespected server last kinds rpc ↔ KindsGuarded server last kinds rpc := by
  have hr := h.recorded
  cases rpc with
  | write request => simp only [KindsRespected, KindsGuarded, update_respects_iff hr]
  | read request getCounterByName => simp only [KindsRespected, KindsGuarded, entity_respects_iff hr]
  | setForwardingPipelineConfig request disk =>
      exact iff_of_true (serve_set_log request disk) trivial

namespace IdKinds

def l2fwdKinds : Kinds :=
  kindsAfter (fun _ => none) (Server.init 1)
    (.setForwardingPipelineConfig (L2fwd.pushOf L2fwd.p4info) Disk.reliable)

theorem traced_server : Traced 1 L2fwd.server (some L2fwd.p4info) l2fwdKinds :=
  Traced.step Traced.init L2fwd.served

def swapped : Update :=
  { type := .insert
    entity := .tableEntry
      { tableId := 16811908
        matchList := [{ fieldId := 1, fieldMatchType := .exact [0, 3] }]
        action := .action { actionId := 33610402, params := [] }
        isDefaultAction := false } }

def swappedIds : WriteRequest :=
  { deviceId := 1, updates := [swapped], atomicity := .continueOnError }

theorem id_kinds_respected_swappedIds :
    KindsRespected L2fwd.server (some L2fwd.p4info) l2fwdKinds (.write swappedIds) ↔
      KindsGuarded L2fwd.server (some L2fwd.p4info) l2fwdKinds (.write swappedIds) :=
  id_kinds_respected_iff traced_server (.write swappedIds)

theorem action_used_as_table :
    Traced 1 L2fwd.server (some L2fwd.p4info) l2fwdKinds ∧
      ¬KindsRespected L2fwd.server (some L2fwd.p4info) l2fwdKinds (.write swappedIds) := by
  refine ⟨traced_server, fun h => ?_⟩
  have hu := h (by decide) rfl swapped (List.mem_singleton.mpr rfl)
  have hm : Misused L2fwd.server.dm (some L2fwd.p4info) l2fwdKinds .table 16811908 :=
    ⟨by decide, Or.inl ⟨.action, by decide, by decide⟩⟩
  obtain ⟨status, he, hs⟩ := hu.table hm
  have ho : (updateStatus L2fwd.server.dm swapped).out = .ok Status.success := by decide
  rw [he] at ho
  obtain rfl := Except.ok.inj ho
  cases hs

end IdKinds

end Device
