import T4P4SRuntime.Device.WriteReport
import T4P4SRuntime.Device.StatusEffect

namespace Device

open IdMap P4v1 Exec

variable {dm dm' : DeviceMgr} {server server' : Server} {request : WriteRequest}

def serveAll (server : Server) : List Rpc → Run Server
  | [] => pure server
  | rpc :: rpcs => do
      let (server, _) ← serve server rpc
      serveAll server rpcs

def single (request : WriteRequest) (update : Update) : Rpc :=
  .write { request with updates := [update] }

def UpdateFails (dm : DeviceMgr) (update : Update) : Prop :=
  ∃ log status, updateStatus dm update = ⟨log, .ok status⟩ ∧ status.ok = false

-- No lookup that an INSERT dereferences is NULL; the result for the action id is tested first.
def UpdateClean (dm : DeviceMgr) (update : Update) : Prop :=
  match update.entity with
  | .tableEntry entry => update.type = .insert → ∃ elem, InsertClean dm entry elem
  | .counterEntry _ | .directCounterEntry | .digestEntry _ | .other => True

def WriteFrame (server server' : Server) : Prop :=
  server' = { server with dm := { server.dm with digestMap := server'.dm.digestMap } }

structure BatchIsolated (server : Server) (request : WriteRequest) : Prop where
  sequential : ∃ log server' reply, serve server (.write request) = ⟨log, .ok (server', reply)⟩ ∧
    serveAll server (request.updates.map (single request)) = ⟨log, .ok server'⟩
  silent : ∀ update, UpdateFails server.dm update →
    ∃ reply, serve server (single request update) = ⟨[], .ok (server, reply)⟩
  removable : ∀ before update after, request.updates = before ++ update :: after →
    UpdateFails server.dm update →
      serve server (.write request) =
        serve server (.write { request with updates := before ++ after })

def afterUpdate (dm : DeviceMgr) (update : Update) : DeviceMgr :=
  match update.entity with
  | .digestEntry entry =>
      { dm with digestMap := activateDigest dm.digestMap entry.digestId.toUInt64 }
  | .tableEntry _ | .counterEntry _ | .directCounterEntry | .other => dm

def applyUpdate (dm : DeviceMgr) (update : Update) : Run DeviceMgr :=
  (fun _ => afterUpdate dm update) <$> updateStatus dm update

def applyAll (dm : DeviceMgr) : List Update → Run DeviceMgr
  | [] => pure dm
  | update :: updates => do
      let dm ← applyUpdate dm update
      applyAll dm updates

theorem writeOne_fst (update : Update) (status : Status) :
    Prod.fst <$> writeOne dm update status = applyUpdate dm update := by
  cases hu : update.entity <;> simp [writeOne, applyUpdate, updateStatus, afterUpdate, hu]

-- The status carried from one update to the next reaches neither the state nor the reporter.
theorem writeLoop_eq (updates : List Update) (status : Status) (reporter : P4ErrorReporter) :
    writeLoop dm updates status reporter = (·, reporter) <$> applyAll dm updates := by
  induction updates generalizing dm status with
  | nil => simp [writeLoop, applyAll]
  | cons update updates ih =>
      have hfst := @writeOne_fst dm update status
      rw [writeLoop, applyAll, ← hfst]
      simp only [P4ErrorReporter.pushBack, ih, map_bind, bind_map_left]

theorem devMgrWrite_eq (ha : request.atomicity = .continueOnError) :
    devMgrWrite dm request = (·, Status.success) <$> applyAll dm request.updates := by
  rw [devMgrWrite, if_pos ha, writeLoop_eq]
  simp [P4ErrorReporter.empty, P4ErrorReporter.getStatus]

theorem serveWrite_eq (hp : server.dm.hasP4info = true)
    (ha : request.atomicity = .continueOnError) :
    serve server (.write request) =
      (fun dm => ({ server with dm := dm }, .write Status.success)) <$>
        applyAll server.dm request.updates := by
  rw [serve, serviceWrite, if_neg (by simp [hp]), devMgrWrite_eq ha]
  simp

theorem applyUpdate_ok {update : Update} {log : List Effect}
    (h : applyUpdate dm update = ⟨log, .ok dm'⟩) : dm' = afterUpdate dm update := by
  rw [applyUpdate, map_eq_pure_bind] at h
  obtain ⟨_, _, _, -, hret, -⟩ := bind_eq_ok_iff.mp h
  simpa [pure_def, eq_comm] using (mk.inj hret).2

theorem applyAll_ok {updates : List Update} {log : List Effect}
    (h : applyAll dm updates = ⟨log, .ok dm'⟩) : dm' = updates.foldl afterUpdate dm := by
  induction updates generalizing dm log with
  | nil =>
      obtain ⟨-, rfl⟩ : log = [] ∧ dm = dm' := by simpa [applyAll, pure_def, eq_comm] using h
      rfl
  | cons update updates ih =>
      obtain ⟨_, dm₁, _, hone, hrest, -⟩ := bind_eq_ok_iff.mp h
      obtain rfl := applyUpdate_ok hone
      exact ih hrest

theorem applyUpdate_frame {update : Update} {log : List Effect}
    (h : applyUpdate dm update = ⟨log, .ok dm'⟩) :
    dm' = { dm with digestMap := dm'.digestMap } := by
  rw [applyUpdate_ok h]
  cases hu : update.entity <;> simp [afterUpdate, hu]

theorem applyAll_frame {updates : List Update} {log : List Effect}
    (h : applyAll dm updates = ⟨log, .ok dm'⟩) :
    dm' = { dm with digestMap := dm'.digestMap } := by
  induction updates generalizing dm log with
  | nil =>
      obtain ⟨-, rfl⟩ : log = [] ∧ dm = dm' := by simpa [applyAll, pure_def, eq_comm] using h
      rfl
  | cons update updates ih =>
      obtain ⟨_, dm₁, _, hone, hrest, -⟩ := bind_eq_ok_iff.mp h
      have hframe := ih hrest
      rw [applyUpdate_frame hone] at hframe
      exact hframe

theorem serveAll_singles (hp : server.dm.hasP4info = true)
    (ha : request.atomicity = .continueOnError) (updates : List Update) :
    serveAll server (updates.map (single request)) =
      (fun dm => { server with dm := dm }) <$> applyAll server.dm updates := by
  induction updates generalizing server with
  | nil => simp [serveAll, applyAll]
  | cons update updates ih =>
      have hone : serve server (single request update) =
          (fun dm => ({ server with dm := dm }, .write Status.success)) <$>
            applyUpdate server.dm update := by
        rw [single, @serveWrite_eq server { request with updates := [update] } hp ha]
        simp [applyAll]
      rw [List.map_cons, serveAll, hone, applyAll, bind_map_left, map_bind]
      generalize hrun : applyUpdate server.dm update = run
      obtain ⟨log, f | dm⟩ := run
      · rfl
      · have hp' : dm.hasP4info = true := by
          rw [applyUpdate_frame hrun]
          exact hp
        have hih := @ih { server with dm := dm } hp'
        simp only [mk_bind, hih]

theorem insert_not_ok {entry : TableEntry} {log : List Effect} {status : Status}
    (h : tableInsert dm entry = ⟨log, .ok status⟩) (hs : status.ok = false) : log = [] := by
  by_cases hc : ∃ elem, InsertClean dm entry elem
  · obtain ⟨elem, hc⟩ := hc
    have hr : Refuses (tableInsert dm entry) := (refuses_iff hc).mpr fun hi => by
      obtain ⟨msg, status', he, hs'⟩ := hi
      obtain rfl : status = status' := by simpa using (mk.inj (h.symm.trans he)).2
      simp [hs] at hs'
    obtain ⟨status', he, -⟩ := hr
    exact (mk.inj (h.symm.trans he)).1
  · obtain ⟨f, hf⟩ := @tableInsert_faults dm entry fun elem h => hc ⟨elem, h⟩
    simp [h, fault] at hf

theorem applyUpdate_of_fails {update : Update} (h : UpdateFails dm update) :
    applyUpdate dm update = pure dm := by
  obtain ⟨log, status, he, hs⟩ := h
  cases hu : update.entity with
  | tableEntry entry =>
      have hlog : log = [] := by
        cases ht : update.type with
        | insert =>
            simp only [updateStatus, hu, tableWrite, checkP4Id, ht, if_true] at he
            exact insert_not_ok he hs
        | unspecified | modify | delete | unrecognized =>
            simp only [updateStatus, hu, tableWrite, checkP4Id, ht, if_true] at he
            exact (mk.inj he).1.symm
      subst hlog
      rw [applyUpdate, he]
      simp [afterUpdate, hu, map_eq_pure_bind, mk_bind, pure_def]
  | counterEntry | directCounterEntry | other => simp [applyUpdate, updateStatus, afterUpdate, hu]
  | digestEntry entry =>
      simp only [updateStatus, hu, pure_def, mk.injEq, Except.ok.injEq] at he
      simp [← he.2] at hs

theorem applyUpdate_idMap {update : Update} {log : List Effect}
    (h : applyUpdate dm update = ⟨log, .ok dm'⟩) : dm'.idMap = dm.idMap := by
  rw [applyUpdate_frame h]

theorem applyAll_of_fails {update : Update} (before after : List Update)
    (h : UpdateFails dm update) :
    applyAll dm (before ++ update :: after) = applyAll dm (before ++ after) := by
  induction before generalizing dm with
  | nil => rw [List.nil_append, List.nil_append, applyAll, applyUpdate_of_fails h, pure_bind]
  | cons first before ih =>
      rw [List.cons_append, List.cons_append, applyAll, applyAll]
      generalize hrun : applyUpdate dm first = run
      obtain ⟨log, f | dm'⟩ := run
      · rfl
      · have h' : UpdateFails dm' update := by
          rwa [UpdateFails, updateStatus_congr (applyUpdate_idMap hrun)]
        rw [mk_bind, mk_bind, ih h']

theorem insertClean_congr {entry : TableEntry} {elem : Element} (hid : dm'.idMap = dm.idMap)
    (h : InsertClean dm entry elem) : InsertClean dm' entry elem where
  table := by rw [TableResolves, hid]; exact h.table
  fields := h.fields
  params := fun action actionElem ha => h.params action actionElem ⟨ha.1, hid ▸ ha.2⟩

theorem updateClean_congr {update : Update} (hid : dm'.idMap = dm.idMap)
    (h : UpdateClean dm update) : UpdateClean dm' update := by
  cases hu : update.entity with
  | tableEntry entry =>
      rw [UpdateClean, hu] at h ⊢
      intro ht
      obtain ⟨elem, hc⟩ := h ht
      exact ⟨elem, insertClean_congr hid hc⟩
  | counterEntry | directCounterEntry | digestEntry | other => simp [UpdateClean, hu]

theorem tableInsert_returns {entry : TableEntry} {elem : Element} (hc : InsertClean dm entry elem) :
    ∃ log status, tableInsert dm entry = ⟨log, .ok status⟩ := by
  by_cases hi : Installs (tableInsert dm entry)
  · obtain ⟨msg, status, he, -⟩ := hi
    exact ⟨_, status, he⟩
  · obtain ⟨status, he, -⟩ := (refuses_iff hc).mpr hi
    exact ⟨_, status, he⟩

theorem applyUpdate_returns {update : Update} (h : UpdateClean dm update) :
    ∃ log, applyUpdate dm update = ⟨log, .ok (afterUpdate dm update)⟩ := by
  have hstatus : ∃ log status, updateStatus dm update = ⟨log, .ok status⟩ := by
    cases hu : update.entity with
    | tableEntry entry =>
        cases ht : update.type with
        | insert =>
            simp only [updateStatus, hu, tableWrite, checkP4Id, ht, if_true]
            rw [UpdateClean, hu] at h
            obtain ⟨elem, hc⟩ := h ht
            exact tableInsert_returns hc
        | unspecified | modify | delete | unrecognized =>
            simp [updateStatus, hu, tableWrite, checkP4Id, ht, pure_def]
    | counterEntry | directCounterEntry | digestEntry | other => simp [updateStatus, hu, pure_def]
  obtain ⟨log, status, he⟩ := hstatus
  exact ⟨log ++ [], by rw [applyUpdate, he, map_eq_pure_bind, mk_bind]; rfl⟩

theorem applyAll_returns {updates : List Update}
    (h : ∀ update ∈ updates, UpdateClean dm update) :
    ∃ log dm', applyAll dm updates = ⟨log, .ok dm'⟩ := by
  induction updates generalizing dm with
  | nil => exact ⟨[], dm, rfl⟩
  | cons update updates ih =>
      obtain ⟨hone, hrest⟩ := List.forall_mem_cons.mp h
      obtain ⟨log, he⟩ := applyUpdate_returns hone
      have hid := applyUpdate_idMap he
      obtain ⟨log', dm', he'⟩ := ih fun u hu => updateClean_congr hid (hrest u hu)
      exact ⟨log ++ log', dm', by rw [applyAll, he, mk_bind, he']⟩

theorem batchIsolated (hp : server.dm.hasP4info = true)
    (ha : request.atomicity = .continueOnError)
    (h : ∀ update ∈ request.updates, UpdateClean server.dm update) :
    BatchIsolated server request where
  sequential := by
    obtain ⟨log, dm', he⟩ := applyAll_returns h
    refine ⟨log ++ [], { server with dm := dm' }, .write Status.success, ?_, ?_⟩
    · rw [serveWrite_eq hp ha, he, map_eq_pure_bind, mk_bind]
      rfl
    · rw [serveAll_singles hp ha, he, map_eq_pure_bind, mk_bind]
      rfl
  silent := fun update hf => by
    refine ⟨.write Status.success, ?_⟩
    rw [single, @serveWrite_eq server { request with updates := [update] } hp ha, applyAll,
      applyUpdate_of_fails hf, pure_bind]
    rfl
  removable := fun before update after he hf => by
    rw [serveWrite_eq hp ha, he, applyAll_of_fails before after hf,
      @serveWrite_eq server { request with updates := before ++ after } hp ha]

theorem serveWrite_rejected
    (h : ¬(server.dm.hasP4info = true ∧ request.atomicity = .continueOnError)) :
    ∃ reply, serve server (.write request) = ⟨[], .ok (server, reply)⟩ ∧
      reply.status.ok = false := by
  by_cases hp : server.dm.hasP4info = true
  · have ha : request.atomicity ≠ .continueOnError := fun ha => h ⟨hp, ha⟩
    refine ⟨.write (Status.make .unimplemented "Not implemented"), ?_, rfl⟩
    rw [serve, serviceWrite, if_neg (by simp [hp]), devMgrWrite, if_neg ha]
    rfl
  · refine ⟨.write noPipelineConfigStatus, ?_, rfl⟩
    rw [serve, serviceWrite, if_pos (by simpa using hp)]
    rfl

theorem serveWrite_frame {log : List Effect} {reply : Reply}
    (h : serve server (.write request) = ⟨log, .ok (server', reply)⟩) :
    WriteFrame server server' := by
  by_cases hc : server.dm.hasP4info = true ∧ request.atomicity = .continueOnError
  · rw [serveWrite_eq hc.1 hc.2, map_eq_pure_bind] at h
    obtain ⟨_, dm', _, hall, hret, -⟩ := bind_eq_ok_iff.mp h
    simp only [pure_eq_ok_iff, Prod.mk.injEq] at hret
    have hframe := applyAll_frame hall
    rw [WriteFrame, ← hret.2.1, hframe]
  · obtain ⟨reply', he, -⟩ := serveWrite_rejected hc
    obtain ⟨-, rfl, -⟩ : log = [] ∧ server = server' ∧ reply' = reply := by
      simpa using he.symm.trans h
    rfl

theorem batch_writes_isolated (server : Server) (request : WriteRequest) :
    (server.dm.hasP4info = true → request.atomicity = .continueOnError →
        (∀ update ∈ request.updates, UpdateClean server.dm update) →
        BatchIsolated server request) ∧
      (∀ log server' reply, serve server (.write request) = ⟨log, .ok (server', reply)⟩ →
        WriteFrame server server') ∧
      (request.atomicity ≠ .continueOnError →
        ∃ reply, serve server (.write request) = ⟨[], .ok (server, reply)⟩ ∧
          reply.status.ok = false) :=
  ⟨batchIsolated, fun _ _ _ => serveWrite_frame, fun ha => serveWrite_rejected fun hc => ha hc.2⟩

namespace BatchWrite

def unknownAction : TableEntry :=
  { StatusEffect.rangeThenExact with action := .action { actionId := 7, params := [] } }

def insertModifyDigest : WriteRequest :=
  { deviceId := 1
    updates :=
      [{ type := .insert, entity := .tableEntry unknownAction },
       { type := .insert, entity := .tableEntry StatusEffect.rangeThenExact },
       { type := .modify, entity := .tableEntry StatusEffect.rangeThenExact },
       { type := .insert, entity := .digestEntry { digestId := 1 } }]
    atomicity := .continueOnError }

theorem unknownAction_clean :
    InsertClean L2fwd.server.dm unknownAction (StatusEffect.elementOf L2fwd.server 33610402) where
  table := StatusEffect.rangeThenExact_resolves.table
  fields := StatusEffect.rangeThenExact_resolves.clean.fields
  params := by
    rintro action actionElem ⟨ha, he⟩
    obtain rfl := TableAction.action.inj ha
    have hn : getElement L2fwd.server.dm.idMap 7 = none := by decide
    cases hn.symm.trans he

theorem batch_insertModifyDigest : BatchIsolated L2fwd.server insertModifyDigest := by
  apply (batch_writes_isolated L2fwd.server insertModifyDigest).1 rfl rfl
  intro update hu
  simp only [insertModifyDigest, List.mem_cons, List.not_mem_nil, or_false] at hu
  rcases hu with rfl | rfl | rfl | rfl
  · exact fun _ => ⟨_, unknownAction_clean⟩
  · exact fun _ => ⟨_, StatusEffect.rangeThenExact_resolves.clean⟩
  · exact fun ht => by cases ht
  · exact trivial

end BatchWrite

end Device
