import T4P4SRuntime.Device.InsertSpec
import T4P4SRuntime.L2fwd

namespace Device

open IdMap P4v1 Exec

variable {dm dm' : DeviceMgr}

def updateStatus (dm : DeviceMgr) (update : Update) : Run Status :=
  match update.entity with
  | .tableEntry entry => tableWrite dm update.type entry
  | .counterEntry entry => pure (counterWrite update.type entry)
  | .directCounterEntry | .digestEntry _ => pure Status.success
  | .other => pure (Status.make .unknown "Entity case is unknown")

def UpdateSucceeds (dm : DeviceMgr) (update : Update) : Prop :=
  ∃ log status, updateStatus dm update = ⟨log, .ok status⟩ ∧ status.ok = true

def WriteReports (dm : DeviceMgr) (request : WriteRequest) : Prop :=
  ∃ log dm' status, devMgrWrite dm request = ⟨log, .ok (dm', status)⟩ ∧
    (status.ok = true ↔ ∀ update ∈ request.updates, UpdateSucceeds dm update)

theorem tableInsert_congr (h : dm.idMap = dm'.idMap) (entry : TableEntry) :
    tableInsert dm entry = tableInsert dm' entry := by
  simp only [tableInsert, h]

theorem updateStatus_congr (h : dm.idMap = dm'.idMap) (update : Update) :
    updateStatus dm update = updateStatus dm' update := by
  cases hu : update.entity with
  | tableEntry entry =>
      cases ht : update.type <;> simp [updateStatus, hu, tableWrite, ht, tableInsert_congr h]
  | counterEntry | directCounterEntry | digestEntry | other => simp [updateStatus, hu]

theorem counterWrite_fails (type : UpdateType) (entry : CounterEntry) :
    (counterWrite type entry).ok = false := by
  rw [counterWrite]
  cases entry.index with
  | none => rfl
  | some index =>
      by_cases hi : index < 0
      · simp [checkP4Id, hi, Status.make, Status.ok]
      · simp [checkP4Id, hi, Status.make, Status.ok]

def InsertAccepted (dm : DeviceMgr) (entry : TableEntry) : Prop :=
  ∃ elem, InsertClean dm entry elem ∧
    (∃ action actionElem, ActionResolves dm entry action actionElem) ∧
    ¬RejectionStands entry.matchList

theorem tableInsert_succeeds_iff (entry : TableEntry) :
    (∃ log status, tableInsert dm entry = ⟨log, .ok status⟩ ∧ status.ok = true) ↔
      InsertAccepted dm entry := by
  constructor
  · rintro ⟨log, status, he, hs⟩
    by_cases hc : ∃ elem, InsertClean dm entry elem
    · obtain ⟨elem, hc⟩ := hc
      refine ⟨elem, hc, (installs_iff hc).mp ?_⟩
      by_contra hn
      obtain ⟨status', he', hs'⟩ := (refuses_iff hc).mpr hn
      rw [he] at he'
      obtain ⟨-, rfl⟩ : log = [] ∧ status = status' := by simpa using he'
      simp [hs] at hs'
    · have hc' : ∀ elem, ¬InsertClean dm entry elem := fun elem h => hc ⟨elem, h⟩
      obtain ⟨f, hf⟩ := tableInsert_faults hc'
      simp [he, fault] at hf
  · rintro ⟨elem, hc, hacc⟩
    obtain ⟨msg, status, he, hs⟩ := (installs_iff hc).mpr hacc
    exact ⟨_, status, he, hs⟩

def UpdateAcceptable (dm : DeviceMgr) (update : Update) : Prop :=
  match update.entity with
  | .tableEntry entry => update.type = .insert ∧ InsertAccepted dm entry
  | .directCounterEntry | .digestEntry _ => True
  | .counterEntry _ | .other => False

theorem updateSucceeds_iff (update : Update) :
    UpdateSucceeds dm update ↔ UpdateAcceptable dm update := by
  cases hu : update.entity with
  | tableEntry entry =>
      cases ht : update.type with
      | insert =>
          simpa [UpdateSucceeds, UpdateAcceptable, updateStatus, tableWrite, checkP4Id, hu, ht]
            using tableInsert_succeeds_iff entry
      | unspecified | modify | delete | unrecognized =>
          simp [UpdateSucceeds, UpdateAcceptable, updateStatus, tableWrite, checkP4Id, hu, ht,
            tableModify, tableDelete, Status.make, Status.ok, pure_def]
  | counterEntry entry =>
      simp [UpdateSucceeds, UpdateAcceptable, updateStatus, hu, pure_def, counterWrite_fails]
  | directCounterEntry | digestEntry =>
      simp [UpdateSucceeds, UpdateAcceptable, updateStatus, hu, pure_def]
  | other =>
      simp [UpdateSucceeds, UpdateAcceptable, updateStatus, hu, pure_def, Status.make, Status.ok]

theorem writeOne_of_succeeds {update : Update} (h : UpdateSucceeds dm update) (status : Status) :
    ∃ log dm' status', writeOne dm update status = ⟨log, .ok (dm', status')⟩ ∧
      dm'.idMap = dm.idMap := by
  obtain ⟨log, s, he, -⟩ := h
  cases hu : update.entity with
  | tableEntry entry =>
      simp only [updateStatus, hu] at he
      exact ⟨log ++ [], dm, s, by simp [writeOne, hu, he, mk_bind, pure_def], rfl⟩
  | counterEntry entry =>
      exact ⟨[], dm, counterWrite update.type entry, by rw [writeOne, hu]; rfl, rfl⟩
  | directCounterEntry => exact ⟨[], dm, status, by rw [writeOne, hu]; rfl, rfl⟩
  | digestEntry entry =>
      exact ⟨[], { dm with digestMap := activateDigest dm.digestMap entry.digestId.toUInt64 },
        status, by rw [writeOne, hu]; rfl, rfl⟩
  | other =>
      exact ⟨[], dm, Status.make .unknown "Entity case is unknown", by rw [writeOne, hu]; rfl, rfl⟩

theorem writeLoop_of_succeeds (updates : List Update) (status : Status)
    (reporter : P4ErrorReporter) (h : ∀ update ∈ updates, UpdateSucceeds dm update) :
    ∃ log dm', writeLoop dm updates status reporter = ⟨log, .ok (dm', reporter)⟩ := by
  induction updates generalizing dm status with
  | nil => exact ⟨[], dm, rfl⟩
  | cons update updates ih =>
      obtain ⟨log, dm', status', he, hid⟩ := writeOne_of_succeeds (h update (by simp)) status
      have hrest : ∀ u ∈ updates, UpdateSucceeds dm' u := fun u hu => by
        obtain ⟨log, s, hs⟩ := h u (by simp [hu])
        exact ⟨log, s, by rwa [updateStatus_congr hid]⟩
      obtain ⟨log', dm'', hloop⟩ := ih status' hrest
      exact ⟨log ++ log', dm'', by
        simp [writeLoop, he, mk_bind, P4ErrorReporter.pushBack, hloop]⟩

theorem writeLoop_reporter {updates : List Update} {status : Status} {log : List Effect}
    {reporter reporter' : P4ErrorReporter}
    (h : writeLoop dm updates status reporter = ⟨log, .ok (dm', reporter')⟩) :
    reporter' = reporter := by
  induction updates generalizing dm status log with
  | nil =>
      simp only [writeLoop, pure_eq_ok_iff, Prod.mk.injEq] at h
      exact h.2.2.symm
  | cons update updates ih =>
      rw [writeLoop, bind_eq_ok_iff] at h
      obtain ⟨_, ⟨dm₁, status₁⟩, _, -, hrest, -⟩ := h
      exact ih hrest

theorem devMgrWrite_ok {request : WriteRequest} {log : List Effect} {status : Status}
    (ha : request.atomicity = .continueOnError)
    (h : devMgrWrite dm request = ⟨log, .ok (dm', status)⟩) : status = Status.success := by
  rw [devMgrWrite, if_pos ha, bind_eq_ok_iff] at h
  obtain ⟨_, ⟨dm₁, reporter⟩, _, hloop, hret, -⟩ := h
  have hr := writeLoop_reporter hloop
  simp only [pure_eq_ok_iff, Prod.mk.injEq] at hret
  rw [← hret.2.2, hr]
  rfl

theorem write_reports_iff {request : WriteRequest} (ha : request.atomicity = .continueOnError) :
    WriteReports dm request ↔ ∀ update ∈ request.updates, UpdateAcceptable dm update := by
  constructor
  · rintro ⟨log, dm', status, he, hiff⟩ update hu
    have hs : status = Status.success := devMgrWrite_ok ha he
    exact (updateSucceeds_iff update).mp (hiff.mp (by simp [hs]) update hu)
  · intro h
    have hall : ∀ update ∈ request.updates, UpdateSucceeds dm update := fun update hu =>
      (updateSucceeds_iff update).mpr (h update hu)
    obtain ⟨log, dm', hloop⟩ :=
      writeLoop_of_succeeds request.updates Status.success P4ErrorReporter.empty hall
    refine ⟨log ++ [], dm', P4ErrorReporter.empty.getStatus, ?_, ?_⟩
    · simp [devMgrWrite, ha, hloop, mk_bind, pure_def]
    · exact iff_of_true rfl hall

namespace WriteReport

def modifyDmac : WriteRequest :=
  { deviceId := 1
    updates :=
      [{ type := .modify
         entity := .tableEntry
           { tableId := 33610402, matchList := [], action := .notSet, isDefaultAction := false } }]
    atomicity := .continueOnError }

theorem write_reports_modifyDmac :
    WriteReports L2fwd.server.dm modifyDmac ↔
      ∀ update ∈ modifyDmac.updates, UpdateAcceptable L2fwd.server.dm update :=
  write_reports_iff rfl

theorem write_hides_failure :
    Reachable 1 L2fwd.server (some L2fwd.p4info) ∧
      modifyDmac.atomicity = .continueOnError ∧
      ¬WriteReports L2fwd.server.dm modifyDmac := by
  refine ⟨L2fwd.reachable_server, rfl, ?_⟩
  rintro ⟨log, dm', status, he, hiff⟩
  have hs : status = Status.success := devMgrWrite_ok rfl he
  obtain ⟨log, status', he', hs'⟩ := hiff.mp (by simp [hs]) _ (List.mem_singleton.mpr rfl)
  obtain ⟨-, rfl⟩ : log = [] ∧ status' = tableModify := by
    simpa [updateStatus, tableWrite, checkP4Id, pure_def, eq_comm] using he'
  simp [tableModify, Status.make, Status.ok] at hs'

end WriteReport

end Device
