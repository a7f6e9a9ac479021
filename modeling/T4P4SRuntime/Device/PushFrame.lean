import T4P4SRuntime.Device.PushOutcome

namespace Device

open IdMap P4Config P4v1 Exec Probing Parking

variable {map : Map} {server server' : Server} {p4info : P4Info} {disk : Disk}
  {config : ForwardingPipelineConfig} {request : SetForwardingPipelineConfigRequest}

structure StateUnchanged (server server' : Server) : Prop extends
    PipelineUnchanged server server' where
  device_id : server'.dm.deviceId = server.dm.deviceId
  has_p4info : server'.dm.hasP4info = server.dm.hasP4info

def ChangesNothing (disk : Disk) (server : Server) (request : SetForwardingPipelineConfigRequest) :
    Prop :=
  ∃ log server' reply,
    serve server (.setForwardingPipelineConfig request disk) = ⟨log, .ok (server', reply)⟩ ∧
      StateUnchanged server server'

structure FindsNone (map : Map) (p4info : P4Info) : Prop where
  tables : ∀ table, p4info.tables.head? = some table →
    vacantSlot map table.preamble.id.toUInt64 = none
  others : ∀ d ∈ p4info.actions.map actionDecl ++ p4info.counters.map counterDecl,
    vacantSlot map d.id.toUInt64 = none ∧ d.args = []

def SavesSame (disk : Disk) (file : ConfigFile) (config : ForwardingPipelineConfig) : Prop :=
  if disk.tmpfile then
    file.fp.map TmpFile.content = some (disk.fwrite config.p4DeviceConfig) ∧
      file.size = config.p4DeviceConfig.length
  else file.fp = none

structure QuietConfig (disk : Disk) (server : Server) (config : ForwardingPipelineConfig) :
    Prop where
  finds_none : FindsNone server.dm.idMap config.p4info
  p4info : server.dm.p4info = config.p4info
  has_p4info : server.dm.hasP4info = true
  digests : server.dm.digestMap = inactiveDigests config.p4info.digests
  saved : SavesSame disk server.savedDeviceConfig config
  has_cookie : server.hasConfigCookie = true
  cookie : server.configCookie = config.cookie.getD 0

structure Quiet (disk : Disk) (server : Server) (request : SetForwardingPipelineConfigRequest) :
    Prop where
  device_id : request.deviceId = server.dm.deviceId
  config : ConfigAction.applied request.action = true → QuietConfig disk server request.config

theorem registerAll_full (ds : List Decl) (h : ∀ d ∈ ds, vacantSlot map d.id.toUInt64 = none) :
    registerAll map ds = if ∀ d ∈ ds, d.args = [] then pure map else fault .nullElement := by
  induction ds with
  | nil => simp [registerAll]
  | cons d ds ih =>
      obtain ⟨hd, hds⟩ := List.forall_mem_cons.mp h
      rw [registerAll, register_full hd]
      rcases eq_or_ne d.args [] with hargs | hargs
      · simp only [hargs, if_true, pure_bind, List.forall_mem_cons, true_and]
        exact ih hds
      · simp [hargs]

theorem findsSlot_nil (d : Decl) :
    FindsSlot map [] d ↔ vacantSlot map d.id.toUInt64 ≠ none := by
  have h := @findsSlot_iff map [] d
  exact h

theorem addedDecls_of_findsNone (h : FindsNone map p4info) :
    addedDecls map p4info = p4info.actions.map actionDecl ++ p4info.counters.map counterDecl := by
  have htried : triedTables map [] (p4info.tables.map tableDecl) = [] := by
    cases ht : p4info.tables with
    | nil => rfl
    | cons table tables =>
        have hno : ¬FindsSlot map [] (tableDecl table) := by
          rw [findsSlot_nil, not_not]
          exact h.tables table (by simp [ht])
        rw [List.map_cons, triedTables, if_neg hno]
  rw [addedDecls, triedDecls, htried, List.nil_append]

theorem vacantSlot_of_load (h : loadP4info map p4info = pure map) :
    ∀ d ∈ addedDecls map p4info, vacantSlot map d.id.toUInt64 = none := by
  by_cases hok : (∀ d ∈ addedDecls map p4info, d.Fits) ∧ SlotsFound map [] (addedDecls map p4info)
  · rw [loadP4info_fitted (fitDecls_val _ hok.1) hok.2] at h
    have hmap : registered map (fitDecls _ hok.1) = map := by simpa [pure_def] using h
    have hself : insertAll scheme map.data ((fitDecls _ hok.1).map FitDecl.element) = map.data :=
      congrArg Map.data hmap
    intro d hd
    have hmem : (⟨d, hok.1 d hd⟩ : FitDecl) ∈ fitDecls _ hok.1 := by
      simpa [fitDecls, List.mem_attachWith] using hd
    have hfull := (insertAll_eq_self_iff _).mp hself (FitDecl.element ⟨d, hok.1 d hd⟩)
      (List.mem_map_of_mem hmem)
    rw [vacantSlot_eq]
    exact hfull
  · obtain ⟨f, hf⟩ := loadP4info_faults hok
    rw [hf] at h
    simp [fault, pure_def] at h

theorem load_unchanged_iff : loadP4info map p4info = pure map ↔ FindsNone map p4info := by
  constructor
  · intro h
    have hvacant := vacantSlot_of_load h
    rw [loadP4info_added, registerAll_full _ hvacant] at h
    have hargs : ∀ d ∈ addedDecls map p4info, d.args = [] := by
      by_contra hne
      rw [if_neg hne] at h
      simp [fault, pure_def] at h
    refine ⟨fun table ht => ?_, fun d hd => ?_⟩
    · obtain ⟨rest, htables⟩ := List.head?_eq_some_iff.mp ht
      by_contra hne
      have hfinds : FindsSlot map [] (tableDecl table) := (findsSlot_nil _).mpr hne
      refine hne (hvacant (tableDecl table) ?_)
      simp [addedDecls, triedDecls, htables, triedTables, hfinds]
    · have hmem : d ∈ addedDecls map p4info := by
        rw [addedDecls, triedDecls, List.append_assoc]
        exact List.mem_append_right _ hd
      exact ⟨hvacant d hmem, hargs d hmem⟩
  · intro h
    rw [loadP4info_added, addedDecls_of_findsNone h,
      registerAll_full _ fun d hd => (h.others d hd).1, if_pos fun d hd => (h.others d hd).2]

theorem savesSame_iff (file : ConfigFile) :
    SavedAs file (file.changeConfig disk config).1 ↔ SavesSame disk file config := by
  rw [SavesSame, ConfigFile.changeConfig]
  cases disk.tmpfile with
  | true =>
      have hwritten : (if config.p4DeviceConfig.length > 0 then disk.fwrite config.p4DeviceConfig
          else []) = disk.fwrite config.p4DeviceConfig := by
        cases hd : config.p4DeviceConfig with
        | nil => cases hs : disk.shortWrite <;> simp [Disk.fwrite, hs]
        | cons b bs => simp
      simp only [if_true, hwritten]
      constructor
      · rintro ⟨hcontent, hsize⟩
        exact ⟨hcontent.symm, hsize.symm⟩
      · rintro ⟨hcontent, hsize⟩
        exact ⟨hcontent.symm, hsize.symm⟩
  | false =>
      simp only [Bool.false_eq_true, if_false]
      constructor
      · rintro ⟨hcontent, -⟩
        cases hfp : file.fp with
        | none => rfl
        | some f => simp [hfp] at hcontent
      · intro hfp
        exact ⟨by simp [hfp], rfl⟩

theorem configured_unchanged_iff (deviceId : UInt64) :
    StateUnchanged server (configured disk (withDeviceId server deviceId) config map) ↔
      deviceId = server.dm.deviceId ∧ map = server.dm.idMap ∧
        config.p4info = server.dm.p4info ∧ true = server.dm.hasP4info ∧
        inactiveDigests config.p4info.digests = server.dm.digestMap ∧
        SavesSame disk server.savedDeviceConfig config ∧ true = server.hasConfigCookie ∧
        config.cookie.getD 0 = server.configCookie := by
  rw [← savesSame_iff]
  constructor
  · rintro ⟨⟨hmap, hinfo, hdigests, hsaved, hhas, hcookie⟩, hid, hp⟩
    exact ⟨hid, hmap, hinfo, hp, hdigests, hsaved, hhas, hcookie⟩
  · rintro ⟨hid, hmap, hinfo, hp, hdigests, hsaved, hhas, hcookie⟩
    exact ⟨⟨hmap, hinfo, hdigests, hsaved, hhas, hcookie⟩, hid, hp⟩

theorem serve_set_of_load {map' : Map} (ha : ConfigAction.applied request.action = true)
    (hload : loadP4info server.dm.idMap request.config.p4info = pure map') :
    serve server (.setForwardingPipelineConfig request disk) =
      ⟨[], .ok (configured disk (withDeviceId server request.deviceId) request.config map',
        .setForwardingPipelineConfig (Status.make .ok "ok"))⟩ := by
  have hset := @devMgrSetPipelineConfig_of_load disk (withDeviceId server request.deviceId) _ _ _ ha
    hload
  rw [serve, serviceSetForwardingPipelineConfig]
  rw [withDeviceId] at hset ⊢
  rw [hset, mk_bind]
  rfl

theorem serve_set_of_not_applied (ha : ConfigAction.applied request.action = false) :
    serve server (.setForwardingPipelineConfig request disk) =
      ⟨[], .ok (withDeviceId server request.deviceId,
        .setForwardingPipelineConfig (Status.make .ok "ok"))⟩ := by
  rw [serve, serviceSetForwardingPipelineConfig, devMgrSetPipelineConfig, if_neg (by simp [ha])]
  rfl

theorem noncommitting_push_unchanged_iff
    (ha : request.action = .verify ∨ ConfigAction.applied request.action = false) :
    ChangesNothing disk server request ↔ Quiet disk server request := by
  constructor
  · rintro ⟨log, server', reply, he, hun⟩
    obtain ⟨-, -, hpushed⟩ := serve_set_ok he
    cases hpushed with
    | applied happlied hload =>
        obtain ⟨hid, rfl, hinfo, hp, hdigests, hsaved, hhas, hcookie⟩ :=
          (configured_unchanged_iff request.deviceId).mp hun
        exact ⟨hid, fun _ => ⟨load_unchanged_iff.mp hload, hinfo.symm, hp.symm, hdigests.symm, hsaved,
          hhas.symm, hcookie.symm⟩⟩
    | ignored hn => exact ⟨hun.device_id, fun happlied => by simp [hn] at happlied⟩
  · intro hq
    rcases ha with hverify | hn
    · have happlied : ConfigAction.applied request.action = true := by rw [hverify]; rfl
      have hc := hq.config happlied
      refine ⟨_, _, _, serve_set_of_load happlied (load_unchanged_iff.mpr hc.finds_none), ?_⟩
      exact (configured_unchanged_iff request.deviceId).mpr ⟨hq.device_id, rfl, hc.p4info.symm,
        hc.has_p4info.symm, hc.digests.symm, hc.saved, hc.has_cookie.symm, hc.cookie.symm⟩
    · exact ⟨_, _, _, serve_set_of_not_applied hn,
        { id_map := rfl, p4info := rfl, digest_map := rfl, saved := ⟨rfl, rfl⟩, has_cookie := rfl,
          cookie := rfl, device_id := hq.device_id, has_p4info := rfl }⟩

namespace PushFrame

def verifyEmpty : SetForwardingPipelineConfigRequest :=
  { L2fwd.pushOf P4Info.empty with action := .verify }

theorem verify_unchanged_verifyEmpty :
    ChangesNothing Disk.reliable L2fwd.server verifyEmpty ↔
      Quiet Disk.reliable L2fwd.server verifyEmpty :=
  noncommitting_push_unchanged_iff (Or.inl rfl)

theorem verify_replaces_config :
    Reachable 1 L2fwd.server (some L2fwd.p4info) ∧ verifyEmpty.action = .verify ∧
      ¬ChangesNothing Disk.reliable L2fwd.server verifyEmpty := by
  refine ⟨L2fwd.reachable_server, rfl, ?_⟩
  rintro ⟨log, server', reply, he, hun⟩
  obtain ⟨-, -, hpushed⟩ := serve_set_ok he
  cases hpushed with
  | applied _ _ =>
      have hinfo : P4Info.empty = L2fwd.server.dm.p4info := hun.p4info
      exact absurd hinfo (by decide)
  | ignored hn => cases hn

end PushFrame

end Device
