import T4P4SRuntime.Device.Registration
import T4P4SRuntime.IdMap.Bindings
import T4P4SRuntime.L2fwd

namespace Device

open IdMap P4Config P4v1 Exec Parking FirstBinding

def addCalls (p4info : P4Info) : List AddCall :=
  (declarations p4info).map (fun d => (d.id.toUInt64, cStr d.name))

structure WellDeclared (p4info : P4Info) : Prop where
  ids : ((declarations p4info).map Decl.id).Nodup
  arg_count : ∀ d ∈ declarations p4info, d.args.length ≤ maxArgs
  arg_ids : ∀ d ∈ declarations p4info, (d.args.map FieldDecl.id).Nodup
  arg_names : ∀ d ∈ declarations p4info, ∀ f ∈ d.args, strlen (cStr f.name) < maxNameSize

def storedBitwidth (f : FieldDecl) : UInt64 := f.bitwidth.toInt64.toUInt64

structure Resolved (elem : Element) (d : Decl) : Prop where
  name : elem.value = cStr d.name
  args : elem.args.map (fun a => (a.id, a.name, a.bitwidth)) =
    d.args.map (fun f => (f.id.toUInt64, cStr f.name, storedBitwidth f))
  declared : ∀ f ∈ d.args, ∃ arg, getArgument elem f.id.toUInt64 = some arg ∧
    arg.name = cStr f.name ∧ arg.bitwidth = storedBitwidth f
  undeclared : ∀ id, (∀ f ∈ d.args, f.id.toUInt64 ≠ id) → getArgument elem id = none

theorem toUInt64_injective {a b : UInt32} (h : a.toUInt64 = b.toUInt64) : a = b := by
  simpa using congrArg UInt64.toUInt32 h

theorem nodup_toUInt64 {A : Type} {f : A → UInt32} {l : List A} (h : (l.map f).Nodup) :
    (l.map (fun a => (f a).toUInt64)).Nodup := by
  have hm := h.map (f := UInt32.toUInt64) fun a b hab => toUInt64_injective hab
  simpa [Function.comp_def] using hm

theorem element_args (d : FitDecl) :
    d.element.args.map (fun a => (a.id, a.name, a.bitwidth)) =
      d.val.args.map (fun f => (f.id.toUInt64, cStr f.name, storedBitwidth f)) := by
  simp [FitDecl.element, List.map_pmap, argumentOf, storedBitwidth]

theorem getArgument_triple (elem : Element) (id : UInt64) :
    (getArgument elem id).map (fun a => (a.id, a.name, a.bitwidth)) =
      (elem.args.map (fun a => (a.id, a.name, a.bitwidth))).find? (fun t => t.1 = id) := by
  rw [List.find?_map, getArgument]
  rfl

theorem element_resolved (d : FitDecl) (hn : (d.val.args.map FieldDecl.id).Nodup) :
    Resolved d.element d.val where
  name := rfl
  args := element_args d
  declared := fun f hf => by
    have hfind : d.val.args.find? (fun g => g.id.toUInt64 = f.id.toUInt64) = some f :=
      find?_of_nodup (nodup_toUInt64 hn) hf
    have ht := getArgument_triple d.element f.id.toUInt64
    rw [element_args, List.find?_map] at ht
    simp only [Function.comp_def, hfind, Option.map_some, Option.map_eq_some_iff,
      Prod.mk.injEq] at ht
    obtain ⟨arg, ha, -, hname, hwidth⟩ := ht
    exact ⟨arg, ha, hname, hwidth⟩
  undeclared := fun id hid => by
    have ht := getArgument_triple d.element id
    rw [element_args, List.find?_map] at ht
    have hnone : d.val.args.find? (fun f => f.id.toUInt64 = id) = none := by
      simpa [List.find?_eq_none] using hid
    simpa [Function.comp_def, hnone] using ht

theorem placed_of_addElements (calls : List AddCall) {map : Map}
    (h : ∀ r ∈ (addElements map calls).1, r ≠ none) :
    AllPlaced scheme map.data (calls.map (fun c => newElement c.1 c.2)) := by
  induction calls generalizing map with
  | nil => trivial
  | cons c cs ih =>
      simp only [addElements, List.mem_cons, forall_eq_or_imp, addElement_eq] at h
      exact ⟨h.1, ih h.2⟩

def fitDecls (ds : List Decl) (h : ∀ d ∈ ds, d.Fits) : List FitDecl := ds.attachWith Decl.Fits h

theorem fitDecls_val (ds : List Decl) (h : ∀ d ∈ ds, d.Fits) :
    (fitDecls ds h).map Subtype.val = ds := List.attachWith_map_subtype_val h

theorem placed_of_calls {p4info : P4Info} {map : Map} {ds : List FitDecl}
    (hd : ds.map Subtype.val = declarations p4info)
    (h : ∀ r ∈ (addElements map (addCalls p4info)).1, r ≠ none) :
    AllPlaced scheme map.data (ds.map FitDecl.element) := by
  have hp := placed_of_addElements _ h
  refine (allPlaced_congr ?_).mp hp
  simp only [addCalls, ← hd, List.map_map]
  rfl

theorem p4info_resolution_complete {disk : Disk} {server : Server} {action : ConfigAction}
    {config : ForwardingPipelineConfig} (hfresh : server.dm.idMap = initMap)
    (ha : ConfigAction.applied action = true) (hw : WellDeclared config.p4info)
    (hadd : ∀ r ∈ (addElements initMap (addCalls config.p4info)).1, r ≠ none) :
    ∃ server', devMgrSetPipelineConfig disk server action config =
        ⟨[], .ok (server', Status.make .ok "ok")⟩ ∧
      (∀ d ∈ declarations config.p4info, ∃ elem,
        getElement server'.dm.idMap d.id.toUInt64 = some elem ∧ Resolved elem d) ∧
      ∀ k, (∀ d ∈ declarations config.p4info, d.id.toUInt64 ≠ k) →
        getElement server'.dm.idMap k = none := by
  have hfits : ∀ d ∈ declarations config.p4info, d.Fits := fun d hd =>
    ⟨hw.arg_count d hd, hw.arg_names d hd⟩
  have hds := fitDecls_val _ hfits
  have hplaced := placed_of_calls hds hadd
  have hload := loadP4info_eq _ hds.symm hplaced
  have hget : ∀ k, getElement (registered initMap (fitDecls _ hfits)) k =
      ((fitDecls _ hfits).find? (fun d => d.val.id.toUInt64 = k)).map FitDecl.element := by
    intro k
    rw [getElement_registered _ Probing.Scheme.packed_empty hplaced, getElement_initMap,
      Option.none_or]
  refine ⟨configured disk server config (registered initMap (fitDecls _ hfits)),
    devMgrSetPipelineConfig_of_load ha (by rw [hfresh, hload]), fun d hd => ?_, fun k hk => ?_⟩
  · have hnodup : ((fitDecls _ hfits).map (fun d => d.val.id)).Nodup := by
      have hid := hw.ids
      rwa [← hds, List.map_map] at hid
    have hmem : (⟨d, hfits d hd⟩ : FitDecl) ∈ fitDecls _ hfits := by
      simpa [fitDecls, List.mem_attachWith] using hd
    refine ⟨FitDecl.element ⟨d, hfits d hd⟩, ?_, element_resolved _ (hw.arg_ids d hd)⟩
    rw [configured, hget, find?_of_nodup (f := fun d : FitDecl => d.val.id.toUInt64)
      (nodup_toUInt64 hnodup) hmem]
    rfl
  · rw [configured, hget, List.find?_eq_none.mpr, Option.map_none]
    intro d hd
    have hdv : d.val ∈ declarations config.p4info := by
      rw [← hds]
      exact List.mem_map_of_mem hd
    simpa using hk d.val hdv

theorem l2fwd_resolution_complete :
    ∃ server', devMgrSetPipelineConfig Disk.reliable (Server.init 1) .verifyAndCommit
        (L2fwd.pushOf L2fwd.p4info).config = ⟨[], .ok (server', Status.make .ok "ok")⟩ ∧
      (∀ d ∈ declarations L2fwd.p4info, ∃ elem,
        getElement server'.dm.idMap d.id.toUInt64 = some elem ∧ Resolved elem d) ∧
      ∀ k, (∀ d ∈ declarations L2fwd.p4info, d.id.toUInt64 ≠ k) →
        getElement server'.dm.idMap k = none :=
  @p4info_resolution_complete _ (Server.init 1) _ _ rfl rfl
    ⟨by decide, by decide, by decide, by decide⟩ (by decide)

end Device
