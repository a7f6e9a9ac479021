import T4P4SRuntime.Device.Resolution

namespace Device

open IdMap P4Config P4v1 Exec Parking Probing

structure ConfigCall where
  action : ConfigAction
  config : ForwardingPipelineConfig
  disk : Disk
  deriving DecidableEq

def pushAll (server : Server) : List ConfigCall → Run Server
  | [] => pure server
  | c :: cs => do
      let (server, _) ← devMgrSetPipelineConfig c.disk server c.action c.config
      pushAll server cs

def ConfigCall.declarations (c : ConfigCall) : List Decl :=
  if ConfigAction.applied c.action then Device.declarations c.config.p4info else []

def declared (calls : List ConfigCall) : List Decl := calls.flatMap ConfigCall.declarations

abbrev Observation := CString × (UInt64 → Option (CString × UInt64))

def observe (elem : Element) : Observation :=
  (elem.value, fun id => (getArgument elem id).map (fun a => (a.name, a.bitwidth)))

def Decl.observe (d : Decl) : Observation :=
  (cStr d.name, fun id =>
    (d.args.find? (fun f => f.id.toUInt64 = id)).map (fun f => (cStr f.name, storedBitwidth f)))

def firstDecl (ds : List Decl) (k : UInt64) : Option Decl := ds.find? (fun d => d.id.toUInt64 = k)

def HistoryIndependent (deviceId : UInt64) (earlier : List ConfigCall) (last : ConfigCall) : Prop :=
  ∃ server alone, pushAll (Server.init deviceId) (earlier ++ [last]) = ⟨[], .ok server⟩ ∧
    pushAll (Server.init deviceId) [last] = ⟨[], .ok alone⟩ ∧
    ∀ k, (getElement server.dm.idMap k).map observe = (getElement alone.dm.idMap k).map observe

structure RunFits (calls : List ConfigCall) : Prop where
  decls : ∀ d ∈ declared calls, d.Fits
  slots : ∀ p, demand scheme ((declared calls).map (fun d => d.id.toUInt64)) p ≤ maxMapSize - p

def Redeclares (old new : List Decl) : Prop :=
  ∀ k d, firstDecl old k = some d →
    ∃ d', firstDecl new k = some d' ∧ d'.observe = d.observe

theorem observe_element (d : FitDecl) : observe d.element = d.val.observe := by
  refine Prod.ext rfl (funext fun id => ?_)
  have ht := congrArg (Option.map Prod.snd) (getArgument_triple d.element id)
  rw [element_args, List.find?_map] at ht
  simpa [observe, Decl.observe, Function.comp_def] using ht

theorem room_init (p : Nat) : room scheme initMap.data p = maxMapSize - p := by
  simp [room, initMap, Slots.empty, scheme]

theorem slots_of_bound {ks : List UInt64}
    (h : ks.all (fun k => index k + ks.length ≤ maxMapSize) = true) (p : Nat) :
    demand scheme ks p ≤ maxMapSize - p := by
  by_cases hp : ∃ k ∈ ks, p ≤ index k
  · obtain ⟨k, hk, hpk⟩ := hp
    have hle : demand scheme ks p ≤ ks.length := List.countP_le_length
    have hk' := of_decide_eq_true (List.all_eq_true.mp h k hk)
    omega
  · have hz : demand scheme ks p = 0 := by
      rw [demand, List.countP_eq_zero]
      intro k hk hpk
      exact hp ⟨k, hk, of_decide_eq_true hpk⟩
    omega

theorem registered_append (map : Map) (ds es : List FitDecl) :
    registered map (ds ++ es) = registered (registered map ds) es := by
  simp only [registered, List.map_append, insertAll_append]

theorem pushAll_eq (calls : List ConfigCall) {server : Server} (ds : List FitDecl)
    (hd : declared calls = ds.map Subtype.val)
    (h : AllPlaced scheme server.dm.idMap.data (ds.map FitDecl.element)) :
    ∃ server', pushAll server calls = ⟨[], .ok server'⟩ ∧
      server'.dm.idMap = registered server.dm.idMap ds := by
  induction calls generalizing server ds with
  | nil =>
      obtain rfl : ds = [] := List.map_eq_nil_iff.mp hd.symm
      exact ⟨server, rfl, rfl⟩
  | cons c cs ih =>
      have hsplit : c.declarations ++ declared cs = ds.map Subtype.val := hd
      obtain ⟨ds₁, ds₂, rfl, hd₁, hd₂⟩ := List.append_eq_map_iff.mp hsplit
      rw [List.map_append, allPlaced_append] at h
      by_cases ha : ConfigAction.applied c.action = true
      · rw [ConfigCall.declarations, if_pos ha] at hd₁
        have hload := @devMgrSetPipelineConfig_of_load c.disk _ _ _ _ ha
          (loadP4info_eq ds₁ hd₁.symm h.1)
        obtain ⟨server', he, hmap⟩ := @ih (configured c.disk server c.config
          (registered server.dm.idMap ds₁)) ds₂ hd₂.symm h.2
        refine ⟨server', ?_, ?_⟩
        · rw [pushAll, hload, mk_bind]
          simp [he]
        · rw [hmap, registered_append]
          rfl
      · rw [ConfigCall.declarations, if_neg ha] at hd₁
        obtain rfl : ds₁ = [] := List.map_eq_nil_iff.mp hd₁
        obtain ⟨server', he, hmap⟩ := @ih server ds₂ hd₂.symm h.2
        exact ⟨server', by simpa [pushAll, devMgrSetPipelineConfig, ha] using he, hmap⟩

theorem find_fitDecls (ds : List FitDecl) (k : UInt64) :
    ((ds.find? (fun d => d.val.id.toUInt64 = k)).map FitDecl.element).map observe =
      (firstDecl (ds.map Subtype.val) k).map Decl.observe := by
  rw [firstDecl, List.find?_map, Option.map_map, Option.map_map]
  exact congrArg (fun g => Option.map g _) (funext observe_element)

theorem pushAll_observe {deviceId : UInt64} {calls : List ConfigCall} (h : RunFits calls) :
    ∃ server, pushAll (Server.init deviceId) calls = ⟨[], .ok server⟩ ∧
      ∀ k, (getElement server.dm.idMap k).map observe =
        (firstDecl (declared calls) k).map Decl.observe := by
  have hds := fitDecls_val _ h.decls
  have hplaced : AllPlaced scheme initMap.data ((fitDecls _ h.decls).map FitDecl.element) := by
    rw [allPlaced_iff]
    intro p
    have hp := h.slots p
    rw [← hds, List.map_map] at hp
    rw [List.map_map, room_init]
    exact hp
  obtain ⟨server, he, hmap⟩ :=
    @pushAll_eq calls (Server.init deviceId) _ hds.symm hplaced
  have hinit : (Server.init deviceId).dm.idMap = initMap := rfl
  refine ⟨server, he, fun k => ?_⟩
  rw [hmap, hinit, getElement_registered _ Scheme.packed_empty hplaced, getElement_initMap,
    Option.none_or, find_fitDecls, hds]

theorem declared_append (earlier : List ConfigCall) (last : ConfigCall) :
    declared (earlier ++ [last]) = declared earlier ++ last.declarations := by
  simp [declared]

theorem RunFits.last {earlier : List ConfigCall} {last : ConfigCall}
    (h : RunFits (earlier ++ [last])) : RunFits [last] where
  decls := fun d hd => h.decls d (by
    rw [declared_append]
    exact List.mem_append_right _ (by simpa [declared] using hd))
  slots := fun p => by
    have hp := h.slots p
    rw [declared_append, List.map_append, demand, List.countP_append] at hp
    have hd : declared [last] = last.declarations := by simp [declared]
    rw [hd, demand]
    omega

theorem firstDecl_append (old new : List Decl) (k : UInt64) :
    firstDecl (old ++ new) k = (firstDecl old k).or (firstDecl new k) := by
  simp [firstDecl, List.find?_append]

theorem redeclares_iff (old new : List Decl) :
    (∀ k, (firstDecl (old ++ new) k).map Decl.observe = (firstDecl new k).map Decl.observe) ↔
      Redeclares old new := by
  constructor
  · intro h k d hd
    have hk := h k
    rw [firstDecl_append, hd, Option.some_or, Option.map_some] at hk
    obtain ⟨d', hd', ho⟩ := Option.map_eq_some_iff.mp hk.symm
    exact ⟨d', hd', ho⟩
  · intro h k
    rw [firstDecl_append]
    cases hd : firstDecl old k with
    | none => rfl
    | some d =>
        obtain ⟨d', hd', ho⟩ := h k d hd
        simp [hd', ho]

theorem redeclares_of_found {old new : List Decl}
    (h : ∀ d ∈ old, firstDecl new d.id.toUInt64 = some d) : Redeclares old new := by
  intro k d hd
  have hk : d.id.toUInt64 = k := by simpa using List.find?_some hd
  exact ⟨d, hk ▸ h d (List.mem_of_find?_eq_some hd), rfl⟩

theorem independent_iff_redeclares {deviceId : UInt64} {earlier : List ConfigCall}
    {last : ConfigCall} (ha : ConfigAction.accepted last.action = true)
    (hfits : RunFits (earlier ++ [last])) :
    HistoryIndependent deviceId earlier last ↔
      Redeclares (declared earlier) (declarations last.config.p4info) := by
  have happlied : ConfigAction.applied last.action = true := by
    cases hact : last.action <;> simp [hact, ConfigAction.accepted] at ha <;> rfl
  have hlast : last.declarations = declarations last.config.p4info := by
    rw [ConfigCall.declarations, if_pos happlied]
  obtain ⟨server, he, hobs⟩ := @pushAll_observe deviceId _ hfits
  obtain ⟨alone, hea, hobsa⟩ := @pushAll_observe deviceId _ hfits.last
  have hone : declared [last] = declarations last.config.p4info := by simp [declared, hlast]
  rw [← redeclares_iff]
  constructor
  · rintro ⟨server', alone', he', hea', h⟩ k
    obtain rfl : server = server' := by simpa [he] using he'
    obtain rfl : alone = alone' := by simpa [hea] using hea'
    have hk := h k
    rwa [hobs, hobsa, declared_append, hlast, hone] at hk
  · intro h
    refine ⟨server, alone, he, hea, fun k => ?_⟩
    rw [hobs, hobsa, declared_append, hlast, hone, h k]

namespace History

def callOf (p4info : P4Info) : ConfigCall :=
  { action := .verifyAndCommit
    config := { p4info := p4info, p4DeviceConfig := [], cookie := none }
    disk := Disk.reliable }

def tablesOnly : ConfigCall :=
  { callOf { L2fwd.p4info with actions := [] } with action := .verify }

def ignored : ConfigCall := { callOf L2fwd.p4info with action := .commit }

example : HistoryIndependent 1 [tablesOnly, ignored, callOf L2fwd.p4info] (callOf L2fwd.p4info) :=
  (independent_iff_redeclares rfl
    { decls := by decide
      slots := slots_of_bound (by decide) }).mpr (redeclares_of_found (by decide))

end History

end Device
