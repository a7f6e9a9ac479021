import Mathlib.Data.Nat.Count
import T4P4SRuntime.Device.PushOutcome
import T4P4SRuntime.IdMap.Capacity

namespace Device

open IdMap P4Config P4v1 Exec Probing Parking

def occupied (map : Map) : Nat := Nat.count (fun i => (map.data i).isSome) maxMapSize

def AllRegistered (deviceId : UInt64) (calls : List ConfigCall) : Prop :=
  ∃ server, pushAll (Server.init deviceId) calls = ⟨[], .ok server⟩ ∧
    occupied server.dm.idMap = (declared calls).length

def declaredFrom (ds : List Decl) (r : Nat) : Nat :=
  ds.countP (fun d => r ≤ residue d.id.toUInt64)

-- The actions of a configuration whose parameters are stored through the element just added.
def actionsFrom (p4info : P4Info) (r : Nat) : Nat :=
  p4info.actions.countP (fun a => a.params ≠ [] ∧ r ≤ residue a.preamble.id.toUInt64)

variable {map map' : Map} {server server' : Server} {log : List Effect} {p4info : P4Info}
  {calls : List ConfigCall} {c : ConfigCall}

theorem occupied_add_room (map : Map) : occupied map + room scheme map.data 0 = maxMapSize := by
  have hsplit := Finset.card_filter_add_card_filter_not (s := Finset.range maxMapSize)
    (fun i => (map.data i).isSome = true)
  rw [Finset.card_range] at hsplit
  rw [occupied, Nat.count_eq_card_filter_range, room, ← Finset.range_eq_Ico]
  simpa [scheme] using hsplit

theorem pushAll_added (h : pushAll server calls = ⟨log, .ok server'⟩) :
    ∃ ds : List FitDecl, (ds.map Subtype.val).Sublist (declared calls) ∧
      server'.dm.idMap = registered server.dm.idMap ds := by
  induction calls generalizing server log with
  | nil =>
      obtain ⟨-, rfl⟩ := pure_eq_ok_iff.mp h
      exact ⟨[], List.Sublist.slnil, rfl⟩
  | cons c cs ih =>
      obtain ⟨_, ⟨next, status⟩, _, hset, hrest, -⟩ := bind_eq_ok_iff.mp h
      obtain ⟨es, hes, hmap⟩ := ih hrest
      have hdeclared : declared (c :: cs) = c.declarations ++ declared cs := rfl
      obtain ⟨-, -, hpushed⟩ := pushedTo_of_ok hset
      cases hpushed with
      | ignored ha => exact ⟨es, hdeclared ▸ hes.trans (List.sublist_append_right _ _), hmap⟩
      | applied ha hload =>
          obtain ⟨ds, hds, rfl⟩ := loadP4info_registered hload
          refine ⟨ds ++ es, ?_, ?_⟩
          · rw [List.map_append, hds, hdeclared, ConfigCall.declarations, if_pos ha]
            exact (triedDecls_sublist _ [] _).append hes
          · rw [hmap, registered_append]
            rfl

theorem allPlaced_init_iff (ds : List FitDecl) :
    AllPlaced scheme initMap.data (ds.map FitDecl.element) ↔
      ∀ r, r < maxHashSize →
        declaredFrom (ds.map Subtype.val) r ≤ redundancyMap * (maxHashSize - r) := by
  have hcalls := allSucceed_init_iff (ds.map (fun d => (d.val.id.toUInt64, cStr d.val.name)))
  rw [allSucceed_iff, calledElements, List.map_map] at hcalls
  have hkeys : (ds.map FitDecl.element).map scheme.key =
      (ds.map ((fun c : AddCall => newElement c.1 c.2) ∘
        fun d => (d.val.id.toUInt64, cStr d.val.name))).map scheme.key := by
    rw [List.map_map, List.map_map]
    rfl
  rw [allPlaced_congr hkeys, hcalls]
  simp only [atLeast, declaredFrom, List.countP_map]
  rfl

theorem occupied_registered (ds : List FitDecl) :
    occupied (registered initMap ds) +
        room scheme (insertAll scheme initMap.data (ds.map FitDecl.element)) 0 =
      room scheme initMap.data 0 := by
  rw [room_init]
  exact occupied_add_room (registered initMap ds)

theorem occupied_registered_le (ds : List FitDecl) :
    occupied (registered initMap ds) ≤ ds.length := by
  have hroom := occupied_registered ds
  have hle := room_insertAll (S := scheme) initMap.data (ds.map FitDecl.element)
  rw [List.length_map] at hle
  omega

theorem occupied_registered_iff (ds : List FitDecl) :
    occupied (registered initMap ds) = ds.length ↔
      AllPlaced scheme initMap.data (ds.map FitDecl.element) := by
  have hroom := occupied_registered ds
  rw [allPlaced_iff_room, List.length_map]
  omega

theorem registered_of_occupied {ds : List FitDecl} {all : List Decl}
    (hs : (ds.map Subtype.val).Sublist all)
    (ho : occupied (registered initMap ds) = all.length) :
    ds.map Subtype.val = all ∧ occupied (registered initMap ds) = ds.length := by
  have hlength := hs.length_le
  have hle := occupied_registered_le ds
  rw [List.length_map] at hlength
  have he : ds.length = all.length := by omega
  exact ⟨hs.eq_of_length (by rw [List.length_map, he]), by rw [ho, he]⟩

theorem pushes_register_all_iff (deviceId : UInt64) (calls : List ConfigCall) :
    AllRegistered deviceId calls ↔ (∀ d ∈ declared calls, d.Fits) ∧
      ∀ r, r < maxHashSize →
        declaredFrom (declared calls) r ≤ redundancyMap * (maxHashSize - r) := by
  constructor
  · rintro ⟨server, he, hocc⟩
    obtain ⟨ds, hsub, hmap⟩ := pushAll_added he
    rw [hmap] at hocc
    obtain ⟨hall, hcount⟩ := registered_of_occupied hsub hocc
    rw [← hall]
    refine ⟨fun d hd => ?_, (allPlaced_init_iff ds).mp ((occupied_registered_iff ds).mp hcount)⟩
    obtain ⟨fit, -, rfl⟩ := List.mem_map.mp hd
    exact fit.property
  · rintro ⟨hfits, hbound⟩
    have hds := fitDecls_val _ hfits
    rw [← hds] at hbound
    have hplaced := (allPlaced_init_iff _).mpr hbound
    obtain ⟨server, he, hmap⟩ := @pushAll_eq calls (Server.init deviceId) _ hds.symm hplaced
    refine ⟨server, he, ?_⟩
    rw [hmap, ← congrArg List.length hds, List.length_map]
    exact (occupied_registered_iff _).mpr hplaced

theorem register_room {d : Decl} (h : register map d = ⟨log, .ok map'⟩) (p : Nat) :
    room scheme map'.data p + (if d.args ≠ [] ∧ p ≤ index d.id.toUInt64 then 1 else 0) ≤
      room scheme map.data p := by
  cases hv : vacantSlot map d.id.toUInt64 with
  | none =>
      rw [register_full hv] at h
      split at h
      · rename_i hargs
        obtain ⟨-, rfl⟩ := pure_eq_ok_iff.mp h
        rw [if_neg fun hc => hc.1 hargs, Nat.add_zero]
      · cases h
  | some i =>
      by_cases hfit : d.Fits
      · rw [register_eq ⟨d, hfit⟩ hv] at h
        obtain ⟨-, rfl⟩ := pure_eq_ok_iff.mp h
        rw [vacantSlot_eq] at hv
        obtain ⟨hle, hlt, hn, -⟩ := Scheme.vacancy_eq_some_iff.mp hv
        rw [room_store (v := FitDecl.element ⟨d, hfit⟩) hlt hn (p := p)]
        apply Nat.add_le_add_left
        split_ifs with hd hp
        · exact Nat.le_refl _
        · exact absurd (hd.2.trans hle) hp
        · exact Nat.zero_le _
        · exact Nat.zero_le _
      · obtain ⟨f, hf⟩ := register_unfit hv hfit
        rw [hf] at h
        cases h

theorem registerAll_room {ds : List Decl} (h : registerAll map ds = ⟨log, .ok map'⟩) (p : Nat) :
    room scheme map'.data p + ds.countP (fun d => d.args ≠ [] ∧ p ≤ index d.id.toUInt64) ≤
      room scheme map.data p := by
  induction ds generalizing map log with
  | nil =>
      obtain ⟨-, rfl⟩ := pure_eq_ok_iff.mp h
      exact Nat.le_refl _
  | cons d ds ih =>
      obtain ⟨_, next, _, hd, hds, -⟩ := bind_eq_ok_iff.mp h
      have hfirst := register_room hd p
      have hrest := ih hds
      rw [List.countP_cons]
      simp only [decide_eq_true_eq]
      omega

theorem home_le_iff (r : Nat) (k : UInt64) : r * redundancyMap ≤ index k ↔ r ≤ residue k :=
  Nat.mul_le_mul_right_iff (by decide)

theorem actionsFrom_le (map : Map) (p4info : P4Info) (r : Nat) :
    actionsFrom p4info r ≤ (addedDecls map p4info).countP
      (fun d => d.args ≠ [] ∧ r * redundancyMap ≤ index d.id.toUInt64) := by
  rw [addedDecls, triedDecls, List.countP_append, List.countP_append, List.countP_map, actionsFrom]
  have hsame : p4info.actions.countP
      (fun a => a.params ≠ [] ∧ r ≤ residue a.preamble.id.toUInt64) =
        p4info.actions.countP ((fun d : Decl =>
          decide (d.args ≠ [] ∧ r * redundancyMap ≤ index d.id.toUInt64)) ∘ actionDecl) := by
    apply List.countP_congr
    intro a _
    rw [Function.comp_apply, decide_eq_true_iff, decide_eq_true_iff]
    exact and_congr_right fun _ => (home_le_iff r _).symm
  omega

theorem load_room (h : loadP4info map p4info = pure map') (r : Nat) :
    room scheme map'.data (r * redundancyMap) + actionsFrom p4info r ≤
      room scheme map.data (r * redundancyMap) := by
  rw [loadP4info_added] at h
  have hroom := registerAll_room h (r * redundancyMap)
  have hactions := actionsFrom_le map p4info r
  omega

theorem pushes_room {n : Nat} (ha : ConfigAction.applied c.action = true)
    (h : pushAll server (List.replicate n c) = ⟨log, .ok server'⟩) (r : Nat) :
    room scheme server'.dm.idMap.data (r * redundancyMap) + n * actionsFrom c.config.p4info r ≤
      room scheme server.dm.idMap.data (r * redundancyMap) := by
  induction n generalizing server log with
  | zero =>
      obtain ⟨-, rfl⟩ := pure_eq_ok_iff.mp h
      omega
  | succ n ih =>
      obtain ⟨_, ⟨next, status⟩, _, hset, hrest, -⟩ := bind_eq_ok_iff.mp h
      have hlater := ih hrest
      obtain ⟨-, -, hpushed⟩ := pushedTo_of_ok hset
      cases hpushed with
      | ignored hna => simp [ha] at hna
      | @applied map _ hload =>
          have hone := load_room hload r
          have hmap : (configured c.disk server c.config map).dm.idMap = map := rfl
          rw [hmap] at hlater
          rw [Nat.succ_mul]
          omega

theorem slotsFound_bare {ds : List Decl} (h : ∀ d ∈ ds, d.args = []) (done : List Decl) :
    SlotsFound map done ds := by
  induction ds generalizing done with
  | nil => trivial
  | cons d ds ih =>
      rw [SlotsFound]
      exact ⟨fun hargs => absurd (h d (by simp)) hargs, ih (fun e he => h e (by simp [he])) _⟩

theorem slotsFound_tried (done ds : List Decl) {later : List Decl}
    (hl : ∀ d ∈ later, d.args = []) : SlotsFound map done (triedTables map done ds ++ later) := by
  induction ds generalizing done with
  | nil => exact slotsFound_bare hl done
  | cons d ds ih =>
      cases Classical.em (FindsSlot map done d) with
      | inl hd =>
          rw [triedTables, if_pos hd, List.cons_append, SlotsFound]
          exact ⟨fun _ => hd, ih (done ++ [d])⟩
      | inr hd =>
          rw [triedTables, if_neg hd]
          exact slotsFound_bare hl done

theorem load_bare (map : Map) (hf : ∀ d ∈ declarations p4info, d.Fits)
    (hp : ∀ action ∈ p4info.actions, action.params = []) :
    ∃ map', loadP4info map p4info = pure map' := by
  have hfits : ∀ d ∈ addedDecls map p4info, d.Fits := fun d hd =>
    hf d ((triedDecls_sublist map [] p4info).subset hd)
  have hlater : ∀ d ∈ p4info.actions.map actionDecl ++ p4info.counters.map counterDecl,
      d.args = [] := by
    intro d hd
    rcases List.mem_append.mp hd with hd | hd
    · obtain ⟨action, ha, rfl⟩ := List.mem_map.mp hd
      exact hp action ha
    · obtain ⟨counter, -, rfl⟩ := List.mem_map.mp hd
      rfl
  have hslots : SlotsFound map [] (addedDecls map p4info) := by
    rw [addedDecls, triedDecls, List.append_assoc]
    exact slotsFound_tried [] _ hlater
  exact ⟨_, loadP4info_fitted (fitDecls_val _ hfits) hslots⟩

theorem pushes_bare (hf : ∀ d ∈ declarations c.config.p4info, d.Fits)
    (hp : ∀ action ∈ c.config.p4info.actions, action.params = []) (n : Nat) (server : Server) :
    ∃ server', pushAll server (List.replicate n c) = ⟨[], .ok server'⟩ := by
  induction n generalizing server with
  | zero => exact ⟨server, rfl⟩
  | succ n ih =>
      rw [List.replicate_succ, pushAll]
      rcases Bool.eq_false_or_eq_true (ConfigAction.applied c.action) with ha | ha
      · obtain ⟨map, hload⟩ := load_bare server.dm.idMap hf hp
        obtain ⟨server', he⟩ := ih (configured c.disk server c.config map)
        refine ⟨server', ?_⟩
        rw [devMgrSetPipelineConfig_of_load ha hload, mk_bind]
        simp [he]
      · rw [devMgrSetPipelineConfig, if_neg (by simp [ha]), pure_bind]
        exact ih server

theorem room_le (map : Map) (p : Nat) : room scheme map.data p ≤ maxMapSize - p := by
  rw [room]
  exact (Finset.card_filter_le _ _).trans_eq (Nat.card_Ico p scheme.size)

theorem pushes_or_null (hf : ∀ d ∈ declarations c.config.p4info, d.Fits) (n : Nat)
    (server : Server) :
    (∃ server', pushAll server (List.replicate n c) = ⟨[], .ok server'⟩) ∨
      pushAll server (List.replicate n c) = fault .nullElement := by
  induction n generalizing server with
  | zero => exact Or.inl ⟨server, rfl⟩
  | succ n ih =>
      rw [List.replicate_succ, pushAll, devMgrSetPipelineConfig]
      split
      · rcases loadP4info_or_null server.dm.idMap hf with ⟨map, hload⟩ | hload
        · rw [hload, pure_bind, pure_bind]
          exact ih _
        · rw [hload, fault_bind, fault_bind]
          exact Or.inr rfl
      · rw [pure_bind]
        exact ih server

theorem repush_faults (ha : ConfigAction.applied c.action = true)
    (hf : ∀ d ∈ declarations c.config.p4info, d.Fits) {action : P4Config.Action}
    (hmem : action ∈ c.config.p4info.actions) (hparams : action.params ≠ []) (server : Server) :
    pushAll server (List.replicate (maxMapSize + 1) c) = fault .nullElement := by
  refine (pushes_or_null hf (maxMapSize + 1) server).resolve_left ?_
  rintro ⟨server', he⟩
  have hroom := pushes_room ha he 0
  have hle := room_le server.dm.idMap (0 * redundancyMap)
  have hone : 0 < actionsFrom c.config.p4info 0 :=
    List.countP_pos_iff.mpr ⟨action, hmem, decide_eq_true ⟨hparams, Nat.zero_le _⟩⟩
  have hmany := Nat.le_mul_of_pos_right (maxMapSize + 1) hone
  omega

theorem repush_survives_iff (server : Server) (ha : ConfigAction.applied c.action = true)
    (hf : ∀ d ∈ declarations c.config.p4info, d.Fits) :
    ((∀ n, ∃ server', pushAll server (List.replicate n c) = ⟨[], .ok server'⟩) ↔
        ∀ action ∈ c.config.p4info.actions, action.params = []) ∧
      ((∃ action ∈ c.config.p4info.actions, action.params ≠ []) →
        ∃ n, pushAll server (List.replicate n c) = fault .nullElement) := by
  refine ⟨⟨fun h action hmem => ?_, fun hp n => pushes_bare hf hp n server⟩, ?_⟩
  · by_contra hparams
    obtain ⟨server', he⟩ := h (maxMapSize + 1)
    rw [repush_faults ha hf hmem hparams server] at he
    cases he
  · rintro ⟨action, hmem, hparams⟩
    exact ⟨_, repush_faults ha hf hmem hparams server⟩

namespace Repush

def l2fwd : ConfigCall := History.callOf L2fwd.p4info

theorem declaredFrom_replicate (n : Nat) (c : ConfigCall) (r : Nat) :
    declaredFrom (declared (List.replicate n c)) r = n * declaredFrom c.declarations r := by
  rw [declaredFrom, declared, List.countP_flatMap, List.map_replicate, List.sum_replicate,
    smul_eq_mul]
  rfl

theorem l2fwd_fits (n : Nat) : ∀ d ∈ declared (List.replicate n l2fwd), d.Fits := by
  intro d hd
  obtain ⟨c, hc, hd⟩ := List.mem_flatMap.mp hd
  obtain rfl := List.eq_of_mem_replicate hc
  exact (by decide : ∀ d ∈ l2fwd.declarations, d.Fits) d hd

theorem declaredFrom_l2fwd (r : Nat) :
    declaredFrom l2fwd.declarations r =
      (if r ≤ 674 then 1 else 0) + (if r ≤ 823 then 1 else 0) + (if r ≤ 900 then 1 else 0) +
        (if r ≤ 114 then 1 else 0) := by
  have hresidues : l2fwd.declarations.map (fun d => residue d.id.toUInt64) = [674, 823, 900, 114] :=
    rfl
  have hcount : declaredFrom l2fwd.declarations r =
      (l2fwd.declarations.map (fun d => residue d.id.toUInt64)).countP (fun k => r ≤ k) := by
    rw [List.countP_map]
    rfl
  rw [hcount, hresidues]
  simp only [List.countP_cons, List.countP_nil, decide_eq_true_eq]
  omega

theorem l2fwd_registers_402_times :
    AllRegistered 1 (List.replicate 402 l2fwd) ∧ ¬AllRegistered 1 (List.replicate 403 l2fwd) := by
  constructor
  · rw [pushes_register_all_iff]
    refine ⟨l2fwd_fits 402, fun r hr => ?_⟩
    rw [declaredFrom_replicate, declaredFrom_l2fwd]
    simp only [redundancyMap, maxHashSize] at hr ⊢
    split_ifs <;> omega
  · rw [pushes_register_all_iff]
    rintro ⟨-, hbound⟩
    have h := hbound 823 (by decide)
    rw [declaredFrom_replicate, declaredFrom_l2fwd] at h
    revert h
    decide

theorem l2fwd_does_not_survive :
    (¬∀ n, ∃ server', pushAll (Server.init 1) (List.replicate n l2fwd) = ⟨[], .ok server'⟩) ∧
      ∃ n, pushAll (Server.init 1) (List.replicate n l2fwd) = fault .nullElement := by
  obtain ⟨hsurvives, hfaults⟩ := @repush_survives_iff l2fwd (Server.init 1) rfl (by decide)
  rw [hsurvives]
  exact ⟨fun h => absurd (h L2fwd.forward (by decide)) (by decide),
    hfaults ⟨L2fwd.forward, by decide, by decide⟩⟩

end Repush

end Device
