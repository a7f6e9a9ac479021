import T4P4SRuntime.Device.History
import T4P4SRuntime.Device.ServerSteps
import T4P4SRuntime.Library.Overflow

namespace Device

open IdMap P4Config P4v1 Exec Probing Parking

variable {map : Map} {server server' : Server} {p4info : P4Info}

def declKeys (ds : List Decl) : List UInt64 := ds.map (fun d => d.id.toUInt64)

def FindsSlot (map : Map) (before : List Decl) (d : Decl) : Prop :=
  HasSlot scheme map.data (declKeys before) d.id.toUInt64

instance (map : Map) (before : List Decl) (d : Decl) : Decidable (FindsSlot map before d) :=
  inferInstanceAs (Decidable (HasSlot _ _ _ _))

-- The loop over the tables ends at the first one that finds no slot.
def triedTables (map : Map) (done : List Decl) : List Decl → List Decl
  | [] => []
  | d :: ds => if FindsSlot map done d then d :: triedTables map (done ++ [d]) ds else []

def triedDecls (map : Map) (done : List Decl) (p4info : P4Info) : List Decl :=
  triedTables map done (p4info.tables.map tableDecl) ++ p4info.actions.map actionDecl ++
    p4info.counters.map counterDecl

def addedDecls (map : Map) (p4info : P4Info) : List Decl := triedDecls map [] p4info

def SlotsFound (map : Map) (done : List Decl) : List Decl → Prop
  | [] => True
  | d :: ds => (d.args ≠ [] → FindsSlot map done d) ∧ SlotsFound map (done ++ [d]) ds

def Covers (o : Observation) (d : Decl) : Prop :=
  o.1 = cStr d.name ∧
    ∀ f ∈ d.args, o.2 f.id.toUInt64 = some (cStr f.name, storedBitwidth f)

inductive Binds (map : Map) (added : List Decl) (d : Decl) : Prop where
  | already {elem : Element} : getElement map d.id.toUInt64 = some elem → Covers (observe elem) d →
      Binds map added d
  | added {before after : List Decl} {first : Decl} : getElement map d.id.toUInt64 = none →
      added = before ++ first :: after → first.id = d.id → (∀ other ∈ before, other.id ≠ d.id) →
      FindsSlot map before first → Covers first.observe d → Binds map added d

structure PushResolves (map : Map) (p4info : P4Info) : Prop where
  fits : ∀ d ∈ addedDecls map p4info, d.Fits
  slots : SlotsFound map [] (addedDecls map p4info)
  binds : ∀ d ∈ declarations p4info, Binds map (addedDecls map p4info) d

structure PipelineUnchanged (server server' : Server) : Prop where
  id_map : server'.dm.idMap = server.dm.idMap
  p4info : server'.dm.p4info = server.dm.p4info
  digest_map : server'.dm.digestMap = server.dm.digestMap
  saved : SavedAs server.savedDeviceConfig server'.savedDeviceConfig
  has_cookie : server'.hasConfigCookie = server.hasConfigCookie
  cookie : server'.configCookie = server.configCookie

def ResolvesAll (map : Map) (p4info : P4Info) : Prop :=
  ∀ d ∈ declarations p4info, ∃ elem, getElement map d.id.toUInt64 = some elem ∧
    Covers (observe elem) d

def AllOrNothing (disk : Disk) (server : Server) (action : ConfigAction)
    (config : ForwardingPipelineConfig) : Prop :=
  ∃ log server' status,
    devMgrSetPipelineConfig disk server action config = ⟨log, .ok (server', status)⟩ ∧
      ((status.ok = true ∧ ResolvesAll server'.dm.idMap config.p4info) ∨
        (status.ok = false ∧ PipelineUnchanged server server'))

theorem triedTables_sublist (done ds : List Decl) : (triedTables map done ds).Sublist ds := by
  induction ds generalizing done with
  | nil => exact List.Sublist.slnil
  | cons d ds ih =>
      rw [triedTables]
      split
      · exact (ih (done ++ [d])).cons_cons d
      · exact List.nil_sublist _

theorem triedDecls_sublist (map : Map) (done : List Decl) (p4info : P4Info) :
    (triedDecls map done p4info).Sublist (declarations p4info) := by
  rw [triedDecls, declarations]
  exact ((triedTables_sublist done _).append (List.Sublist.refl _)).append (List.Sublist.refl _)

theorem slotsFound_append (done ds es : List Decl) :
    SlotsFound map done (ds ++ es) ↔
      SlotsFound map done ds ∧ SlotsFound map (done ++ ds) es := by
  induction ds generalizing done with
  | nil => simp [SlotsFound]
  | cons d ds ih =>
      rw [List.cons_append, SlotsFound, SlotsFound, ih, List.append_assoc, List.singleton_append,
        and_assoc]

theorem declKeys_val (ds : List FitDecl) :
    declKeys (ds.map Subtype.val) = (ds.map FitDecl.element).map scheme.key := by
  rw [declKeys, List.map_map, List.map_map]
  rfl

theorem findsSlot_iff (done : List FitDecl) (d : Decl) :
    FindsSlot map (done.map Subtype.val) d ↔
      vacantSlot (registered map done) d.id.toUInt64 ≠ none := by
  rw [FindsSlot, declKeys_val, hasSlot_iff, vacantSlot_eq]
  rfl

theorem registered_concat (done : List FitDecl) (d : FitDecl) :
    registered map (done ++ [d]) =
      ⟨(scheme.insert (registered map done).data d.element).2⟩ := by
  rw [registered_append]
  rfl

theorem storeArgs_unfit (decls : List FieldDecl) {slot : Nat} {elem : Element}
    (hs : map.data slot = some elem)
    (h : ¬(elem.args.length + decls.length ≤ maxArgs ∧
      ∀ f ∈ decls, strlen (cStr f.name) < maxNameSize)) :
    ∃ f, storeArgs map (some slot) decls = fault f := by
  induction decls generalizing map elem with
  | nil => exact absurd ⟨elem.args_fit, by simp⟩ h
  | cons decl decls ih =>
      by_cases hname : strlen (cStr decl.name) < maxNameSize
      · by_cases hroom : elem.args.length < maxArgs
        · obtain ⟨f, hf⟩ := @ih ⟨map.data.store slot (appendArg elem (argumentOf decl hname) hroom)⟩ _
            (store_same map.data slot _) fun hc => h ⟨by
              have hlen := hc.1
              simp only [appendArg, List.length_append, List.length_cons, List.length_nil] at hlen ⊢
              omega, by simpa [hname] using hc.2⟩
          exact ⟨f, by simpa [storeArgs, storeArg, hs, hname, hroom] using hf⟩
        · exact ⟨.argsOverflow, by simp [storeArgs, storeArg, hs, hname, hroom]⟩
      · exact ⟨.nameOverflow, by simp [storeArgs, storeArg, hs, hname]⟩

theorem register_unfit {d : Decl} {i : Nat} (hv : vacantSlot map d.id.toUInt64 = some i)
    (h : ¬d.Fits) : ∃ f, register map d = fault f := by
  have hadd : addElement map d.id.toUInt64 (cStr d.name) =
      (some i, ⟨map.data.store i (newElement d.id.toUInt64 (cStr d.name))⟩) := by
    simp [addElement, hv]
  obtain ⟨f, hf⟩ := @storeArgs_unfit
    ⟨map.data.store i (newElement d.id.toUInt64 (cStr d.name))⟩ d.args i _ (store_same _ _ _)
    (by simpa [newElement, Decl.Fits] using h)
  exact ⟨f, by rw [register, hadd, hf]⟩

theorem register_full {d : Decl} (hv : vacantSlot map d.id.toUInt64 = none) :
    register map d = if d.args = [] then pure map else fault .nullElement := by
  have hadd : addElement map d.id.toUInt64 (cStr d.name) = (none, map) := by simp [addElement, hv]
  rw [register, hadd]
  cases d.args with
  | nil => rfl
  | cons f fs => simp [storeArgs]

theorem register_registered (done : List FitDecl) (d : FitDecl)
    (h : d.val.args ≠ [] → FindsSlot map (done.map Subtype.val) d.val) :
    register (registered map done) d.val = pure (registered map (done ++ [d])) := by
  rw [registered_concat]
  cases hv : vacantSlot (registered map done) d.val.id.toUInt64 with
  | some i =>
      have hvac : scheme.vacancy (registered map done).data (scheme.key d.element) = some i := by
        rw [← hv, vacantSlot_eq]
        rfl
      rw [register_eq d hv, Scheme.insert_of_vacancy hvac]
  | none =>
      have hvac : scheme.vacancy (registered map done).data (scheme.key d.element) = none := by
        rw [← hv, vacantSlot_eq]
        rfl
      have hargs : d.val.args = [] := by
        by_contra hne
        exact (findsSlot_iff done d.val).mp (h hne) hv
      rw [register_full hv, if_pos hargs, Scheme.insert_of_full hvac]

theorem register_faults (done : List FitDecl) (d : Decl)
    (h : ¬(d.Fits ∧ (d.args ≠ [] → FindsSlot map (done.map Subtype.val) d))) :
    ∃ f, register (registered map done) d = fault f := by
  cases hv : vacantSlot (registered map done) d.id.toUInt64 with
  | some i =>
      have hfinds : FindsSlot map (done.map Subtype.val) d := by
        rw [findsSlot_iff, hv]
        simp
      exact register_unfit hv fun hfit => h ⟨hfit, fun _ => hfinds⟩
  | none =>
      have hargs : d.args ≠ [] := fun hnil =>
        h ⟨⟨by simp [hnil], by simp [hnil]⟩, fun hne => absurd hnil hne⟩
      exact ⟨.nullElement, by rw [register_full hv, if_neg hargs]⟩

theorem registerAll_registered (ds done : List FitDecl)
    (h : SlotsFound map (done.map Subtype.val) (ds.map Subtype.val)) :
    registerAll (registered map done) (ds.map Subtype.val) = pure (registered map (done ++ ds)) := by
  induction ds generalizing done with
  | nil => simp [registerAll]
  | cons d ds ih =>
      obtain ⟨hd, hds⟩ := h
      rw [List.map_cons, registerAll, register_registered done d hd, pure_bind,
        ih (done ++ [d]) (by rwa [List.map_append]), List.append_assoc, List.singleton_append]

theorem registerAll_faults (ds : List Decl) (done : List FitDecl)
    (h : ¬((∀ d ∈ ds, d.Fits) ∧ SlotsFound map (done.map Subtype.val) ds)) :
    ∃ f, registerAll (registered map done) ds = fault f := by
  induction ds generalizing done with
  | nil => exact absurd ⟨by simp, trivial⟩ h
  | cons d ds ih =>
      by_cases hd : d.Fits ∧ (d.args ≠ [] → FindsSlot map (done.map Subtype.val) d)
      · have hnext : (done ++ [(⟨d, hd.1⟩ : FitDecl)]).map Subtype.val =
            done.map Subtype.val ++ [d] := List.map_append
        obtain ⟨f, hf⟩ := ih (done ++ [⟨d, hd.1⟩]) fun hc =>
          h ⟨List.forall_mem_cons.mpr ⟨hd.1, hc.1⟩, hd.2, hnext ▸ hc.2⟩
        exact ⟨f, by rw [registerAll, register_registered done ⟨d, hd.1⟩ hd.2, pure_bind, hf]⟩
      · obtain ⟨f, hf⟩ := register_faults done d hd
        exact ⟨f, by rw [registerAll, hf, fault_bind]⟩

theorem tableLoop_tried (tables : List Table) (done : List FitDecl) :
    tableLoop (registered map done) tables =
      registerAll (registered map done)
        (triedTables map (done.map Subtype.val) (tables.map tableDecl)) := by
  induction tables generalizing done with
  | nil => rfl
  | cons table tables ih =>
      rw [List.map_cons, triedTables]
      cases hv : vacantSlot (registered map done) table.preamble.id.toUInt64 with
      | none =>
          have hno : ¬FindsSlot map (done.map Subtype.val) (tableDecl table) := fun hf =>
            (findsSlot_iff done _).mp hf hv
          rw [if_neg hno]
          simp [tableLoop, addElement, hv, registerAll]
      | some i =>
          have hfinds : FindsSlot map (done.map Subtype.val) (tableDecl table) := by
            rw [findsSlot_iff, tableDecl, hv]
            simp
          have hreg : tableLoop (registered map done) (table :: tables) =
              register (registered map done) (tableDecl table) >>= fun map =>
                tableLoop map tables := by
            simp [tableLoop, register, tableDecl, addElement, hv]
          rw [hreg, if_pos hfinds, registerAll]
          by_cases hfit : (tableDecl table).Fits
          · have hdone := @register_registered map done ⟨tableDecl table, hfit⟩ fun _ => hfinds
            have hnext : (done ++ [(⟨tableDecl table, hfit⟩ : FitDecl)]).map Subtype.val =
                done.map Subtype.val ++ [tableDecl table] := List.map_append
            simp only [hdone, pure_bind]
            rw [ih, hnext]
          · obtain ⟨f, hf⟩ := @register_unfit _ (tableDecl table) i hv hfit
            rw [hf, fault_bind, fault_bind]

theorem loadP4info_tried (done : List FitDecl) (p4info : P4Info) :
    loadP4info (registered map done) p4info =
      registerAll (registered map done) (triedDecls map (done.map Subtype.val) p4info) := by
  rw [triedDecls, registerAll_append, registerAll_append, loadP4info, tableLoop_tried]
  simp [actionLoop_eq, counterLoop_eq]

theorem loadP4info_added (map : Map) (p4info : P4Info) :
    loadP4info map p4info = registerAll map (addedDecls map p4info) :=
  loadP4info_tried [] p4info

theorem loadP4info_fitted {ds : List FitDecl} (hd : ds.map Subtype.val = addedDecls map p4info)
    (h : SlotsFound map [] (addedDecls map p4info)) :
    loadP4info map p4info = pure (registered map ds) := by
  rw [loadP4info_added, ← hd]
  exact registerAll_registered ds [] (hd ▸ h)

theorem loadP4info_faults
    (h : ¬((∀ d ∈ addedDecls map p4info, d.Fits) ∧ SlotsFound map [] (addedDecls map p4info))) :
    ∃ f, loadP4info map p4info = fault f := by
  rw [loadP4info_added]
  exact registerAll_faults (addedDecls map p4info) [] h

theorem loadP4info_registered {map' : Map} (h : loadP4info map p4info = pure map') :
    ∃ ds : List FitDecl, ds.map Subtype.val = addedDecls map p4info ∧ map' = registered map ds := by
  by_cases hs : (∀ d ∈ addedDecls map p4info, d.Fits) ∧ SlotsFound map [] (addedDecls map p4info)
  · have hds := fitDecls_val _ hs.1
    rw [loadP4info_fitted hds hs.2] at h
    exact ⟨_, hds, (pure_eq_ok_iff.mp h).2.symm⟩
  · obtain ⟨f, hf⟩ := loadP4info_faults hs
    rw [hf] at h
    cases h

theorem registerAll_or_null (ds done : List FitDecl) :
    (∃ map', registerAll (registered map done) (ds.map Subtype.val) = pure map') ∨
      registerAll (registered map done) (ds.map Subtype.val) = fault .nullElement := by
  induction ds generalizing done with
  | nil => exact Or.inl ⟨_, rfl⟩
  | cons d ds ih =>
      rw [List.map_cons, registerAll]
      by_cases h : d.val.args ≠ [] → FindsSlot map (done.map Subtype.val) d.val
      · rw [register_registered done d h, pure_bind]
        exact ih (done ++ [d])
      · obtain ⟨hargs, hno⟩ := Classical.not_imp.mp h
        rw [findsSlot_iff, not_not] at hno
        rw [register_full hno, if_neg hargs, fault_bind]
        exact Or.inr rfl

-- Declarations that fit their records leave one way to fail: an element that `add_element` refused.
theorem loadP4info_or_null (map : Map) (h : ∀ d ∈ declarations p4info, d.Fits) :
    (∃ map', loadP4info map p4info = pure map') ∨
      loadP4info map p4info = fault .nullElement := by
  have hadded : ∀ d ∈ addedDecls map p4info, d.Fits := fun d hd =>
    h d ((triedDecls_sublist map [] p4info).subset hd)
  have hreg := @registerAll_or_null map (fitDecls _ hadded) []
  rw [fitDecls_val] at hreg
  rw [loadP4info_added]
  exact hreg

theorem getElement_registered_of_some (ds : List FitDecl) (hp : scheme.Packed map.data)
    {k : UInt64} {elem : Element} (h : getElement map k = some elem) :
    getElement (registered map ds) k = some elem := by
  rw [getElement_eq] at h ⊢
  exact lookup_insertAll_of_some hp _ h

theorem getElement_registered_first {before after : List FitDecl} {first : FitDecl}
    (hp : scheme.Packed map.data) (hn : getElement map first.val.id.toUInt64 = none)
    (hbefore : ∀ other ∈ before.map Subtype.val, other.id ≠ first.val.id) :
    (FindsSlot map (before.map Subtype.val) first.val →
        getElement (registered map (before ++ first :: after)) first.val.id.toUInt64 =
          some first.element) ∧
      (¬FindsSlot map (before.map Subtype.val) first.val →
        getElement (registered map (before ++ first :: after)) first.val.id.toUInt64 = none) := by
  rw [getElement_eq] at hn
  have hother : ∀ w ∈ before.map FitDecl.element, scheme.key w ≠ scheme.key first.element := by
    intro w hw
    obtain ⟨other, ho, rfl⟩ := List.mem_map.mp hw
    exact fun heq => hbefore other.val (List.mem_map_of_mem ho) (toUInt64_injective heq)
  have hsplit := lookup_insertAll_split hp (before.map FitDecl.element)
    (after.map FitDecl.element) first.element hother hn
  rw [FindsSlot, declKeys_val, getElement_eq, registered, List.map_append, List.map_cons]
  exact hsplit

theorem getElement_registered_of_ne (ds : List FitDecl) (hp : scheme.Packed map.data) {k : UInt64}
    (h : ∀ d ∈ ds, d.val.id.toUInt64 ≠ k) :
    getElement (registered map ds) k = getElement map k := by
  rw [getElement_eq, getElement_eq, registered]
  apply lookup_insertAll_of_ne hp _
  intro w hw
  obtain ⟨d, hd, rfl⟩ := List.mem_map.mp hw
  exact h d hd

theorem covers_of_binds {ds : List FitDecl} (hp : scheme.Packed map.data) {d : Decl}
    (h : Binds map (ds.map Subtype.val) d) :
    ∃ elem, getElement (registered map ds) d.id.toUInt64 = some elem ∧ Covers (observe elem) d := by
  rcases h with ⟨he, hc⟩ | @⟨before, after, first, hn, hadded, hid, hbefore, hfinds, hc⟩
  · exact ⟨_, getElement_registered_of_some ds hp he, hc⟩
  · obtain ⟨before, rest, rfl, rfl, hrest⟩ := List.map_eq_append_iff.mp hadded
    obtain ⟨first, after, rfl, rfl, -⟩ := List.map_eq_cons_iff.mp hrest
    rw [← hid] at hn hbefore ⊢
    refine ⟨FitDecl.element first, (getElement_registered_first hp hn hbefore).1 hfinds, ?_⟩
    rwa [observe_element]

theorem exists_first {ds : List FitDecl} {d : Decl} (h : ∃ first ∈ ds, first.val.id = d.id) :
    ∃ before first after, ds = before ++ first :: after ∧ first.val.id = d.id ∧
      ∀ other ∈ before.map Subtype.val, other.id ≠ d.id := by
  obtain ⟨first, hfind⟩ : ∃ first, ds.find? (fun d' => d'.val.id = d.id) = some first := by
    rw [← Option.isSome_iff_exists, List.find?_isSome]
    simpa using h
  obtain ⟨hid, before, after, rfl, hbefore⟩ := List.find?_eq_some_iff_append.mp hfind
  refine ⟨before, first, after, rfl, by simpa using hid, ?_⟩
  intro other ho
  obtain ⟨o, hmem, rfl⟩ := List.mem_map.mp ho
  simpa using hbefore o hmem

theorem binds_of_covers {ds : List FitDecl} (hp : scheme.Packed map.data) {d : Decl}
    {elem : Element} (he : getElement (registered map ds) d.id.toUInt64 = some elem)
    (hc : Covers (observe elem) d) : Binds map (ds.map Subtype.val) d := by
  cases hn : getElement map d.id.toUInt64 with
  | some old =>
      rw [getElement_registered_of_some ds hp hn] at he
      obtain rfl := Option.some.inj he
      exact .already hn hc
  | none =>
      by_cases hany : ∃ first ∈ ds, first.val.id = d.id
      · obtain ⟨before, first, after, rfl, hid, hother⟩ := exists_first hany
        have hsplit := @getElement_registered_first map before after first hp (hid ▸ hn)
          (hid ▸ hother)
        rw [← hid] at he
        by_cases hfinds : FindsSlot map (before.map Subtype.val) first.val
        · rw [hsplit.1 hfinds] at he
          obtain rfl := Option.some.inj he
          exact .added hn (by rw [List.map_append, List.map_cons]) hid hother hfinds
            (by rwa [observe_element] at hc)
        · rw [hsplit.2 hfinds] at he
          cases he
      · rw [getElement_registered_of_ne ds hp fun first hmem heq =>
          hany ⟨first, hmem, toUInt64_injective heq⟩, hn] at he
        cases he

theorem binds_iff {ds : List FitDecl} (hp : scheme.Packed map.data) (d : Decl) :
    Binds map (ds.map Subtype.val) d ↔
      ∃ elem, getElement (registered map ds) d.id.toUInt64 = some elem ∧
        Covers (observe elem) d := by
  constructor
  · exact covers_of_binds hp
  · rintro ⟨elem, he, hc⟩
    exact binds_of_covers hp he hc

theorem push_resolves_iff (hp : scheme.Packed map.data) :
    (∃ map', loadP4info map p4info = pure map' ∧ ResolvesAll map' p4info) ↔
      PushResolves map p4info := by
  by_cases hload : (∀ d ∈ addedDecls map p4info, d.Fits) ∧ SlotsFound map [] (addedDecls map p4info)
  · have hds := fitDecls_val _ hload.1
    have heq := loadP4info_fitted hds hload.2
    have hbinds : ResolvesAll (registered map (fitDecls _ hload.1)) p4info ↔
        ∀ d ∈ declarations p4info, Binds map (addedDecls map p4info) d := by
      rw [ResolvesAll]
      refine forall_congr' fun d => imp_congr_right fun _ => ?_
      rw [← binds_iff hp, hds]
    constructor
    · rintro ⟨map', he, hr⟩
      rw [heq] at he
      obtain rfl : registered map (fitDecls _ hload.1) = map' := by simpa [pure_def] using he
      exact ⟨hload.1, hload.2, hbinds.mp hr⟩
    · intro h
      exact ⟨_, heq, hbinds.mpr h.binds⟩
  · obtain ⟨f, hf⟩ := loadP4info_faults hload
    refine iff_of_false ?_ fun h => hload ⟨h.fits, h.slots⟩
    rintro ⟨map', he, -⟩
    rw [hf] at he
    simp [fault, pure_def] at he

theorem packed_pushed {disk : Disk} {action : ConfigAction} {config : ForwardingPipelineConfig}
    (hp : scheme.Packed server.dm.idMap.data)
    (h : PushedTo disk server action config server') : scheme.Packed server'.dm.idMap.data := by
  cases h with
  | ignored => exact hp
  | @applied map ha hload =>
      by_cases hok : (∀ d ∈ addedDecls server.dm.idMap config.p4info, d.Fits) ∧
          SlotsFound server.dm.idMap [] (addedDecls server.dm.idMap config.p4info)
      · rw [loadP4info_fitted (fitDecls_val _ hok.1) hok.2] at hload
        obtain rfl : registered server.dm.idMap (fitDecls _ hok.1) = map := by
          simpa [pure_def] using hload
        exact packed_insertAll hp _
      · obtain ⟨f, hf⟩ := loadP4info_faults hok
        rw [hf] at hload
        simp [fault, pure_def] at hload

theorem Reachable.packed {deviceId : UInt64} {last : Option P4Info}
    (h : Reachable deviceId server last) : scheme.Packed server.dm.idMap.data := by
  refine reachable_induction (P := fun server => scheme.Packed server.dm.idMap.data)
    Scheme.packed_empty ?_ ?_ h
  · intro server server' hp hw
    rw [hw]
    exact hp
  · intro server disk id action config server' hp hpushed
    exact @packed_pushed (withDeviceId server id) _ _ _ _ hp hpushed

theorem push_all_or_nothing_iff {deviceId : UInt64} {last : Option P4Info} {disk : Disk}
    {action : ConfigAction} {config : ForwardingPipelineConfig}
    (hr : Reachable deviceId server last) (ha : ConfigAction.accepted action = true) :
    AllOrNothing disk server action config ↔ PushResolves server.dm.idMap config.p4info := by
  have happlied : ConfigAction.applied action = true := by
    cases action <;> first | rfl | cases ha
  rw [← push_resolves_iff hr.packed]
  constructor
  · rintro ⟨log, server', status, he, hcase⟩
    obtain ⟨-, rfl, hpushed⟩ := pushedTo_of_ok he
    rcases hcase with ⟨-, hres⟩ | ⟨hs, -⟩
    · cases hpushed with
      | applied _ hload => exact ⟨_, hload, hres⟩
      | ignored hn => simp [happlied] at hn
    · cases hs
  · rintro ⟨map', hload, hres⟩
    exact ⟨[], _, _, devMgrSetPipelineConfig_of_load happlied hload, Or.inl ⟨rfl, hres⟩⟩

namespace PushOutcome

theorem push_all_or_nothing_l2fwd :
    AllOrNothing Disk.reliable (Server.init 1) .verifyAndCommit (L2fwd.pushOf L2fwd.p4info).config ↔
      PushResolves (Server.init 1).dm.idMap L2fwd.p4info :=
  @push_all_or_nothing_iff (Server.init 1) 1 none Disk.reliable .verifyAndCommit
    (L2fwd.pushOf L2fwd.p4info).config Reachable.init rfl

def counterOf (id : UInt32) (name : String) : Counter := { preamble := { id := id, name := name } }

-- Five ids of one residue, and four slots from their home to the end of the map.
def crowded : P4Info :=
  { tables := []
    actions := []
    counters :=
      [counterOf 1023 "a", counterOf 2047 "b", counterOf 3071 "c", counterOf 4095 "d",
        counterOf 5119 "e"]
    digests := [] }

theorem crowded_push_hides_failure :
    Reachable 1 (Server.init 1) none ∧
      ¬AllOrNothing Disk.reliable (Server.init 1) .verifyAndCommit (L2fwd.pushOf crowded).config := by
  refine ⟨Reachable.init, ?_⟩
  rintro ⟨log, server', status, he, hcase⟩
  obtain ⟨-, rfl, -⟩ := pushedTo_of_ok he
  rcases hcase with ⟨-, hres⟩ | ⟨hs, -⟩
  · obtain ⟨elem, hget, -⟩ := hres (counterDecl (counterOf 5119 "e")) (by decide)
    have hlost : (devMgrSetPipelineConfig Disk.reliable (Server.init 1) .verifyAndCommit
        (L2fwd.pushOf crowded).config).out.toOption.map
          (fun r => getElement r.1.dm.idMap 5119) = some none := by decide
    rw [he] at hlost
    have hnone : getElement server'.dm.idMap 5119 = none := by simpa [Except.toOption] using hlost
    cases hnone.symm.trans hget
  · cases hs

end PushOutcome

end Device
