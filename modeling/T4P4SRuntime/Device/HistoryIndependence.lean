import T4P4SRuntime.Device.PushOutcome

namespace Device

open IdMap P4Config P4v1 Exec Probing

variable {server : Server} {earlier : List ConfigCall} {last : ConfigCall}

def ConfigCall.tried (done : List Decl) (c : ConfigCall) : List Decl :=
  if ConfigAction.applied c.action then triedDecls initMap done c.config.p4info else []

def triedBy (done : List Decl) : List ConfigCall → List Decl
  | [] => []
  | c :: cs => c.tried done ++ triedBy (done ++ c.tried done) cs

structure PushesDefined (calls : List ConfigCall) : Prop where
  fits : ∀ d ∈ triedBy [] calls, d.Fits
  slots : SlotsFound initMap [] (triedBy [] calls)

-- The first declaration of an id binds it, or leaves it unbound for good when it finds no slot.
def boundDecl (before : List Decl) (k : UInt64) : List Decl → Option Decl
  | [] => none
  | d :: ds =>
      if d.id.toUInt64 = k then if FindsSlot initMap before d then some d else none
      else boundDecl (before ++ [d]) k ds

def foundAs (before ds : List Decl) (k : UInt64) : Option Observation :=
  (boundDecl before k ds).map Decl.observe

def Declares (ds : List Decl) (k : UInt64) : Prop := ∃ d ∈ ds, d.id.toUInt64 = k

structure HistoryForgotten (earlier : List ConfigCall) (last : ConfigCall) : Prop where
  defined : PushesDefined (earlier ++ [last])
  defined_alone : PushesDefined [last]
  declared_before : ∀ d ∈ triedBy [] earlier,
    foundAs [] (triedBy [] earlier) d.id.toUInt64 = foundAs [] (last.tried []) d.id.toUInt64
  declared_last : ∀ d ∈ declarations last.config.p4info,
    ¬Declares (triedBy [] earlier) d.id.toUInt64 →
      foundAs (triedBy [] earlier) (last.tried (triedBy [] earlier)) d.id.toUInt64 =
        foundAs [] (last.tried []) d.id.toUInt64

theorem triedBy_append (done : List Decl) (calls later : List ConfigCall) :
    triedBy done (calls ++ later) =
      triedBy done calls ++ triedBy (done ++ triedBy done calls) later := by
  induction calls generalizing done with
  | nil => simp [triedBy]
  | cons c cs ih => simp only [List.cons_append, triedBy, ih, List.append_assoc]

theorem triedBy_singleton (done : List Decl) (c : ConfigCall) : triedBy done [c] = c.tried done := by
  simp [triedBy]

theorem triedBy_concat (earlier : List ConfigCall) (last : ConfigCall) :
    triedBy [] (earlier ++ [last]) =
      triedBy [] earlier ++ last.tried (triedBy [] earlier) := by
  rw [triedBy_append, triedBy_singleton, List.nil_append]

theorem tried_subset (done : List Decl) (c : ConfigCall) :
    c.tried done ⊆ declarations c.config.p4info := by
  rw [ConfigCall.tried]
  split
  · exact (triedDecls_sublist initMap done _).subset
  · exact List.nil_subset _

theorem push_tried (done : List FitDecl) (hmap : server.dm.idMap = registered initMap done)
    {c : ConfigCall} {ds : List FitDecl}
    (hd : ds.map Subtype.val = c.tried (done.map Subtype.val))
    (hs : SlotsFound initMap (done.map Subtype.val) (c.tried (done.map Subtype.val))) :
    ∃ server', devMgrSetPipelineConfig c.disk server c.action c.config =
        pure (server', Status.make .ok "ok") ∧
      server'.dm.idMap = registered initMap (done ++ ds) := by
  rw [ConfigCall.tried] at hd hs
  by_cases ha : ConfigAction.applied c.action = true
  · rw [if_pos ha] at hd hs
    rw [← hd] at hs
    have hload : loadP4info server.dm.idMap c.config.p4info =
        pure (registered initMap (done ++ ds)) := by
      rw [hmap, loadP4info_tried, ← hd, registerAll_registered ds done hs]
    exact ⟨_, devMgrSetPipelineConfig_of_load ha hload, rfl⟩
  · rw [if_neg ha] at hd
    obtain rfl := List.map_eq_nil_iff.mp hd
    exact ⟨server, by rw [devMgrSetPipelineConfig, if_neg ha], by rw [List.append_nil, hmap]⟩

theorem push_tried_faults (done : List FitDecl) (hmap : server.dm.idMap = registered initMap done)
    {c : ConfigCall}
    (h : ¬((∀ d ∈ c.tried (done.map Subtype.val), d.Fits) ∧
      SlotsFound initMap (done.map Subtype.val) (c.tried (done.map Subtype.val)))) :
    ∃ f, devMgrSetPipelineConfig c.disk server c.action c.config = fault f := by
  rw [ConfigCall.tried] at h
  by_cases ha : ConfigAction.applied c.action = true
  · rw [if_pos ha] at h
    obtain ⟨f, hf⟩ := registerAll_faults _ done h
    exact ⟨f, by rw [devMgrSetPipelineConfig, if_pos ha, hmap, loadP4info_tried, hf, fault_bind]⟩
  · rw [if_neg ha] at h
    exact absurd ⟨by simp, trivial⟩ h

theorem pushAll_tried (calls : List ConfigCall) (done : List FitDecl)
    (hmap : server.dm.idMap = registered initMap done) {ds : List FitDecl}
    (hd : ds.map Subtype.val = triedBy (done.map Subtype.val) calls)
    (hs : SlotsFound initMap (done.map Subtype.val) (triedBy (done.map Subtype.val) calls)) :
    ∃ server', pushAll server calls = ⟨[], .ok server'⟩ ∧
      server'.dm.idMap = registered initMap (done ++ ds) := by
  induction calls generalizing server done ds with
  | nil =>
      obtain rfl := List.map_eq_nil_iff.mp hd
      exact ⟨server, rfl, by rw [List.append_nil, hmap]⟩
  | cons c cs ih =>
      rw [triedBy] at hd
      rw [triedBy, slotsFound_append] at hs
      obtain ⟨first, rest, rfl, hfirst, hrest⟩ := List.map_eq_append_iff.mp hd
      obtain ⟨next, he, hnext⟩ := push_tried done hmap hfirst hs.1
      rw [← hfirst, ← List.map_append] at hs hrest
      obtain ⟨server', hall, hmap'⟩ := ih (done ++ first) hnext hrest hs.2
      refine ⟨server', ?_, by rw [hmap', List.append_assoc]⟩
      rw [pushAll, he, pure_bind]
      exact hall

theorem pushAll_tried_faults (calls : List ConfigCall) (done : List FitDecl)
    (hmap : server.dm.idMap = registered initMap done)
    (h : ¬((∀ d ∈ triedBy (done.map Subtype.val) calls, d.Fits) ∧
      SlotsFound initMap (done.map Subtype.val) (triedBy (done.map Subtype.val) calls))) :
    ∃ f, pushAll server calls = fault f := by
  induction calls generalizing server done with
  | nil => exact absurd ⟨by simp [triedBy], trivial⟩ h
  | cons c cs ih =>
      rw [triedBy, slotsFound_append] at h
      by_cases hc : (∀ d ∈ c.tried (done.map Subtype.val), d.Fits) ∧
          SlotsFound initMap (done.map Subtype.val) (c.tried (done.map Subtype.val))
      · have hfirst := fitDecls_val _ hc.1
        obtain ⟨next, he, hnext⟩ := push_tried done hmap hfirst hc.2
        obtain ⟨f, hf⟩ := ih (done ++ fitDecls _ hc.1) hnext (by
          rw [List.map_append, hfirst]
          exact fun hrest => h ⟨fun d hd => (List.mem_append.mp hd).elim (hc.1 d) (hrest.1 d),
            hc.2, hrest.2⟩)
        refine ⟨f, ?_⟩
        rw [pushAll, he, pure_bind]
        exact hf
      · obtain ⟨f, hf⟩ := push_tried_faults done hmap hc
        exact ⟨f, by rw [pushAll, hf, fault_bind]⟩

theorem boundDecl_append_absent {xs : List Decl} {k : UInt64} (h : ¬Declares xs k)
    (before ys : List Decl) :
    boundDecl before k (xs ++ ys) = boundDecl (before ++ xs) k ys := by
  induction xs generalizing before with
  | nil => rw [List.nil_append, List.append_nil]
  | cons d ds ih =>
      have hd : d.id.toUInt64 ≠ k := fun hk => h ⟨d, by simp, hk⟩
      have hds : ¬Declares ds k := fun ⟨e, he, hk⟩ => h ⟨e, by simp [he], hk⟩
      rw [List.cons_append, boundDecl, if_neg hd, ih hds, List.append_assoc, List.singleton_append]

theorem boundDecl_append_declared {xs : List Decl} {k : UInt64} (h : Declares xs k)
    (before ys : List Decl) : boundDecl before k (xs ++ ys) = boundDecl before k xs := by
  induction xs generalizing before with
  | nil =>
      obtain ⟨d, hd, -⟩ := h
      cases hd
  | cons d ds ih =>
      rw [List.cons_append, boundDecl, boundDecl]
      split
      · rfl
      · rename_i hk
        obtain ⟨e, he, hek⟩ := h
        rcases List.mem_cons.mp he with rfl | he
        · exact absurd hek hk
        · exact ih ⟨e, he, hek⟩ _

theorem boundDecl_absent {ds : List Decl} {k : UInt64} (h : ¬Declares ds k) (before : List Decl) :
    boundDecl before k ds = none := by
  have happ := boundDecl_append_absent h before []
  rwa [List.append_nil] at happ

theorem getElement_bound (ds : List FitDecl) (k : UInt64) :
    (getElement (registered initMap ds) k).map observe = foundAs [] (ds.map Subtype.val) k := by
  by_cases h : Declares (ds.map Subtype.val) k
  · obtain ⟨d, hd, rfl⟩ := h
    obtain ⟨fit, hfit, rfl⟩ := List.mem_map.mp hd
    obtain ⟨before, first, after, rfl, hid, hother⟩ := exists_first ⟨fit, hfit, rfl⟩
    have hbefore : ¬Declares (before.map Subtype.val) first.val.id.toUInt64 := by
      rintro ⟨e, he, hk⟩
      exact hother e he ((toUInt64_injective hk).trans hid)
    have hsplit := @getElement_registered_first initMap before after first Scheme.packed_empty
      (getElement_initMap _) (hid ▸ hother)
    rw [← hid, foundAs, List.map_append, List.map_cons, boundDecl_append_absent hbefore,
      List.nil_append, boundDecl, if_pos rfl]
    by_cases hfinds : FindsSlot initMap (before.map Subtype.val) first.val
    · rw [hsplit.1 hfinds, if_pos hfinds, Option.map_some, Option.map_some, observe_element]
    · rw [hsplit.2 hfinds, if_neg hfinds, Option.map_none, Option.map_none]
  · rw [foundAs, boundDecl_absent h, getElement_registered_of_ne ds Scheme.packed_empty,
      getElement_initMap, Option.map_none, Option.map_none]
    exact fun d hd hk => h ⟨d.val, List.mem_map_of_mem hd, hk⟩

theorem pushAll_defined {deviceId : UInt64} {calls : List ConfigCall} (h : PushesDefined calls) :
    ∃ server, pushAll (Server.init deviceId) calls = ⟨[], .ok server⟩ ∧
      ∀ k, (getElement server.dm.idMap k).map observe = foundAs [] (triedBy [] calls) k := by
  have hds := fitDecls_val _ h.fits
  obtain ⟨server, he, hmap⟩ := @pushAll_tried (Server.init deviceId) calls [] rfl _ hds h.slots
  refine ⟨server, he, fun k => ?_⟩
  rw [hmap, List.nil_append, getElement_bound, hds]

theorem pushesDefined_of_ok {deviceId : UInt64} {calls : List ConfigCall}
    (h : pushAll (Server.init deviceId) calls = ⟨[], .ok server⟩) : PushesDefined calls := by
  by_contra hn
  obtain ⟨f, hf⟩ := @pushAll_tried_faults (Server.init deviceId) calls [] rfl
    fun hc => hn ⟨hc.1, hc.2⟩
  rw [hf] at h
  cases h

theorem found_of_ok {deviceId : UInt64} {calls : List ConfigCall}
    (h : pushAll (Server.init deviceId) calls = ⟨[], .ok server⟩) (k : UInt64) :
    (getElement server.dm.idMap k).map observe = foundAs [] (triedBy [] calls) k := by
  obtain ⟨server', he, hfound⟩ := @pushAll_defined deviceId _ (pushesDefined_of_ok h)
  obtain rfl : server = server' := by simpa [h] using he
  exact hfound k

theorem independent_iff_found {deviceId : UInt64} :
    HistoryIndependent deviceId earlier last ↔
      PushesDefined (earlier ++ [last]) ∧ PushesDefined [last] ∧
        ∀ k, foundAs [] (triedBy [] (earlier ++ [last])) k = foundAs [] (last.tried []) k := by
  constructor
  · rintro ⟨server, alone, he, hea, hsame⟩
    refine ⟨pushesDefined_of_ok he, pushesDefined_of_ok hea, fun k => ?_⟩
    rw [← found_of_ok he, hsame, found_of_ok hea, triedBy_singleton]
  · rintro ⟨hdefined, halone, hfound⟩
    obtain ⟨server, he, hobs⟩ := @pushAll_defined deviceId _ hdefined
    obtain ⟨alone, hea, hobsa⟩ := @pushAll_defined deviceId _ halone
    refine ⟨server, alone, he, hea, fun k => ?_⟩
    rw [hobs, hfound, hobsa, triedBy_singleton]

theorem foundAs_concat (earlier : List ConfigCall) (last : ConfigCall) (k : UInt64) :
    (Declares (triedBy [] earlier) k →
        foundAs [] (triedBy [] (earlier ++ [last])) k = foundAs [] (triedBy [] earlier) k) ∧
      (¬Declares (triedBy [] earlier) k →
        foundAs [] (triedBy [] (earlier ++ [last])) k =
          foundAs (triedBy [] earlier) (last.tried (triedBy [] earlier)) k) := by
  rw [triedBy_concat]
  constructor
  · intro h
    rw [foundAs, boundDecl_append_declared h, foundAs]
  · intro h
    rw [foundAs, boundDecl_append_absent h, List.nil_append, foundAs]

theorem foundAs_undeclared (c : ConfigCall) (done before : List Decl) {k : UInt64}
    (h : ¬Declares (declarations c.config.p4info) k) : foundAs before (c.tried done) k = none := by
  have htried : ¬Declares (c.tried done) k := fun ⟨d, hd, hk⟩ => h ⟨d, tried_subset done c hd, hk⟩
  rw [foundAs, boundDecl_absent htried, Option.map_none]

theorem pipeline_history_independent_iff {deviceId : UInt64} :
    HistoryIndependent deviceId earlier last ↔ HistoryForgotten earlier last := by
  rw [independent_iff_found]
  constructor
  · rintro ⟨hdefined, halone, hfound⟩
    refine ⟨hdefined, halone, fun d hd => ?_, fun d _ hd => ?_⟩
    · rw [← hfound, (foundAs_concat earlier last _).1 ⟨d, hd, rfl⟩]
    · rw [← hfound, (foundAs_concat earlier last _).2 hd]
  · intro h
    refine ⟨h.defined, h.defined_alone, fun k => ?_⟩
    by_cases hold : Declares (triedBy [] earlier) k
    · rw [(foundAs_concat earlier last k).1 hold]
      obtain ⟨d, hd, rfl⟩ := hold
      exact h.declared_before d hd
    · rw [(foundAs_concat earlier last k).2 hold]
      by_cases hnew : Declares (declarations last.config.p4info) k
      · obtain ⟨d, hd, rfl⟩ := hnew
        exact h.declared_last d hd hold
      · rw [foundAs_undeclared last _ _ hnew, foundAs_undeclared last _ _ hnew]

namespace History

def renamed : P4Info :=
  { L2fwd.p4info with
    tables := [{ L2fwd.dmac with preamble := { id := 33610402, name := "l2_forwarding" } }] }

def nameAfter (calls : List ConfigCall) (k : UInt64) : Option (Option CString) :=
  (pushAll (Server.init 1) calls).out.toOption.map
    (fun server => (getElement server.dm.idMap k).map Element.value)

theorem dependent_of_name (k : UInt64)
    (h : nameAfter (earlier ++ [last]) k ≠ nameAfter [last] k) :
    ¬HistoryIndependent 1 earlier last := by
  rintro ⟨server, alone, he, hea, hsame⟩
  have hname := congrArg (Option.map Prod.fst) (hsame k)
  rw [Option.map_map, Option.map_map] at hname
  apply h
  rw [nameAfter, nameAfter, he, hea]
  exact congrArg some hname

theorem stale_table_name :
    ¬HistoryIndependent 1 [callOf L2fwd.p4info] (callOf renamed) :=
  dependent_of_name 33610402 (by decide)

def counting (ids : List UInt32) : ConfigCall :=
  callOf
    { tables := []
      actions := []
      counters := ids.map (fun id => PushOutcome.counterOf id "packets")
      digests := [] }

-- Four pushes of one counter take every slot from its home to the end of the map.
theorem counter_without_slot :
    nameAfter (List.replicate 4 (counting [1023]) ++ [counting [1023, 2047]]) 2047 = some none ∧
      ¬HistoryIndependent 1 (List.replicate 4 (counting [1023])) (counting [1023, 2047]) :=
  ⟨by decide, dependent_of_name 2047 (by decide)⟩

end History

end Device
