import T4P4SRuntime.Device.TableInsert

namespace Device

open IdMap P4v1 Messages Exec

def FieldMatchType.supported : FieldMatchType → Bool
  | .exact _ | .lpm _ _ | .ternary _ _ => true
  | .range _ _ | .other | .notSet => false

def FieldMatchType.resetsStatus : FieldMatchType → Bool
  | .exact _ | .lpm _ _ => true
  | .ternary _ _ | .range _ _ | .other | .notSet => false

def nextStatus (status : Status) (m : FieldMatch) : Status :=
  match m.fieldMatchType with
  | .exact _ | .lpm _ _ => Status.success
  | .ternary _ _ => status
  | .range _ _ | .other | .notSet => Status.make .unimplemented "MatchType is not implemented"

def matchStatus (ms : List FieldMatch) : Status := ms.foldl nextStatus Status.success

def ruleOf (arg : Argument) : FieldMatchType → Option FieldMatchRecord
  | .exact value => some (genMatchRuleExact arg value)
  | .lpm value prefixLen => some (genMatchRuleLpm arg value prefixLen)
  | .ternary value mask => some (genMatchRuleTernary arg value mask)
  | .range _ _ | .other | .notSet => none

def recordOf (elem : Element) (m : FieldMatch) : Option FieldMatchRecord :=
  (getArgument elem m.fieldId.toUInt64).bind (ruleOf · m.fieldMatchType)

def paramOf (elem : Element) (p : Param) : Option ActionParameter :=
  (getArgument elem p.paramId.toUInt64).map (genActionParam · p)

def FieldResolves (elem : Element) (m : FieldMatch) : Prop :=
  FieldMatchType.supported m.fieldMatchType = true → getArgument elem m.fieldId.toUInt64 ≠ none

def FieldsResolve (elem : Element) (ms : List FieldMatch) : Prop := ∀ m ∈ ms, FieldResolves elem m

def ParamsResolve (elem : Element) (ps : List Param) : Prop :=
  ∀ p ∈ ps, getArgument elem p.paramId.toUInt64 ≠ none

instance (elem : Element) (m : FieldMatch) : Decidable (FieldResolves elem m) :=
  inferInstanceAs (Decidable (_ → _))

instance (elem : Element) (ms : List FieldMatch) : Decidable (FieldsResolve elem ms) :=
  inferInstanceAs (Decidable (∀ m ∈ ms, _))

instance (elem : Element) (ps : List Param) : Decidable (ParamsResolve elem ps) :=
  inferInstanceAs (Decidable (∀ p ∈ ps, _))

theorem fieldsResolve_cons {elem : Element} {m : FieldMatch} {ms : List FieldMatch} :
    FieldsResolve elem (m :: ms) ↔ FieldResolves elem m ∧ FieldsResolve elem ms := by
  simp [FieldsResolve]

theorem paramsResolve_cons {elem : Element} {p : Param} {ps : List Param} :
    ParamsResolve elem (p :: ps) ↔
      getArgument elem p.paramId.toUInt64 ≠ none ∧ ParamsResolve elem ps := by
  simp [ParamsResolve]

theorem matchLoop_cons (elem : Element) (m : FieldMatch) (ms : List FieldMatch) (status : Status)
    (records : List FieldMatchRecord) :
    matchLoop elem (m :: ms) status records =
      if FieldResolves elem m then
        matchLoop elem ms (nextStatus status m) (records ++ (recordOf elem m).toList)
      else fault .nullArgument := by
  cases hm : m.fieldMatchType <;> cases ha : getArgument elem m.fieldId.toUInt64 <;>
    simp [matchLoop, hm, ha, FieldResolves, FieldMatchType.supported, nextStatus, recordOf, ruleOf]

theorem matchLoop_eq (elem : Element) (ms : List FieldMatch) (status : Status)
    (records : List FieldMatchRecord) :
    matchLoop elem ms status records =
      if FieldsResolve elem ms then
        pure (ms.foldl nextStatus status, records ++ ms.filterMap (recordOf elem))
      else fault .nullArgument := by
  induction ms generalizing status records with
  | nil => simp [matchLoop, FieldsResolve]
  | cons m ms ih =>
      rw [matchLoop_cons, ih]
      by_cases hm : FieldResolves elem m
      · cases hr : recordOf elem m <;> simp [fieldsResolve_cons, hm, hr]
      · simp [fieldsResolve_cons, hm]

theorem paramLoop_eq (elem : Element) (ps : List Param) (params : List ActionParameter) :
    paramLoop elem ps params =
      if ParamsResolve elem ps then pure (params ++ ps.filterMap (paramOf elem))
      else fault .nullArgument := by
  induction ps generalizing params with
  | nil => simp [paramLoop, ParamsResolve]
  | cons p ps ih =>
      cases ha : getArgument elem p.paramId.toUInt64 with
      | none => simp [paramLoop, ha, paramsResolve_cons]
      | some arg => simp [paramLoop, ha, ih, paramsResolve_cons, paramOf]

theorem supported_record {elem : Element} {m : FieldMatch} (h : FieldResolves elem m)
    (hs : FieldMatchType.supported m.fieldMatchType = true) : recordOf elem m ≠ none := by
  obtain ⟨arg, harg⟩ := Option.ne_none_iff_exists'.mp (h hs)
  cases ht : m.fieldMatchType <;>
    simp [ht, FieldMatchType.supported, recordOf, harg, ruleOf] at hs ⊢

theorem unsupported_record {elem : Element} {m : FieldMatch}
    (hs : FieldMatchType.supported m.fieldMatchType = false) : recordOf elem m = none := by
  cases ht : m.fieldMatchType <;> simp [ht, FieldMatchType.supported, recordOf, ruleOf] at hs ⊢

theorem fieldMatches_length {elem : Element} (ms : List FieldMatch) (h : FieldsResolve elem ms) :
    (ms.filterMap (recordOf elem)).length =
      (ms.filter (fun m => FieldMatchType.supported m.fieldMatchType)).length := by
  induction ms with
  | nil => rfl
  | cons m ms ih =>
      obtain ⟨hm, hms⟩ := fieldsResolve_cons.mp h
      cases hs : FieldMatchType.supported m.fieldMatchType with
      | true =>
          obtain ⟨r, hr⟩ := Option.ne_none_iff_exists'.mp (supported_record hm hs)
          rw [List.filterMap_cons_some hr]
          simp [hs, ih hms]
      | false =>
          rw [List.filterMap_cons_none (unsupported_record hs)]
          simp [hs, ih hms]

theorem paramOf_ne_none {elem : Element} {ps : List Param} (h : ParamsResolve elem ps) :
    ∀ p ∈ ps, paramOf elem p ≠ none := by
  intro p hp
  obtain ⟨arg, harg⟩ := Option.ne_none_iff_exists'.mp (h p hp)
  simp [paramOf, harg]

theorem filterMap_length {A B : Type} {f : A → Option B} {l : List A}
    (h : ∀ a ∈ l, f a ≠ none) : (l.filterMap f).length = l.length :=
  List.filterMap_length_eq_length.mpr fun a ha => Option.isSome_iff_ne_none.mpr (h a ha)

theorem actionParams_length {elem : Element} (ps : List Param) (h : ParamsResolve elem ps) :
    (ps.filterMap (paramOf elem)).length = ps.length :=
  filterMap_length (paramOf_ne_none h)

theorem filterMap_getElem? {A B : Type} {f : A → Option B} {l : List A}
    (h : ∀ a ∈ l, f a ≠ none) (i : Nat) : (l.filterMap f)[i]? = l[i]?.bind f := by
  induction l generalizing i with
  | nil => rfl
  | cons a l ih =>
      obtain ⟨b, hb⟩ := Option.ne_none_iff_exists'.mp (h a (by simp))
      rw [List.filterMap_cons_some hb]
      cases i with
      | zero => simp [hb]
      | succ i => simpa using ih (fun a ha => h a (by simp [ha])) i

theorem msgType_eq (entry : TableEntry) :
    msgType entry = if entry.isDefaultAction then .setDefaultAction else .addTableEntry := rfl

def insertMessage (elem actionElem : Element) (entry : TableEntry) (action : P4v1.Action) :
    CtrlMsg :=
  { type := msgType entry
    tableName := elem.value
    fieldMatches := entry.matchList.filterMap (recordOf elem)
    actionName := actionElem.value
    actionParams := action.params.filterMap (paramOf actionElem) }

theorem insertMessage_type_ne (elem actionElem : Element) (entry : TableEntry)
    (action : P4v1.Action) :
    (insertMessage elem actionElem entry action).type ≠ .ctrlInitialized := by
  rw [insertMessage, msgType_eq]
  split <;> simp

def RejectionStands (ms : List FieldMatch) : Prop :=
  ∃ before m after, ms = before ++ m :: after ∧
    FieldMatchType.supported m.fieldMatchType = false ∧
    ∀ m' ∈ after, FieldMatchType.resetsStatus m'.fieldMatchType = false

theorem not_rejectionStands_of_supported {ms : List FieldMatch}
    (h : ∀ m ∈ ms, FieldMatchType.supported m.fieldMatchType = true) : ¬RejectionStands ms := by
  rintro ⟨before, m, after, rfl, hm, -⟩
  simp [h m (by simp)] at hm

theorem matchStatus_append (ms : List FieldMatch) (m : FieldMatch) :
    matchStatus (ms ++ [m]) = nextStatus (matchStatus ms) m := by
  simp [matchStatus]

theorem rejectionStands_append (ms : List FieldMatch) (m : FieldMatch) :
    RejectionStands (ms ++ [m]) ↔
      FieldMatchType.supported m.fieldMatchType = false ∨
        (RejectionStands ms ∧ FieldMatchType.resetsStatus m.fieldMatchType = false) := by
  constructor
  · rintro ⟨before, u, after, he, hu, hafter⟩
    rcases List.eq_nil_or_concat after with rfl | ⟨after', l, rfl⟩
    · obtain ⟨-, rfl⟩ := List.append_inj' he rfl |>.imp id (by simpa using ·)
      exact Or.inl hu
    · have hsplit : ms ++ [m] = (before ++ u :: after') ++ [l] := by simpa using he
      obtain ⟨rfl, hl⟩ := List.append_inj' hsplit rfl
      obtain rfl : m = l := by simpa using hl
      exact Or.inr ⟨⟨before, u, after', rfl, hu, fun m' hm' => hafter m' (by simp [hm'])⟩,
        hafter m (by simp)⟩
  · rintro (hm | ⟨⟨before, u, after, rfl, hu, hafter⟩, hm⟩)
    · exact ⟨ms, m, [], rfl, hm, by simp⟩
    · refine ⟨before, u, after ++ [m], by simp, hu, fun m' hm' => ?_⟩
      rcases List.mem_append.mp hm' with h | h
      · exact hafter m' h
      · obtain rfl : m' = m := by simpa using h
        exact hm

theorem matchStatus_ok_iff (ms : List FieldMatch) :
    (matchStatus ms).ok = false ↔ RejectionStands ms := by
  induction ms using List.reverseRecOn with
  | nil => simp [matchStatus, Status.success, Status.make, Status.ok, RejectionStands]
  | append_singleton ms m ih =>
      rw [matchStatus_append, rejectionStands_append, ← ih]
      cases hm : m.fieldMatchType <;>
        simp [nextStatus, hm, FieldMatchType.supported, FieldMatchType.resetsStatus,
          Status.success, Status.make, Status.ok]

theorem matchStatus_ok {ms : List FieldMatch} (h : ¬RejectionStands ms) :
    (matchStatus ms).ok = true := by
  rwa [← Bool.not_eq_false, matchStatus_ok_iff]

theorem matchStatus_of_ok {ms : List FieldMatch} (h : (matchStatus ms).ok = true) :
    matchStatus ms = Status.success := by
  induction ms using List.reverseRecOn with
  | nil => rfl
  | append_singleton ms m ih =>
      rw [matchStatus_append] at h ⊢
      cases hm : m.fieldMatchType with
      | exact | lpm => simp [nextStatus, hm]
      | ternary =>
          simp only [nextStatus, hm] at h ⊢
          exact ih h
      | range | other | notSet => simp [nextStatus, hm, Status.make, Status.ok] at h

def TableResolves (dm : DeviceMgr) (entry : TableEntry) (elem : Element) : Prop :=
  getElement dm.idMap entry.tableId.toUInt64 = some elem

def ActionResolves (dm : DeviceMgr) (entry : TableEntry) (action : P4v1.Action)
    (actionElem : Element) : Prop :=
  entry.action = .action action ∧ getElement dm.idMap action.actionId.toUInt64 = some actionElem

structure InsertClean (dm : DeviceMgr) (entry : TableEntry) (elem : Element) : Prop where
  table : TableResolves dm entry elem
  fields : FieldsResolve elem entry.matchList
  params : ∀ action actionElem, ActionResolves dm entry action actionElem →
    ParamsResolve actionElem action.params

variable {dm : DeviceMgr} {entry : TableEntry} {elem actionElem : Element} {action : P4v1.Action}

theorem tableInsert_of_action (h : InsertClean dm entry elem)
    (ha : ActionResolves dm entry action actionElem) :
    tableInsert dm entry =
      if (matchStatus entry.matchList).ok then
        ⟨[.cb (insertMessage elem actionElem entry action)], .ok Status.success⟩
      else pure (matchStatus entry.matchList) := by
  have ht : getElement dm.idMap entry.tableId.toUInt64 = some elem := h.table
  have hp := h.params action actionElem ha
  cases hok : (matchStatus entry.matchList).ok with
  | true =>
      have hs := matchStatus_of_ok hok
      rw [matchStatus] at hs
      simp [tableInsert, ht, matchLoop_eq, h.fields, ha.1, ha.2, paramLoop_eq, hp, hs,
        insertMessage, emit, pure_def, mk_bind]
  | false =>
      rw [matchStatus] at hok ⊢
      simp [tableInsert, ht, matchLoop_eq, h.fields, ha.1, ha.2, paramLoop_eq, hp, hok]

theorem tableInsert_of_no_action (h : InsertClean dm entry elem)
    (ha : ∀ action actionElem, ¬ActionResolves dm entry action actionElem) :
    ∃ status, tableInsert dm entry = ⟨[], .ok status⟩ ∧ status.ok = false := by
  have ht : getElement dm.idMap entry.tableId.toUInt64 = some elem := h.table
  cases hact : entry.action with
  | action a =>
      have hn : getElement dm.idMap a.actionId.toUInt64 = none := by
        cases hg : getElement dm.idMap a.actionId.toUInt64 with
        | none => rfl
        | some e => exact absurd ⟨hact, hg⟩ (ha a e)
      exact ⟨Status.make .invalidArgument "Invalid ActionId",
        by simp [tableInsert, ht, matchLoop_eq, h.fields, hact, hn, pure_def, mk_bind], rfl⟩
  | actionProfileMemberId | actionProfileGroupId | actionProfileActionSet | notSet =>
      exact ⟨Status.make .unimplemented "ActionType is not implemented",
        by simp [tableInsert, ht, matchLoop_eq, h.fields, hact, pure_def, mk_bind], rfl⟩

theorem tableInsert_faults (h : ∀ elem, ¬InsertClean dm entry elem) :
    ∃ f, tableInsert dm entry = fault f := by
  cases ht : getElement dm.idMap entry.tableId.toUInt64 with
  | none => exact ⟨.nullElement, by simp [tableInsert, ht]⟩
  | some elem =>
      by_cases hf : FieldsResolve elem entry.matchList
      · have hex : ∃ action actionElem, ActionResolves dm entry action actionElem ∧
            ¬ParamsResolve actionElem action.params := by
          by_contra hc
          push Not at hc
          exact h elem ⟨ht, hf, hc⟩
        obtain ⟨action, actionElem, ha, hp⟩ := hex
        exact ⟨.nullArgument, by
          simp [tableInsert, ht, matchLoop_eq, hf, ha.1, ha.2, paramLoop_eq, hp]⟩
      · exact ⟨.nullArgument, by simp [tableInsert, ht, matchLoop_eq, hf]⟩

def Installs (run : Run Status) : Prop :=
  ∃ msg status, run = ⟨[.cb msg], .ok status⟩ ∧ status.ok = true

def Refuses (run : Run Status) : Prop := ∃ status, run = ⟨[], .ok status⟩ ∧ status.ok = false

theorem installs_iff (h : InsertClean dm entry elem) :
    Installs (tableInsert dm entry) ↔
      (∃ action actionElem, ActionResolves dm entry action actionElem) ∧
        ¬RejectionStands entry.matchList := by
  by_cases hex : ∃ action actionElem, ActionResolves dm entry action actionElem
  · obtain ⟨action, actionElem, ha⟩ := hex
    rw [tableInsert_of_action h ha, ← matchStatus_ok_iff]
    cases hok : (matchStatus entry.matchList).ok with
    | true =>
        simp only [if_true, Bool.true_eq_false, not_false_eq_true, and_true]
        exact ⟨fun _ => ⟨action, actionElem, ha⟩, fun _ => ⟨_, _, rfl, rfl⟩⟩
    | false =>
        simp [Installs, pure_def]
  · have ha : ∀ action actionElem, ¬ActionResolves dm entry action actionElem :=
      fun action actionElem ha => hex ⟨action, actionElem, ha⟩
    obtain ⟨status, he, -⟩ := tableInsert_of_no_action h ha
    simp [Installs, he, hex]

theorem refuses_iff (h : InsertClean dm entry elem) :
    Refuses (tableInsert dm entry) ↔ ¬Installs (tableInsert dm entry) := by
  by_cases hex : ∃ action actionElem, ActionResolves dm entry action actionElem
  · obtain ⟨action, actionElem, ha⟩ := hex
    rw [tableInsert_of_action h ha]
    cases hok : (matchStatus entry.matchList).ok with
    | true => simp [Installs, Refuses, Status.success, Status.make, Status.ok]
    | false => simp [Installs, Refuses, pure_def, hok]
  · have ha : ∀ action actionElem, ¬ActionResolves dm entry action actionElem :=
      fun action actionElem ha => hex ⟨action, actionElem, ha⟩
    obtain ⟨status, he, hs⟩ := tableInsert_of_no_action h ha
    simp [Installs, Refuses, he, hs]

theorem not_refuses_fault (f : Fault) : ¬Refuses (fault f) := by
  rintro ⟨status, he, -⟩
  simp [fault] at he

theorem refuses_tableInsert_iff :
    Refuses (tableInsert dm entry) ↔
      ∃ elem, InsertClean dm entry elem ∧
        ((∀ action actionElem, ¬ActionResolves dm entry action actionElem) ∨
          RejectionStands entry.matchList) := by
  constructor
  · intro hr
    by_cases hc : ∃ elem, InsertClean dm entry elem
    · obtain ⟨elem, hc⟩ := hc
      rw [refuses_iff hc, installs_iff hc] at hr
      refine ⟨elem, hc, ?_⟩
      by_contra hcon
      push Not at hcon
      exact hr hcon
    · have hc' : ∀ elem, ¬InsertClean dm entry elem := fun elem hce => hc ⟨elem, hce⟩
      obtain ⟨f, hf⟩ := tableInsert_faults hc'
      rw [hf] at hr
      exact absurd hr (not_refuses_fault f)
  · rintro ⟨elem, hc, hcase⟩
    rw [refuses_iff hc, installs_iff hc]
    rintro ⟨⟨action, actionElem, ha⟩, hstands⟩
    rcases hcase with hnone | hr
    · exact hnone action actionElem ha
    · exact hstands hr

end Device
