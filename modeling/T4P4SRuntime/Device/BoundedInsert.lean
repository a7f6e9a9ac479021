import T4P4SRuntime.Device.InsertSpec

namespace Device

open IdMap P4v1 Messages Exec

-- The lengths of the arrays `field_matches` and `action_params` of `struct p4_ctrl_msg`.
structure Capacity where
  fieldMatches : Nat
  actionParams : Nat

inductive CapacityFault where
  | server (fault : Fault)
  | fieldMatchesOverflow
  | actionParamsOverflow
  deriving DecidableEq, Repr

abbrev BoundedRun (A : Type) := Exec Effect CapacityFault A

def storeAt {A : Type} (overflow : CapacityFault) (capacity : Nat) (stored : List A) (a : A) :
    BoundedRun (List A) :=
  if stored.length < capacity then pure (stored ++ [a]) else fault overflow

def storeMatch (capacity : Capacity) (records : List FieldMatchRecord) (record : FieldMatchRecord) :
    BoundedRun (List FieldMatchRecord) :=
  storeAt .fieldMatchesOverflow capacity.fieldMatches records record

def boundedMatchLoop (capacity : Capacity) (elem : Element) :
    List FieldMatch → Status → List FieldMatchRecord → BoundedRun (Status × List FieldMatchRecord)
  | [], status, records => pure (status, records)
  | m :: ms, status, records =>
      let arg := getArgument elem m.fieldId.toUInt64
      match m.fieldMatchType with
      | .exact value => do
          let arg ← deref (.server .nullArgument) arg
          let records ← storeMatch capacity records (genMatchRuleExact arg value)
          boundedMatchLoop capacity elem ms Status.success records
      | .lpm value prefixLen => do
          let arg ← deref (.server .nullArgument) arg
          let records ← storeMatch capacity records (genMatchRuleLpm arg value prefixLen)
          boundedMatchLoop capacity elem ms Status.success records
      | .ternary value mask => do
          let arg ← deref (.server .nullArgument) arg
          let records ← storeMatch capacity records (genMatchRuleTernary arg value mask)
          boundedMatchLoop capacity elem ms status records
      | _ =>
          boundedMatchLoop capacity elem ms
            (Status.make .unimplemented "MatchType is not implemented") records

def boundedParamLoop (capacity : Capacity) (elem : Element) :
    List Param → List ActionParameter → BoundedRun (List ActionParameter)
  | [], params => pure params
  | p :: ps, params => do
      let arg ← deref (.server .nullArgument) (getArgument elem p.paramId.toUInt64)
      let params ← storeAt .actionParamsOverflow capacity.actionParams params (genActionParam arg p)
      boundedParamLoop capacity elem ps params

-- `table_insert` with the stores past the end of either array as faults.
def boundedTableInsert (capacity : Capacity) (dm : DeviceMgr) (entry : TableEntry) :
    BoundedRun Status := do
  let elem ← deref (.server .nullElement) (getElement dm.idMap entry.tableId.toUInt64)
  let (status, records) ← boundedMatchLoop capacity elem entry.matchList Status.success []
  match entry.action with
  | .action action =>
      match getElement dm.idMap action.actionId.toUInt64 with
      | none => pure (Status.make .invalidArgument "Invalid ActionId")
      | some actionElem => do
          let params ← boundedParamLoop capacity actionElem action.params []
          if status.ok then
            emit (.cb
              { type := msgType entry, tableName := elem.value, fieldMatches := records,
                actionName := actionElem.value, actionParams := params })
          pure status
  | _ => pure (Status.make .unimplemented "ActionType is not implemented")

def stores (ms : List FieldMatch) : Nat :=
  (ms.filter (fun m => FieldMatchType.supported m.fieldMatchType)).length

variable {capacity : Capacity} {dm : DeviceMgr} {entry : TableEntry} {elem : Element}

def within {A : Type} (x : Run A) : BoundedRun A := hoist id CapacityFault.server x

theorem storeAt_bind {A B : Type} (overflow : CapacityFault) (n : Nat) (stored : List A) (a : A)
    (g : List A → BoundedRun B) :
    storeAt overflow n stored a >>= g =
      if n ≤ stored.length then fault overflow else g (stored ++ [a]) := by
  rw [storeAt]
  by_cases h : stored.length < n
  · rw [if_pos h, if_neg (Nat.not_le.mpr h), pure_bind]
  · rw [if_neg h, if_pos (Nat.not_lt.mp h), fault_bind]

theorem stores_cons (m : FieldMatch) (ms : List FieldMatch) :
    stores (m :: ms) =
      (if FieldMatchType.supported m.fieldMatchType = true then 1 else 0) + stores ms := by
  rw [stores, stores, List.filter_cons]
  split <;> simp [Nat.add_comm]

theorem boundedMatchLoop_cons (elem : Element) (m : FieldMatch) (ms : List FieldMatch)
    (status : Status) (records : List FieldMatchRecord) :
    boundedMatchLoop capacity elem (m :: ms) status records =
      if FieldResolves elem m then
        if FieldMatchType.supported m.fieldMatchType = true ∧
            capacity.fieldMatches ≤ records.length then fault .fieldMatchesOverflow
        else boundedMatchLoop capacity elem ms (nextStatus status m)
          (records ++ (recordOf elem m).toList)
      else fault (.server .nullArgument) := by
  cases hm : m.fieldMatchType <;> cases ha : getArgument elem m.fieldId.toUInt64 <;>
    simp [boundedMatchLoop, storeMatch, storeAt_bind, hm, ha, FieldResolves,
      FieldMatchType.supported, nextStatus, recordOf, ruleOf]

theorem recordOf_length {m : FieldMatch} (h : FieldResolves elem m) :
    (recordOf elem m).toList.length =
      if FieldMatchType.supported m.fieldMatchType = true then 1 else 0 := by
  cases hs : FieldMatchType.supported m.fieldMatchType with
  | true =>
      obtain ⟨record, hr⟩ := Option.ne_none_iff_exists'.mp (supported_record h hs)
      simp [hr]
  | false => simp [unsupported_record hs]

theorem boundedMatchLoop_fits (ms : List FieldMatch) (status : Status)
    (records : List FieldMatchRecord) (h : records.length + stores ms ≤ capacity.fieldMatches) :
    boundedMatchLoop capacity elem ms status records = within (matchLoop elem ms status records) := by
  induction ms generalizing status records with
  | nil => rfl
  | cons m ms ih =>
      rw [stores_cons] at h
      rw [boundedMatchLoop_cons, matchLoop_cons]
      by_cases hm : FieldResolves elem m
      · have hlen := recordOf_length hm
        have hroom : ¬(FieldMatchType.supported m.fieldMatchType = true ∧
            capacity.fieldMatches ≤ records.length) := by
          rintro ⟨hs, hle⟩
          rw [if_pos hs] at h
          omega
        rw [if_pos hm, if_pos hm, if_neg hroom, ih]
        rw [List.length_append, hlen]
        omega
      · rw [if_neg hm, if_neg hm]
        rfl

theorem boundedMatchLoop_overflows (ms : List FieldMatch) (status : Status)
    (records : List FieldMatchRecord) (hr : records.length ≤ capacity.fieldMatches)
    (h : capacity.fieldMatches < records.length + stores ms) :
    ∃ f, boundedMatchLoop capacity elem ms status records = fault f := by
  induction ms generalizing status records with
  | nil =>
      simp only [stores, List.filter_nil, List.length_nil] at h
      omega
  | cons m ms ih =>
      rw [stores_cons] at h
      rw [boundedMatchLoop_cons]
      by_cases hm : FieldResolves elem m
      · have hlen := recordOf_length hm
        rw [if_pos hm]
        by_cases hfull : FieldMatchType.supported m.fieldMatchType = true ∧
            capacity.fieldMatches ≤ records.length
        · exact ⟨_, if_pos hfull⟩
        · rw [if_neg hfull]
          rw [← hlen] at h
          apply ih
          · rw [List.length_append]
            cases hs : FieldMatchType.supported m.fieldMatchType with
            | true =>
                have hroom : records.length < capacity.fieldMatches :=
                  Nat.lt_of_not_le fun hle => hfull ⟨hs, hle⟩
                rw [hs, if_pos rfl] at hlen
                omega
            | false =>
                rw [hs, if_neg Bool.false_ne_true] at hlen
                omega
          · rw [List.length_append]
            omega
      · exact ⟨_, if_neg hm⟩

theorem boundedParamLoop_fits (ps : List Param) (params : List ActionParameter)
    (h : params.length + ps.length ≤ capacity.actionParams) :
    boundedParamLoop capacity elem ps params = within (paramLoop elem ps params) := by
  induction ps generalizing params with
  | nil => rfl
  | cons p ps ih =>
      rw [List.length_cons] at h
      cases ha : getArgument elem p.paramId.toUInt64 with
      | none => simp [boundedParamLoop, paramLoop, ha, within, hoist_fault]
      | some arg =>
          have hroom : ¬capacity.actionParams ≤ params.length := by omega
          have hrest := ih (params ++ [genActionParam arg p]) (by
            rw [List.length_append, List.length_singleton]
            omega)
          simp [boundedParamLoop, paramLoop, ha, storeAt_bind, hroom, hrest]

theorem boundedParamLoop_overflows (ps : List Param) (params : List ActionParameter)
    (hp : params.length ≤ capacity.actionParams)
    (h : capacity.actionParams < params.length + ps.length) :
    ∃ f, boundedParamLoop capacity elem ps params = fault f := by
  induction ps generalizing params with
  | nil =>
      rw [List.length_nil] at h
      omega
  | cons p ps ih =>
      rw [List.length_cons] at h
      cases ha : getArgument elem p.paramId.toUInt64 with
      | none => exact ⟨.server .nullArgument, by simp [boundedParamLoop, ha]⟩
      | some arg =>
          by_cases hfull : capacity.actionParams ≤ params.length
          · exact ⟨.actionParamsOverflow, by simp [boundedParamLoop, ha, storeAt_bind, hfull]⟩
          · obtain ⟨f, hf⟩ := ih (params ++ [genActionParam arg p])
              (by rw [List.length_append, List.length_singleton]; omega)
              (by rw [List.length_append, List.length_singleton]; omega)
            exact ⟨f, by simp [boundedParamLoop, ha, storeAt_bind, hfull, hf]⟩

def MatchesFit (capacity : Capacity) (entry : TableEntry) : Prop :=
  stores entry.matchList ≤ capacity.fieldMatches

def ParamsFit (capacity : Capacity) (entry : TableEntry) : Prop :=
  ∀ action, entry.action = .action action → action.params.length ≤ capacity.actionParams

theorem boundedTableInsert_fits (hm : MatchesFit capacity entry) (hp : ParamsFit capacity entry) :
    boundedTableInsert capacity dm entry = within (tableInsert dm entry) := by
  rw [boundedTableInsert, tableInsert, within, hoist_bind, hoist_deref]
  refine bind_congr fun elem => ?_
  have hmatches := @boundedMatchLoop_fits capacity elem entry.matchList Status.success [] (by
    rwa [List.length_nil, Nat.zero_add])
  rw [hoist_bind, hmatches, within]
  refine bind_congr fun out => ?_
  obtain ⟨status, records⟩ := out
  cases hact : entry.action with
  | action action =>
      cases ha : getElement dm.idMap action.actionId.toUInt64 with
      | none => simp [ha, hoist_pure]
      | some actionElem =>
          have hparams := @boundedParamLoop_fits capacity actionElem action.params [] (by
            rw [List.length_nil, Nat.zero_add]
            exact hp action hact)
          simp only [ha, hoist_bind, hparams, within]
          refine bind_congr fun params => ?_
          cases hs : status.ok <;> rfl
  | actionProfileMemberId | actionProfileGroupId | actionProfileActionSet | notSet => rfl

def EntryFits (capacity : Capacity) (entry : TableEntry) : Prop :=
  MatchesFit capacity entry ∧ ParamsFit capacity entry

def NoOverflow {A : Type} (x : BoundedRun A) : Prop :=
  x.out ≠ .error .fieldMatchesOverflow ∧ x.out ≠ .error .actionParamsOverflow

structure InsertKept (capacity : Capacity) (dm : DeviceMgr) (entry : TableEntry) : Prop where
  within : NoOverflow (boundedTableInsert capacity dm entry)
  refused : ¬EntryFits capacity entry → ∃ log status,
    boundedTableInsert capacity dm entry = ⟨log, .ok status⟩ ∧ status.ok = false

-- The action is looked up before its parameters are stored.
structure RefusedFirst (capacity : Capacity) (dm : DeviceMgr) (entry : TableEntry) : Prop where
  matches_fit : MatchesFit capacity entry
  fields : ∃ elem, TableResolves dm entry elem ∧ FieldsResolve elem entry.matchList
  action : ∃ action, entry.action = .action action ∧
    getElement dm.idMap action.actionId.toUInt64 = none

theorem noOverflow_within {A : Type} (x : Run A) : NoOverflow (within x) := by
  obtain ⟨l, f | a⟩ := x
  · exact ⟨by simp [within, hoist, Except.mapError], by simp [within, hoist, Except.mapError]⟩
  · exact ⟨by simp [within, hoist_ok], by simp [within, hoist_ok]⟩

theorem boundedTableInsert_matches (h : ¬MatchesFit capacity entry) :
    ∃ f, boundedTableInsert capacity dm entry = fault f := by
  rw [boundedTableInsert]
  cases ht : getElement dm.idMap entry.tableId.toUInt64 with
  | none => exact ⟨.server .nullElement, rfl⟩
  | some elem =>
      obtain ⟨f, hf⟩ := @boundedMatchLoop_overflows capacity elem entry.matchList Status.success []
        (Nat.zero_le _) (by
          rw [List.length_nil, Nat.zero_add]
          exact Nat.lt_of_not_le h)
      exact ⟨f, by rw [deref_some, pure_bind, hf, fault_bind]⟩

theorem boundedTableInsert_of_matches (hm : MatchesFit capacity entry)
    (ht : TableResolves dm entry elem) (hf : FieldsResolve elem entry.matchList)
    {action : P4v1.Action} (ha : entry.action = .action action) :
    boundedTableInsert capacity dm entry =
      match getElement dm.idMap action.actionId.toUInt64 with
      | none => pure (Status.make .invalidArgument "Invalid ActionId")
      | some actionElem =>
          (do
            let params ← boundedParamLoop capacity actionElem action.params []
            if (matchStatus entry.matchList).ok then
              emit (.cb
                { type := msgType entry, tableName := elem.value,
                  fieldMatches := entry.matchList.filterMap (recordOf elem),
                  actionName := actionElem.value, actionParams := params })
            pure (matchStatus entry.matchList)) := by
  have ht : getElement dm.idMap entry.tableId.toUInt64 = some elem := ht
  have hmatches := @boundedMatchLoop_fits capacity elem entry.matchList Status.success [] (by
    rwa [List.length_nil, Nat.zero_add])
  rw [matchLoop_eq, if_pos hf] at hmatches
  rw [boundedTableInsert, ht, deref_some, pure_bind, hmatches, within, hoist_pure, pure_bind, ha]
  rfl

theorem boundedTableInsert_unresolved (hm : MatchesFit capacity entry)
    (h : ¬∃ elem, TableResolves dm entry elem ∧ FieldsResolve elem entry.matchList) :
    ∃ f, boundedTableInsert capacity dm entry = fault f := by
  rw [boundedTableInsert]
  cases ht : getElement dm.idMap entry.tableId.toUInt64 with
  | none => exact ⟨.server .nullElement, rfl⟩
  | some elem =>
      have hmatches := @boundedMatchLoop_fits capacity elem entry.matchList Status.success [] (by
        rwa [List.length_nil, Nat.zero_add])
      rw [matchLoop_eq, if_neg fun hf => h ⟨elem, ht, hf⟩] at hmatches
      exact ⟨.server .nullArgument, by rw [deref_some, pure_bind, hmatches]; rfl⟩

theorem not_refused_of_fault {x : BoundedRun Status} {f : CapacityFault} (h : x = fault f) :
    ¬∃ log status, x = ⟨log, .ok status⟩ ∧ status.ok = false := by
  rintro ⟨log, status, he, -⟩
  rw [h] at he
  cases (Exec.mk.inj he).2

theorem refusedFirst_of_refused (hn : ¬EntryFits capacity entry)
    (h : ∃ log status, boundedTableInsert capacity dm entry = ⟨log, .ok status⟩ ∧
      status.ok = false) : RefusedFirst capacity dm entry := by
  by_cases hm : MatchesFit capacity entry
  · by_cases hf : ∃ elem, TableResolves dm entry elem ∧ FieldsResolve elem entry.matchList
    · have hp : ¬ParamsFit capacity entry := fun hp => hn ⟨hm, hp⟩
      rw [ParamsFit] at hp
      push Not at hp
      obtain ⟨action, hact, hlt⟩ := hp
      refine ⟨hm, hf, action, hact, ?_⟩
      cases ha : getElement dm.idMap action.actionId.toUInt64 with
      | none => rfl
      | some actionElem =>
          obtain ⟨elem, ht, hfields⟩ := hf
          obtain ⟨f, hloop⟩ := @boundedParamLoop_overflows capacity actionElem action.params []
            (Nat.zero_le _) (by rwa [List.length_nil, Nat.zero_add])
          have hins := boundedTableInsert_of_matches hm ht hfields hact
          simp only [ha, hloop, fault_bind] at hins
          exact absurd h (not_refused_of_fault hins)
    · obtain ⟨f, hfault⟩ := @boundedTableInsert_unresolved capacity dm entry hm hf
      exact absurd h (not_refused_of_fault hfault)
  · obtain ⟨f, hfault⟩ := @boundedTableInsert_matches capacity dm entry hm
    exact absurd h (not_refused_of_fault hfault)

theorem insertKept_iff :
    InsertKept capacity dm entry ↔ EntryFits capacity entry ∨ RefusedFirst capacity dm entry := by
  constructor
  · intro h
    by_cases hfit : EntryFits capacity entry
    · exact Or.inl hfit
    · exact Or.inr (refusedFirst_of_refused hfit (h.refused hfit))
  · rintro (hfit | ⟨hm, ⟨elem, ht, hf⟩, action, hact, ha⟩)
    · have hins := @boundedTableInsert_fits capacity dm entry hfit.1 hfit.2
      exact ⟨hins ▸ noOverflow_within _, fun hn => absurd hfit hn⟩
    · have hins := boundedTableInsert_of_matches hm ht hf hact
      simp only [ha] at hins
      exact ⟨by rw [hins]; exact ⟨by simp [pure_def], by simp [pure_def]⟩,
        fun _ => ⟨[], _, hins, rfl⟩⟩

end Device
