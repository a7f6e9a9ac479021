import T4P4SRuntime.Device.InsertSpec
import T4P4SRuntime.Switch.L2fwdCode

namespace Device

open IdMap P4v1 Messages Exec

variable {dm : DeviceMgr} {entry : TableEntry} {elem actionElem : Element} {action : P4v1.Action}
  {msg : CtrlMsg}

inductive CarriesMatch (arg : Argument) : FieldMatchType → FieldMatchRecord → Prop where
  | exact {value bitmap : Bytes} : value <+: bitmap →
      CarriesMatch arg (.exact value) (.exact arg.name arg.bitwidth bitmap)
  | lpm {value bitmap : Bytes} {prefixLen : Int32} : value <+: bitmap →
      CarriesMatch arg (.lpm value prefixLen) (.lpm arg.name prefixLen bitmap)
  | ternary {value mask bitmap maskmap : Bytes} : value <+: bitmap → mask <+: maskmap →
      CarriesMatch arg (.ternary value mask) (.ternary arg.name arg.bitwidth bitmap maskmap)

def paramBytes (arg : Argument) (param : Param) : Bytes :=
  if arg.name.val = "type" ∧ param.value.length = 2 then param.value.reverse else param.value

structure CarriesParam (arg : Argument) (param : Param) (record : ActionParameter) : Prop where
  name : record.name = arg.name
  length : record.length = arg.bitwidth
  bitmap : paramBytes arg param <+: record.bitmap

def MatchRecorded (elem : Element) (m : FieldMatch) (record : FieldMatchRecord) : Prop :=
  ∃ arg, getArgument elem m.fieldId.toUInt64 = some arg ∧ CarriesMatch arg m.fieldMatchType record

def ParamRecorded (elem : Element) (param : Param) (record : ActionParameter) : Prop :=
  ∃ arg, getArgument elem param.paramId.toUInt64 = some arg ∧ CarriesParam arg param record

structure Translates (elem actionElem : Element) (entry : TableEntry) (action : P4v1.Action)
    (msg : CtrlMsg) : Prop where
  type_default : msg.type = .setDefaultAction ↔ entry.isDefaultAction = true
  type_add : msg.type = .addTableEntry ↔ entry.isDefaultAction = false
  table_name : msg.tableName = elem.value
  action_name : msg.actionName = actionElem.value
  num_field_matches : msg.fieldMatches.length = entry.matchList.length
  num_action_params : msg.actionParams.length = action.params.length
  field_matches : ∀ (i : Nat) m record, entry.matchList[i]? = some m → msg.fieldMatches[i]? = some record →
    MatchRecorded elem m record
  action_params : ∀ (j : Nat) param record, action.params[j]? = some param →
    msg.actionParams[j]? = some record → ParamRecorded actionElem param record

theorem ruleOf_carries {type : FieldMatchType} {record : FieldMatchRecord} (arg : Argument)
    (h : ruleOf arg type = some record) : CarriesMatch arg type record := by
  cases type with
  | exact value =>
      obtain rfl := Option.some.inj h
      exact .exact (List.prefix_refl value)
  | lpm value prefixLen =>
      obtain rfl := Option.some.inj h
      exact .lpm (List.prefix_refl value)
  | ternary value mask =>
      obtain rfl := Option.some.inj h
      exact .ternary (List.prefix_refl value) (List.prefix_refl mask)
  | range | other | notSet => cases h

theorem htons_of_two {value : Bytes} (h : value.length = 2) : htons value = value.reverse := by
  obtain ⟨a, b, rfl⟩ := List.length_eq_two.mp h
  rfl

theorem genActionParam_carries (arg : Argument) (param : Param) :
    CarriesParam arg param (genActionParam arg param) := by
  refine ⟨rfl, rfl, ?_⟩
  rw [paramBytes, genActionParam]
  by_cases hname : arg.name.val = "type"
  · by_cases hlen : param.value.length = 2
    · simp [hname, hlen, htons_of_two hlen]
    · simp [hname, hlen]
  · simp [hname]

theorem recordOf_recorded {m : FieldMatch} {record : FieldMatchRecord}
    (h : recordOf elem m = some record) : MatchRecorded elem m record := by
  obtain ⟨arg, harg, hrule⟩ := Option.bind_eq_some_iff.mp h
  exact ⟨arg, harg, ruleOf_carries arg hrule⟩

theorem paramOf_recorded {param : Param} {record : ActionParameter}
    (h : paramOf elem param = some record) : ParamRecorded elem param record := by
  obtain ⟨arg, harg, rfl⟩ := Option.map_eq_some_iff.mp h
  exact ⟨arg, harg, genActionParam_carries arg param⟩

theorem msgType_setDefault_iff : msgType entry = .setDefaultAction ↔ entry.isDefaultAction = true := by
  rw [msgType_eq]
  split <;> simp_all

theorem msgType_add_iff : msgType entry = .addTableEntry ↔ entry.isDefaultAction = false := by
  rw [msgType_eq]
  split <;> simp_all

theorem insertMessage_translates (hfields : ∀ m ∈ entry.matchList, recordOf elem m ≠ none)
    (hparams : ParamsResolve actionElem action.params) :
    Translates elem actionElem entry action (insertMessage elem actionElem entry action) where
  type_default := msgType_setDefault_iff
  type_add := msgType_add_iff
  table_name := rfl
  action_name := rfl
  num_field_matches := filterMap_length hfields
  num_action_params := actionParams_length action.params hparams
  field_matches := by
    intro i m record hm hr
    rw [insertMessage, filterMap_getElem? hfields, hm] at hr
    exact recordOf_recorded hr
  action_params := by
    intro j param record hp hr
    rw [insertMessage, filterMap_getElem? (paramOf_ne_none hparams), hp] at hr
    exact paramOf_recorded hr

theorem table_insert_faithful (h : InsertClean dm entry elem)
    (ha : ActionResolves dm entry action actionElem)
    (hs : ∀ m ∈ entry.matchList, FieldMatchType.supported m.fieldMatchType = true) :
    ∃ msg, tableInsert dm entry = ⟨[.cb msg], .ok Status.success⟩ ∧
      Translates elem actionElem entry action msg := by
  have hok := matchStatus_ok (not_rejectionStands_of_supported hs)
  refine ⟨insertMessage elem actionElem entry action, ?_, ?_⟩
  · rw [tableInsert_of_action h ha, if_pos hok]
  · apply insertMessage_translates
    · intro m hm
      exact supported_record (h.fields m hm) (hs m hm)
    · exact h.params action actionElem ha

namespace Translation

def acl : P4Config.Table :=
  { preamble := { id := 33600002, name := "acl" }
    matchFields :=
      [{ id := 1, name := "ethernet.dstAddr", bitwidth := 48 },
       { id := 2, name := "ipv4.dstAddr", bitwidth := 32 },
       { id := 3, name := "tcp.dstPort", bitwidth := 16 }]
    actionRefs := [16800003] }

def mark : P4Config.Action :=
  { preamble := { id := 16800003, name := "mark" }
    params := [{ id := 1, name := "port", bitwidth := 9 }, { id := 2, name := "type", bitwidth := 16 }] }

def aclInfo : P4Config.P4Info :=
  { tables := [acl], actions := [mark], counters := [], digests := [] }

-- The 2-byte value of `type` goes through `htons`.
def markPort : P4v1.Action :=
  { actionId := 16800003
    params := [{ paramId := 2, value := [8, 0] }, { paramId := 1, value := [0, 3] }] }

def insertMark : TableEntry :=
  { tableId := 33600002
    matchList :=
      [{ fieldId := 2, fieldMatchType := .lpm [10, 0, 1, 0] 24 },
       { fieldId := 1, fieldMatchType := .exact [0, 0, 0, 0, 0, 7] },
       { fieldId := 3, fieldMatchType := .ternary [0, 80] [255, 255] }]
    action := .action markPort
    isDefaultAction := false }

theorem mark_resolves : ActionResolves (L2fwd.serverAfter aclInfo).dm insertMark markPort
    (FitDecl.element ⟨actionDecl mark, by decide⟩) := ⟨rfl, by decide⟩

theorem insertMark_clean :
    InsertClean (L2fwd.serverAfter aclInfo).dm insertMark
      (FitDecl.element ⟨tableDecl acl, by decide⟩) where
  table := by
    rw [TableResolves]
    decide
  fields := by decide
  params := fun action actionElem ha => by
    obtain rfl := TableAction.action.inj ha.1
    obtain rfl := Option.some.inj (ha.2.symm.trans mark_resolves.2)
    decide

theorem table_insert_faithful_mark :
    ∃ msg, tableInsert (L2fwd.serverAfter aclInfo).dm insertMark =
        ⟨[.cb msg], .ok Status.success⟩ ∧
      Translates (FitDecl.element ⟨tableDecl acl, by decide⟩)
        (FitDecl.element ⟨actionDecl mark, by decide⟩) insertMark markPort msg :=
  table_insert_faithful insertMark_clean mark_resolves (by decide)

end Translation

end Device
