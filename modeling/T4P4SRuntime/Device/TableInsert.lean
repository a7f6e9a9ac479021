import T4P4SRuntime.Device.Pipeline

namespace Device

open IdMap P4v1 Messages Exec

def genMatchRuleExact (arg : Argument) (value : Bytes) : FieldMatchRecord :=
  .exact arg.name arg.bitwidth value

def genMatchRuleLpm (arg : Argument) (value : Bytes) (prefixLen : Int32) : FieldMatchRecord :=
  .lpm arg.name prefixLen value

def genMatchRuleTernary (arg : Argument) (value mask : Bytes) : FieldMatchRecord :=
  .ternary arg.name arg.bitwidth value mask

def htons : Bytes → Bytes
  | [a, b] => [b, a]
  | bytes => bytes

def genActionParam (arg : Argument) (param : Param) : ActionParameter :=
  { name := arg.name
    length := arg.bitwidth
    bitmap :=
      if arg.name.val = "type" then
        if param.value.length = 2 then htons param.value else param.value
      else param.value }

def matchLoop (elem : Element) :
    List FieldMatch → Status → List FieldMatchRecord → Run (Status × List FieldMatchRecord)
  | [], status, records => pure (status, records)
  | m :: ms, status, records =>
      let arg := getArgument elem m.fieldId.toUInt64
      match m.fieldMatchType with
      | .exact value => do
          let arg ← deref .nullArgument arg
          matchLoop elem ms Status.success (records ++ [genMatchRuleExact arg value])
      | .lpm value prefixLen => do
          let arg ← deref .nullArgument arg
          matchLoop elem ms Status.success (records ++ [genMatchRuleLpm arg value prefixLen])
      | .ternary value mask => do
          let arg ← deref .nullArgument arg
          matchLoop elem ms status (records ++ [genMatchRuleTernary arg value mask])
      | _ => matchLoop elem ms (Status.make .unimplemented "MatchType is not implemented") records

def paramLoop (elem : Element) : List Param → List ActionParameter → Run (List ActionParameter)
  | [], params => pure params
  | p :: ps, params => do
      let arg ← deref .nullArgument (getArgument elem p.paramId.toUInt64)
      paramLoop elem ps (params ++ [genActionParam arg p])

def msgType (entry : TableEntry) : CtrlMsgType :=
  if entry.isDefaultAction then .setDefaultAction else .addTableEntry

def tableInsert (dm : DeviceMgr) (entry : TableEntry) : Run Status := do
  let elem ← deref .nullElement (getElement dm.idMap entry.tableId.toUInt64)
  let (status, records) ← matchLoop elem entry.matchList Status.success []
  match entry.action with
  | .action action =>
      match getElement dm.idMap action.actionId.toUInt64 with
      | none => pure (Status.make .invalidArgument "Invalid ActionId")
      | some actionElem => do
          let params ← paramLoop actionElem action.params []
          if status.ok then
            emit (.cb
              { type := msgType entry, tableName := elem.value, fieldMatches := records,
                actionName := actionElem.value, actionParams := params })
          pure status
  | _ => pure (Status.make .unimplemented "ActionType is not implemented")

end Device
