import T4P4SRuntime.L2fwd
import T4P4SRuntime.Device.Resolution
import T4P4SRuntime.Switch.Install

namespace Switch

open Codegen Messages

-- Records whose bitmap stands at the same place whatever their kind.
def packedLayout : RecordLayout where
  exactBitmap
    | .exact _ _ bitmap | .lpm _ _ bitmap | .ternary _ _ bitmap _ => viewOf bitmap
  lpmBitmap
    | .exact _ _ bitmap | .lpm _ _ bitmap | .ternary _ _ bitmap _ => viewOf bitmap
  lpmPrefixLength
    | .lpm _ prefixLength _ => UInt16.ofNat prefixLength.toNatClampNeg
    | .exact _ _ _ | .ternary _ _ _ _ => 0

theorem packedLayout_lawful : packedLayout.Lawful where
  exactBitmap := fun _ _ _ => rfl
  lpmBitmap := fun _ _ _ => rfl
  lpmPrefixLength := fun _ prefixLength _ _ hlt => by
    have hint := Int32.lt_iff_toInt_lt.mp hlt
    have hsmall : prefixLength.toNatClampNeg < 65536 := by
      simp only [Int32.toNatClampNeg]
      have h256 : (256 : Int32).toInt = 256 := by decide
      omega
    simp [packedLayout, Nat.mod_eq_of_lt hsmall]

end Switch

namespace L2fwd

open Hlir Codegen Device IdMap

def ethernetField (fieldName : String) : KeyElement :=
  { header := some { name := "ethernet", isVw := false }
    headerName := "ethernet"
    fieldName := fieldName
    width := 48
    matchType := .exact
    header_named := by simp }

def dmacKey : List KeyElement := [ethernetField "dstAddr"]

def forwardAction : ActionObject :=
  { name := "forward"
    annotationName := cStr ".forward"
    parameters := [{ name := "port", size := 9 }] }

def bcastAction : ActionObject :=
  { name := "bcast", annotationName := cStr ".bcast", parameters := [] }

def noActionObject : ActionObject :=
  { name := "NoAction_0", annotationName := cStr "NoAction", parameters := [] }

def dmacTable : Hlir.Table :=
  { name := cStr "dmac"
    key := some dmacKey
    keyLengthBytes := 6
    matchType := .exact
    actions := [forwardAction, bcastAction, noActionObject] }

def program : Program := { tables := [dmacTable], metafieldSize := fun _ => 0 }

def code : Code :=
  { reverseBufferSize := 6, tables := [tableCode program dmacTable dmacKey] }

theorem generate_code : generate program = some code := rfl

theorem builds_code : Builds program code where
  generated := generate_code
  table_names := by decide
  compiles := by decide
  unshadowed := by decide

def forwardPort : P4v1.Action :=
  { actionId := 16811908, params := [{ paramId := 1, value := [0, 3] }] }

def insertForward : P4v1.TableEntry :=
  { tableId := 33610402
    matchList := [{ fieldId := 1, fieldMatchType := .exact [0, 0, 0, 0, 0, 7] }]
    action := .action forwardPort
    isDefaultAction := false }

theorem dmac_resolves : getElement server.dm.idMap insertForward.tableId.toUInt64 =
    some (FitDecl.element ⟨tableDecl dmac, by decide⟩) := by decide

theorem forward_resolves : getElement server.dm.idMap forwardPort.actionId.toUInt64 =
    some (FitDecl.element ⟨actionDecl forward, by decide⟩) := by decide

theorem insertForward_action {actionElem : Element} {action : P4v1.Action}
    (ha : ActionResolves server.dm insertForward action actionElem) :
    action = forwardPort ∧ actionElem = FitDecl.element ⟨actionDecl forward, by decide⟩ := by
  obtain rfl := P4v1.TableAction.action.inj ha.1
  exact ⟨rfl, Option.some.inj (ha.2.symm.trans forward_resolves)⟩

theorem insertForward_resolved {elem actionElem : Element} {action : P4v1.Action}
    (hc : InsertClean server.dm insertForward elem)
    (ha : ActionResolves server.dm insertForward action actionElem) :
    action = forwardPort ∧ elem = FitDecl.element ⟨tableDecl dmac, by decide⟩ ∧
      actionElem = FitDecl.element ⟨actionDecl forward, by decide⟩ := by
  obtain ⟨haction, hactionElem⟩ := insertForward_action ha
  exact ⟨haction, Option.some.inj (hc.table.symm.trans dmac_resolves), hactionElem⟩

end L2fwd
