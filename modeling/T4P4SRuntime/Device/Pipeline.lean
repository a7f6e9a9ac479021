import T4P4SRuntime.Device.ConfigFile

namespace Device

open IdMap P4Config P4v1 Exec

structure Server where
  dm : DeviceMgr
  savedDeviceConfig : ConfigFile
  hasConfigCookie : Bool
  configCookie : UInt64

def devMgrInit (dm : DeviceMgr) : DeviceMgr := { dm with idMap := initMap, hasP4info := false }

def zeroDeviceMgr : DeviceMgr :=
  { deviceId := 0, digestMap := [], idMap := initMap, hasP4info := false,
    p4info := P4Info.empty, stream := none }

def devMgrInitWithT4p4s (dm : DeviceMgr) (deviceId : UInt64) : DeviceMgr :=
  { devMgrInit dm with deviceId := deviceId }

def Server.init (deviceId : UInt64) : Server :=
  { dm := devMgrInitWithT4p4s zeroDeviceMgr deviceId, savedDeviceConfig := ConfigFile.init,
    hasConfigCookie := false, configCookie := 0 }

def argumentOf (decl : FieldDecl) (h : strlen (cStr decl.name) < maxNameSize) : Argument :=
  { id := decl.id.toUInt64, name := cStr decl.name, bitwidth := decl.bitwidth.toInt64.toUInt64,
    name_fits := h }

def appendArg (elem : Element) (arg : Argument) (h : elem.args.length < maxArgs) : Element :=
  { elem with
    args := elem.args ++ [arg]
    args_fit := by rw [List.length_append]; exact h }

def storeArg (map : Map) (slot : Nat) (decl : FieldDecl) : Run Map := do
  let elem ← deref .nullElement (map.data slot)
  if hn : strlen (cStr decl.name) < maxNameSize then
    if ha : elem.args.length < maxArgs then
      pure ⟨map.data.store slot (appendArg elem (argumentOf decl hn) ha)⟩
    else fault .argsOverflow
  else fault .nameOverflow

def storeArgs (map : Map) (elem : Option Nat) : List FieldDecl → Run Map
  | [] => pure map
  | decl :: decls => do
      let slot ← deref .nullElement elem
      let map ← storeArg map slot decl
      storeArgs map elem decls

def tableLoop (map : Map) : List Table → Run Map
  | [] => pure map
  | table :: tables =>
      match addElement map table.preamble.id.toUInt64 (cStr table.preamble.name) with
      | (none, map) => pure map
      | (some slot, map) => do
          let map ← storeArgs map (some slot) table.matchFields
          tableLoop map tables

def actionLoop (map : Map) : List P4Config.Action → Run Map
  | [] => pure map
  | action :: actions => do
      let added := addElement map action.preamble.id.toUInt64 (cStr action.preamble.name)
      let map ← storeArgs added.2 added.1 action.params
      actionLoop map actions

def counterLoop (map : Map) (counters : List Counter) : Map :=
  counters.foldl
    (fun map counter => (addElement map counter.preamble.id.toUInt64 (cStr counter.preamble.name)).2)
    map

def inactiveDigests (digests : List Digest) : DigestMap :=
  digests.foldl
    (fun map digest => map.set
      { name := digest.preamble.name, id := digest.preamble.id.toUInt64, active := false }) []

def loadP4info (map : Map) (p4info : P4Info) : Run Map := do
  let map ← tableLoop map p4info.tables
  let map ← actionLoop map p4info.actions
  pure (counterLoop map p4info.counters)

def ConfigAction.applied : ConfigAction → Bool
  | .verify | .verifyAndSave | .verifyAndCommit | .reconcileAndCommit => true
  | .unspecified | .commit | .unrecognized _ => false

def configured (disk : Disk) (server : Server) (config : ForwardingPipelineConfig) (map : Map) :
    Server :=
  { dm := { server.dm with
      p4info := config.p4info
      hasP4info := true
      idMap := map
      digestMap := inactiveDigests config.p4info.digests }
    savedDeviceConfig := (server.savedDeviceConfig.changeConfig disk config).1
    hasConfigCookie := true
    configCookie := config.cookie.getD 0 }

def devMgrSetPipelineConfig (disk : Disk) (server : Server) (action : ConfigAction)
    (config : ForwardingPipelineConfig) : Run (Server × Status) :=
  if ConfigAction.applied action then do
    let map ← loadP4info server.dm.idMap config.p4info
    pure (configured disk server config map, Status.make .ok "ok")
  else pure (server, Status.make .ok "ok")

theorem devMgrSetPipelineConfig_of_load {disk : Disk} {server : Server} {action : ConfigAction}
    {config : ForwardingPipelineConfig} {map : Map} (ha : ConfigAction.applied action = true)
    (hload : loadP4info server.dm.idMap config.p4info = pure map) :
    devMgrSetPipelineConfig disk server action config =
      ⟨[], .ok (configured disk server config map, Status.make .ok "ok")⟩ := by
  rw [devMgrSetPipelineConfig, if_pos ha, hload]
  rfl

end Device
