import T4P4SRuntime.Device.Write

namespace Device

open IdMap P4v1 Exec

structure CounterArray where
  cells : Option (Nat → UInt32)
  size : Int32

abbrev CounterReader := CString → Bool → CounterArray

def CounterArray.absent (array : CounterArray) : Bool := array.cells.isNone || array.size = -1

def CounterArray.cell (array : CounterArray) (index : Int32) : Run UInt32 :=
  match array.cells with
  | none => fault .counterOutOfBounds
  | some cells =>
      if array.size ≠ -1 ∧ 0 ≤ index ∧ index < array.size then pure (cells index.toNatClampNeg)
      else fault .counterOutOfBounds

def CounterData.zero : CounterData := { byteCount := 0, packetCount := 0 }

def counterReadOne (bytes packets : CounterArray) (index : Int32) (data : Option CounterData) :
    Run (Option CounterData) := do
  let data ←
    if bytes.cells.isSome ∧ bytes.size.toUInt32 > 0 then do
      let cell ← bytes.cell index
      pure (some { data.getD CounterData.zero with byteCount := cell.toUInt64.toInt64 })
    else pure data
  if packets.cells.isSome ∧ packets.size.toUInt32 > 0 then do
    let cell ← packets.cell index
    pure (some { data.getD CounterData.zero with packetCount := cell.toUInt64.toInt64 })
  else pure data

def wildcardLoop (bytes packets : CounterArray) (counterId : UInt32) :
    Nat → Int32 → List Entity → Run (List Entity)
  | 0, _, entities => pure entities
  | n + 1, index, entities =>
      if index < packets.size ∨ index < bytes.size then do
        let data ← counterReadOne bytes packets index none
        wildcardLoop bytes packets counterId n (index + 1)
          (entities ++ [.counterEntry
            { counterId := counterId, index := some index.toInt64, data := data }])
      else pure entities

def counterRead (getCounterByName : CounterReader) (dm : DeviceMgr) (entry : CounterEntry)
    (response : ReadResponse) : Run (ReadResponse × Status) :=
  if !checkP4Id entry.counterId .counter && entry.counterId ≠ 0 then
    pure (response, Status.make .unknown "P4ID is not unknown")
  else do
    let elem ← deref .nullElement (getElement dm.idMap entry.counterId.toUInt64)
    let bytes := getCounterByName elem.value true
    emit (.getCounterByName elem.value true)
    let packets := getCounterByName elem.value false
    emit (.getCounterByName elem.value false)
    if bytes.absent && packets.absent then
      pure (response,
        { errorCode := .invalidArgument, errorMessage := "Counter cannot be found %s",
          errorDetails := elem.value.val })
    else
      match entry.index with
      | some index =>
          if index < 0 then pure (response, Status.make .unknown "counter index negative")
          else do
            let data ← counterReadOne bytes packets index.toInt32 entry.data
            pure ({ response with
              entities := response.entities ++ [.counterEntry { entry with data := data }] },
              Status.success)
      | none => do
          let bound := max packets.size.toNatClampNeg bytes.size.toNatClampNeg
          let entities ← wildcardLoop bytes packets entry.counterId bound 0 response.entities
          pure ({ response with entities := entities }, Status.success)

def devMgrReadOne (getCounterByName : CounterReader) (dm : DeviceMgr) (entity : Entity)
    (response : ReadResponse) : Run (ReadResponse × Status) :=
  match entity with
  | .counterEntry entry => counterRead getCounterByName dm entry response
  | _ => pure (response, Status.make .unknown "Entity case is unknown")

def readLoop (getCounterByName : CounterReader) (dm : DeviceMgr) :
    List Entity → ReadResponse → Run ReadResponse
  | [], response => pure response
  | entity :: entities, response => do
      let (response, status) ← devMgrReadOne getCounterByName dm entity response
      if status.ok then readLoop getCounterByName dm entities response else pure response

def devMgrRead (getCounterByName : CounterReader) (dm : DeviceMgr) (request : ReadRequest) :
    Run (ReadResponse × Status) := do
  let response ← readLoop getCounterByName dm request.entities { entities := [] }
  pure (response, Status.success)

theorem counterRead_of_none {dm : DeviceMgr} {entry : CounterEntry} (getCounterByName : CounterReader)
    (h : getElement dm.idMap entry.counterId.toUInt64 = none) (response : ReadResponse) :
    counterRead getCounterByName dm entry response = fault .nullElement := by
  simp [counterRead, checkP4Id, h]

end Device
