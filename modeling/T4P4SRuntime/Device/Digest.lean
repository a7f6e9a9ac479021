import T4P4SRuntime.Device.Manager

namespace Device

open P4v1 Exec

-- `htonl` of a little-endian host.
def htonl (x : UInt32) : UInt32 :=
  (x <<< 24 : UInt32) ||| ((x &&& 0xff00 : UInt32) <<< 8 : UInt32) |||
    ((x >>> 8 : UInt32) &&& 0xff00 : UInt32) ||| (x >>> 24 : UInt32)

example : htonl 0x01020304 = 0x04030201 := by decide

def digestBytes (length : UInt32) : UInt32 := (htonl length + 7) / 8

structure DigestField where
  length : UInt32
  value : Bytes
  value_held : (digestBytes length).toNat ≤ value.length

structure DigestRecord where
  fieldListName : CString
  fields : List DigestField

def DigestField.bitstring (df : DigestField) : Bytes := df.value.take (digestBytes df.length).toNat

structure StreamWrite where
  stream : Nat
  response : StreamMessageResponse
  deriving DecidableEq

inductive StreamFault where
  | nullStream
  deriving DecidableEq, Repr

def digestList (it : DigestState) (digest : DigestRecord) (timestamp : Int64) : DigestList :=
  { digestId := it.id.toUInt32
    listId := 0
    data := [digest.fields.map DigestField.bitstring]
    timestamp := timestamp }

-- The id the caller passes is overwritten before it is read.
def devMgrSendDigest (dm : DeviceMgr) (digest : DigestRecord) (_ : UInt64) (timestamp : Int64) :
    Exec StreamWrite StreamFault Unit :=
  match dm.digestMap.find? (fun it => it.name = digest.fieldListName.val) with
  | none => pure ()
  | some it =>
      if it.active then do
        let stream ← deref .nullStream dm.stream
        emit { stream := stream, response := .digest (digestList it digest timestamp) }
      else pure ()

end Device
