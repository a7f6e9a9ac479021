import T4P4SRuntime.CString
import T4P4SRuntime.Library.FirstBinding

namespace IdMap

open Scan Probing FirstBinding

def maxMapSize : Nat := 4096

def maxHashSize : Nat := 1024

def redundancyMap : Nat := 4

def maxArgs : Nat := 10

def maxNameSize : Nat := 50

structure Argument where
  id : UInt64
  name : CString
  bitwidth : UInt64
  name_fits : strlen name < maxNameSize
  deriving DecidableEq

@[ext]
structure Element where
  value : CString
  key : UInt64
  args : List Argument
  args_fit : args.length ≤ maxArgs
  deriving DecidableEq

structure Map where
  data : Slots Element

def initMap : Map := ⟨Slots.empty⟩

def index (key : UInt64) : Nat := key.toNat % maxHashSize * redundancyMap

def getElementSlot (map : Map) (key : UInt64) : Option Nat :=
  scan (fun i =>
    match map.data i with
    | none => .stop
    | some e => if e.key = key then .found i else .next) (maxMapSize - index key) (index key)

def getElement (map : Map) (key : UInt64) : Option Element := (getElementSlot map key).bind map.data

def newElement (key : UInt64) (value : CString) : Element :=
  { value := value, key := key, args := [], args_fit := Nat.zero_le _ }

def vacantSlot (map : Map) (key : UInt64) : Option Nat :=
  scan (fun i =>
    match map.data i with
    | none => .found i
    | some _ => .next) (maxMapSize - index key) (index key)

def addElement (map : Map) (key : UInt64) (value : CString) : Option Nat × Map :=
  match vacantSlot map key with
  | some i => (some i, ⟨map.data.store i (newElement key value)⟩)
  | none => (none, map)

def getArgument (elem : Element) (id : UInt64) : Option Argument :=
  elem.args.find? (fun a => a.id = id)

def scheme : Scheme UInt64 Element where
  size := maxMapSize
  home := index
  key := Element.key

theorem getElementSlot_eq (map : Map) (key : UInt64) :
    getElementSlot map key = scheme.slotOf map.data key :=
  scan_congr fun i => by cases map.data i <;> rfl

theorem getElement_eq (map : Map) (key : UInt64) :
    getElement map key = scheme.lookup map.data key := by
  rw [getElement, getElementSlot_eq, Scheme.lookup]

theorem vacantSlot_eq (map : Map) (key : UInt64) :
    vacantSlot map key = scheme.vacancy map.data key :=
  scan_congr fun i => by cases map.data i <;> rfl

theorem addElement_eq (map : Map) (key : UInt64) (value : CString) :
    addElement map key value =
      ((scheme.insert map.data (newElement key value)).1,
        ⟨(scheme.insert map.data (newElement key value)).2⟩) := by
  have hv : scheme.vacancy map.data (scheme.key (newElement key value)) = vacantSlot map key :=
    (vacantSlot_eq map key).symm
  rw [addElement, Scheme.insert, hv]
  cases vacantSlot map key <;> rfl

theorem getElement_initMap (key : UInt64) : getElement initMap key = none := by
  rw [getElement_eq, Scheme.lookup_eq_none_iff]
  exact Scheme.slotOf_empty

end IdMap
