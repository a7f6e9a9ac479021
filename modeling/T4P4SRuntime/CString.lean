import Mathlib.Data.List.TakeWhile
import Mathlib.Tactic

abbrev CString := { s : String // '\x00' ∉ s.toList }

def cStr (s : String) : CString :=
  ⟨String.ofList (s.toList.takeWhile (· ≠ '\x00')), by
    intro h
    rw [String.toList_ofList] at h
    simpa using List.mem_takeWhile_imp h⟩

def strlen (c : CString) : Nat := c.val.utf8ByteSize
