import T4P4SRuntime.CString

namespace Hlir

inductive MatchType where
  | exact
  | lpm
  | ternary
  deriving DecidableEq, Repr

structure Header where
  name : String
  isVw : Bool
  deriving DecidableEq, Repr

structure KeyElement where
  header : Option Header
  headerName : String
  fieldName : String
  width : Nat
  matchType : MatchType
  header_named : ∀ h ∈ header, h.name = headerName
  deriving DecidableEq

def Header.field (header : Header) (fieldName : String) (width : Nat) (matchType : MatchType) :
    KeyElement :=
  { header := some header
    headerName := header.name
    fieldName := fieldName
    width := width
    matchType := matchType
    header_named := by simp }

structure Parameter where
  name : String
  size : Nat
  deriving DecidableEq, Repr

structure ActionObject where
  name : String
  annotationName : CString
  parameters : List Parameter
  deriving DecidableEq, Repr

structure Table where
  name : CString
  key : Option (List KeyElement)
  keyLengthBytes : Nat
  matchType : MatchType
  actions : List ActionObject
  deriving DecidableEq

-- `metafieldSize` is `member_size(struct all_metadatas_t, metafield_..)` of the compiled program.
structure Program where
  tables : List Table
  metafieldSize : String → Nat

end Hlir
