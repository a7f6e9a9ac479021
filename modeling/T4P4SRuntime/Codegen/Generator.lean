import Mathlib.Data.List.Sort
import T4P4SRuntime.Codegen.Hlir

namespace Codegen

open Hlir

-- A variable is the identifier it has in the emitted C.
abbrev Var := String

def fieldInstance (header field : String) : Var := "field_instance_" ++ header ++ "_" ++ field

inductive AddParam where
  | bytes (var : Var) (byteWidth : Nat)
  | prefixLength (var : Var)
  | action
  deriving DecidableEq, Repr

inductive AddArg where
  | var (var : Var)
  | zero
  | action
  deriving DecidableEq, Repr

inductive Decl where
  | exactBitmap (var : Var) (index : Nat)
  | lpmBitmap (var : Var) (index : Nat)
  | lpmPrefixLength (var : Var) (index : Nat)
  deriving DecidableEq, Repr

structure Copy where
  offset : Nat
  var : Var
  length : Nat
  deriving DecidableEq, Repr

inductive PrefixTerm where
  | const (n : Nat)
  | var (var : Var)
  deriving DecidableEq, Repr

inductive AddPromote where
  | exact
  | lpm (prefixTerms : List PrefixTerm) (byteIdx : Nat)
  deriving DecidableEq, Repr

structure AddFunction where
  params : List AddParam
  keySize : Nat
  copies : List Copy
  promote : Option AddPromote
  deriving DecidableEq, Repr

structure ParamCopy where
  name : String
  index : Nat
  length : Nat
  deriving DecidableEq, Repr

structure ActionBranch where
  actionNameStr : CString
  actionName : String
  params : List ParamCopy
  deriving DecidableEq, Repr

structure EntryBranch extends ActionBranch where
  args : List AddArg
  deriving DecidableEq, Repr

structure TableCode where
  name : CString
  add : AddFunction
  decls : List Decl
  entryBranches : List EntryBranch
  defaultBranches : List ActionBranch
  deriving DecidableEq, Repr

structure Code where
  reverseBufferSize : Nat
  tables : List TableCode
  deriving DecidableEq, Repr

def matchTypeOrder : MatchType → Nat
  | .exact => 0
  | .lpm => 1
  | .ternary => 2

def getKeyByteWidth (k : KeyElement) : Nat :=
  match k.header with
  | none => 0
  | some header => if header.isVw then 0 else (k.width + 7) / 8

def isMeta (k : KeyElement) : Bool := k.headerName = "meta"

def isSpecial (k : KeyElement) : Bool := k.header.isNone && !isMeta k

def headerNameOf (k : KeyElement) : String := (k.header.map Header.name).getD ""

def instanceNameOf (k : KeyElement) : String := if isMeta k then k.headerName else headerNameOf k

def valueVar (k : KeyElement) : Var := fieldInstance (instanceNameOf k) k.fieldName

def prefixVar (k : KeyElement) : Var :=
  fieldInstance (headerNameOf k) k.fieldName ++ "_prefix_length"

def maskVar (k : KeyElement) : Var := k.fieldName ++ "_mask"

def byteWidth (program : Program) (k : KeyElement) : Nat :=
  if isMeta k then program.metafieldSize k.fieldName else getKeyByteWidth k

def addParamsOf (program : Program) (k : KeyElement) : List AddParam :=
  if isSpecial k then []
  else
    [.bytes (valueVar k) (byteWidth program k)] ++
      (if k.matchType = .ternary then [.bytes (maskVar k) (byteWidth program k)] else []) ++
      (if k.matchType = .lpm then [.prefixLength (prefixVar k)] else [])

def addArgsOf (k : KeyElement) : List AddArg :=
  if isSpecial k then []
  else
    [.var (valueVar k)] ++
      (if k.matchType = .lpm then [.var (prefixVar k)] else []) ++
      (if k.matchType = .ternary then [.zero] else [])

def declsOf (k : KeyElement) (i : Nat) : List Decl :=
  if isSpecial k then []
  else
    match k.matchType with
    | .exact => [.exactBitmap (valueVar k) i]
    | .lpm | .ternary =>
        [.lpmBitmap (fieldInstance (headerNameOf k) k.fieldName) i,
         .lpmPrefixLength (prefixVar k) i]

def sortedKeyElements (ks : List KeyElement) : List KeyElement :=
  ks.insertionSort (fun a b => matchTypeOrder a.matchType ≤ matchTypeOrder b.matchType)

def copyLoop (program : Program) : Nat → List KeyElement → List Copy × Nat
  | byteIdx, [] => ([], byteIdx)
  | byteIdx, k :: ks =>
      if isSpecial k then copyLoop program byteIdx ks
      else
        let next := if isMeta k then byteIdx + 1 else byteIdx + getKeyByteWidth k
        let rest := copyLoop program next ks
        ({ offset := byteIdx, var := valueVar k, length := byteWidth program k } :: rest.1, rest.2)

def prefixTermsOf (k : KeyElement) : List PrefixTerm :=
  if k.header.isNone then []
  else
    match k.matchType with
    | .exact => [.const (getKeyByteWidth k)]
    | .lpm => [.var (prefixVar k)]
    | .ternary => []

def keySizeOf (program : Program) (table : Table) (ks : List KeyElement) : Nat :=
  match ks with
  | k :: _ =>
      if table.keyLengthBytes = 0 ∧ isMeta k then program.metafieldSize k.fieldName
      else table.keyLengthBytes
  | [] => table.keyLengthBytes

def addFunction (program : Program) (table : Table) (ks : List KeyElement) : AddFunction :=
  let copied := copyLoop program 0 (sortedKeyElements ks)
  { params := ks.flatMap (addParamsOf program) ++ [.action]
    keySize := keySizeOf program table ks
    copies := copied.1
    promote :=
      match table.matchType with
      | .lpm => some (.lpm (ks.flatMap prefixTermsOf) copied.2)
      | .exact => some .exact
      | .ternary => none }

def lastComponent (name : CString) : CString :=
  ⟨String.ofList (name.val.toList.reverse.takeWhile (· ≠ '.')).reverse, by
    rw [String.toList_ofList, List.mem_reverse]
    exact fun h => name.property (List.mem_reverse.mp ((List.takeWhile_sublist _).mem h))⟩

def getActionNameStr (action : ActionObject) : CString := lastComponent action.annotationName

def paramCopies (action : ActionObject) : List ParamCopy :=
  action.parameters.zipIdx.map
    (fun pj => { name := pj.1.name, index := pj.2, length := (pj.1.size + 7) / 8 })

def actionBranch (action : ActionObject) : ActionBranch :=
  { actionNameStr := getActionNameStr action
    actionName := action.name
    params := paramCopies action }

def entryBranch (ks : List KeyElement) (action : ActionObject) : EntryBranch :=
  { actionBranch action with args := ks.flatMap addArgsOf ++ [.action] }

def tableCode (program : Program) (table : Table) (ks : List KeyElement) : TableCode :=
  { name := table.name
    add := addFunction program table ks
    decls := ks.zipIdx.flatMap (fun ki => declsOf ki.1 ki.2)
    entryBranches := table.actions.map (entryBranch ks)
    defaultBranches := table.actions.map actionBranch }

def tablesWithKeys (program : Program) : List (Table × List KeyElement) :=
  program.tables.filterMap (fun table => table.key.map (fun ks => (table, ks)))

-- `k.header.name` of a metadata field without a header
def raisesAttributeError (k : KeyElement) : Bool :=
  isMeta k && k.header.isNone && k.matchType ≠ .exact

-- `table.key.keyElements[0]` of an empty key
def raisesIndexError (table : Table) (ks : List KeyElement) : Bool :=
  table.keyLengthBytes = 0 && ks.isEmpty

def raises (program : Program) : Bool :=
  (!program.tables.isEmpty && (tablesWithKeys program).isEmpty) ||
    (tablesWithKeys program).any
      (fun tk => raisesIndexError tk.1 tk.2 || tk.2.any raisesAttributeError)

def generate (program : Program) : Option Code :=
  if raises program then none
  else
    some
      { reverseBufferSize := ((tablesWithKeys program).map (·.1.keyLengthBytes)).foldr max 0
        tables := (tablesWithKeys program).map (fun tk => tableCode program tk.1 tk.2) }

end Codegen
