import T4P4SRuntime.Codegen.Generator
import T4P4SRuntime.Device.Messages
import T4P4SRuntime.Library.Exec
import T4P4SRuntime.Library.Layout

namespace Codegen

open Messages Exec Layout

-- A byte that was never written is `none`.
abbrev Buffer := List (Option UInt8)

abbrev ByteView := Nat → Option UInt8

def viewOf (bytes : Bytes) : ByteView := fun i => bytes[i]?

def readBytes (view : ByteView) (n : Nat) : Buffer := (List.range n).map view

-- What the casts of a field record to `p4_field_match_exact` and `p4_field_match_lpm` read. The
-- record types are T4P4S's; only a cast to the type a record was built with is known.
structure RecordLayout where
  exactBitmap : FieldMatchRecord → ByteView
  lpmBitmap : FieldMatchRecord → ByteView
  lpmPrefixLength : FieldMatchRecord → UInt16

structure RecordLayout.Lawful (layout : RecordLayout) : Prop where
  exactBitmap : ∀ name length bitmap,
    layout.exactBitmap (.exact name length bitmap) = viewOf bitmap
  lpmBitmap : ∀ name prefixLength bitmap,
    layout.lpmBitmap (.lpm name prefixLength bitmap) = viewOf bitmap
  lpmPrefixLength : ∀ name prefixLength bitmap, 0 ≤ prefixLength → prefixLength < 256 →
    (layout.lpmPrefixLength (.lpm name prefixLength bitmap)).toNat = prefixLength.toNatClampNeg

structure ActionValue where
  actionId : String
  params : List (String × Buffer)
  deriving DecidableEq

inductive Promote where
  | setdefault (table : CString) (value : ActionValue)
  | exactAdd (table : CString) (key : Buffer) (value : ActionValue)
  | lpmAdd (table : CString) (key : Buffer) (depth : UInt8) (value : ActionValue)
  | ternaryAdd (table : CString) (key mask : Buffer) (value : ActionValue)
  deriving DecidableEq

inductive CodeFault where
  | fieldMatchOutOfBounds
  | actionParamOutOfBounds
  | keyOverflow
  | reverseOverflow
  | illTyped
  deriving DecidableEq, Repr

abbrev Emitted (A : Type) := Exec Promote CodeFault A

inductive Val where
  | bytes (view : ByteView)
  | word (n : UInt16)
  | byte (n : UInt8)
  | null

abbrev Env := List (Var × Val)

def lookup (env : Env) (var : Var) : Emitted Val :=
  deref .illTyped ((env.find? (fun b => b.1 = var)).map Prod.snd)

def runDecl (layout : RecordLayout) (msg : CtrlMsg) (decl : Decl) : Emitted (Var × Val) :=
  match decl with
  | .exactBitmap var i => do
      let rec ← deref .fieldMatchOutOfBounds msg.fieldMatches[i]?
      pure (var, .bytes (layout.exactBitmap rec))
  | .lpmBitmap var i => do
      let rec ← deref .fieldMatchOutOfBounds msg.fieldMatches[i]?
      pure (var, .bytes (layout.lpmBitmap rec))
  | .lpmPrefixLength var i => do
      let rec ← deref .fieldMatchOutOfBounds msg.fieldMatches[i]?
      pure (var, .word (layout.lpmPrefixLength rec))

def runDecls (layout : RecordLayout) (msg : CtrlMsg) : List Decl → Emitted Env
  | [] => pure []
  | decl :: decls => do
      let binding ← runDecl layout msg decl
      let env ← runDecls layout msg decls
      pure (binding :: env)

def runParams (msg : CtrlMsg) : List ParamCopy → Emitted (List (ParamCopy × ByteView))
  | [] => pure []
  | p :: ps => do
      let param ← deref .actionParamOutOfBounds msg.actionParams[p.index]?
      let params ← runParams msg ps
      pure ((p, viewOf param.bitmap) :: params)

-- `uint8_t* ${p.name}`, declared in the block of the branch.
def pointersOf (params : List (ParamCopy × ByteView)) : Env :=
  params.map (fun pv => (pv.1.name, .bytes pv.2))

def copiedParams (params : List (ParamCopy × ByteView)) : List (String × Buffer) :=
  params.map (fun pv => (pv.1.name, readBytes pv.2 pv.1.length))

def bindArgs : List AddParam → List AddArg → Env → Emitted Env
  | [.action], [.action], _ => pure []
  | .bytes param _ :: params, .var arg :: args, env => do
      match ← lookup env arg with
      | .bytes view => do
          let frame ← bindArgs params args env
          pure ((param, .bytes view) :: frame)
      | _ => fault .illTyped
  | .bytes param _ :: params, .zero :: args, env => do
      let frame ← bindArgs params args env
      pure ((param, .null) :: frame)
  | .prefixLength param :: params, .var arg :: args, env => do
      match ← lookup env arg with
      | .word n => do
          let frame ← bindArgs params args env
          pure ((param, .byte n.toUInt8) :: frame)
      | _ => fault .illTyped
  | _, _, _ => fault .illTyped

def runCopies (frame : Env) : List Copy → Buffer → Emitted Buffer
  | [], key => pure key
  | c :: cs, key => do
      match ← lookup frame c.var with
      | .bytes view => do
          let key ← deref .keyOverflow (writeAt key c.offset (readBytes view c.length))
          runCopies frame cs key
      | _ => fault .illTyped

def runPrefix (frame : Env) : List PrefixTerm → UInt8 → Emitted UInt8
  | [], prefixLength => pure prefixLength
  | .const n :: terms, prefixLength => runPrefix frame terms (prefixLength + UInt8.ofNat n)
  | .var var :: terms, prefixLength => do
      match ← lookup frame var with
      | .byte n => runPrefix frame terms (prefixLength + n)
      | _ => fault .illTyped

def reverseLoop (key : Buffer) : Nat → Nat → Buffer → Emitted Buffer
  | 0, _, reversed => pure reversed
  | c + 1, d, reversed => do
      let b ← deref .keyOverflow key[c]?
      let reversed ← deref .reverseOverflow (writeAt reversed d [b])
      reverseLoop key c (d + 1) reversed

def copyBackLoop (reversed : Buffer) : Nat → Nat → Buffer → Emitted Buffer
  | 0, _, key => pure key
  | n + 1, c, key => do
      let b ← deref .reverseOverflow reversed[c]?
      let key ← deref .keyOverflow (writeAt key c [b])
      copyBackLoop reversed n (c + 1) key

def runAdd (code : Code) (table : TableCode) (args : List AddArg) (env : Env)
    (value : ActionValue) : Emitted Unit := do
  let frame ← bindArgs table.add.params args env
  let key ← runCopies frame table.add.copies (List.replicate table.add.keySize none)
  match table.add.promote with
  | some (.lpm prefixTerms byteIdx) => do
      let prefixLength ← runPrefix frame prefixTerms 0
      let reversed ← reverseLoop key byteIdx 0 (List.replicate code.reverseBufferSize none)
      let key ← copyBackLoop reversed byteIdx 0 key
      emit (.lpmAdd table.name key prefixLength value)
  | some .exact => emit (.exactAdd table.name key value)
  | none => pure ()

def addTableEntry (layout : RecordLayout) (code : Code) (table : TableCode) (msg : CtrlMsg) :
    Emitted Unit := do
  let env ← runDecls layout msg table.decls
  match table.entryBranches.find? (fun b => b.actionNameStr = msg.actionName) with
  | none => pure ()
  | some branch => do
      let params ← runParams msg branch.params
      -- The pointers of the block hide the names declared around it.
      runAdd code table branch.args (pointersOf params ++ env)
        { actionId := branch.actionName, params := copiedParams params }

def setDefaultTableAction (table : TableCode) (msg : CtrlMsg) : Emitted Unit :=
  match table.defaultBranches.find? (fun b => b.actionNameStr = msg.actionName) with
  | none => pure ()
  | some branch => do
      let params ← runParams msg branch.params
      emit (.setdefault table.name
        { actionId := branch.actionName, params := copiedParams params })

def tableNamed (code : Code) (msg : CtrlMsg) : Option TableCode :=
  code.tables.find? (fun table => table.name = msg.tableName)

def ctrlAddTableEntry (layout : RecordLayout) (code : Code) (msg : CtrlMsg) : Emitted Unit :=
  match tableNamed code msg with
  | none => pure ()
  | some table => addTableEntry layout code table msg

def ctrlSetdefault (code : Code) (msg : CtrlMsg) : Emitted Unit :=
  match tableNamed code msg with
  | none => pure ()
  | some table => setDefaultTableAction table msg

def recvFromController (layout : RecordLayout) (code : Code) (msg : CtrlMsg) : Emitted Unit :=
  match msg.type with
  | .addTableEntry => ctrlAddTableEntry layout code msg
  | .setDefaultAction => ctrlSetdefault code msg
  | .ctrlInitialized => pure ()

end Codegen
