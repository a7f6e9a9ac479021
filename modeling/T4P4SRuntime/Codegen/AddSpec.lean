import T4P4SRuntime.Codegen.Emitted
import T4P4SRuntime.Library.FirstBinding

namespace Codegen

open Hlir Messages Exec Layout

abbrev Field := KeyElement × Nat

variable {program : Program} {table : Table} {ks : List KeyElement} {layout : RecordLayout}
  {msg : CtrlMsg} {views views' : Field → ByteView} {action : ActionObject}

def Decl.var : Decl → Var
  | .exactBitmap var _ | .lpmBitmap var _ | .lpmPrefixLength var _ => var

def AddParam.var? : AddParam → Option Var
  | .bytes var _ | .prefixLength var => some var
  | .action => none

def ActionBranch.pointers (branch : ActionBranch) : List Var := branch.params.map ParamCopy.name

def TableCode.branches (table : TableCode) : List ActionBranch :=
  table.entryBranches.map EntryBranch.toActionBranch ++ table.defaultBranches

def keywords : List Var :=
  ["auto", "break", "case", "char", "const", "continue", "default", "do", "double", "else", "enum",
   "extern", "float", "for", "goto", "if", "inline", "int", "long", "register", "restrict",
   "return", "short", "signed", "sizeof", "static", "struct", "switch", "typedef", "union",
   "unsigned", "void", "volatile", "while", "_Alignas", "_Alignof", "_Atomic", "_Bool", "_Complex",
   "_Generic", "_Imaginary", "_Noreturn", "_Static_assert", "_Thread_local"]

-- The names that the block of a branch uses besides the pointers of its parameters.
def TableCode.blockNames (table : TableCode) : List Var :=
  keywords ++
    ["uint8_t", "ctrl_m", "action", "memcpy", table.name.val ++ "_add",
     table.name.val ++ "_setdefault"]

def prefixArgs : List AddParam → List AddArg → List Var
  | .prefixLength _ :: params, .var var :: args => var :: prefixArgs params args
  | _ :: params, _ :: args => prefixArgs params args
  | [], _ | _, [] => []

-- No name is declared twice in one scope of the function, and no pointer is used as a keyword, a
-- type, a function, a message or a prefix length.
structure TableCode.Compiles (table : TableCode) : Prop where
  decls : (table.decls.map Decl.var).Nodup
  params : (table.add.params.filterMap AddParam.var?).Nodup
  pointers : ∀ branch ∈ table.branches, branch.pointers.Nodup
  uses : ∀ branch ∈ table.branches, ∀ name ∈ table.blockNames, name ∉ branch.pointers
  prefixes : ∀ branch ∈ table.entryBranches, ∀ var ∈ prefixArgs table.add.params branch.args,
    var ∉ branch.pointers

instance (table : TableCode) : Decidable table.Compiles :=
  decidable_of_iff
    ((table.decls.map Decl.var).Nodup ∧ (table.add.params.filterMap AddParam.var?).Nodup ∧
      (∀ branch ∈ table.branches, branch.pointers.Nodup) ∧
      (∀ branch ∈ table.branches, ∀ name ∈ table.blockNames, name ∉ branch.pointers) ∧
      ∀ branch ∈ table.entryBranches, ∀ var ∈ prefixArgs table.add.params branch.args,
        var ∉ branch.pointers)
    ⟨fun ⟨hd, hp, hn, hu, hx⟩ => ⟨hd, hp, hn, hu, hx⟩,
      fun h => ⟨h.decls, h.params, h.pointers, h.uses, h.prefixes⟩⟩

-- No P4 parameter has the name of a variable that the branch passes on.
def TableCode.Unshadowed (table : TableCode) : Prop :=
  ∀ branch ∈ table.entryBranches, ∀ decl ∈ table.decls, decl.var ∉ branch.pointers

instance (table : TableCode) : Decidable table.Unshadowed :=
  inferInstanceAs (Decidable (∀ branch ∈ _, _))

-- The dispatchers of the file are named `ctrl_add_table_entry` and `ctrl_setdefault`.
structure Compiles (program : Program) (code : Code) : Prop where
  dispatchers : ∀ table ∈ program.tables, table.name.val ≠ "ctrl"
  tables : ∀ table ∈ code.tables, table.Compiles

instance (program : Program) (code : Code) : Decidable (Compiles program code) :=
  decidable_of_iff ((∀ table ∈ program.tables, table.name.val ≠ "ctrl") ∧
      ∀ table ∈ code.tables, table.Compiles)
    ⟨fun ⟨hd, ht⟩ => ⟨hd, ht⟩, fun h => ⟨h.dispatchers, h.tables⟩⟩

structure Emits (program : Program) (code : Code) : Prop where
  generated : generate program = some code
  table_names : (program.tables.map Table.name).Nodup
  compiles : Compiles program code

structure Builds (program : Program) (code : Code) : Prop extends Emits program code where
  unshadowed : ∀ table ∈ code.tables, table.Unshadowed

theorem Emits.tables {code : Code} (h : Emits program code) :
    ∀ table ∈ code.tables, table.Compiles := h.compiles.tables

def fieldsOf (ks : List KeyElement) : List Field := ks.zipIdx.filter (fun f => !isSpecial f.1)

def bitmapAt (layout : RecordLayout) (msg : CtrlMsg) (f : Field) : ByteView :=
  match msg.fieldMatches[f.2]? with
  | none => fun _ => none
  | some rec =>
      match f.1.matchType with
      | .exact => layout.exactBitmap rec
      | .lpm | .ternary => layout.lpmBitmap rec

def prefixAt (layout : RecordLayout) (msg : CtrlMsg) (f : Field) : UInt16 :=
  (msg.fieldMatches[f.2]?.map layout.lpmPrefixLength).getD 0

def bindingsOf (layout : RecordLayout) (msg : CtrlMsg) (f : Field) : Env :=
  (valueVar f.1, .bytes (bitmapAt layout msg f)) ::
    (if f.1.matchType = .exact then [] else [(prefixVar f.1, .word (prefixAt layout msg f))])

def frameOf (views : Field → ByteView) (layout : RecordLayout) (msg : CtrlMsg) (f : Field) : Env :=
  [(valueVar f.1, .bytes (views f))] ++
    (if f.1.matchType = .ternary then [(maskVar f.1, .null)] else []) ++
    (if f.1.matchType = .lpm then [(prefixVar f.1, .byte (prefixAt layout msg f).toUInt8)] else [])

def envOf (layout : RecordLayout) (msg : CtrlMsg) (ks : List KeyElement) : Env :=
  (fieldsOf ks).flatMap (bindingsOf layout msg)

def addFrame (views : Field → ByteView) (layout : RecordLayout) (msg : CtrlMsg)
    (ks : List KeyElement) : Env :=
  (fieldsOf ks).flatMap (frameOf views layout msg)

def Below (n : Nat) (is : List Nat) : Prop := ∀ i ∈ is, i < n

instance (n : Nat) (is : List Nat) : Decidable (Below n is) :=
  inferInstanceAs (Decidable (∀ i ∈ is, _))

theorem below_cons {n i : Nat} {is : List Nat} : Below n (i :: is) ↔ i < n ∧ Below n is := by
  simp [Below]

def KeyInRange (ks : List KeyElement) (msg : CtrlMsg) : Prop :=
  Below msg.fieldMatches.length ((fieldsOf ks).map Prod.snd)

instance (ks : List KeyElement) (msg : CtrlMsg) : Decidable (KeyInRange ks msg) :=
  inferInstanceAs (Decidable (Below _ _))

def ParamsInRange (ps : List ParamCopy) (msg : CtrlMsg) : Prop :=
  Below msg.actionParams.length (ps.map ParamCopy.index)

instance (ps : List ParamCopy) (msg : CtrlMsg) : Decidable (ParamsInRange ps msg) :=
  inferInstanceAs (Decidable (Below _ _))

theorem paramsInRange_cons {p : ParamCopy} {ps : List ParamCopy} :
    ParamsInRange (p :: ps) msg ↔ p.index < msg.actionParams.length ∧ ParamsInRange ps msg :=
  below_cons

def Generable (ks : List KeyElement) : Prop := ∀ k ∈ ks, raisesAttributeError k = false

theorem flatMap_unless {A B : Type} (p : A → Bool) (g : A → List B) (l : List A) :
    l.flatMap (fun x => if p x = true then [] else g x) =
      (l.filter (fun x => !p x)).flatMap g := by
  induction l with
  | nil => rfl
  | cons x xs ih => cases hp : p x <;> simp [hp, ih]

theorem lookup_of_mem {env : Env} {var : Var} {val : Val} (hn : (env.map Prod.fst).Nodup)
    (h : (var, val) ∈ env) : lookup env var = pure val := by
  have hf := FirstBinding.find?_of_nodup hn h
  simp [lookup, hf]

theorem header_of_ranged {k : KeyElement} (hs : isSpecial k = false)
    (hr : raisesAttributeError k = false) (hm : k.matchType ≠ .exact) :
    instanceNameOf k = headerNameOf k := by
  cases hh : k.header with
  | none =>
      have hmeta : isMeta k = true := by simpa [isSpecial, hh] using hs
      simp [raisesAttributeError, hmeta, hh, hm] at hr
  | some header =>
      have hname := k.header_named header (by simp [hh])
      simp [instanceNameOf, headerNameOf, hh, hname]

theorem declsOf_ranged {k : KeyElement} (i : Nat) (hs : isSpecial k = false)
    (hr : raisesAttributeError k = false) (hm : k.matchType ≠ .exact) :
    declsOf k i = [.lpmBitmap (valueVar k) i, .lpmPrefixLength (prefixVar k) i] := by
  have hv : fieldInstance (headerNameOf k) k.fieldName = valueVar k := by
    rw [valueVar, header_of_ranged hs hr hm]
  cases ht : k.matchType with
  | exact => exact absurd ht hm
  | lpm | ternary => simp [declsOf, hs, ht, hv]

theorem runDecls_append (ds es : List Decl) :
    runDecls layout msg (ds ++ es) =
      runDecls layout msg ds >>= fun env => runDecls layout msg es >>= fun rest =>
        pure (env ++ rest) := by
  induction ds with
  | nil => simp [runDecls]
  | cons d ds ih => simp [runDecls, ih]

theorem runDecls_declsOf (f : Field) (hs : isSpecial f.1 = false)
    (hr : raisesAttributeError f.1 = false) :
    runDecls layout msg (declsOf f.1 f.2) =
      if f.2 < msg.fieldMatches.length then pure (bindingsOf layout msg f)
      else fault .fieldMatchOutOfBounds := by
  rcases eq_or_ne f.1.matchType .exact with hm | hm
  · rcases Nat.lt_or_ge f.2 msg.fieldMatches.length with hlt | hlt
    · simp [declsOf, hs, hm, runDecls, runDecl, hlt, bindingsOf, bitmapAt]
    · simp [declsOf, hs, hm, runDecls, runDecl, hlt]
  · rw [declsOf_ranged f.2 hs hr hm]
    rcases Nat.lt_or_ge f.2 msg.fieldMatches.length with hlt | hlt
    · have hbits : bitmapAt layout msg f = layout.lpmBitmap msg.fieldMatches[f.2] := by
        cases ht : f.1.matchType with
        | exact => exact absurd ht hm
        | lpm | ternary => simp [bitmapAt, hlt, ht]
      simp [runDecls, runDecl, hlt, bindingsOf, hbits, prefixAt, hm]
    · simp [runDecls, runDecl, hlt]

theorem runDecls_fields (fs : List Field) (hs : ∀ f ∈ fs, isSpecial f.1 = false)
    (hr : ∀ f ∈ fs, raisesAttributeError f.1 = false) :
    runDecls layout msg (fs.flatMap (fun f => declsOf f.1 f.2)) =
      if Below msg.fieldMatches.length (fs.map Prod.snd) then
        pure (fs.flatMap (bindingsOf layout msg))
      else fault .fieldMatchOutOfBounds := by
  induction fs with
  | nil => simp [runDecls, Below]
  | cons f fs ih =>
      rw [List.flatMap_cons, runDecls_append, runDecls_declsOf f (hs f (by simp)) (hr f (by simp)),
        ih (fun g hg => hs g (by simp [hg])) (fun g hg => hr g (by simp [hg]))]
      by_cases hf : f.2 < msg.fieldMatches.length
      · by_cases hfs : Below msg.fieldMatches.length (fs.map Prod.snd) <;>
          simp [below_cons, hf, hfs]
      · simp [below_cons, hf]

theorem not_special_of_mem {f : Field} (h : f ∈ fieldsOf ks) : isSpecial f.1 = false := by
  simpa using (List.mem_filter.mp h).2

theorem mem_key_of_mem {f : Field} (h : f ∈ fieldsOf ks) : f.1 ∈ ks :=
  List.fst_mem_of_mem_zipIdx (List.mem_filter.mp h).1

theorem decls_eq : (tableCode program table ks).decls =
    (fieldsOf ks).flatMap (fun f => declsOf f.1 f.2) := by
  have h := flatMap_unless (fun f : Field => isSpecial f.1) (fun f => declsOf f.1 f.2) ks.zipIdx
  rw [tableCode, fieldsOf, ← h]
  apply List.flatMap_congr
  intro f _
  cases hs : isSpecial f.1 <;> simp [declsOf, hs]

theorem runDecls_eq (hg : Generable ks) :
    runDecls layout msg (tableCode program table ks).decls =
      if KeyInRange ks msg then pure (envOf layout msg ks) else fault .fieldMatchOutOfBounds := by
  rw [decls_eq]
  exact runDecls_fields (fieldsOf ks) (fun f hf => not_special_of_mem hf)
    (fun f hf => hg f.1 (mem_key_of_mem hf))

def paramView (msg : CtrlMsg) (p : ParamCopy) : ByteView :=
  viewOf ((msg.actionParams[p.index]?.map ActionParameter.bitmap).getD [])

def paramValue (msg : CtrlMsg) (p : ParamCopy) : String × Buffer :=
  (p.name, readBytes (paramView msg p) p.length)

-- What the variable of a field stands for in the block of an action's branch.
def shownAt (layout : RecordLayout) (msg : CtrlMsg) (action : ActionObject) (f : Field) : ByteView :=
  match (paramCopies action).find? (fun p => p.name = valueVar f.1) with
  | none => bitmapAt layout msg f
  | some p => paramView msg p

def paramPointers (msg : CtrlMsg) (ps : List ParamCopy) : Env :=
  ps.map (fun p => (p.name, .bytes (paramView msg p)))

theorem lookup_behind_pointers (ps : List ParamCopy) (env : Env) (var : Var) :
    lookup (paramPointers msg ps ++ env) var =
      match ps.find? (fun p => p.name = var) with
      | none => lookup env var
      | some p => pure (.bytes (paramView msg p)) := by
  rw [lookup, List.find?_append, paramPointers, List.find?_map, Function.comp_def]
  cases ps.find? (fun p => p.name = var) <;> rfl

theorem runParams_eq (ps : List ParamCopy) :
    runParams msg ps =
      if ParamsInRange ps msg then pure (ps.map (fun p => (p, paramView msg p)))
      else fault .actionParamOutOfBounds := by
  induction ps with
  | nil => simp [runParams, ParamsInRange, Below]
  | cons p ps ih =>
      rcases Nat.lt_or_ge p.index msg.actionParams.length with hp | hp
      · by_cases hps : ParamsInRange ps msg <;>
          simp [runParams, ih, paramsInRange_cons, hp, hps, paramView]
      · simp [runParams, paramsInRange_cons, hp]

theorem addParamsOf_field {k : KeyElement} (program : Program) (hs : isSpecial k = false) :
    addParamsOf program k = .bytes (valueVar k) (byteWidth program k) ::
      match k.matchType with
      | .exact => []
      | .lpm => [.prefixLength (prefixVar k)]
      | .ternary => [.bytes (maskVar k) (byteWidth program k)] := by
  cases ht : k.matchType <;> simp [addParamsOf, hs, ht]

theorem addArgsOf_field {k : KeyElement} (hs : isSpecial k = false) :
    addArgsOf k = .var (valueVar k) ::
      match k.matchType with
      | .exact => []
      | .lpm => [.var (prefixVar k)]
      | .ternary => [.zero] := by
  cases ht : k.matchType <;> simp [addArgsOf, hs, ht]

theorem pointersOf_eq (ps : List ParamCopy) :
    pointersOf (ps.map (fun p => (p, paramView msg p))) = paramPointers msg ps := by
  rw [pointersOf, List.map_map]
  rfl

theorem copiedParams_eq (ps : List ParamCopy) :
    copiedParams (ps.map (fun p => (p, paramView msg p))) = ps.map (paramValue msg) := by
  rw [copiedParams, List.map_map]
  rfl

theorem bindArgs_fields (fs : List Field) {env : Env} (hs : ∀ f ∈ fs, isSpecial f.1 = false)
    (hvalue : ∀ f ∈ fs, lookup env (valueVar f.1) = pure (.bytes (views f)))
    (hdepth : ∀ f ∈ fs, f.1.matchType = .lpm →
      lookup env (prefixVar f.1) = pure (.word (prefixAt layout msg f))) :
    bindArgs (fs.flatMap (fun f => addParamsOf program f.1) ++ [.action])
        (fs.flatMap (fun f => addArgsOf f.1) ++ [.action]) env =
      pure (fs.flatMap (frameOf views layout msg)) := by
  induction fs with
  | nil => rfl
  | cons f fs ih =>
      have hrest := ih (fun g hg => hs g (by simp [hg])) (fun g hg => hvalue g (by simp [hg]))
        (fun g hg => hdepth g (by simp [hg]))
      have hsf := hs f (by simp)
      have hvf := hvalue f (by simp)
      rw [List.flatMap_cons, List.flatMap_cons, addParamsOf_field program hsf, addArgsOf_field hsf]
      cases ht : f.1.matchType with
      | exact | ternary => simp [bindArgs, hvf, hrest, frameOf, ht]
      | lpm => simp [bindArgs, hvf, hdepth f (by simp) ht, hrest, frameOf, ht]

theorem flatMap_fieldsOf {B : Type} (g : KeyElement → List B)
    (hg : ∀ k, isSpecial k = true → g k = []) :
    ks.flatMap g = (fieldsOf ks).flatMap (fun f => g f.1) := by
  have h := flatMap_unless (fun f : Field => isSpecial f.1) (fun f => g f.1) ks.zipIdx
  rw [fieldsOf, ← h]
  conv_lhs => rw [← List.zipIdx_map_fst 0 ks, List.flatMap_map]
  apply List.flatMap_congr
  intro f _
  cases hs : isSpecial f.1 <;> simp [hs, hg]

theorem params_eq : (tableCode program table ks).add.params =
    (fieldsOf ks).flatMap (fun f => addParamsOf program f.1) ++ [.action] := by
  rw [← flatMap_fieldsOf (addParamsOf program) fun k hk => by simp [addParamsOf, hk]]
  rfl

theorem args_eq (action : ActionObject) : (entryBranch ks action).args =
    (fieldsOf ks).flatMap (fun f => addArgsOf f.1) ++ [.action] := by
  rw [← flatMap_fieldsOf addArgsOf fun k hk => by simp [addArgsOf, hk]]
  rfl

theorem env_nodup (hg : Generable ks) (hc : (tableCode program table ks).Compiles) :
    ((envOf layout msg ks).map Prod.fst).Nodup := by
  have hd := hc.decls
  rw [decls_eq, List.map_flatMap] at hd
  rw [envOf, List.map_flatMap]
  refine (List.flatMap_congr fun f hf => ?_) ▸ hd
  have hs := not_special_of_mem hf
  have hr := hg f.1 (mem_key_of_mem hf)
  rcases eq_or_ne f.1.matchType .exact with hm | hm
  · simp [declsOf, hs, hm, bindingsOf, Decl.var]
  · simp [declsOf_ranged f.2 hs hr hm, bindingsOf, hm, Decl.var]

theorem frame_nodup (hc : (tableCode program table ks).Compiles) :
    ((addFrame views layout msg ks).map Prod.fst).Nodup := by
  have hp := hc.params
  rw [params_eq, List.filterMap_append, List.filterMap_flatMap] at hp
  rw [addFrame, List.map_flatMap]
  refine (List.flatMap_congr fun f hf => ?_) ▸ (List.nodup_append.mp hp).1
  have hs := not_special_of_mem hf
  cases ht : f.1.matchType <;> simp [addParamsOf, hs, ht, frameOf, AddParam.var?]

theorem mem_prefixArgs (fs : List Field) (hs : ∀ f ∈ fs, isSpecial f.1 = false) {f : Field}
    (hf : f ∈ fs) (hm : f.1.matchType = .lpm) :
    prefixVar f.1 ∈ prefixArgs (fs.flatMap (fun f => addParamsOf program f.1) ++ [.action])
      (fs.flatMap (fun f => addArgsOf f.1) ++ [.action]) := by
  induction fs with
  | nil => exact absurd hf List.not_mem_nil
  | cons g gs ih =>
      have hsg := hs g (by simp)
      rw [List.flatMap_cons, List.flatMap_cons, addParamsOf_field program hsg, addArgsOf_field hsg]
      rcases List.mem_cons.mp hf with rfl | hf
      · simp [hm, prefixArgs]
      · have hrest := ih (fun h hh => hs h (by simp [hh])) hf
        cases ht : g.1.matchType <;> simp [prefixArgs, hrest]

theorem entryBranch_pointers (ks : List KeyElement) (action : ActionObject) :
    (entryBranch ks action).pointers = (paramCopies action).map ParamCopy.name := rfl

theorem entryBranch_mem (ha : action ∈ table.actions) :
    entryBranch ks action ∈ (tableCode program table ks).entryBranches :=
  List.mem_map_of_mem ha

theorem not_prefixVar (hc : (tableCode program table ks).Compiles) (ha : action ∈ table.actions)
    {f : Field} (hf : f ∈ fieldsOf ks) (hm : f.1.matchType = .lpm) :
    (paramCopies action).find? (fun p => p.name = prefixVar f.1) = none := by
  have hmem := @mem_prefixArgs program (fieldsOf ks) (fun g hg => not_special_of_mem hg) f hf hm
  rw [← @params_eq program table ks, ← args_eq action] at hmem
  have hn := hc.prefixes _ (entryBranch_mem ha) _ hmem
  rw [entryBranch_pointers, List.mem_map] at hn
  exact List.find?_eq_none.mpr fun p hp hname => hn ⟨p, hp, of_decide_eq_true hname⟩

theorem lookup_shown (hg : Generable ks) (hc : (tableCode program table ks).Compiles)
    (action : ActionObject) {f : Field} (hf : f ∈ fieldsOf ks) :
    lookup (paramPointers msg (paramCopies action) ++ envOf layout msg ks) (valueVar f.1) =
      pure (.bytes (shownAt layout msg action f)) := by
  have henv := lookup_of_mem (@env_nodup program table ks layout msg hg hc)
    (List.mem_flatMap.mpr ⟨f, hf, List.mem_cons_self⟩)
  rw [lookup_behind_pointers, shownAt, henv]
  cases (paramCopies action).find? (fun p => p.name = valueVar f.1) <;> rfl

theorem bindArgs_eq (hg : Generable ks) (hc : (tableCode program table ks).Compiles)
    (ha : action ∈ table.actions) :
    bindArgs (tableCode program table ks).add.params (entryBranch ks action).args
        (paramPointers msg (paramCopies action) ++ envOf layout msg ks) =
      pure (addFrame (shownAt layout msg action) layout msg ks) := by
  have hn : ((envOf layout msg ks).map Prod.fst).Nodup := env_nodup hg hc
  rw [params_eq, args_eq]
  refine bindArgs_fields (fieldsOf ks) (fun f hf => not_special_of_mem hf)
    (fun f hf => lookup_shown hg hc action hf) (fun f hf hm => ?_)
  rw [lookup_behind_pointers, not_prefixVar hc ha hf hm]
  exact lookup_of_mem hn (List.mem_flatMap.mpr ⟨f, hf, by simp [bindingsOf, hm]⟩)

def step (k : KeyElement) : Nat := if isMeta k then 1 else getKeyByteWidth k

theorem copyLoop_cons {k : KeyElement} (h : isSpecial k = false) (off : Nat)
    (ks : List KeyElement) :
    copyLoop program off (k :: ks) =
      ({ offset := off, var := valueVar k, length := byteWidth program k } ::
        (copyLoop program (off + step k) ks).1, (copyLoop program (off + step k) ks).2) := by
  have hnext : (if isMeta k = true then off + 1 else off + getKeyByteWidth k) = off + step k := by
    rw [step]
    split <;> rfl
  simp only [copyLoop, h, Bool.false_eq_true, if_false, hnext]

def writesOf (program : Program) (views : Field → ByteView) :
    Nat → List Field → List (Write (Option UInt8))
  | _, [] => []
  | off, f :: fs =>
      if isSpecial f.1 then writesOf program views off fs
      else
        (off, readBytes (views f) (byteWidth program f.1)) ::
          writesOf program views (off + step f.1) fs

theorem runCopies_eq (fs : List Field) {frame : Env} (off : Nat) (key : Buffer)
    (h : ∀ f ∈ fs, isSpecial f.1 = false →
      lookup frame (valueVar f.1) = pure (.bytes (views f))) :
    runCopies frame (copyLoop program off (fs.map Prod.fst)).1 key =
      deref .keyOverflow (writeAll key (writesOf program views off fs)) := by
  induction fs generalizing off key with
  | nil => rfl
  | cons f fs ih =>
      have hrest : ∀ g ∈ fs, isSpecial g.1 = false →
          lookup frame (valueVar g.1) = pure (.bytes (views g)) :=
        fun g hg => h g (by simp [hg])
      cases hs : isSpecial f.1 with
      | true => simp [copyLoop, writesOf, hs, ih off key hrest]
      | false =>
          rw [List.map_cons, copyLoop_cons hs]
          simp only [runCopies, h f (by simp) hs, pure_bind, writesOf, hs, Bool.false_eq_true,
            if_false, writeAll]
          rw [← deref_bind]
          exact congrArg _ (funext fun key' => ih (off + step f.1) key' hrest)

def depthStep (layout : RecordLayout) (msg : CtrlMsg) (depth : UInt8) (f : Field) : UInt8 :=
  if f.1.header.isNone then depth
  else
    match f.1.matchType with
    | .exact => depth + UInt8.ofNat (getKeyByteWidth f.1)
    | .lpm => depth + (prefixAt layout msg f).toUInt8
    | .ternary => depth

def depthOf (layout : RecordLayout) (msg : CtrlMsg) (ks : List KeyElement) : UInt8 :=
  (fieldsOf ks).foldl (depthStep layout msg) 0

theorem runPrefix_fields (fs : List Field) {frame : Env} (depth : UInt8)
    (h : ∀ f ∈ fs, f.1.matchType = .lpm →
      lookup frame (prefixVar f.1) = pure (.byte (prefixAt layout msg f).toUInt8)) :
    runPrefix frame (fs.flatMap (fun f => prefixTermsOf f.1)) depth =
      pure (fs.foldl (depthStep layout msg) depth) := by
  induction fs generalizing depth with
  | nil => rfl
  | cons f fs ih =>
      have hrest := fun d => ih d (fun g hg => h g (by simp [hg]))
      cases hh : f.1.header with
      | none =>
          have hterms : prefixTermsOf f.1 = [] := by simp [prefixTermsOf, hh]
          simp [hterms, depthStep, hh, hrest]
      | some header =>
          cases ht : f.1.matchType with
          | exact =>
              have hterms : prefixTermsOf f.1 = [.const (getKeyByteWidth f.1)] := by
                simp [prefixTermsOf, hh, ht]
              simp [hterms, depthStep, hh, ht, runPrefix, hrest]
          | lpm =>
              have hterms : prefixTermsOf f.1 = [.var (prefixVar f.1)] := by
                simp [prefixTermsOf, hh, ht]
              simp [hterms, depthStep, hh, ht, runPrefix, hrest, h f (by simp) ht]
          | ternary =>
              have hterms : prefixTermsOf f.1 = [] := by simp [prefixTermsOf, hh, ht]
              simp [hterms, depthStep, hh, ht, hrest]

def singles {B : Type} (l : List B) : List (List B) := l.map ([·])

theorem flatten_singles {B : Type} (l : List B) : (singles l).flatten = l := by
  induction l with
  | nil => rfl
  | cons x xs ih => exact congrArg (x :: ·) ih

theorem reverseLoop_eq (key : Buffer) (n d : Nat) (reversed : Buffer) (hk : n ≤ key.length) :
    reverseLoop key n d reversed =
      deref .reverseOverflow (writeAll reversed (segments d (singles (key.take n).reverse))) := by
  induction n generalizing d reversed with
  | zero => rfl
  | succ n ih =>
      have hget : key[n]? = some key[n] := List.getElem?_eq_getElem hk
      have htake : (key.take (n + 1)).reverse = key[n] :: (key.take n).reverse := by
        rw [List.take_add_one, hget]
        simp
      rw [reverseLoop, hget, deref_some, pure_bind, htake, singles, List.map_cons, segments,
        writeAll, ← deref_bind]
      exact congrArg _ (funext fun reversed' => ih (d + 1) reversed' (by omega))

theorem copyBackLoop_eq (reversed : Buffer) (n c : Nat) (key : Buffer)
    (hr : c + n ≤ reversed.length) :
    copyBackLoop reversed n c key =
      deref .keyOverflow (writeAll key (segments c (singles ((reversed.drop c).take n)))) := by
  induction n generalizing c key with
  | zero => simp [copyBackLoop, singles, segments, writeAll]
  | succ n ih =>
      have hget : reversed[c]? = some reversed[c] := List.getElem?_eq_getElem (by omega)
      have htake : (reversed.drop c).take (n + 1) = reversed[c] :: (reversed.drop (c + 1)).take n := by
        rw [List.drop_eq_getElem_cons (by omega), List.take_succ_cons]
      rw [copyBackLoop, hget, deref_some, pure_bind, htake, singles, List.map_cons, segments,
        writeAll, ← deref_bind]
      exact congrArg _ (funext fun key' => ih (c + 1) key' (by omega))

def reversePrefix (n : Nat) (key : Buffer) : Buffer := (key.take n).reverse ++ key.drop n

def reverseKey (key : Buffer) (n size : Nat) : Emitted Buffer := do
  let reversed ← reverseLoop key n 0 (List.replicate size none)
  copyBackLoop reversed n 0 key

theorem reverseKey_of_fits {key : Buffer} {n size : Nat} (hk : n ≤ key.length) (hs : n ≤ size) :
    reverseKey key n size = pure (reversePrefix n key) := by
  have hlen : (key.take n).reverse.length = n := by simp [hk]
  have hrev : reverseLoop key n 0 (List.replicate size none) =
      pure ((key.take n).reverse ++ (List.replicate size none).drop n) := by
    rw [reverseLoop_eq _ _ _ _ hk, writeAll_segments _ (by simp [flatten_singles, hk, hs])]
    simp [flatten_singles, hk]
  have hpre : (((key.take n).reverse ++ (List.replicate size none).drop n).drop 0).take n =
      (key.take n).reverse := by
    rw [List.drop_zero, List.take_append_of_le_length (by omega), List.take_of_length_le (by omega)]
  rw [reverseKey, hrev, pure_bind, copyBackLoop_eq _ _ _ _ (by simp [hk]), hpre,
    writeAll_segments _ (by simp [flatten_singles, hk])]
  simp [flatten_singles, reversePrefix, hk]

theorem reverseKey_faults {key : Buffer} {n size : Nat} (h : ¬(n ≤ key.length ∧ n ≤ size)) :
    ∃ f, reverseKey key n size = fault f := by
  by_cases hk : n ≤ key.length
  · have hne : singles (key.take n).reverse ≠ [] := by
      intro hnil
      have hlen := congrArg List.length hnil
      simp only [singles, List.length_map, List.length_reverse, List.length_take,
        List.length_nil] at hlen
      omega
    have hlt : (List.replicate size (none : Option UInt8)).length <
        0 + (singles (key.take n).reverse).flatten.length := by
      simp only [flatten_singles, List.length_replicate, List.length_reverse, List.length_take]
      omega
    have hn := writeAll_segments_overflow _ hne hlt
    exact ⟨.reverseOverflow, by rw [reverseKey, reverseLoop_eq _ _ _ _ hk, hn]; rfl⟩
  · cases n with
    | zero => exact absurd (Nat.zero_le _) hk
    | succ n =>
        have hget : key[n]? = none := List.getElem?_eq_none (by omega)
        exact ⟨.keyOverflow, by rw [reverseKey, reverseLoop, hget]; rfl⟩

def sortedFields (ks : List KeyElement) : List Field :=
  ks.zipIdx.insertionSort
    (fun f g => matchTypeOrder f.1.matchType ≤ matchTypeOrder g.1.matchType)

theorem sortedFields_fst (ks : List KeyElement) :
    (sortedFields ks).map Prod.fst = sortedKeyElements ks := by
  have hmap := List.map_insertionSort
    (r := fun f g : Field => matchTypeOrder f.1.matchType ≤ matchTypeOrder g.1.matchType)
    (s := fun a b : KeyElement => matchTypeOrder a.matchType ≤ matchTypeOrder b.matchType)
    Prod.fst ks.zipIdx fun _ _ _ _ => Iff.rfl
  rw [sortedFields, hmap, List.zipIdx_map_fst, sortedKeyElements]

theorem mem_sortedFields {f : Field} (h : f ∈ sortedFields ks) (hs : isSpecial f.1 = false) :
    f ∈ fieldsOf ks :=
  List.mem_filter.mpr ⟨(List.mem_insertionSort _).mp h, by simp [hs]⟩

def builtKey (program : Program) (table : Table) (views : Field → ByteView)
    (ks : List KeyElement) : Option Buffer :=
  writeAll (List.replicate (keySizeOf program table ks) none)
    (writesOf program views 0 (sortedFields ks))

def byteIdxOf (program : Program) (ks : List KeyElement) : Nat :=
  (copyLoop program 0 (sortedKeyElements ks)).2

def finishAdd (code : Code) (program : Program) (table : Table) (views : Field → ByteView)
    (depth : UInt8) (ks : List KeyElement) (value : ActionValue) : Emitted Unit := do
  let key ← deref .keyOverflow (builtKey program table views ks)
  match table.matchType with
  | .exact => emit (.exactAdd table.name key value)
  | .lpm => do
      let key ← reverseKey key (byteIdxOf program ks) code.reverseBufferSize
      emit (.lpmAdd table.name key depth value)
  | .ternary => pure ()

theorem runAdd_eq (code : Code) (hg : Generable ks) (hc : (tableCode program table ks).Compiles)
    (ha : action ∈ table.actions) (value : ActionValue) :
    runAdd code (tableCode program table ks) (entryBranch ks action).args
        (paramPointers msg (paramCopies action) ++ envOf layout msg ks) value =
      finishAdd code program table (shownAt layout msg action) (depthOf layout msg ks) ks
        value := by
  have hn : ((addFrame (shownAt layout msg action) layout msg ks).map Prod.fst).Nodup :=
    frame_nodup hc
  have hkey : runCopies (addFrame (shownAt layout msg action) layout msg ks)
      (tableCode program table ks).add.copies
      (List.replicate (tableCode program table ks).add.keySize none) =
        deref .keyOverflow (builtKey program table (shownAt layout msg action) ks) := by
    have hcopies : (tableCode program table ks).add.copies =
        (copyLoop program 0 ((sortedFields ks).map Prod.fst)).1 := by
      rw [sortedFields_fst]
      rfl
    rw [hcopies]
    apply runCopies_eq (sortedFields ks) 0 _
    intro f hf hs
    exact lookup_of_mem hn
      (List.mem_flatMap.mpr ⟨f, mem_sortedFields hf hs, by simp [frameOf]⟩)
  have hdepth : runPrefix (addFrame (shownAt layout msg action) layout msg ks)
      (ks.flatMap prefixTermsOf) 0 = pure (depthOf layout msg ks) := by
    rw [flatMap_fieldsOf prefixTermsOf fun k hk => ?_]
    · apply runPrefix_fields (fieldsOf ks) 0
      intro f hf hm
      exact lookup_of_mem hn (List.mem_flatMap.mpr ⟨f, hf, by simp [frameOf, hm]⟩)
    · have hnone : k.header.isNone = true := by
        simp only [isSpecial, Bool.and_eq_true] at hk
        exact hk.1
      simp [prefixTermsOf, hnone]
  rw [runAdd, bindArgs_eq hg hc ha, pure_bind, hkey, finishAdd]
  refine congrArg _ (funext fun key => ?_)
  cases ht : table.matchType with
  | exact | ternary => simp only [tableCode, addFunction, ht]
  | lpm =>
      simp only [tableCode, addFunction, ht, hdepth, pure_bind, reverseKey, bind_assoc]
      rfl

theorem writesOf_congr (fs : List Field)
    (h : ∀ f ∈ fs, isSpecial f.1 = false → views f = views' f) (off : Nat) :
    writesOf program views off fs = writesOf program views' off fs := by
  induction fs generalizing off with
  | nil => rfl
  | cons f fs ih =>
      have hrest := ih fun g hg => h g (by simp [hg])
      cases hs : isSpecial f.1 with
      | true => simp [writesOf, hs, hrest]
      | false => simp [writesOf, hs, hrest, h f (by simp) hs]

theorem builtKey_congr (h : ∀ f ∈ fieldsOf ks, views f = views' f) :
    builtKey program table views ks = builtKey program table views' ks := by
  rw [builtKey, builtKey, writesOf_congr (sortedFields ks) fun f hf hs =>
    h f (mem_sortedFields hf hs)]

theorem shownAt_of_unshadowed (hg : Generable ks) (hu : (tableCode program table ks).Unshadowed)
    (ha : action ∈ table.actions) {f : Field} (hf : f ∈ fieldsOf ks) :
    shownAt layout msg action f = bitmapAt layout msg f := by
  have hnone : (paramCopies action).find? (fun p => p.name = valueVar f.1) = none := by
    refine List.find?_eq_none.mpr fun p hp hname => ?_
    obtain ⟨decl, hd, hvar⟩ : ∃ decl ∈ declsOf f.1 f.2, decl.var = valueVar f.1 := by
      have hs := not_special_of_mem hf
      rcases eq_or_ne f.1.matchType .exact with hm | hm
      · exact ⟨.exactBitmap (valueVar f.1) f.2, by simp [declsOf, hs, hm], rfl⟩
      · rw [declsOf_ranged f.2 hs (hg f.1 (mem_key_of_mem hf)) hm]
        exact ⟨.lpmBitmap (valueVar f.1) f.2, List.mem_cons_self, rfl⟩
    have hmem : decl ∈ (tableCode program table ks).decls := by
      rw [decls_eq]
      exact List.mem_flatMap.mpr ⟨f, hf, hd⟩
    apply hu _ (entryBranch_mem ha) decl hmem
    rw [hvar, entryBranch_pointers, ← of_decide_eq_true hname]
    exact List.mem_map_of_mem hp
  rw [shownAt, hnone]

theorem finishAdd_unshadowed (hg : Generable ks) (hu : (tableCode program table ks).Unshadowed)
    (ha : action ∈ table.actions) (code : Code) (value : ActionValue) :
    finishAdd code program table (shownAt layout msg action) (depthOf layout msg ks) ks value =
      finishAdd code program table (bitmapAt layout msg) (depthOf layout msg ks) ks value := by
  rw [finishAdd, finishAdd, builtKey_congr fun f hf => shownAt_of_unshadowed hg hu ha hf]

end Codegen
