import T4P4SRuntime.Codegen.KeyBytes
import T4P4SRuntime.Device.WriteReport
import T4P4SRuntime.Switch.L2fwdCode

namespace Switch

open Device Codegen Messages Exec IdMap P4v1 Positional

variable {layout : RecordLayout} {program : Hlir.Program} {code : Code} {table : Hlir.Table}
  {ks : List Hlir.KeyElement} {action : Hlir.ActionObject} {msg : CtrlMsg} {dm : DeviceMgr}
  {entry : TableEntry} {fs : List FieldMatchRecord} {params : List ActionParameter}

def reorderMsg (msg : CtrlMsg) (fs : List FieldMatchRecord) (params : List ActionParameter) :
    CtrlMsg := { msg with fieldMatches := fs, actionParams := params }

structure Interchangeable (layout : RecordLayout) (program : Hlir.Program) (table : Hlir.Table)
    (ks : List Hlir.KeyElement) (action : Hlir.ActionObject) (msg : CtrlMsg) : Prop where
  key : ∀ o s, writerOf program ks o = some s →
    Agree (fun rec => castBitmap layout s.2.1.matchType rec (o - s.1)) msg.fieldMatches
  depth : table.matchType = .lpm →
    depthFields ks = [] ∨ (depthFields ks).length = msg.fieldMatches.length ∨
      Agree (recordDepth layout) msg.fieldMatches
  params : ∀ q ∈ paramCopies action,
    Agree (fun p => readBytes (viewOf p.bitmap) q.length) msg.actionParams

theorem Reaches.reorder (h : Reaches program code msg table ks action)
    (hf : fs.Perm msg.fieldMatches) (hp : params.Perm msg.actionParams) :
    Reaches program code (reorderMsg msg fs params) table ks action where
  mem := h.mem
  table_name := h.table_name
  selects := h.selects
  params := by
    rw [reorderMsg, hp.length_eq]
    exact h.params
  entry := fun ht => by
    obtain ⟨hkey, hfin⟩ := h.entry ht
    refine ⟨?_, hfin⟩
    rw [KeyInRange, reorderMsg, hf.length_eq]
    exact hkey

theorem bitmapAt_perm_iff (params : List ActionParameter) {f : Field} (b : Nat)
    (hlt : f.2 < msg.fieldMatches.length) :
    (∀ fs, fs.Perm msg.fieldMatches →
        bitmapAt layout (reorderMsg msg fs params) f b = bitmapAt layout msg f b) ↔
      Agree (fun rec => castBitmap layout f.1.matchType rec b) msg.fieldMatches := by
  rw [← permInvariant_read_iff _ hlt]
  apply forall₂_congr
  intro fs hfs
  have hlt' : f.2 < (reorderMsg msg fs params).fieldMatches.length := by
    rw [reorderMsg, hfs.length_eq]
    exact hlt
  have hlt'' : f.2 < fs.length := hlt'
  rw [bitmapAt_of_lt hlt, bitmapAt_of_lt hlt']
  simp [hlt, hlt'', reorderMsg]

theorem builtKey_perm_iff (params : List ActionParameter) (hfits : KeyFits program table ks)
    (hkey : KeyInRange ks msg) :
    (∀ fs, fs.Perm msg.fieldMatches →
        builtKey program table (bitmapAt layout (reorderMsg msg fs params)) ks =
          builtKey program table (bitmapAt layout msg) ks) ↔
      ∀ o s, writerOf program ks o = some s →
        Agree (fun rec => castBitmap layout s.2.1.matchType rec (o - s.1)) msg.fieldMatches := by
  have hread : ∀ o s, writerOf program ks o = some s → s.2.2 < msg.fieldMatches.length :=
    fun o s hs => hkey s.2.2 (List.mem_map_of_mem (writerOf_mem hs))
  constructor
  · intro h o s hs
    apply (bitmapAt_perm_iff params (o - s.1) (hread o s hs)).mp
    intro fs hfs
    exact (builtKey_eq_iff hfits).mp (h fs hfs) o s hs
  · intro h fs hfs
    apply (builtKey_eq_iff hfits).mpr
    intro o s hs
    exact (bitmapAt_perm_iff params (o - s.1) (hread o s hs)).mpr (h o s hs) fs hfs

theorem depthOf_perm_iff (params : List ActionParameter) (hkey : KeyInRange ks msg) :
    (∀ fs, fs.Perm msg.fieldMatches →
        depthOf layout (reorderMsg msg fs params) ks = depthOf layout msg ks) ↔
      depthFields ks = [] ∨ (depthFields ks).length = msg.fieldMatches.length ∨
        Agree (recordDepth layout) msg.fieldMatches := by
  have hlt : ∀ i ∈ (depthFields ks).map Prod.snd, i < msg.fieldMatches.length := by
    intro i hi
    obtain ⟨f, hf, rfl⟩ := List.mem_map.mp hi
    exact hkey f.2 (List.mem_map_of_mem (List.mem_filter.mp hf).1)
  have hsum := @permInvariant_readSum_iff _ _ msg.fieldMatches _ (recordDepth layout) _
    (positions_nodup ks) hlt
  rw [List.map_eq_nil_iff, List.length_map] at hsum
  rw [← hsum]
  exact forall₂_congr fun fs _ => depthOf_eq_iff

theorem paramValue_perm_iff (fs : List FieldMatchRecord) {q : ParamCopy}
    (hlt : q.index < msg.actionParams.length) :
    (∀ params, params.Perm msg.actionParams →
        paramValue (reorderMsg msg fs params) q = paramValue msg q) ↔
      Agree (fun p => readBytes (viewOf p.bitmap) q.length) msg.actionParams := by
  rw [← permInvariant_read_iff _ hlt]
  apply forall₂_congr
  intro params hp
  have hlt' : q.index < params.length := hp.length_eq ▸ hlt
  simp [paramValue, paramView, reorderMsg, hlt, hlt']

theorem valueOf_perm_iff (fs : List FieldMatchRecord)
    (hparams : ParamsInRange (paramCopies action) msg) :
    (∀ params, params.Perm msg.actionParams →
        valueOf (reorderMsg msg fs params) action = valueOf msg action) ↔
      ∀ q ∈ paramCopies action,
        Agree (fun p => readBytes (viewOf p.bitmap) q.length) msg.actionParams := by
  have hread : ∀ q ∈ paramCopies action, q.index < msg.actionParams.length :=
    fun q hq => hparams q.index (List.mem_map_of_mem hq)
  constructor
  · intro h q hq
    apply (paramValue_perm_iff fs (hread q hq)).mp
    intro params hp
    exact List.map_inj_left.mp (congrArg ActionValue.params (h params hp)) q hq
  · intro h params hp
    rw [valueOf, valueOf, ActionValue.mk.injEq]
    refine ⟨rfl, List.map_congr_left fun q hq => ?_⟩
    exact (paramValue_perm_iff fs (hread q hq)).mpr (h q hq) params hp

theorem reorderMsg_log_iff (hb : Builds program code)
    (h : Reaches program code msg table ks action) (ht : msg.type = .addTableEntry) :
    (∀ fs params, fs.Perm msg.fieldMatches → params.Perm msg.actionParams →
        (recvFromController layout code (reorderMsg msg fs params)).log =
          (recvFromController layout code msg).log) ↔
      Interchangeable layout program table ks action msg := by
  obtain ⟨hkey, hfin⟩ := h.entry ht
  have hparams := (paramsInRange_iff action).mpr h.params
  have hlog : ∀ fs params, fs.Perm msg.fieldMatches → params.Perm msg.actionParams →
      ((recvFromController layout code (reorderMsg msg fs params)).log =
          (recvFromController layout code msg).log ↔
        valueOf (reorderMsg msg fs params) action = valueOf msg action ∧
          builtKey program table (bitmapAt layout (reorderMsg msg fs params)) ks =
            builtKey program table (bitmapAt layout msg) ks ∧
          (table.matchType = .lpm →
            depthOf layout (reorderMsg msg fs params) ks = depthOf layout msg ks)) := by
    intro fs params hf hp
    rw [recv_entry_of_reaches hb h ht, recv_entry_of_reaches hb (h.reorder hf hp) ht]
    exact finishAdd_log_eq_iff hfin
  constructor
  · intro hall
    refine ⟨(builtKey_perm_iff msg.actionParams hfin.fits hkey).mp fun fs hf => ?_,
      fun hlpm => (depthOf_perm_iff msg.actionParams hkey).mp fun fs hf => ?_,
      (valueOf_perm_iff msg.fieldMatches hparams).mp fun params hp => ?_⟩
    · exact ((hlog fs _ hf (List.Perm.refl _)).mp (hall fs _ hf (List.Perm.refl _))).2.1
    · exact ((hlog fs _ hf (List.Perm.refl _)).mp (hall fs _ hf (List.Perm.refl _))).2.2 hlpm
    · exact ((hlog _ params (List.Perm.refl _) hp).mp (hall _ params (List.Perm.refl _) hp)).1
  · intro hint fs params hf hp
    refine (hlog fs params hf hp).mpr ⟨?_, ?_, fun hlpm => ?_⟩
    · exact (valueOf_perm_iff fs hparams).mpr hint.params params hp
    · exact (builtKey_perm_iff params hfin.fits hkey).mpr hint.key fs hf
    · exact (depthOf_perm_iff params hkey).mpr (hint.depth hlpm) fs hf

variable {elem actionElem : Element} {act : P4v1.Action} {ms : List FieldMatch} {ps : List Param}

def reorder (entry : TableEntry) (act : P4v1.Action) (ms : List FieldMatch) (ps : List Param) :
    TableEntry := { entry with matchList := ms, action := .action { act with params := ps } }

def OrderIndependent (layout : RecordLayout) (code : Code) (dm : DeviceMgr) (entry : TableEntry) :
    Prop :=
  (∃ log status, tableInsert dm entry = ⟨log, .ok status⟩ ∧ status.ok = true) →
    ∀ act, entry.action = .action act → ∀ ms ps, ms.Perm entry.matchList → ps.Perm act.params →
      (installEntry layout code dm (reorder entry act ms ps)).log =
        (installEntry layout code dm entry).log

theorem insertMessage_reorder :
    insertMessage elem actionElem (reorder entry act ms ps) { act with params := ps } =
      reorderMsg (insertMessage elem actionElem entry act) (ms.filterMap (recordOf elem))
        (ps.filterMap (paramOf actionElem)) := rfl

theorem reorder_resolves (ha : ActionResolves dm entry act actionElem) (ms : List FieldMatch)
    (ps : List Param) :
    ActionResolves dm (reorder entry act ms ps) { act with params := ps } actionElem :=
  ⟨rfl, ha.2⟩

theorem reorder_clean (hc : InsertClean dm entry elem) (ha : ActionResolves dm entry act actionElem)
    (hms : ms.Perm entry.matchList) (hps : ps.Perm act.params) :
    InsertClean dm (reorder entry act ms ps) elem where
  table := hc.table
  fields := fun m hm => hc.fields m (hms.mem_iff.mp hm)
  params := fun act' actionElem' ha' => by
    obtain rfl := TableAction.action.inj ha'.1
    exact fun p hp => hc.params act actionElem' ⟨ha.1, ha'.2⟩ p (hps.mem_iff.mp hp)

theorem installEntry_log (hc : InsertClean dm entry elem)
    (ha : ActionResolves dm entry act actionElem) (hr : ¬RejectionStands entry.matchList) :
    (installEntry layout code dm entry).log =
      (recvFromController layout code (insertMessage elem actionElem entry act)).log := by
  rw [installEntry_of_action hc ha hr]

theorem reorder_log (hc : InsertClean dm entry elem) (ha : ActionResolves dm entry act actionElem)
    (hms : ms.Perm entry.matchList) (hps : ps.Perm act.params) (hr : ¬RejectionStands ms) :
    (installEntry layout code dm (reorder entry act ms ps)).log =
      (recvFromController layout code
        (reorderMsg (insertMessage elem actionElem entry act) (ms.filterMap (recordOf elem))
          (ps.filterMap (paramOf actionElem)))).log := by
  rw [installEntry_log (reorder_clean hc ha hms hps) (reorder_resolves ha ms ps) hr,
    insertMessage_reorder]

theorem reorder_rejected (hc : InsertClean dm entry elem)
    (ha : ActionResolves dm entry act actionElem) (hms : ms.Perm entry.matchList)
    (hps : ps.Perm act.params) (hr : RejectionStands ms) :
    (installEntry layout code dm (reorder entry act ms ps)).log = [] := by
  have href : Refuses (tableInsert dm (reorder entry act ms ps)) :=
    refuses_tableInsert_iff.mpr ⟨elem, reorder_clean hc ha hms hps, Or.inr hr⟩
  obtain ⟨status, he, -⟩ := @installEntry_refused layout code _ _ href
  rw [he]

theorem reorder_unreached (hb : Builds program code)
    (hn : ¬∃ table ks action,
      Reaches program code (insertMessage elem actionElem entry act) table ks action)
    (hc : InsertClean dm entry elem) (ha : ActionResolves dm entry act actionElem)
    (hms : ms.Perm entry.matchList) (hps : ps.Perm act.params) :
    (installEntry layout code dm (reorder entry act ms ps)).log = [] := by
  by_cases hr : RejectionStands ms
  · exact reorder_rejected hc ha hms hps hr
  · rw [reorder_log hc ha hms hps hr]
    by_contra hne
    obtain ⟨table, ks, action, hreach⟩ := reaches_of_log hb.toEmits hne
    exact hn ⟨table, ks, action,
      hreach.reorder (hms.filterMap (recordOf elem)).symm (hps.filterMap (paramOf actionElem)).symm⟩

theorem supported_of_independent
    (h : ∀ ms, ms.Perm entry.matchList → ¬RejectionStands ms) :
    ∀ m ∈ entry.matchList, FieldMatchType.supported m.fieldMatchType = true := by
  intro m hm
  by_contra hs
  obtain ⟨ms, hperm⟩ := exists_perm_last hm
  exact h _ hperm ⟨ms, m, [], rfl, by simpa using hs, by simp⟩

theorem insertMessage_adds (elem actionElem : Element) (act : P4v1.Action)
    (hd : entry.isDefaultAction = false) :
    (insertMessage elem actionElem entry act).type = .addTableEntry := by
  simp [insertMessage, msgType, hd]

theorem not_rejectionStands_of_independent (hb : Builds program code)
    (hc : InsertClean dm entry elem) (ha : ActionResolves dm entry act actionElem)
    (hr : ¬RejectionStands entry.matchList) (hd : entry.isDefaultAction = false)
    (hreach : Reaches program code (insertMessage elem actionElem entry act) table ks action)
    (hms : ms.Perm entry.matchList)
    (hlog : (installEntry layout code dm (reorder entry act ms act.params)).log =
      (installEntry layout code dm entry).log) : ¬RejectionStands ms := by
  intro hstands
  obtain ⟨promote, he, -⟩ := @recv_of_reaches layout _ _ _ _ _ _ hb.toEmits hreach
    (by rw [insertMessage_adds elem actionElem act hd]; exact CtrlMsgType.noConfusion)
  rw [reorder_rejected hc ha hms (List.Perm.refl _) hstands, installEntry_log hc ha hr, he] at hlog
  cases hlog

theorem reached_independent_iff (hb : Builds program code) (hc : InsertClean dm entry elem)
    (ha : ActionResolves dm entry act actionElem) (hr : ¬RejectionStands entry.matchList)
    (hd : entry.isDefaultAction = false)
    (hreach : Reaches program code (insertMessage elem actionElem entry act) table ks action) :
    (∀ ms ps, ms.Perm entry.matchList → ps.Perm act.params →
        (installEntry layout code dm (reorder entry act ms ps)).log =
          (installEntry layout code dm entry).log) ↔
      (∀ m ∈ entry.matchList, FieldMatchType.supported m.fieldMatchType = true) ∧
        Interchangeable layout program table ks action
          (insertMessage elem actionElem entry act) := by
  have hself := @installEntry_log layout code dm entry elem actionElem act hc ha hr
  have hmsg := @reorderMsg_log_iff layout program code table ks action _ hb hreach
    (insertMessage_adds elem actionElem act hd)
  constructor
  · intro hlog
    have hstands : ∀ ms, ms.Perm entry.matchList → ¬RejectionStands ms := fun ms hms =>
      not_rejectionStands_of_independent hb hc ha hr hd hreach hms
        (hlog ms act.params hms (List.Perm.refl _))
    refine ⟨supported_of_independent hstands, hmsg.mp fun fs params hf hp => ?_⟩
    obtain ⟨ms, hms, rfl⟩ := exists_perm_filterMap hf
    obtain ⟨ps, hps, rfl⟩ := exists_perm_filterMap hp
    rw [← reorder_log hc ha hms hps (hstands ms hms), hlog ms ps hms hps, hself]
  · rintro ⟨hsup, hint⟩ ms ps hms hps
    have hstands : ¬RejectionStands ms :=
      not_rejectionStands_of_supported fun m hm => hsup m (hms.mem_iff.mp hm)
    rw [reorder_log hc ha hms hps hstands, hself]
    exact hmsg.mpr hint _ _ (hms.filterMap _) (hps.filterMap _)

theorem order_independent_iff (hb : Builds program code) (hd : entry.isDefaultAction = false) :
    OrderIndependent layout code dm entry ↔
      ∀ elem act actionElem, InsertClean dm entry elem → ActionResolves dm entry act actionElem →
        ¬RejectionStands entry.matchList →
        ∀ table ks action,
          Reaches program code (insertMessage elem actionElem entry act) table ks action →
          (∀ m ∈ entry.matchList, FieldMatchType.supported m.fieldMatchType = true) ∧
            Interchangeable layout program table ks action
              (insertMessage elem actionElem entry act) := by
  rw [OrderIndependent, tableInsert_succeeds_iff]
  constructor
  · intro h elem act actionElem hc ha hr table ks action hreach
    have hlog := h ⟨elem, hc, ⟨act, actionElem, ha⟩, hr⟩ act ha.1
    exact (reached_independent_iff hb hc ha hr hd hreach).mp hlog
  · rintro h ⟨elem, hc, ⟨act, actionElem, ha⟩, hr⟩ act' hact
    obtain rfl := TableAction.action.inj (ha.1.symm.trans hact)
    by_cases hex : ∃ table ks action,
        Reaches program code (insertMessage elem actionElem entry act) table ks action
    · obtain ⟨table, ks, action, hreach⟩ := hex
      exact (reached_independent_iff hb hc ha hr hd hreach).mpr
        (h elem act actionElem hc ha hr table ks action hreach)
    · intro ms ps hms hps
      rw [installEntry_log hc ha hr, reorder_unreached hb hex hc ha hms hps]
      by_contra hne
      exact hex (reaches_of_log hb.toEmits (Ne.symm hne))

namespace OrderIndependence

def macsKey : List Hlir.KeyElement := [L2fwd.ethernetField "dstAddr", L2fwd.ethernetField "srcAddr"]

def macsTable : Hlir.Table := { L2fwd.dmacTable with key := some macsKey, keyLengthBytes := 12 }

def macsProgram : Hlir.Program := { tables := [macsTable], metafieldSize := fun _ => 0 }

def macsCode : Code :=
  { reverseBufferSize := 12, tables := [tableCode macsProgram macsTable macsKey] }

def macs : P4Config.Table :=
  { L2fwd.dmac with
    matchFields :=
      [{ id := 1, name := "ethernet.dstAddr", bitwidth := 48 },
       { id := 2, name := "ethernet.srcAddr", bitwidth := 48 }] }

def macsInfo : P4Config.P4Info := { L2fwd.p4info with tables := [macs] }

def insertMacs : TableEntry :=
  { L2fwd.insertForward with
    matchList :=
      [{ fieldId := 1, fieldMatchType := .exact [0, 0, 0, 0, 0, 7] },
       { fieldId := 2, fieldMatchType := .exact [0, 0, 0, 0, 0, 8] }] }

theorem builds_macsCode : Builds macsProgram macsCode where
  generated := rfl
  table_names := by decide
  compiles := by decide
  unshadowed := by decide

-- Two fields with one value, and two parameters with one value.
def mirrorAction : Hlir.ActionObject :=
  { name := "mirror"
    annotationName := cStr ".mirror"
    parameters := [{ name := "port", size := 9 }, { name := "copy", size := 9 }] }

def mirrorTable : Hlir.Table := { macsTable with actions := [mirrorAction] }

def mirrorProgram : Hlir.Program := { tables := [mirrorTable], metafieldSize := fun _ => 0 }

def mirrorCode : Code :=
  { reverseBufferSize := 12, tables := [tableCode mirrorProgram mirrorTable macsKey] }

def mirror : P4Config.Action :=
  { preamble := { id := 16800002, name := "mirror" }
    params := [{ id := 1, name := "port", bitwidth := 9 }, { id := 2, name := "copy", bitwidth := 9 }] }

def mirrorInfo : P4Config.P4Info := { macsInfo with actions := [mirror] }

def mirrorPorts : P4v1.Action :=
  { actionId := 16800002
    params := [{ paramId := 1, value := [0, 3] }, { paramId := 2, value := [0, 3] }] }

def insertMirror : TableEntry :=
  { insertMacs with
    matchList :=
      [{ fieldId := 1, fieldMatchType := .exact [0, 0, 0, 0, 0, 7] },
       { fieldId := 2, fieldMatchType := .exact [0, 0, 0, 0, 0, 7] }]
    action := .action mirrorPorts }

theorem builds_mirrorCode : Builds mirrorProgram mirrorCode where
  generated := rfl
  table_names := by decide
  compiles := by decide
  unshadowed := by decide

theorem macs_resolves : getElement (L2fwd.serverAfter mirrorInfo).dm.idMap
    insertMirror.tableId.toUInt64 = some (FitDecl.element ⟨tableDecl macs, by decide⟩) := by decide

theorem mirror_resolves : getElement (L2fwd.serverAfter mirrorInfo).dm.idMap
    mirrorPorts.actionId.toUInt64 = some (FitDecl.element ⟨actionDecl mirror, by decide⟩) := by decide

def mirrorMsg : CtrlMsg :=
  { type := .addTableEntry
    tableName := cStr "dmac"
    fieldMatches :=
      [.exact (cStr "ethernet.dstAddr") 48 [0, 0, 0, 0, 0, 7],
       .exact (cStr "ethernet.srcAddr") 48 [0, 0, 0, 0, 0, 7]]
    actionName := cStr "mirror"
    actionParams :=
      [{ name := cStr "port", length := 9, bitmap := [0, 3] },
       { name := cStr "copy", length := 9, bitmap := [0, 3] }] }

theorem order_independent_insertMirror :
    OrderIndependent packedLayout mirrorCode (L2fwd.serverAfter mirrorInfo).dm insertMirror := by
  refine (order_independent_iff builds_mirrorCode rfl).mpr
    fun elem act actionElem hc ha _ table ks action _ => ⟨by decide, ?_⟩
  obtain rfl := TableAction.action.inj ha.1
  obtain rfl := Option.some.inj (hc.table.symm.trans macs_resolves)
  obtain rfl := Option.some.inj (ha.2.symm.trans mirror_resolves)
  have hmsg : insertMessage (FitDecl.element ⟨tableDecl macs, by decide⟩)
      (FitDecl.element ⟨actionDecl mirror, by decide⟩) insertMirror mirrorPorts = mirrorMsg := by
    decide
  rw [hmsg]
  exact
    { key := fun o s _ => by cases s.2.1.matchType <;> simp [Agree, mirrorMsg, castBitmap, packedLayout]
      depth := fun _ => Or.inr (Or.inr (by simp [Agree, mirrorMsg, recordDepth, packedLayout]))
      params := fun q _ => by simp [Agree, mirrorMsg] }

theorem swapped_fields_differ :
    Reachable 1 (L2fwd.serverAfter macsInfo) (some macsInfo) ∧ Builds macsProgram macsCode ∧
      insertMacs.matchList.map FieldMatch.fieldId = macs.matchFields.map P4Config.FieldDecl.id ∧
      L2fwd.forwardPort.params.map Param.paramId =
        L2fwd.forward.params.map P4Config.FieldDecl.id ∧
      ¬OrderIndependent packedLayout macsCode (L2fwd.serverAfter macsInfo).dm insertMacs := by
  refine ⟨L2fwd.reachable_of_served rfl, builds_macsCode, rfl, rfl, fun h => ?_⟩
  have heq := h ⟨_, Status.success, rfl, rfl⟩ L2fwd.forwardPort rfl insertMacs.matchList.reverse
    L2fwd.forwardPort.params (List.reverse_perm _) (List.Perm.refl _)
  have hne : (installEntry packedLayout macsCode (L2fwd.serverAfter macsInfo).dm
      (reorder insertMacs L2fwd.forwardPort insertMacs.matchList.reverse
        L2fwd.forwardPort.params)).log ≠
      (installEntry packedLayout macsCode (L2fwd.serverAfter macsInfo).dm insertMacs).log := by
    decide
  exact hne heq

end OrderIndependence

end Switch
