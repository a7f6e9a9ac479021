import T4P4SRuntime.Switch.LpmInstall

namespace Switch

open Device Codegen Messages Exec IdMap P4v1

variable {layout : RecordLayout} {program : Hlir.Program} {code : Code} {table : Hlir.Table}
  {ks : List Hlir.KeyElement} {action : Hlir.ActionObject} {p4info : P4Config.P4Info}
  {p4table : P4Config.Table} {p4action : P4Config.Action} {dm : DeviceMgr} {entry : TableEntry}
  {act : P4v1.Action} {values : List Bytes} {position : Nat} {field : Hlir.KeyElement}
  {prefixLen : Int32} {elem actionElem : Element} {promote : Promote}

structure DefaultInsert (p4table : P4Config.Table) (p4action : P4Config.Action)
    (action : Hlir.ActionObject) (entry : TableEntry) (act : P4v1.Action) : Prop where
  is_default : entry.isDefaultAction = true
  table_id : entry.tableId = p4table.preamble.id
  direct : entry.action = .action act
  complete : CompleteAction p4action action act
  named : ∀ m ∈ entry.matchList, FieldMatchType.supported m.fieldMatchType = true ∧
    m.fieldId ∈ p4table.matchFields.map P4Config.FieldDecl.id

structure Offered (p4info : P4Config.P4Info) (p4table : P4Config.Table)
    (p4action : P4Config.Action) (table : Hlir.Table) (ks : List Hlir.KeyElement)
    (action : Hlir.ActionObject) : Prop where
  table_mem : p4table ∈ p4info.tables
  action_mem : p4action ∈ p4info.actions
  describes : Describes p4table p4action table ks action
  action_names : (table.actions.map getActionNameStr).Nodup

-- What a controller that knows the program asks of the tables with an entry.
inductive Rule (program : Hlir.Program) (p4info : P4Config.P4Info) : TableEntry → Promote → Prop where
  | exact {p4table : P4Config.Table} {p4action : P4Config.Action} {table : Hlir.Table}
      {ks : List Hlir.KeyElement} {action : Hlir.ActionObject} {entry : TableEntry}
      {act : P4v1.Action} {values : List Bytes} :
      Offered p4info p4table p4action table ks action → ExactTable program table ks →
      CompleteInsert p4table p4action ks action entry act values →
      Rule program p4info entry
        (.exactAdd table.name (values.flatten.map some) (givenValue action act))
  | lpm {p4table : P4Config.Table} {p4action : P4Config.Action} {table : Hlir.Table}
      {ks : List Hlir.KeyElement} {action : Hlir.ActionObject} {entry : TableEntry}
      {act : P4v1.Action} {values : List Bytes} {position : Nat} {field : Hlir.KeyElement}
      {prefixLen : Int32} :
      Offered p4info p4table p4action table ks action →
      LpmTable program table ks position field →
      RouteInsert p4table p4action ks action entry act values prefixLen →
      Rule program p4info entry (routePromote table ks action act values prefixLen)
  | default {p4table : P4Config.Table} {p4action : P4Config.Action} {table : Hlir.Table}
      {ks : List Hlir.KeyElement} {action : Hlir.ActionObject} {entry : TableEntry}
      {act : P4v1.Action} :
      Offered p4info p4table p4action table ks action → (table, ks) ∈ tablesWithKeys program →
      DefaultInsert p4table p4action action entry act →
      Rule program p4info entry (.setdefault table.name (givenValue action act))

theorem DefaultInsert.fields_resolve (h : DefaultInsert p4table p4action action entry act)
    (hr : Resolved elem (tableDecl p4table)) : FieldsResolve elem entry.matchList := by
  intro m hm _
  obtain ⟨arg, harg⟩ := argument_of_declared hr (h.named m hm).2
  simp [harg]

theorem DefaultInsert.reaches (h : DefaultInsert p4table p4action action entry act)
    (hm : (table, ks) ∈ tablesWithKeys program)
    (hnames : (table.actions.map getActionNameStr).Nodup)
    (hd : Describes p4table p4action table ks action) (hre : Resolved elem (tableDecl p4table))
    (hra : Resolved actionElem (actionDecl p4action)) :
    Reaches program code (insertMessage elem actionElem entry act) table ks action where
  mem := hm
  table_name := hre.name.trans hd.table_name
  selects := by
    have hname : actionElem.value = getActionNameStr action := hra.name.trans hd.action_name
    rw [insertMessage, hname]
    exact FirstBinding.find?_of_nodup hnames hd.action_mem
  params := h.complete.params_in_range h.table_id h.direct elem hra
  entry := fun hadd => by simp [insertMessage, msgType, h.is_default] at hadd

theorem DefaultInsert.received (h : DefaultInsert p4table p4action action entry act)
    (hb : Emits program code) (hm : (table, ks) ∈ tablesWithKeys program)
    (hnames : (table.actions.map getActionNameStr).Nodup)
    (hd : Describes p4table p4action table ks action) (hre : Resolved elem (tableDecl p4table))
    (hra : Resolved actionElem (actionDecl p4action)) :
    recvFromController layout code (insertMessage elem actionElem entry act) =
      ⟨[.setdefault table.name (givenValue action act)], .ok ()⟩ := by
  have htype : (insertMessage elem actionElem entry act).type = .setDefaultAction := by
    simp [insertMessage, msgType, h.is_default]
  obtain ⟨promote, he, hi⟩ := @recv_of_reaches layout _ _ _ _ _ _ hb
    (h.reaches hm hnames hd hre hra) (by simp [htype])
  rw [htype, h.complete.value h.table_id h.direct elem hra] at hi
  cases hi
  exact he

theorem DefaultInsert.installs (h : DefaultInsert p4table p4action action entry act)
    (hb : Emits program code) (hm : (table, ks) ∈ tablesWithKeys program)
    (hnames : (table.actions.map getActionNameStr).Nodup)
    (hd : Describes p4table p4action table ks action) (hr : ResolvesTo dm p4table p4action) :
    installEntry layout code dm entry =
      ⟨[.setdefault table.name (givenValue action act)], .ok Status.success⟩ := by
  obtain ⟨elem, he, hre⟩ := hr.table
  obtain ⟨actionElem, ha, hra⟩ := hr.action
  obtain ⟨hact, hparams⟩ := h.complete.resolves h.table_id h.direct ha hra
  have hclean := insertClean_of_fields h.table_id he (h.fields_resolve hre) hact hparams
  have hstands := not_rejectionStands_of_supported fun m hm => (h.named m hm).1
  rw [installEntry_of_action hclean hact hstands, h.received hb hm hnames hd hre hra]

theorem CompleteInsert.installs (h : CompleteInsert p4table p4action ks action entry act values)
    (hl : layout.Lawful) (hb : Builds program code) (ht : ExactTable program table ks)
    (hd : Describes p4table p4action table ks action) (hr : ResolvesTo dm p4table p4action) :
    installEntry layout code dm entry =
      ⟨[.exactAdd table.name (values.flatten.map some) (givenValue action act)],
        .ok Status.success⟩ := by
  obtain ⟨elem, he, hre⟩ := hr.table
  obtain ⟨actionElem, ha, hra⟩ := hr.action
  obtain ⟨hclean, hact⟩ := h.clean he hre ha hra
  rw [installEntry_of_action hclean hact h.not_rejected, h.received hl hb ht hd hre hra]

def ResolvesAllOf (dm : DeviceMgr) (p4info : P4Config.P4Info) : Prop :=
  ∀ d ∈ declarations p4info, ∃ elem, getElement dm.idMap d.id.toUInt64 = some elem ∧
    Resolved elem d

theorem ResolvesAllOf.offered (h : ResolvesAllOf dm p4info)
    (ho : Offered p4info p4table p4action table ks action) : ResolvesTo dm p4table p4action where
  table := h (tableDecl p4table) (by
    rw [declarations, List.append_assoc]
    exact List.mem_append_left _ (List.mem_map_of_mem ho.table_mem))
  action := h (actionDecl p4action) (by
    rw [declarations]
    exact List.mem_append_left _ (List.mem_append_right _ (List.mem_map_of_mem ho.action_mem)))

theorem Rule.installs (h : Rule program p4info entry promote) (hl : layout.Lawful)
    (hb : Builds program code) (hr : ResolvesAllOf dm p4info) :
    installEntry layout code dm entry = ⟨[promote], .ok Status.success⟩ := by
  cases h with
  | exact ho ht hi => exact hi.installs hl hb ht ho.describes (hr.offered ho)
  | lpm ho ht hi => exact hi.installs hl hb ht ho.action_names ho.describes (hr.offered ho)
  | default ho hm hi => exact hi.installs hb.toEmits hm ho.action_names ho.describes (hr.offered ho)

theorem default_matches_dropped (hb : Emits program code)
    (hm : (table, ks) ∈ tablesWithKeys program)
    (hnames : (table.actions.map getActionNameStr).Nodup)
    (hd : Describes p4table p4action table ks action) (hr : ResolvesTo dm p4table p4action)
    (h : DefaultInsert p4table p4action action entry act) :
    installEntry layout code dm entry =
        ⟨[.setdefault table.name (givenValue action act)], .ok Status.success⟩ ∧
      installEntry layout code dm { entry with matchList := [] } =
        installEntry layout code dm entry := by
  have hbare : DefaultInsert p4table p4action action { entry with matchList := [] } act :=
    { is_default := h.is_default
      table_id := h.table_id
      direct := h.direct
      complete := h.complete
      named := fun m hm => absurd hm List.not_mem_nil }
  have hone : installEntry layout code dm entry = _ := h.installs hb hm hnames hd hr
  exact ⟨hone, (hbare.installs hb hm hnames hd hr).trans hone.symm⟩

namespace Rules

-- A default entry that carries a match beside its action.
def defaultForward : TableEntry := { L2fwd.insertForward with isDefaultAction := true }

theorem defaultForward_default :
    DefaultInsert L2fwd.dmac L2fwd.forward L2fwd.forwardAction defaultForward L2fwd.forwardPort where
  is_default := rfl
  table_id := rfl
  direct := rfl
  complete :=
    { action_id := rfl
      params := by decide
      sizes := by decide
      unswapped := by decide }
  named := by decide

theorem default_forward_dropped :
    installEntry packedLayout L2fwd.code L2fwd.server.dm defaultForward =
        ⟨[.setdefault (cStr "dmac") (givenValue L2fwd.forwardAction L2fwd.forwardPort)],
          .ok Status.success⟩ ∧
      installEntry packedLayout L2fwd.code L2fwd.server.dm { defaultForward with matchList := [] } =
        installEntry packedLayout L2fwd.code L2fwd.server.dm defaultForward :=
  default_matches_dropped L2fwd.builds_code.toEmits (mem_tablesWithKeys.mpr ⟨by decide, rfl⟩) (by decide)
    ExactInstall.describes_forward ExactInstall.resolves_forward defaultForward_default

end Rules

end Switch
