import T4P4SRuntime.Switch.System

namespace Switch

open Device Codegen Messages Exec IdMap P4v1 Session

-- The tables that the `*_promote` functions fill: `S` is what they hold.
structure Tables (S : Type) where
  promote : S → Promote → S
  exactEntry : S → CString → Buffer → Option ActionValue
  defaultEntry : S → CString → Option ActionValue

-- What is documented of them: an exact entry stays until one with the same key is added.
structure Tables.Lawful {S : Type} (tables : Tables S) : Prop where
  exact_same : ∀ s table key value,
    tables.exactEntry (tables.promote s (.exactAdd table key value)) table key = some value
  exact_other : ∀ s promote table key, (∀ value, promote ≠ .exactAdd table key value) →
    tables.exactEntry (tables.promote s promote) table key = tables.exactEntry s table key
  default_same : ∀ s table value,
    tables.defaultEntry (tables.promote s (.setdefault table value)) table = some value
  default_other : ∀ s promote table, (∀ value, promote ≠ .setdefault table value) →
    tables.defaultEntry (tables.promote s promote) table = tables.defaultEntry s table

-- What a controller has to know of the exact tables: the action last given for the field values.
structure Forwarding where
  entry : CString → List Bytes → Option ActionValue
  default : CString → Option ActionValue

inductive Intent where
  | exact (table : CString) (values : List Bytes) (value : ActionValue)
  | default (table : CString) (value : ActionValue)
  | route

def Forwarding.tell (forwarding : Forwarding) : Intent → Forwarding
  | .exact table values value =>
      { forwarding with
        entry := fun t vs =>
          if t = table ∧ vs = values then some value else forwarding.entry t vs }
  | .default table value =>
      { forwarding with
        default := fun t => if t = table then some value else forwarding.default t }
  | .route => forwarding

def Forwarding.tellAll (forwarding : Forwarding) (intents : List Intent) : Forwarding :=
  intents.foldl Forwarding.tell forwarding

def keyOf (values : List Bytes) : Buffer := values.flatten.map some

def Forwarding.held {S : Type} (tables : Tables S) (s : S) : Forwarding :=
  { entry := fun table values => tables.exactEntry s table (keyOf values)
    default := tables.defaultEntry s }

inductive Intends (program : Hlir.Program) (p4info : P4Config.P4Info) :
    TableEntry → Promote → Intent → Prop where
  | exact {p4table : P4Config.Table} {p4action : P4Config.Action} {table : Hlir.Table}
      {ks : List Hlir.KeyElement} {action : Hlir.ActionObject} {entry : TableEntry}
      {act : P4v1.Action} {values : List Bytes} :
      Offered p4info p4table p4action table ks action → ExactTable program table ks →
      CompleteInsert p4table p4action ks action entry act values →
      Intends program p4info entry (.exactAdd table.name (keyOf values) (givenValue action act))
        (.exact table.name values (givenValue action act))
  | lpm {p4table : P4Config.Table} {p4action : P4Config.Action} {table : Hlir.Table}
      {ks : List Hlir.KeyElement} {action : Hlir.ActionObject} {entry : TableEntry}
      {act : P4v1.Action} {values : List Bytes} {position : Nat} {field : Hlir.KeyElement}
      {prefixLen : Int32} :
      Offered p4info p4table p4action table ks action →
      LpmTable program table ks position field →
      RouteInsert p4table p4action ks action entry act values prefixLen →
      Intends program p4info entry (routePromote table ks action act values prefixLen) .route
  | default {p4table : P4Config.Table} {p4action : P4Config.Action} {table : Hlir.Table}
      {ks : List Hlir.KeyElement} {action : Hlir.ActionObject} {entry : TableEntry}
      {act : P4v1.Action} :
      Offered p4info p4table p4action table ks action → (table, ks) ∈ tablesWithKeys program →
      DefaultInsert p4table p4action action entry act →
      Intends program p4info entry (.setdefault table.name (givenValue action act))
        (.default table.name (givenValue action act))

inductive Tells (program : Hlir.Program) (p4info : P4Config.P4Info) :
    List Update → List Promote → List Intent → Prop where
  | nil : Tells program p4info [] [] []
  | rule {entry : TableEntry} {promote : Promote} {intent : Intent} {updates : List Update}
      {promotes : List Promote} {intents : List Intent} :
      Intends program p4info entry promote intent → Tells program p4info updates promotes intents →
      Tells program p4info ({ type := .insert, entity := .tableEntry entry } :: updates)
        (promote :: promotes) (intent :: intents)
  | nothing {update : Update} {updates : List Update} {promotes : List Promote}
      {intents : List Intent} :
      (∀ entry, update.entity = .tableEntry entry → update.type ≠ .insert) →
      Tells program p4info updates promotes intents →
      Tells program p4info (update :: updates) promotes intents

inductive EventTells (program : Hlir.Program) (p4info : P4Config.P4Info) :
    Event → List Intent → Prop where
  | batch {request : WriteRequest} {promotes : List Promote} {intents : List Intent} :
      request.atomicity = .continueOnError →
      Tells program p4info request.updates promotes intents →
      EventTells program p4info (.rpc (.write request)) intents
  | refused {request : WriteRequest} : request.atomicity ≠ .continueOnError →
      EventTells program p4info (.rpc (.write request)) []
  | other {event : Event} : (∀ request, event ≠ .rpc (.write request)) →
      EventTells program p4info event []

-- The tables after the ticks of a run, the latest one first.
def tablesAfter {S : Type} (tables : Tables S) (s : S) (ticks : List Tick) : S :=
  Replay.view s (fun s tick => tick.promotes.foldl tables.promote s) ticks

def told (forwarding : Forwarding) (intents : List (List Intent)) : Forwarding :=
  Replay.view forwarding Forwarding.tellAll intents

structure Agrees {S : Type} (tables : Tables S) (program : Hlir.Program) (s : S)
    (forwarding : Forwarding) : Prop where
  entry : ∀ table ks values, ExactTable program table ks →
    values.map List.length = ks.map getKeyByteWidth →
      tables.exactEntry s table.name (keyOf values) = forwarding.entry table.name values
  default : ∀ table, tables.defaultEntry s table = forwarding.default table

inductive Carried (program : Hlir.Program) : Promote → Intent → Prop where
  | exact {table : Hlir.Table} {ks : List Hlir.KeyElement} {values : List Bytes}
      {value : ActionValue} : ExactTable program table ks →
      values.map List.length = ks.map getKeyByteWidth →
      Carried program (.exactAdd table.name (keyOf values) value) (.exact table.name values value)
  | default {table : CString} {value : ActionValue} :
      Carried program (.setdefault table value) (.default table value)
  | route {table : CString} {key : Buffer} {depth : UInt8} {value : ActionValue} :
      Carried program (.lpmAdd table key depth value) .route

variable {S : Type} {tables : Tables S} {s : S} {forwarding : Forwarding} {layout : RecordLayout}
  {program : Hlir.Program} {code : Code} {deviceId : UInt64} {p4info : P4Config.P4Info}
  {entry : TableEntry} {promote : Promote} {intent : Intent} {updates : List Update}
  {promotes : List Promote} {intents : List Intent} {event : Event} {ticks later earlier : List Tick}
  {pushed : Tick} {state : State} {table table' : Hlir.Table} {ks ks' : List Hlir.KeyElement}
  {values values' : List Bytes}

theorem Intends.rule (h : Intends program p4info entry promote intent) :
    Rule program p4info entry promote := by
  cases h with
  | exact ho ht hi => exact .exact ho ht hi
  | lpm ho ht hi => exact .lpm ho ht hi
  | default ho hm hi => exact .default ho hm hi

theorem Intends.carried (h : Intends program p4info entry promote intent) :
    Carried program promote intent := by
  cases h with
  | exact _ ht hi => exact .exact ht hi.widths
  | lpm => exact .route
  | default => exact .default

theorem Tells.asksAll (h : Tells program p4info updates promotes intents) :
    AsksAll program p4info updates promotes := by
  induction h with
  | nil => exact .nil
  | rule hi _ ih => exact .cons (.rule hi.rule) ih
  | nothing hq _ ih => exact .cons (.nothing hq) ih

theorem Tells.carried (h : Tells program p4info updates promotes intents) :
    List.Forall₂ (Carried program) promotes intents := by
  induction h with
  | nil => exact .nil
  | rule hi _ ih => exact .cons hi.carried ih
  | nothing _ _ ih => exact ih

theorem EventTells.commands (h : EventTells program p4info event intents) :
    ∃ promotes, Commands program p4info event promotes ∧
      List.Forall₂ (Carried program) promotes intents := by
  cases h with
  | batch ha ht => exact ⟨_, .batch ha ht.asksAll, ht.carried⟩
  | refused ha => exact ⟨[], .refused ha, .nil⟩
  | other hw => exact ⟨[], .other hw, .nil⟩

theorem ExactTable.same (hb : Builds program code) (h : ExactTable program table ks)
    (h' : ExactTable program table' ks') (hname : table.name = table'.name) :
    table = table' ∧ ks = ks' := by
  obtain rfl : table = table' := List.inj_on_of_nodup_map hb.table_names h.mem h'.mem hname
  have hkey := h.key
  rw [h'.key] at hkey
  exact ⟨rfl, (Option.some.inj hkey).symm⟩

theorem keyOf_inj (h : values.map List.length = ks.map getKeyByteWidth)
    (h' : values'.map List.length = ks.map getKeyByteWidth) (he : keyOf values = keyOf values') :
    values = values' := by
  have hflat : values.flatten = values'.flatten :=
    List.map_injective_iff.mpr (Option.some_injective _) he
  exact List.eq_iff_flatten_eq.mpr ⟨hflat, h.trans h'.symm⟩

theorem Agrees.carry (h : Agrees tables program s forwarding) (hl : tables.Lawful)
    (hb : Builds program code) (hc : Carried program promote intent) :
    Agrees tables program (tables.promote s promote) (forwarding.tell intent) := by
  cases hc with
  | @exact table ks values value ht hw =>
      refine ⟨fun table' ks' values' ht' hw' => ?_, fun table' => ?_⟩
      · rw [Forwarding.tell]
        dsimp only
        split_ifs with hsame
        · rw [hsame.1, hsame.2, hl.exact_same]
        · rw [hl.exact_other, h.entry table' ks' values' ht' hw']
          intro value' he
          obtain ⟨hname, hkey, -⟩ := Promote.exactAdd.inj he
          obtain ⟨rfl, rfl⟩ := ht.same hb ht' hname
          exact hsame ⟨rfl, keyOf_inj hw' hw hkey.symm⟩
      · rw [hl.default_other _ _ _ (by simp), h.default]
        rfl
  | @default name value =>
      refine ⟨fun table' ks' values' ht' hw' => ?_, fun table' => ?_⟩
      · rw [hl.exact_other _ _ _ _ (by simp), h.entry table' ks' values' ht' hw']
        rfl
      · rw [Forwarding.tell]
        dsimp only
        split_ifs with hsame
        · rw [hsame, hl.default_same]
        · rw [hl.default_other, h.default]
          intro value' he
          exact hsame (Promote.setdefault.inj he).1.symm
  | route =>
      refine ⟨fun table' ks' values' ht' hw' => ?_, fun table' => ?_⟩
      · rw [hl.exact_other _ _ _ _ (by simp), h.entry table' ks' values' ht' hw']
        rfl
      · rw [hl.default_other _ _ _ (by simp), h.default]
        rfl

theorem Agrees.carryAll (h : Agrees tables program s forwarding) (hl : tables.Lawful)
    (hb : Builds program code) (hc : List.Forall₂ (Carried program) promotes intents) :
    Agrees tables program (promotes.foldl tables.promote s) (forwarding.tellAll intents) := by
  induction hc generalizing s forwarding with
  | nil => exact h
  | cons hone _ ih => exact ih (h.carry hl hb hone)

theorem agrees_after (hl : tables.Lawful) (hb : Builds program code)
    (h : Agrees tables program s forwarding) {ends : List (List Intent)}
    (hc : List.Forall₂ (List.Forall₂ (Carried program)) (ticks.map Tick.promotes) ends) :
    Agrees tables program (tablesAfter tables s ticks) (told forwarding ends) := by
  induction ticks generalizing ends with
  | nil =>
      cases hc
      exact h
  | cons tick ticks ih =>
      cases hc with
      | cons hone hrest => exact (ih hrest).carryAll hl hb hone

theorem tablesAfter_silent (h : ticks.flatMap Tick.promotes = []) :
    tablesAfter tables s ticks = s := by
  induction ticks with
  | nil => rfl
  | cons tick ticks ih =>
      obtain ⟨hone, hrest⟩ := List.append_eq_nil_iff.mp h
      rw [tablesAfter, Replay.view_cons, ← tablesAfter, ih hrest, hone]
      rfl

theorem tablesAfter_append (later earlier : List Tick) :
    tablesAfter tables s (later ++ earlier) =
      tablesAfter tables (tablesAfter tables s earlier) later := List.foldr_append

theorem commands_of_told {events : List Event} {ends : List (List Intent)}
    (h : List.Forall₂ (EventTells program p4info) events ends) :
    ∃ asked, List.Forall₂ (Commands program p4info) events asked ∧
      List.Forall₂ (List.Forall₂ (Carried program)) asked ends := by
  induction h with
  | nil => exact ⟨[], .nil, .nil⟩
  | cons hone _ ih =>
      obtain ⟨promotes, hcommands, hcarried⟩ := hone.commands
      obtain ⟨asked, hrest, hall⟩ := ih
      exact ⟨promotes :: asked, .cons hcommands hrest, .cons hcarried hall⟩

theorem agrees_held (tables : Tables S) (program : Hlir.Program) (s : S) :
    Agrees tables program s (Forwarding.held tables s) :=
  ⟨fun _ _ _ _ _ => rfl, fun _ => rfl⟩

theorem tables_refine_forwarding {push : P4v1.SetForwardingPipelineConfigRequest} {disk : Disk}
    {ends : List (List Intent)} (ht : tables.Lawful) (s : S) (hl : layout.Lawful)
    (hb : Builds program code)
    (hrun : Operates layout code deviceId (later ++ pushed :: earlier) state)
    (hbefore : ¬ConfigHandled (earlier.map Tick.moment))
    (hpushed : pushed.moment.event = .rpc (.setForwardingPipelineConfig push disk))
    (ha : ConfigAction.applied push.action = true) (hw : WellDeclared push.config.p4info)
    (hadd : ∀ r ∈ (addElements initMap (addCalls push.config.p4info)).1, r ≠ none)
    (hends : List.Forall₂ (EventTells program push.config.p4info)
      (later.map (fun tick => tick.moment.event)) ends) :
    Agrees tables program (tablesAfter tables s (later ++ pushed :: earlier))
      (told (Forwarding.held tables s) ends) := by
  obtain ⟨hquiet, first, hp, hlater⟩ := programmed_at_push hrun hbefore hpushed ha hw hadd
  obtain ⟨asked, hcommands, hcarried⟩ := commands_of_told hends
  rw [tablesAfter_append, tablesAfter_silent hquiet]
  rw [← commands_carried_out hl hb hlater hp hcommands] at hcarried
  exact agrees_after ht hb (agrees_held tables program s) hcarried

namespace Forwarding

def added (table : CString) (key : Buffer) : Promote → Option ActionValue
  | .exactAdd t k value => if t = table ∧ k = key then some value else none
  | .setdefault _ _ | .lpmAdd _ _ _ _ | .ternaryAdd _ _ _ _ => none

def setdefault (table : CString) : Promote → Option ActionValue
  | .setdefault t value => if t = table then some value else none
  | .exactAdd _ _ _ | .lpmAdd _ _ _ _ | .ternaryAdd _ _ _ _ => none

-- Tables that keep what they were told, the latest first.
def journal : Tables (List Promote) :=
  { promote := fun s promote => promote :: s
    exactEntry := fun s table key => s.findSome? (added table key)
    defaultEntry := fun s table => s.findSome? (setdefault table) }

theorem journal_lawful : journal.Lawful where
  exact_same := fun s table key value => by simp [journal, added]
  exact_other := fun s promote table key h => by
    have hnone : added table key promote = none := by
      cases promote with
      | exactAdd t k value =>
          refine if_neg ?_
          rintro ⟨rfl, rfl⟩
          exact h value rfl
      | setdefault | lpmAdd | ternaryAdd => rfl
    simp [journal, hnone]
  default_same := fun s table value => by simp [journal, setdefault]
  default_other := fun s promote table h => by
    have hnone : setdefault table promote = none := by
      cases promote with
      | setdefault t value =>
          refine if_neg ?_
          rintro rfl
          exact h value rfl
      | exactAdd | lpmAdd | ternaryAdd => rfl
    simp [journal, hnone]

def forwardTo : ActionValue := givenValue L2fwd.forwardAction L2fwd.forwardPort

def insertIntents : List Intent :=
  [.exact (cStr "dmac") [[0, 0, 0, 0, 0, 7]] forwardTo, .default (cStr "dmac") forwardTo]

theorem tells_insertRequest :
    Tells L2fwd.program L2fwd.p4info System.insertRequest.updates System.insertPromotes
      insertIntents :=
  .rule
    (.exact System.offered_forward ExactInstall.dmac_exact ExactInstall.insertForward_complete)
    (.rule
      (.default System.offered_forward (mem_tablesWithKeys.mpr ⟨by decide, rfl⟩)
        Rules.defaultForward_default)
      .nil)

theorem dmac_refines_forwarding :
    Agrees journal L2fwd.program (tablesAfter journal [] ([System.insertTick] ++ System.pushTick :: []))
      (told (held journal []) [insertIntents]) :=
  tables_refine_forwarding journal_lawful [] packedLayout_lawful L2fwd.builds_code
    System.operates_inserted (fun ⟨_, hm, _⟩ => absurd hm List.not_mem_nil) rfl rfl
    System.wellDeclared_l2fwd System.slots_l2fwd (.cons (.batch rfl tells_insertRequest) .nil)

end Forwarding

end Switch
