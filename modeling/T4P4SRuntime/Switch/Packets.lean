import T4P4SRuntime.Switch.Forwarding
import T4P4SRuntime.Switch.Promotes

-- `l2fwd-gen.p4`, with its headers as the bytes they have on the wire.
namespace L2fwdGen

open Codegen

structure Ethernet where
  dstAddr : Bytes
  srcAddr : Bytes
  etherType : Bytes
  dst_size : dstAddr.length = 6
  src_size : srcAddr.length = 6
  type_size : etherType.length = 2

structure StandardMetadata where
  egressPort : BitVec 9
  deriving DecidableEq, Repr

inductive PacketFault where
  | packetTooShort
  | unknownAction
  deriving DecidableEq, Repr

def extract (packet : Bytes) : Except PacketFault (Ethernet × Bytes) :=
  if h : 14 ≤ packet.length then
    pure
      ({ dstAddr := packet.take 6
         srcAddr := (packet.drop 6).take 6
         etherType := (packet.drop 12).take 2
         dst_size := by rw [List.length_take]; omega
         src_size := by rw [List.length_take, List.length_drop]; omega
         type_size := by rw [List.length_take, List.length_drop]; omega },
        packet.drop 14)
  else throw .packetTooShort

def parserImpl (packet : Bytes) : Except PacketFault (Ethernet × Bytes) := extract packet

def deparserImpl (ethernet : Ethernet) : Bytes :=
  ethernet.dstAddr ++ ethernet.srcAddr ++ ethernet.etherType

-- An action with its parameters as they stand in the `struct dmac_action` of an entry.
inductive Action where
  | forward (port : Buffer)
  | bcast
  | noAction
  deriving DecidableEq

-- What the control plane has put in the table `dmac`, by the destination address.
structure Dmac where
  entry : Bytes → Option ActionValue
  default : Option ActionValue

def actionOf (value : ActionValue) : Except PacketFault Action :=
  if value.actionId = "forward" then
    match value.params with
    | [(_, port)] => if port.length = 2 then pure (.forward port) else throw .unknownAction
    | [] | _ :: _ :: _ => throw .unknownAction
  else if value.actionId = "bcast" then pure .bcast
  else if value.actionId = "NoAction_0" then pure .noAction
  else throw .unknownAction

-- How the data plane reads a `bit<9>` from its two bytes is a parameter.
def runAction (readPort : Buffer → BitVec 9) (metadata : StandardMetadata) :
    Action → StandardMetadata
  | .forward port => { metadata with egressPort := readPort port }
  | .bcast => { metadata with egressPort := 100 }
  | .noAction => metadata

def ingress (readPort : Buffer → BitVec 9) (dmac : Dmac) (ethernet : Ethernet)
    (metadata : StandardMetadata) : Except PacketFault StandardMetadata :=
  match (dmac.entry ethernet.dstAddr).or dmac.default with
  | none => pure metadata
  | some value => do
      let action ← actionOf value
      pure (runAction readPort metadata action)

def v1Switch (readPort : Buffer → BitVec 9) (dmac : Dmac) (packet : Bytes)
    (metadata : StandardMetadata) : Except PacketFault (Bytes × StandardMetadata) := do
  let (ethernet, payload) ← parserImpl packet
  let metadata ← ingress readPort dmac ethernet metadata
  pure (deparserImpl ethernet ++ payload, metadata)

variable {packet : Bytes} {dmac dmac' : Dmac} {readPort : Buffer → BitVec 9}
  {metadata : StandardMetadata} {value : ActionValue}

theorem extract_short (h : packet.length < 14) : extract packet = .error .packetTooShort := by
  rw [extract, dif_neg (by omega)]
  rfl

theorem extract_long (h : 14 ≤ packet.length) : ∃ ethernet payload,
    extract packet = .ok (ethernet, payload) ∧ deparserImpl ethernet ++ payload = packet ∧
      ethernet.dstAddr = packet.take 6 := by
  refine ⟨_, _, by rw [extract, dif_pos h]; rfl, ?_, rfl⟩
  rw [deparserImpl]
  dsimp only
  have hmac : packet.take 6 ++ (packet.drop 6).take 6 = packet.take 12 := List.take_add.symm
  have hheader : packet.take 12 ++ (packet.drop 12).take 2 = packet.take 14 := List.take_add.symm
  rw [hmac, hheader, List.take_append_drop]

theorem ingress_congr (hentry : ∀ dst, dst.length = 6 → dmac.entry dst = dmac'.entry dst)
    (hdefault : dmac.default = dmac'.default) (ethernet : Ethernet) :
    ingress readPort dmac ethernet metadata = ingress readPort dmac' ethernet metadata := by
  rw [ingress, hentry _ ethernet.dst_size, hdefault]
  rfl

theorem v1Switch_congr (hentry : ∀ dst, dst.length = 6 → dmac.entry dst = dmac'.entry dst)
    (hdefault : dmac.default = dmac'.default) :
    v1Switch readPort dmac packet metadata = v1Switch readPort dmac' packet metadata := by
  simp only [v1Switch, ingress_congr hentry hdefault]

theorem v1Switch_short (h : packet.length < 14) :
    v1Switch readPort dmac packet metadata = .error .packetTooShort := by
  rw [v1Switch, parserImpl, extract_short h]
  rfl

theorem v1Switch_long (h : 14 ≤ packet.length)
    (hentry : ∀ dst value, dmac.entry dst = some value → ∃ action, actionOf value = .ok action)
    (hdefault : ∀ value, dmac.default = some value → ∃ action, actionOf value = .ok action) :
    ∃ metadata', v1Switch readPort dmac packet metadata = .ok (packet, metadata') := by
  obtain ⟨ethernet, payload, hextract, hpacket, -⟩ := extract_long h
  rw [v1Switch, parserImpl, hextract]
  have hingress : ∃ metadata', ingress readPort dmac ethernet metadata = .ok metadata' := by
    rw [ingress]
    cases hv : (dmac.entry ethernet.dstAddr).or dmac.default with
    | none => exact ⟨metadata, rfl⟩
    | some value =>
        have haction : ∃ action, actionOf value = .ok action := by
          rcases Option.or_eq_some_iff.mp hv with he | ⟨-, hd⟩
          · exact hentry _ value he
          · exact hdefault value hd
        obtain ⟨action, ha⟩ := haction
        exact ⟨runAction readPort metadata action, by simp only [ha]; rfl⟩
  obtain ⟨metadata', hi⟩ := hingress
  refine ⟨metadata', ?_⟩
  rw [← hpacket]
  simp only [bind, Except.bind, hi]
  rfl

end L2fwdGen

namespace Switch

open Device Codegen Messages Exec IdMap P4v1 Session L2fwdGen

def ValueOf (program : Hlir.Program) (name : CString) (value : ActionValue) : Prop :=
  ∃ table ks action, (table, ks) ∈ tablesWithKeys program ∧ table.name = name ∧
    action ∈ table.actions ∧ ValueFor action value

structure EntriesOf {S : Type} (tables : Tables S) (program : Hlir.Program) (s : S) : Prop where
  entry : ∀ name key value, tables.exactEntry s name key = some value → ValueOf program name value
  default : ∀ name value, tables.defaultEntry s name = some value → ValueOf program name value

def dmacOf {S : Type} (tables : Tables S) (s : S) : Dmac :=
  { entry := fun dst => tables.exactEntry s (cStr "dmac") (keyOf [dst])
    default := tables.defaultEntry s (cStr "dmac") }

def dmacToldOf (forwarding : Forwarding) : Dmac :=
  { entry := fun dst => forwarding.entry (cStr "dmac") [dst]
    default := forwarding.default (cStr "dmac") }

variable {S : Type} {tables : Tables S} {s : S} {layout : RecordLayout} {program : Hlir.Program}
  {code : Code} {deviceId : UInt64} {ticks later earlier : List Tick} {pushed : Tick}
  {state : State} {promote : Promote} {promotes : List Promote} {value : ActionValue}
  {name : CString} {table : Hlir.Table} {ks : List Hlir.KeyElement} {act : Hlir.ActionObject}

theorem EntriesOf.add (h : EntriesOf tables program s) (ht : tables.Lawful)
    (hp : OfProgram program promote) : EntriesOf tables program (tables.promote s promote) := by
  obtain ⟨table, ks, action, given, hmem, haction, hvalue, hfor⟩ := hp
  have hgiven : ValueOf program table.name given := ⟨table, ks, action, hmem, rfl, haction, hvalue⟩
  constructor
  · intro name key value hentry
    by_cases hadd : ∃ added, promote = .exactAdd name key added
    · obtain ⟨added, rfl⟩ := hadd
      rw [ht.exact_same] at hentry
      cases hfor
      exact Option.some.inj hentry ▸ hgiven
    · rw [ht.exact_other _ _ _ _ (not_exists.mp hadd)] at hentry
      exact h.entry name key value hentry
  · intro name value hentry
    by_cases hset : ∃ added, promote = .setdefault name added
    · obtain ⟨added, rfl⟩ := hset
      rw [ht.default_same] at hentry
      cases hfor
      exact Option.some.inj hentry ▸ hgiven
    · rw [ht.default_other _ _ _ (not_exists.mp hset)] at hentry
      exact h.default name value hentry

theorem EntriesOf.addAll (h : EntriesOf tables program s) (ht : tables.Lawful)
    (hp : ∀ promote ∈ promotes, OfProgram program promote) :
    EntriesOf tables program (promotes.foldl tables.promote s) := by
  induction promotes generalizing s with
  | nil => exact h
  | cons promote promotes ih =>
      obtain ⟨hone, hrest⟩ := List.forall_mem_cons.mp hp
      exact ih (h.add ht hone) hrest

theorem entries_of_program (h : EntriesOf tables program s) (ht : tables.Lawful)
    (hb : Emits program code) (hrun : Operates layout code deviceId ticks state) :
    EntriesOf tables program (tablesAfter tables s ticks) := by
  induction hrun with
  | start => exact h
  | step _ hr ih => exact ih.addAll ht (react_promotes hb hr).2

theorem actionOf_forward (h : ValueFor L2fwd.forwardAction value) :
    ∃ action, actionOf value = .ok action := by
  have hid : value.actionId = "forward" := h.action_id
  obtain ⟨⟨name, port⟩, hparams, hport⟩ := List.map_eq_singleton_iff.mp h.params
  obtain ⟨-, hlength⟩ := Prod.mk.inj hport
  refine ⟨.forward port, ?_⟩
  rw [actionOf, if_pos hid, hparams]
  exact if_pos hlength

theorem actionOf_valueFor (ha : act ∈ L2fwd.dmacTable.actions) (h : ValueFor act value) :
    ∃ action, actionOf value = .ok action := by
  rcases List.mem_cons.mp ha with rfl | ha
  · exact actionOf_forward h
  · obtain ⟨actionId, params⟩ := value
    obtain rfl := h.action_id
    rcases List.mem_cons.mp ha with rfl | ha
    · exact ⟨.bcast, rfl⟩
    · obtain rfl := List.mem_singleton.mp ha
      exact ⟨.noAction, rfl⟩

theorem actionOf_valueOf (h : ValueOf L2fwd.program name value) :
    ∃ action, actionOf value = .ok action := by
  obtain ⟨table, ks, action, hmem, -, haction, hvalue⟩ := h
  obtain ⟨htable, -⟩ := mem_tablesWithKeys.mp hmem
  obtain rfl := List.mem_singleton.mp htable
  exact actionOf_valueFor haction hvalue

theorem packets_never_stuck (ht : tables.Lawful)
    (hentry : ∀ name key, tables.exactEntry s name key = none)
    (hdefault : ∀ name, tables.defaultEntry s name = none)
    (hrun : Operates layout L2fwd.code deviceId ticks state) (readPort : Buffer → BitVec 9)
    (packet : Bytes) (metadata : StandardMetadata) :
    (packet.length < 14 ∧ v1Switch readPort (dmacOf tables (tablesAfter tables s ticks)) packet
        metadata = .error .packetTooShort) ∨
      (14 ≤ packet.length ∧ ∃ metadata', v1Switch readPort
        (dmacOf tables (tablesAfter tables s ticks)) packet metadata = .ok (packet, metadata')) := by
  have hempty : EntriesOf tables L2fwd.program s :=
    { entry := fun name key value h => by
        rw [hentry] at h
        cases h
      default := fun name value h => by
        rw [hdefault] at h
        cases h }
  have hentries := entries_of_program hempty ht L2fwd.builds_code.toEmits hrun
  rcases Nat.lt_or_ge packet.length 14 with hshort | hlong
  · exact Or.inl ⟨hshort, v1Switch_short hshort⟩
  · exact Or.inr ⟨hlong, v1Switch_long hlong
      (fun dst value h => actionOf_valueOf (hentries.entry _ _ value h))
      fun value h => actionOf_valueOf (hentries.default _ value h)⟩

theorem packets_follow_controller {push : P4v1.SetForwardingPipelineConfigRequest} {disk : Disk}
    {ends : List (List Intent)} (ht : tables.Lawful) (s : S) (hl : layout.Lawful)
    (hrun : Operates layout L2fwd.code deviceId (later ++ pushed :: earlier) state)
    (hbefore : ¬ConfigHandled (earlier.map Tick.moment))
    (hpushed : pushed.moment.event = .rpc (.setForwardingPipelineConfig push disk))
    (ha : ConfigAction.applied push.action = true) (hinfo : push.config.p4info = L2fwd.p4info)
    (hends : List.Forall₂ (EventTells L2fwd.program L2fwd.p4info)
      (later.map (fun tick => tick.moment.event)) ends)
    (readPort : Buffer → BitVec 9) (packet : Bytes) (metadata : StandardMetadata) :
    v1Switch readPort (dmacOf tables (tablesAfter tables s (later ++ pushed :: earlier))) packet
        metadata =
      v1Switch readPort (dmacToldOf (told (Forwarding.held tables s) ends)) packet metadata := by
  have hagrees := tables_refine_forwarding ht s hl L2fwd.builds_code hrun hbefore hpushed ha
    (hinfo ▸ System.wellDeclared_l2fwd) (hinfo ▸ System.slots_l2fwd) (hinfo ▸ hends)
  refine v1Switch_congr (fun dst hdst => ?_) (hagrees.default (cStr "dmac"))
  exact hagrees.entry L2fwd.dmacTable L2fwd.dmacKey [dst] ExactInstall.dmac_exact (by simp [hdst]; decide)

namespace Packets

def networkPort : Buffer → BitVec 9
  | [some high, some low] => BitVec.ofNat 9 (high.toNat * 256 + low.toNat)
  | _ => 0

def frame : Bytes := [0, 0, 0, 0, 0, 7, 0, 0, 0, 0, 0, 9, 8, 0, 42]

def arriving : StandardMetadata := { egressPort := 0 }

theorem frame_never_stuck :
    (frame.length < 14 ∧ v1Switch networkPort
        (dmacOf Forwarding.journal (tablesAfter Forwarding.journal []
          ([System.insertTick] ++ System.pushTick :: []))) frame arriving = .error .packetTooShort) ∨
      (14 ≤ frame.length ∧ ∃ metadata', v1Switch networkPort
        (dmacOf Forwarding.journal (tablesAfter Forwarding.journal []
          ([System.insertTick] ++ System.pushTick :: []))) frame arriving = .ok (frame, metadata')) :=
  packets_never_stuck Forwarding.journal_lawful (fun _ _ => rfl) (fun _ => rfl)
    System.operates_inserted networkPort frame arriving

theorem frame_follows_controller :
    v1Switch networkPort
        (dmacOf Forwarding.journal (tablesAfter Forwarding.journal []
          ([System.insertTick] ++ System.pushTick :: []))) frame arriving =
      v1Switch networkPort
        (dmacToldOf (told (Forwarding.held Forwarding.journal []) [Forwarding.insertIntents])) frame
        arriving :=
  packets_follow_controller Forwarding.journal_lawful [] packedLayout_lawful System.operates_inserted
    (fun ⟨_, hm, _⟩ => absurd hm List.not_mem_nil) rfl rfl rfl
    (.cons (.batch rfl Forwarding.tells_insertRequest) .nil) networkPort frame arriving

example : v1Switch networkPort
    (dmacToldOf (told (Forwarding.held Forwarding.journal []) [Forwarding.insertIntents])) frame
    arriving = .ok (frame, { egressPort := 3 }) := rfl

end Packets

end Switch
