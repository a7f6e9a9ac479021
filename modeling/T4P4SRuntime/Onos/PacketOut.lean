import T4P4SRuntime.Library.Positional
import T4P4SRuntime.Onos.PortNumbers

namespace Onos

variable {P T S B D : Type}

def Fits (platform : Platform P T S B D) (port : P) : Prop :=
  0 ≤ (platform.toLong port).toInt ∧ (platform.toLong port).toInt < 2 ^ portFieldBitwidth

def targets (platform : Platform P T S B D) (deviceId : D) (port : P) : List P :=
  if platform.isLogical port = false then [port] else platform.getPorts deviceId

structure Sendable (platform : Platform P T S B D) (deviceId : D) (port : P) : Prop where
  reachable : platform.isLogical port = false ∨ platform.portEquals port platform.flood = true
  fits : ∀ target ∈ targets platform deviceId port, Fits platform target

structure IsPacketOut (platform : Platform P T S B D) (data : B) (target : P)
    (op : PiPacketOperation S) : Prop where
  type : op.type = .packetOut
  data : platform.asArray op.data = platform.contents data
  egress : ∃ value, op.metadatas = [{ id := egressPort, value := value }] ∧
    (platform.number value : Int) = (platform.toLong target).toInt

def Mappable (platform : Platform P T S B D) (packet : OutboundPacket P T B D) : Prop :=
  ∃ port, packet.treatment.allInstructions = [.output port] ∧
    Sendable platform packet.sendThrough port

structure OutboundExact (platform : Platform P T S B D) (packet : OutboundPacket P T B D) :
    Prop where
  sent : ∀ port, packet.treatment.allInstructions = [.output port] →
    Sendable platform packet.sendThrough port → ∃ ops, mapOutboundPacket platform packet = .ok ops ∧
      List.Forall₂ (IsPacketOut platform packet.data) (targets platform packet.sendThrough port) ops
  refused : ¬Mappable platform packet →
    ∃ message, mapOutboundPacket platform packet = .error (.piInterpreter message)

-- A single `OUTPUT`, or several instructions that do not start with an `OUTPUT` that can be sent.
def GuardSuffices (platform : Platform P T S B D) (packet : OutboundPacket P T B D) : Prop :=
  (∃ port, packet.treatment.allInstructions = [.output port]) ∨
    (2 ≤ packet.treatment.allInstructions.length ∧
      ∀ port, packet.treatment.allInstructions.head? = some (.output port) →
        ¬Sendable platform packet.sendThrough port)

variable {platform : Platform P T S B D} {packet : OutboundPacket P T B D} {port : P} {data : B}
  {rest : List (Instruction P T)}

theorem toInt_cases (n : Int64) :
    n.toInt = if n.toUInt64.toNat < 2 ^ 63 then (n.toUInt64.toNat : Int)
      else (n.toUInt64.toNat : Int) - 2 ^ 64 := by
  have hint : n.toInt = n.toBitVec.toInt := rfl
  have hnat : n.toUInt64.toNat = n.toBitVec.toNat := rfl
  rw [hint, hnat, BitVec.toInt_eq_toNat_cond]
  split_ifs <;> omega

theorem toNat_of_nonneg {n : Int64} (h : 0 ≤ n.toInt) : (n.toUInt64.toNat : Int) = n.toInt := by
  have hlt := n.toUInt64.toNat_lt
  rw [toInt_cases] at h ⊢
  split_ifs at h ⊢ <;> omega

theorem fits_iff (platform : Platform P T S B D) (port : P) :
    Fits platform port ↔ (platform.toLong port).toUInt64.toNat < 2 ^ portFieldBitwidth := by
  have hlt := (platform.toLong port).toUInt64.toNat_lt
  rw [Fits, toInt_cases, portFieldBitwidth]
  split_ifs <;> omega

theorem createPiPacketOp_ok (h : platform.Lawful) (data : B) (hf : Fits platform port) :
    ∃ op, createPiPacketOp platform data (platform.toLong port) = .ok op ∧
      IsPacketOut platform data port op := by
  have hnumber := h.copyFromLong (platform.toLong port)
  obtain ⟨value, hfit, hvalue⟩ := h.fit_ok (platform.copyFromLong (platform.toLong port))
    portFieldBitwidth (by decide) (hnumber ▸ (fits_iff platform port).mp hf)
  refine ⟨{ type := .packetOut, data := platform.copyFromBuffer data,
            metadatas := [{ id := egressPort, value := value }] }, ?_, rfl, h.copyFromBuffer data,
    value, rfl, ?_⟩
  · rw [createPiPacketOp, createPacketMetadata, hfit]
    rfl
  · rw [hvalue, hnumber]
    exact toNat_of_nonneg hf.1

theorem createPiPacketOp_error (h : platform.Lawful) (data : B) (hf : ¬Fits platform port) :
    ∃ message, createPiPacketOp platform data (platform.toLong port) =
      .error (.piInterpreter message) := by
  have hnumber := h.copyFromLong (platform.toLong port)
  rw [fits_iff, Nat.not_lt, ← hnumber] at hf
  obtain ⟨message, hfit⟩ := h.fit_error _ portFieldBitwidth (by decide) hf
  refine ⟨"Port number " ++ toString (platform.toLong port).toInt ++ " too big, " ++ message, ?_⟩
  rw [createPiPacketOp, createPacketMetadata, hfit]
  rfl

theorem createPiPacketOp_cases (h : platform.Lawful) (data : B) (port : P) :
    (∃ op, createPiPacketOp platform data (platform.toLong port) = .ok op) ∨
      ∃ e, createPiPacketOp platform data (platform.toLong port) = .error e ∧
        ∃ message, e = .piInterpreter message := by
  by_cases hf : Fits platform port
  · obtain ⟨op, he, -⟩ := createPiPacketOp_ok h data hf
    exact Or.inl ⟨op, he⟩
  · obtain ⟨message, he⟩ := createPiPacketOp_error h data hf
    exact Or.inr ⟨_, he, message, rfl⟩

theorem mapOutboundPacket_output (h : packet.treatment.allInstructions = .output port :: rest) :
    mapOutboundPacket platform packet =
      if platform.isLogical port = false ∨ platform.portEquals port platform.flood = true then
        (targets platform packet.sendThrough port).mapM
          (fun p => createPiPacketOp platform packet.data (platform.toLong p))
      else .error (.piInterpreter (logicalPortMessage platform port)) := by
  have hget : packet.treatment.get 0 = .ok (.output port) := TrafficTreatment.get_zero h
  have hguard : unsupportedGuard packet.treatment = .ok false := by
    rw [unsupportedGuard, hget]
    split <;> rfl
  rw [mapOutboundPacket, hguard, hget, targets]
  cases hl : platform.isLogical port with
  | false =>
      rw [if_pos (Or.inl rfl), if_pos rfl, List.mapM_cons, List.mapM_nil]
      simp [Instruction.outputPort, hl, bind, Except.bind, pure, Except.pure]
  | true =>
      cases hq : platform.portEquals port platform.flood with
      | true => simp [Instruction.outputPort, hl, hq, bind, Except.bind, pure, Except.pure]
      | false =>
          simp [Instruction.outputPort, hl, hq, bind, Except.bind, pure, Except.pure, throw,
            throwThe, MonadExceptOf.throw]

theorem sent_of_sendable (h : platform.Lawful)
    (hi : packet.treatment.allInstructions = .output port :: rest)
    (hs : Sendable platform packet.sendThrough port) :
    ∃ ops, mapOutboundPacket platform packet = .ok ops ∧
      List.Forall₂ (IsPacketOut platform packet.data) (targets platform packet.sendThrough port)
        ops := by
  rw [mapOutboundPacket_output hi, if_pos hs.reachable]
  exact Positional.mapM_ok fun target ht => createPiPacketOp_ok h packet.data (hs.fits target ht)

theorem refused_of_not_sendable (h : platform.Lawful)
    (hi : packet.treatment.allInstructions = .output port :: rest)
    (hs : ¬Sendable platform packet.sendThrough port) :
    ∃ message, mapOutboundPacket platform packet = .error (.piInterpreter message) := by
  rw [mapOutboundPacket_output hi]
  by_cases hr : platform.isLogical port = false ∨ platform.portEquals port platform.flood = true
  · rw [if_pos hr]
    obtain ⟨target, ht, hf⟩ : ∃ target ∈ targets platform packet.sendThrough port,
        ¬Fits platform target := by
      by_contra hc
      push Not at hc
      exact hs ⟨hr, hc⟩
    have hfail : ∀ op,
        createPiPacketOp platform packet.data (platform.toLong target) ≠ .ok op := by
      intro op he
      obtain ⟨message, herr⟩ := createPiPacketOp_error h packet.data hf
      rw [he] at herr
      cases herr
    obtain ⟨e, he, message, rfl⟩ := Positional.mapM_error
      (fun target _ => createPiPacketOp_cases h packet.data target) ⟨target, ht, hfail⟩
    exact ⟨message, he⟩
  · rw [if_neg hr]
    exact ⟨_, rfl⟩

theorem mapOutboundPacket_nil (h : packet.treatment.allInstructions = []) :
    mapOutboundPacket platform packet = .error .indexOutOfBounds := by
  rw [mapOutboundPacket, unsupportedGuard, if_pos (by simp [h]), TrafficTreatment.get_of_empty 0 h]
  rfl

theorem mapOutboundPacket_other {type : T} (h : packet.treatment.allInstructions = [.other type]) :
    mapOutboundPacket platform packet = .error .classCast := by
  have hget : packet.treatment.get 0 = .ok (.other type) := TrafficTreatment.get_zero h
  rw [mapOutboundPacket, unsupportedGuard, if_neg (by simp [h]), hget]
  rfl

theorem mapOutboundPacket_others {type : T} {second : Instruction P T}
    (h : packet.treatment.allInstructions = .other type :: second :: rest) :
    ∃ message, mapOutboundPacket platform packet = .error (.piInterpreter message) := by
  have hget : packet.treatment.get 0 = .ok (.other type) := TrafficTreatment.get_zero h
  refine ⟨"Treatment not supported: " ++ platform.treatmentName packet.treatment, ?_⟩
  rw [mapOutboundPacket, unsupportedGuard, if_pos (by simp [h]), hget]
  rfl

theorem not_mappable (h : ∀ port, packet.treatment.allInstructions ≠ [.output port]) :
    ¬Mappable platform packet := by
  rintro ⟨port, hi, -⟩
  exact h port hi

theorem guardSuffices_of_exact (h : platform.Lawful) (he : OutboundExact platform packet) :
    GuardSuffices platform packet := by
  cases hi : packet.treatment.allInstructions with
  | nil =>
      obtain ⟨message, herr⟩ := he.refused (not_mappable (by simp [hi]))
      rw [mapOutboundPacket_nil hi] at herr
      cases herr
  | cons first rest =>
      cases rest with
      | nil =>
          cases first with
          | output port => exact Or.inl ⟨port, hi⟩
          | other type =>
              obtain ⟨message, herr⟩ := he.refused (not_mappable (by simp [hi]))
              rw [mapOutboundPacket_other hi] at herr
              cases herr
      | cons second rest =>
          refine Or.inr ⟨by simp [hi], fun port hport hs => ?_⟩
          obtain rfl : first = .output port := by simpa [hi] using hport
          obtain ⟨ops, hops, -⟩ := sent_of_sendable h hi hs
          obtain ⟨message, herr⟩ := he.refused (not_mappable (by simp [hi]))
          rw [hops] at herr
          cases herr

theorem exact_of_guardSuffices (h : platform.Lawful) (hg : GuardSuffices platform packet) :
    OutboundExact platform packet := by
  refine ⟨fun port hi hs => sent_of_sendable h hi hs, fun hnone => ?_⟩
  rcases hg with ⟨port, hi⟩ | ⟨hlength, hfirst⟩
  · exact refused_of_not_sendable h hi fun hs => hnone ⟨port, hi, hs⟩
  · cases hi : packet.treatment.allInstructions with
    | nil => simp [hi] at hlength
    | cons first rest =>
        cases first with
        | output port => exact refused_of_not_sendable h hi (hfirst port (by simp [hi]))
        | other type =>
            cases rest with
            | nil => simp [hi] at hlength
            | cons second rest => exact mapOutboundPacket_others hi

theorem outbound_exact_iff (h : platform.Lawful) (packet : OutboundPacket P T B D) :
    OutboundExact platform packet ↔ GuardSuffices platform packet := by
  constructor
  · intro he
    exact guardSuffices_of_exact h he
  · intro hg
    exact exact_of_guardSuffices h hg

namespace PacketOut

def packetOf (allInstructions : List (Instruction Int64 String)) :
    OutboundPacket Int64 String Bytes Unit :=
  { sendThrough := (), treatment := { allInstructions := allInstructions }, data := [0xca, 0xfe] }

example : mapOutboundPacket (portNumbers [1, 258]) (packetOf [.output (-5)]) =
    .ok
      [{ type := .packetOut
         data := [0xca, 0xfe]
         metadatas := [{ id := "egress_port", value := [0, 1] }] },
        { type := .packetOut
          data := [0xca, 0xfe]
          metadatas := [{ id := "egress_port", value := [1, 2] }] }] := by decide

theorem outbound_exact_flood : OutboundExact (portNumbers [1, 258]) (packetOf [.output (-5)]) :=
  (outbound_exact_iff (portNumbers_lawful [1, 258]) (packetOf [.output (-5)])).mpr
    (Or.inl ⟨-5, rfl⟩)

theorem second_output_dropped :
    mapOutboundPacket (portNumbers [1, 2]) (packetOf [.output 1, .output 2]) =
        mapOutboundPacket (portNumbers [1, 2]) (packetOf [.output 1]) ∧
      ¬OutboundExact (portNumbers [1, 2]) (packetOf [.output 1, .output 2]) := by
  refine ⟨rfl, fun h => ?_⟩
  have hsendable : Sendable (portNumbers [1, 2]) () 1 :=
    { reachable := Or.inl rfl
      fits := fun target ht => by
        obtain rfl := List.mem_singleton.mp ht
        exact ⟨by decide, by decide⟩ }
  rcases guardSuffices_of_exact (portNumbers_lawful [1, 2]) h with ⟨port, hsingle⟩ | ⟨-, hfirst⟩
  · cases hsingle
  · exact hfirst 1 rfl hsendable

end PacketOut

end Onos
