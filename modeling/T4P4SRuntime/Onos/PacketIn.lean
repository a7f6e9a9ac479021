import T4P4SRuntime.Onos.PacketOut

namespace Onos

inductive InboundException where
  | piInterpreter (message : String)
  | bufferUnderflow
  deriving DecidableEq, Repr

structure ConnectPoint (P D : Type) where
  deviceId : D
  port : P
  deriving DecidableEq

structure InboundPacket (P B D E : Type) where
  receivedFrom : ConnectPoint P D
  parsed : E
  unparsed : B
  deriving DecidableEq

-- What `mapInboundPacket` calls beyond the classes of `Platform`: `E` are the Ethernet packets.
structure Receiver (P S B D E : Type) where
  deserialize : Bytes → Nat → Nat → Except String E
  size : S → Nat
  asReadOnlyBuffer : S → B
  portNumber : Int64 → P
  deviceName : D → String
  operationName : PiPacketOperation S → String

def ingressPort : String := "ingress_port"

variable {P T S B D E : Type}

-- `ByteBuffer.getShort` at the position 0, in its default byte order.
def getShort : Bytes → Except InboundException Int16
  | high :: low :: _ => pure (Int16.ofNat (high.toNat * 256 + low.toNat))
  | [] | [_] => throw .bufferUnderflow

def missingMessage (receiver : Receiver P S B D E) (packetIn : PiPacketOperation S)
    (deviceId : D) : String :=
  "Missing metadata '" ++ ingressPort ++ "' in packet-in received from '" ++
    receiver.deviceName deviceId ++ "': " ++ receiver.operationName packetIn

def ingressMetadata (packetIn : PiPacketOperation S) : Option (PiPacketMetadata S) :=
  packetIn.metadatas.find? (fun metadata => metadata.id = ingressPort)

def deserialized (platform : Platform P T S B D) (receiver : Receiver P S B D E)
    (packetIn : PiPacketOperation S) : Except String E :=
  receiver.deserialize (platform.asArray packetIn.data) 0 (receiver.size packetIn.data)

def mapInboundPacket (platform : Platform P T S B D) (receiver : Receiver P S B D E)
    (packetIn : PiPacketOperation S) (deviceId : D) :
    Except InboundException (InboundPacket P B D E) :=
  match deserialized platform receiver packetIn with
  | .error message => throw (.piInterpreter message)
  | .ok ethPkt =>
      match ingressMetadata packetIn with
      | none => throw (.piInterpreter (missingMessage receiver packetIn deviceId))
      | some metadata => do
          let s ← getShort (platform.contents (receiver.asReadOnlyBuffer metadata.value))
          pure
            { receivedFrom := { deviceId := deviceId, port := receiver.portNumber s.toInt64 }
              parsed := ethPkt
              unparsed := receiver.asReadOnlyBuffer packetIn.data }

-- What is documented of the two buffers and of `PortNumber`.
structure Receiver.Lawful (receiver : Receiver P S B D E) (platform : Platform P T S B D) :
    Prop where
  size : ∀ s, receiver.size s = (platform.asArray s).length
  asReadOnlyBuffer : ∀ s, platform.contents (receiver.asReadOnlyBuffer s) = platform.asArray s
  portNumber : ∀ n, platform.toLong (receiver.portNumber n) = n

-- `fit` returns the fewest bytes that hold the width.
def Platform.FitsMinimally (platform : Platform P T S B D) : Prop :=
  ∀ s width fitted, 0 < width → platform.fit s width = .ok fitted →
    (platform.asArray fitted).length = (width + 7) / 8

-- A signed 16-bit number is read: of a longer value the leading two bytes, of a shorter one none.
def PortReadable (bytes : Bytes) : Prop :=
  (bytes.length = 2 ∧ BigEndian.value bytes < 2 ^ 15) ∨
    (2 < bytes.length ∧ BigEndian.value bytes = 0)

structure InboundExact (platform : Platform P T S B D) (receiver : Receiver P S B D E)
    (packetIn : PiPacketOperation S) (deviceId : D) : Prop where
  refused : (∃ message, mapInboundPacket platform receiver packetIn deviceId =
    .error (.piInterpreter message)) ↔
      (∃ message, deserialized platform receiver packetIn = .error message) ∨
        ∀ metadata ∈ packetIn.metadatas, metadata.id ≠ ingressPort
  underflow : mapInboundPacket platform receiver packetIn deviceId = .error .bufferUnderflow ↔
    (∃ ethPkt, deserialized platform receiver packetIn = .ok ethPkt) ∧
      ∃ metadata, ingressMetadata packetIn = some metadata ∧
        (platform.asArray metadata.value).length < 2
  port_right : ∀ metadata, ingressMetadata packetIn = some metadata →
    ((∃ inbound, mapInboundPacket platform receiver packetIn deviceId = .ok inbound ∧
      (platform.toLong inbound.receivedFrom.port).toInt = platform.number metadata.value) ↔
        (∃ ethPkt, deserialized platform receiver packetIn = .ok ethPkt) ∧
          PortReadable (platform.asArray metadata.value))

variable {platform : Platform P T S B D} {receiver : Receiver P S B D E}
  {packetIn : PiPacketOperation S} {deviceId : D} {metadata : PiPacketMetadata S} {ethPkt : E}
  {bytes : Bytes}

theorem getShort_ok (h : 2 ≤ bytes.length) :
    getShort bytes = .ok (Int16.ofNat (BigEndian.value (bytes.take 2))) := by
  match bytes with
  | high :: low :: rest =>
      have hvalue : BigEndian.value [high, low] = high.toNat * 256 + low.toNat := by
        simp [BigEndian.value]
      rw [getShort, List.take_succ_cons, List.take_succ_cons, List.take_zero, hvalue]
      rfl

theorem getShort_short (h : bytes.length < 2) : getShort bytes = .error .bufferUnderflow := by
  match bytes with
  | [] | [_] => rfl

theorem short_toInt {n : Nat} (h : n < 2 ^ 16) :
    (Int16.ofNat n).toInt64.toInt = if n < 2 ^ 15 then (n : Int) else (n : Int) - 2 ^ 16 := by
  rw [Int16.toInt_toInt64, Int16.toInt_ofNat', Int.bmod, Int16.size]
  split_ifs <;> omega

theorem lead_eq_iff (h : 2 ≤ bytes.length) :
    BigEndian.value (bytes.take 2) = BigEndian.value bytes ↔
      bytes.length = 2 ∨ (2 < bytes.length ∧ BigEndian.value bytes = 0) := by
  have hlength : (bytes.take 2).length = 2 := by
    rw [List.length_take]
    omega
  have hencode := BigEndian.encode_value_take_iff 2 bytes
  rw [BigEndian.encode_eq_some_iff] at hencode
  rw [BigEndian.value_eq_zero_iff, ← hencode]
  exact ⟨fun he => ⟨hlength, he⟩, And.right⟩

theorem portReadable_iff (h : 2 ≤ bytes.length) :
    (Int16.ofNat (BigEndian.value (bytes.take 2))).toInt64.toInt = BigEndian.value bytes ↔
      PortReadable bytes := by
  have hlead := lead_eq_iff h
  have hlt := BigEndian.value_lt (bytes.take 2)
  rw [List.length_take, Nat.min_eq_left h] at hlt
  rw [short_toInt hlt, PortReadable]
  split_ifs with hsign <;> omega

theorem mapInboundPacket_of_error {message : String}
    (h : deserialized platform receiver packetIn = .error message) :
    mapInboundPacket platform receiver packetIn deviceId = .error (.piInterpreter message) := by
  rw [mapInboundPacket, h]
  rfl

theorem mapInboundPacket_of_none (h : deserialized platform receiver packetIn = .ok ethPkt)
    (hm : ingressMetadata packetIn = none) :
    mapInboundPacket platform receiver packetIn deviceId =
      .error (.piInterpreter (missingMessage receiver packetIn deviceId)) := by
  rw [mapInboundPacket, h, hm]
  rfl

theorem mapInboundPacket_of_short (hl : receiver.Lawful platform)
    (h : deserialized platform receiver packetIn = .ok ethPkt)
    (hm : ingressMetadata packetIn = some metadata)
    (hs : (platform.asArray metadata.value).length < 2) :
    mapInboundPacket platform receiver packetIn deviceId = .error .bufferUnderflow := by
  rw [← hl.asReadOnlyBuffer] at hs
  simp only [mapInboundPacket, h, hm, getShort_short hs]
  rfl

theorem mapInboundPacket_of_long (hl : receiver.Lawful platform)
    (h : deserialized platform receiver packetIn = .ok ethPkt)
    (hm : ingressMetadata packetIn = some metadata)
    (hs : 2 ≤ (platform.asArray metadata.value).length) :
    mapInboundPacket platform receiver packetIn deviceId =
      .ok
        { receivedFrom :=
            { deviceId := deviceId
              port := receiver.portNumber (Int16.ofNat
                (BigEndian.value ((platform.asArray metadata.value).take 2))).toInt64 }
          parsed := ethPkt
          unparsed := receiver.asReadOnlyBuffer packetIn.data } := by
  rw [← hl.asReadOnlyBuffer] at hs ⊢
  simp only [mapInboundPacket, h, hm, getShort_ok hs]
  rfl

theorem ingressMetadata_eq_none_iff :
    ingressMetadata packetIn = none ↔ ∀ metadata ∈ packetIn.metadatas, metadata.id ≠ ingressPort := by
  rw [ingressMetadata, List.find?_eq_none]
  simp only [decide_eq_true_eq, ne_eq]

theorem port_right (hl : receiver.Lawful platform)
    (h : deserialized platform receiver packetIn = .ok ethPkt)
    (hm : ingressMetadata packetIn = some metadata) :
    (∃ inbound, mapInboundPacket platform receiver packetIn deviceId = .ok inbound ∧
      (platform.toLong inbound.receivedFrom.port).toInt = platform.number metadata.value) ↔
        PortReadable (platform.asArray metadata.value) := by
  rcases Nat.lt_or_ge (platform.asArray metadata.value).length 2 with hs | hs
  · rw [mapInboundPacket_of_short hl h hm hs, PortReadable]
    exact iff_of_false (by rintro ⟨_, he, -⟩; cases he) (by omega)
  · rw [mapInboundPacket_of_long hl h hm hs, ← portReadable_iff hs]
    constructor
    · rintro ⟨inbound, he, hport⟩
      obtain rfl := Except.ok.inj he
      rwa [hl.portNumber] at hport
    · intro he
      exact ⟨_, rfl, by rwa [hl.portNumber]⟩

theorem refused_iff (hl : receiver.Lawful platform) (packetIn : PiPacketOperation S)
    (deviceId : D) :
    (∃ message, mapInboundPacket platform receiver packetIn deviceId =
      .error (.piInterpreter message)) ↔
        (∃ message, deserialized platform receiver packetIn = .error message) ∨
          ∀ metadata ∈ packetIn.metadatas, metadata.id ≠ ingressPort := by
  rw [← ingressMetadata_eq_none_iff]
  cases h : deserialized platform receiver packetIn with
  | error message =>
      exact iff_of_true ⟨message, mapInboundPacket_of_error h⟩ (Or.inl ⟨message, rfl⟩)
  | ok ethPkt =>
      cases hm : ingressMetadata packetIn with
      | none => exact iff_of_true ⟨_, mapInboundPacket_of_none h hm⟩ (Or.inr rfl)
      | some metadata =>
          refine iff_of_false ?_ (by simp)
          rcases Nat.lt_or_ge (platform.asArray metadata.value).length 2 with hs | hs
          · rw [mapInboundPacket_of_short hl h hm hs]
            rintro ⟨_, he⟩
            cases he
          · rw [mapInboundPacket_of_long hl h hm hs]
            rintro ⟨_, he⟩
            cases he

theorem underflow_iff (hl : receiver.Lawful platform) (packetIn : PiPacketOperation S)
    (deviceId : D) :
    mapInboundPacket platform receiver packetIn deviceId = .error .bufferUnderflow ↔
      (∃ ethPkt, deserialized platform receiver packetIn = .ok ethPkt) ∧
        ∃ metadata, ingressMetadata packetIn = some metadata ∧
          (platform.asArray metadata.value).length < 2 := by
  cases h : deserialized platform receiver packetIn with
  | error message =>
      rw [mapInboundPacket_of_error h]
      simp
  | ok ethPkt =>
      cases hm : ingressMetadata packetIn with
      | none =>
          rw [mapInboundPacket_of_none h hm]
          simp
      | some metadata =>
          rcases Nat.lt_or_ge (platform.asArray metadata.value).length 2 with hs | hs
          · exact iff_of_true (mapInboundPacket_of_short hl h hm hs)
              ⟨⟨ethPkt, rfl⟩, metadata, rfl, hs⟩
          · rw [mapInboundPacket_of_long hl h hm hs]
            refine iff_of_false (by simp) ?_
            rintro ⟨-, metadata', he, hs'⟩
            obtain rfl := Option.some.inj he
            omega

theorem inbound_exact (hl : receiver.Lawful platform) (packetIn : PiPacketOperation S)
    (deviceId : D) : InboundExact platform receiver packetIn deviceId where
  refused := refused_iff hl packetIn deviceId
  underflow := underflow_iff hl packetIn deviceId
  port_right := by
    intro metadata hm
    cases h : deserialized platform receiver packetIn with
    | error message =>
        rw [mapInboundPacket_of_error h]
        simp
    | ok ethPkt =>
        rw [port_right hl h hm]
        exact (and_iff_right ⟨ethPkt, rfl⟩).symm

-- What a switch sends up when it gets a packet on the port that the packet-out names.
def returned (op : PiPacketOperation S) : PiPacketOperation S :=
  { type := .packetIn
    data := op.data
    metadatas := op.metadatas.map (fun metadata => { metadata with id := ingressPort }) }

structure ReadBack (platform : Platform P T S B D) (receiver : Receiver P S B D E) (deviceId : D)
    (data : B) (ethPkt : E) (target : P) (op : PiPacketOperation S) : Prop where
  received : ∃ inbound, mapInboundPacket platform receiver (returned op) deviceId = .ok inbound ∧
    inbound.receivedFrom.deviceId = deviceId ∧
    platform.toLong inbound.receivedFrom.port = platform.toLong target ∧
    inbound.parsed = ethPkt ∧ platform.contents inbound.unparsed = platform.contents data

variable {packet : OutboundPacket P T B D} {ops : List (PiPacketOperation S)} {target : P} {data : B}

theorem created_read_back (h : platform.Lawful) (hm : platform.FitsMinimally)
    (hl : receiver.Lawful platform) (deviceId : D)
    (hd : receiver.deserialize (platform.contents data) 0 (platform.contents data).length =
      .ok ethPkt) (hf : Fits platform target) :
    ∃ op, createPiPacketOp platform data (platform.toLong target) = .ok op ∧
      ReadBack platform receiver deviceId data ethPkt target op := by
  have hnumber := h.copyFromLong (platform.toLong target)
  have hsmall := (fits_iff platform target).mp hf
  obtain ⟨value, hfit, hvalue⟩ := h.fit_ok (platform.copyFromLong (platform.toLong target))
    portFieldBitwidth (by decide) (hnumber ▸ hsmall)
  have hlength : (platform.asArray value).length = 2 :=
    hm _ portFieldBitwidth value (by decide) hfit
  rw [hnumber] at hvalue
  let op : PiPacketOperation S :=
    { type := .packetOut
      data := platform.copyFromBuffer data
      metadatas := [{ id := egressPort, value := value }] }
  have hparsed : deserialized platform receiver (returned op) = .ok ethPkt := by
    rw [deserialized, hl.size, returned, h.copyFromBuffer, hd]
  have hfound : ingressMetadata (returned op) = some { id := ingressPort, value := value } := rfl
  have hreadable : PortReadable (platform.asArray value) := by
    refine Or.inl ⟨hlength, ?_⟩
    rw [Platform.number] at hvalue
    rw [hvalue]
    exact hsmall.trans (by decide)
  obtain ⟨inbound, he, hport⟩ : ∃ inbound,
      mapInboundPacket platform receiver (returned op) deviceId = .ok inbound ∧
        (platform.toLong inbound.receivedFrom.port).toInt = platform.number value :=
    (port_right hl hparsed hfound).mpr hreadable
  refine ⟨op, ?_, inbound, he, ?_⟩
  · rw [createPiPacketOp, createPacketMetadata, hfit]
    rfl
  · rw [mapInboundPacket_of_long hl hparsed hfound (Nat.le_of_eq hlength.symm)] at he
    obtain rfl := Except.ok.inj he
    refine ⟨rfl, ?_, rfl, ?_⟩
    · rw [← Int64.toInt_inj, hport, hvalue]
      exact toNat_of_nonneg hf.1
    · rw [hl.asReadOnlyBuffer]
      exact h.copyFromBuffer data

theorem output_of_mapped (hops : mapOutboundPacket platform packet = .ok ops) :
    ∃ port rest, packet.treatment.allInstructions = .output port :: rest := by
  cases hi : packet.treatment.allInstructions with
  | nil =>
      rw [mapOutboundPacket_nil hi] at hops
      cases hops
  | cons first rest =>
      cases first with
      | output port => exact ⟨port, rest, rfl⟩
      | other type =>
          cases rest with
          | nil =>
              rw [mapOutboundPacket_other hi] at hops
              cases hops
          | cons second rest =>
              obtain ⟨message, he⟩ : ∃ message,
                  mapOutboundPacket platform packet = .error (.piInterpreter message) :=
                mapOutboundPacket_others hi
              rw [he] at hops
              cases hops

theorem packet_out_read_back (h : platform.Lawful) (hm : platform.FitsMinimally)
    (hl : receiver.Lawful platform) (hops : mapOutboundPacket platform packet = .ok ops)
    (hd : receiver.deserialize (platform.contents packet.data) 0
      (platform.contents packet.data).length = .ok ethPkt) :
    ∃ port rest, packet.treatment.allInstructions = .output port :: rest ∧
      List.Forall₂ (ReadBack platform receiver packet.sendThrough packet.data ethPkt)
        (targets platform packet.sendThrough port) ops := by
  obtain ⟨port, rest, hi⟩ := output_of_mapped hops
  have hs : Sendable platform packet.sendThrough port := by
    by_contra hn
    obtain ⟨message, he⟩ := refused_of_not_sendable h hi hn
    rw [he] at hops
    cases hops
  obtain ⟨ops', hmap, hback⟩ := Positional.mapM_ok fun target ht =>
    created_read_back h hm hl packet.sendThrough hd (hs.fits target ht)
  rw [mapOutboundPacket_output hi, if_pos hs.reachable, hmap] at hops
  obtain rfl := Except.ok.inj hops
  exact ⟨port, rest, hi, hback⟩

namespace PacketIn

-- A frame is told by its bytes; one shorter than an Ethernet header is not one.
def frames : Receiver Int64 Bytes Bytes Unit Bytes :=
  { deserialize := fun bytes offset length =>
      if length < 14 then .error "Unable to deserialize" else .ok ((bytes.drop offset).take length)
    size := List.length
    asReadOnlyBuffer := id
    portNumber := id
    deviceName := fun _ => "device"
    operationName := fun _ => "packet-in" }

theorem frames_lawful (ports : List Int64) : frames.Lawful (portNumbers ports) where
  size := fun _ => rfl
  asReadOnlyBuffer := fun _ => rfl
  portNumber := fun _ => rfl

theorem portNumbers_fits (ports : List Int64) : (portNumbers ports).FitsMinimally := by
  intro s width fitted _ hfit
  have hbytes : fitBytes s width = .ok fitted := hfit
  rw [fitBytes] at hbytes
  split at hbytes
  · obtain rfl := Except.ok.inj hbytes
    exact BigEndian.length_digits _ _
  · cases hbytes

def frame : Bytes := [0xff, 0xff, 0xff, 0xff, 0xff, 0xff, 2, 0, 0, 0, 0, 1, 8, 0]

def received (value : Bytes) : PiPacketOperation Bytes :=
  { type := .packetIn, data := frame, metadatas := [{ id := "ingress_port", value := value }] }

-- A value without its leading zero byte, and one padded to four bytes.
example : mapInboundPacket (portNumbers [1]) frames (received [1]) () = .error .bufferUnderflow :=
  rfl

example : mapInboundPacket (portNumbers [1]) frames (received [0, 0, 0, 1]) () =
    .ok { receivedFrom := { deviceId := (), port := 0 }, parsed := frame, unparsed := frame } := rfl

theorem inbound_exact_canonical :
    InboundExact (portNumbers [1]) frames (received [1]) () :=
  inbound_exact (frames_lawful [1]) (received [1]) ()

def flooded : OutboundPacket Int64 String Bytes Unit :=
  { sendThrough := (), treatment := { allInstructions := [.output (-5)] }, data := frame }

def floodedOp (value : Bytes) : PiPacketOperation Bytes :=
  { type := .packetOut, data := frame, metadatas := [{ id := "egress_port", value := value }] }

theorem flooded_read_back :
    ∃ port rest, flooded.treatment.allInstructions = .output port :: rest ∧
      List.Forall₂ (ReadBack (portNumbers [1, 258]) frames () frame frame)
        (targets (portNumbers [1, 258]) () port) [floodedOp [0, 1], floodedOp [1, 2]] :=
  packet_out_read_back (portNumbers_lawful [1, 258]) (portNumbers_fits [1, 258])
    (frames_lawful [1, 258]) (by decide) rfl

end PacketIn

end Onos
