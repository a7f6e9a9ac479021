import T4P4SRuntime.Session.Ledger

namespace Session

open Device P4Config P4v1 Exec

def IsActive (state : State) (digest : DigestRecord) : Prop :=
  ∃ it, state.server.dm.digestMap.find? (fun it => it.name = digest.fieldListName.val) = some it ∧
    it.active = true

def IsOpen (registered : List Nat) (state : State) (stream : Nat) : Prop :=
  stream ∈ registered ∧ stream ∈ state.running

structure Delivers (registered : List Nat) (state : State) (digest : DigestRecord)
    (log : List Output) : Prop where
  only_open : ∀ output ∈ log, ∃ write, output = .stream write ∧
    IsOpen registered state write.stream
  silent : (∀ stream, ¬IsOpen registered state stream) → log = []
  written : IsActive state digest → (∃ stream, IsOpen registered state stream) →
    ∃ write, Output.stream write ∈ log ∧ IsOpen registered state write.stream

def DigestDelivered (registered : List Nat) (state : State) (digest : DigestRecord)
    (digestId : UInt64) (timestamp : Int64) : Prop :=
  ∃ log, step state (.sendDigest digest digestId timestamp) = ⟨log, .ok (state, .sent)⟩ ∧
    Delivers registered state digest log

def LastRuns (registered : List Nat) (state : State) : Prop :=
  ∃ stream, registered.head? = some stream ∧ stream ∈ state.running

variable {deviceId : UInt64} {history : List Moment} {state : State} {digest : DigestRecord}
  {digestId : UInt64} {timestamp : Int64}

theorem sendDigest_inactive {dm : DeviceMgr}
    (h : ∀ it, dm.digestMap.find? (fun it => it.name = digest.fieldListName.val) = some it →
      it.active = false) :
    devMgrSendDigest dm digest digestId timestamp = pure () := by
  rw [devMgrSendDigest]
  split
  · rfl
  · rename_i it hit
    rw [if_neg (by simp [h it hit])]

theorem sendDigest_active {dm : DeviceMgr} {it : DigestState}
    (hit : dm.digestMap.find? (fun it => it.name = digest.fieldListName.val) = some it)
    (ha : it.active = true) :
    devMgrSendDigest dm digest digestId timestamp =
      match dm.stream with
      | none => fault .nullStream
      | some stream =>
          emit { stream := stream, response := .digest (digestList it digest timestamp) } := by
  rw [devMgrSendDigest, hit]
  simp only [ha, if_true]
  cases dm.stream <;> rfl

theorem step_send_inactive (h : ¬IsActive state digest) :
    step state (.sendDigest digest digestId timestamp) = ⟨[], .ok (state, .sent)⟩ := by
  have hin : devMgrSendDigest state.server.dm digest digestId timestamp = pure () :=
    sendDigest_inactive fun it hit => by
      cases ha : it.active with
      | false => rfl
      | true => exact absurd ⟨it, hit, ha⟩ h
  rw [step, hin]
  rfl

theorem step_send_active (digestId : UInt64) (timestamp : Int64) {it : DigestState}
    (hit : state.server.dm.digestMap.find? (fun it => it.name = digest.fieldListName.val) = some it)
    (ha : it.active = true) :
    step state (.sendDigest digest digestId timestamp) =
      match state.server.dm.stream with
      | none => fault (.stream .nullStream)
      | some stream =>
          ⟨[.stream { stream := stream, response := .digest (digestList it digest timestamp) }],
            .ok (state, .sent)⟩ := by
  rw [step, sendDigest_active hit ha]
  cases state.server.dm.stream <;> rfl

theorem lastRuns_of_delivered (h : Happens deviceId history state)
    (hd : DigestDelivered (ledger history).registered state digest digestId timestamp)
    (hactive : IsActive state digest) : LastRuns (ledger history).registered state := by
  obtain ⟨log, he, hdelivers⟩ := hd
  obtain ⟨it, hit, ha⟩ := hactive
  rw [step_send_active digestId timestamp hit ha, (tracks_of_happens h).stream] at he
  cases hlast : (ledger history).registered.head? with
  | none =>
      rw [hlast] at he
      cases he
  | some stream =>
      rw [hlast] at he
      obtain ⟨rfl, -⟩ := Exec.mk.inj he
      obtain ⟨write, hw, -, hrun⟩ := hdelivers.only_open _ (List.mem_singleton_self _)
      obtain rfl := Output.stream.inj hw
      exact ⟨stream, hlast, hrun⟩

theorem delivered_of_lastRuns (h : Happens deviceId history state)
    (hactive : IsActive state digest) (hlast : LastRuns (ledger history).registered state) :
    DigestDelivered (ledger history).registered state digest digestId timestamp := by
  obtain ⟨stream, hhead, hrun⟩ := hlast
  obtain ⟨it, hit, ha⟩ := hactive
  have hsend := step_send_active digestId timestamp hit ha
  have hopen : IsOpen (ledger history).registered state stream :=
    ⟨List.mem_of_mem_head? hhead, hrun⟩
  rw [(tracks_of_happens h).stream, hhead] at hsend
  exact ⟨_, hsend,
    { only_open := fun output ho => ⟨_, List.mem_singleton.mp ho, hopen⟩
      silent := fun hnone => absurd hopen (hnone stream)
      written := fun _ _ => ⟨_, List.mem_singleton_self _, hopen⟩ }⟩

theorem delivered_of_inactive {registered : List Nat} (h : ¬IsActive state digest) :
    DigestDelivered registered state digest digestId timestamp :=
  ⟨[], step_send_inactive h,
    { only_open := fun _ ho => absurd ho List.not_mem_nil
      silent := fun _ => rfl
      written := fun hactive => absurd hactive h }⟩

theorem digest_delivered_iff (h : Happens deviceId history state) (digest : DigestRecord)
    (digestId : UInt64) (timestamp : Int64) :
    DigestDelivered (ledger history).registered state digest digestId timestamp ↔
      (IsActive state digest → LastRuns (ledger history).registered state) := by
  constructor
  · intro hd hactive
    exact lastRuns_of_delivered h hd hactive
  · intro hlive
    by_cases hactive : IsActive state digest
    · exact delivered_of_lastRuns h hactive (hlive hactive)
    · exact delivered_of_inactive hactive

end Session

namespace L2fwd

open Device P4Config P4v1 Session

def learnInfo : P4Info :=
  { P4Info.empty with digests := [{ preamble := { id := 401, name := "mac_learn_digest" } }] }

def learnPushed : Moment :=
  { event := .rpc (.setForwardingPipelineConfig (pushOf learnInfo) Disk.reliable)
    outcome := .reply (.setForwardingPipelineConfig (Status.make .ok "ok")) }

def digestWrite (updateType : UpdateType) : WriteRequest :=
  { deviceId := 1
    updates := [{ type := updateType, entity := .digestEntry { digestId := 401 } }]
    atomicity := .continueOnError }

def digestWritten (updateType : UpdateType) : Moment :=
  { event := .rpc (.write (digestWrite updateType)), outcome := .reply (.write Status.success) }

def learnState : State := { server := serverAfter learnInfo, running := [], opened := 0 }

def learningServer : Server :=
  { serverAfter learnInfo with
    dm := { (serverAfter learnInfo).dm with
      digestMap := [{ name := "mac_learn_digest", id := 401, active := true }] } }

def learningState : State := { server := learningServer, running := [], opened := 0 }

theorem happens_learnPushed : Happens 1 [learnPushed] learnState := .step .start ⟨[], rfl⟩

theorem happens_digestWritten (updateType : UpdateType) :
    Happens 1 [digestWritten updateType, learnPushed] learningState :=
  .step happens_learnPushed ⟨[], rfl⟩

def macLearnDigest : DigestRecord := { fieldListName := cStr "mac_learn_digest", fields := [] }

def streamOpened : Moment := { event := .openStream, outcome := .opened 0 }

def streamArbitrated : Moment :=
  { event := .streamMessage 0 (.arbitration 1 { high := 0, low := 1 }), outcome := .arbitrated }

def streamClosed : Moment :=
  { event := .closeStream 0, outcome := .ended (Status.make .ok "") }

def connected : List Moment :=
  [streamArbitrated, streamOpened, digestWritten .insert, learnPushed]

def connectedState : State :=
  { server := { learningServer with dm := { learningServer.dm with stream := some 0 } }
    running := [0]
    opened := 1 }

def disconnectedState : State := { connectedState with running := [] }

theorem happens_connected : Happens 1 connected connectedState := by
  have hopened : Happens 1 [streamOpened, digestWritten .insert, learnPushed]
      { learningState with running := [0], opened := 1 } :=
    .step (happens_digestWritten .insert) ⟨[], rfl⟩
  exact .step hopened ⟨[.stream (notifyOne 0 1 { high := 0, low := 1 })], rfl⟩

theorem happens_disconnected : Happens 1 (streamClosed :: connected) disconnectedState :=
  .step happens_connected ⟨[], rfl⟩

end L2fwd

namespace Session

open Device

namespace DigestDelivery

theorem active_macLearnDigest : IsActive L2fwd.disconnectedState L2fwd.macLearnDigest :=
  ⟨{ name := "mac_learn_digest", id := 401, active := true }, by decide, rfl⟩

theorem digest_delivered_connected :
    DigestDelivered (ledger L2fwd.connected).registered L2fwd.connectedState L2fwd.macLearnDigest
        0 0 ↔
      (IsActive L2fwd.connectedState L2fwd.macLearnDigest →
        LastRuns (ledger L2fwd.connected).registered L2fwd.connectedState) :=
  digest_delivered_iff L2fwd.happens_connected L2fwd.macLearnDigest 0 0

theorem digest_written_to_closed_stream :
    Happens 1 (L2fwd.streamClosed :: L2fwd.connected) L2fwd.disconnectedState ∧
      L2fwd.disconnectedState.running = [] ∧
      ¬DigestDelivered (ledger (L2fwd.streamClosed :: L2fwd.connected)).registered
        L2fwd.disconnectedState L2fwd.macLearnDigest 0 0 := by
  refine ⟨L2fwd.happens_disconnected, rfl, ?_⟩
  rintro ⟨log, he, hd⟩
  obtain ⟨it, hit, ha⟩ := active_macLearnDigest
  have hsend := step_send_active 0 0 hit ha
  obtain ⟨rfl, -⟩ := Exec.mk.inj (he.symm.trans hsend)
  obtain ⟨_, -, -, hrun⟩ := hd.only_open _ (List.mem_singleton_self _)
  exact absurd hrun List.not_mem_nil

end DigestDelivery

end Session
