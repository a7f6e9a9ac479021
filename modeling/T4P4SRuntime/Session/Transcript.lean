import T4P4SRuntime.Device.DigestMap
import T4P4SRuntime.Session.ListIds

namespace Session

open Device P4Config P4v1 Exec

def openings : List Event → Nat
  | [] => 0
  | .openStream :: events => openings events + 1
  | _ :: events => openings events

def currentDevice (deviceId : UInt64) : List Event → UInt64
  | [] => deviceId
  | .rpc (.setForwardingPipelineConfig request _) :: _ => request.deviceId
  | _ :: events => currentDevice deviceId events

def isRunning (deviceId : UInt64) (stream : Nat) : List Event → Bool
  | [] => false
  | .openStream :: events => stream = openings events || isRunning deviceId stream events
  | .closeStream closed :: events => stream ≠ closed && isRunning deviceId stream events
  | .streamMessage addressed (.arbitration requested _) :: events =>
      (stream ≠ addressed || currentDevice deviceId events = requested) &&
        isRunning deviceId stream events
  | _ :: events => isRunning deviceId stream events

def accepts (deviceId : UInt64) (events : List Event) (stream : Nat) (requested : UInt64) : Bool :=
  isRunning deviceId stream events && currentDevice deviceId events = requested

def holder (deviceId : UInt64) : List Event → Option Nat
  | [] => none
  | .streamMessage stream (.arbitration requested _) :: events =>
      if accepts deviceId events stream requested then some stream else holder deviceId events
  | _ :: events => holder deviceId events

def activeDigest (map : DigestMap) (digest : DigestRecord) : Option DigestState :=
  (map.lookup digest.fieldListName.val).filter DigestState.active

-- What the server writes on its streams when `event` follows the moments of `history`.
def reaction (deviceId : UInt64) (history : List Moment) : Event → Option StreamWrite
  | .streamMessage stream (.arbitration requested electionId) =>
      if accepts deviceId (history.map Moment.event) stream requested then
        some (notifyOne stream requested electionId)
      else none
  | .sendDigest digest _ timestamp => do
      let it ← activeDigest (digestMapOf (ledger history)) digest
      let stream ← holder deviceId (history.map Moment.event)
      some { stream := stream, response := .digest (digestList it digest timestamp) }
  | _ => none

def transcript (deviceId : UInt64) : List Moment → List StreamWrite
  | [] => []
  | moment :: history =>
      (reaction deviceId history moment.event).toList ++ transcript deviceId history

def writeOf : Output → Option StreamWrite
  | .stream write => some write
  | .device _ => none

def streamWrites (turns : List Turn) : List StreamWrite :=
  turns.flatMap (fun turn => (turn.log.filterMap writeOf).reverse)

structure Keeps (deviceId : UInt64) (events : List Event) (state : State) : Prop where
  device : state.server.dm.deviceId = currentDevice deviceId events
  opened : state.opened = openings events
  running : ∀ stream, stream ∈ state.running ↔ isRunning deviceId stream events = true
  holder : state.server.dm.stream = holder deviceId events

variable {deviceId : UInt64} {history : List Moment} {events : List Event} {turns : List Turn}
  {state state' : State} {event : Event} {log : List Output} {outcome : Outcome} {stream : Nat}

theorem keeps_start (deviceId : UInt64) : Keeps deviceId [] (State.init deviceId) where
  device := rfl
  opened := rfl
  running := fun _ => by simp [State.init, isRunning]
  holder := rfl

theorem Keeps.accepts_iff (h : Keeps deviceId events state) (stream : Nat) (requested : UInt64) :
    accepts deviceId events stream requested = true ↔
      stream ∈ state.running ∧ state.server.dm.deviceId = requested := by
  rw [accepts, Bool.and_eq_true, decide_eq_true_eq, h.running, h.device]

theorem serve_device_id {server server' : Server} {rpc : Rpc} {effects : List Effect}
    {reply : Reply} (h : serve server rpc = ⟨effects, .ok (server', reply)⟩) :
    server'.dm.deviceId = currentDevice server.dm.deviceId [.rpc rpc] ∧
      server'.dm.stream = server.dm.stream := by
  cases rpc with
  | write request =>
      have hframe := serveWrite_frame h
      rw [hframe]
      exact ⟨rfl, rfl⟩
  | read request getCounterByName =>
      rw [(serve_read_ok h).1]
      exact ⟨rfl, rfl⟩
  | setForwardingPipelineConfig request disk =>
      cases (serve_set_ok h).2.2 <;> exact ⟨rfl, rfl⟩

theorem currentDevice_rpc (deviceId : UInt64) (rpc : Rpc) (events : List Event) :
    currentDevice deviceId (.rpc rpc :: events) =
      currentDevice (currentDevice deviceId events) [.rpc rpc] := by
  cases rpc <;> rfl

theorem step_arbitration (state : State) (stream : Nat) (requested : UInt64)
    (electionId : Uint128) :
    step state (.streamMessage stream (.arbitration requested electionId)) =
      if stream ∈ state.running then
        if state.server.dm.deviceId = requested then
          ⟨[.stream (notifyOne stream requested electionId)],
            .ok (state.registerStream stream, .arbitrated)⟩
        else
          ⟨[], .ok (state.endStream stream,
            .ended (Status.make .failedPrecondition "Invalid device id"))⟩
      else ⟨[], .ok (state, .ignored)⟩ := by
  rw [step, handleMessage, ite_not]
  split_ifs <;> rfl

theorem Keeps.rpc {rpc : Rpc} {effects : List Effect} {server : Server} {reply : Reply}
    (h : Keeps deviceId events state)
    (hs : serve state.server rpc = ⟨effects, .ok (server, reply)⟩) :
    Keeps deviceId (.rpc rpc :: events) { state with server := server } where
  device := by
    rw [currentDevice_rpc, ← h.device]
    exact (serve_device_id hs).1
  opened := h.opened
  running := h.running
  holder := (serve_device_id hs).2.trans h.holder

theorem mem_endStream (stream ended : Nat) :
    stream ∈ (state.endStream ended).running ↔ stream ≠ ended ∧ stream ∈ state.running := by
  simp [State.endStream, and_comm]

theorem Keeps.arbitration {requested : UInt64} {electionId : Uint128}
    (h : Keeps deviceId events state)
    (hs : step state (.streamMessage stream (.arbitration requested electionId)) =
      ⟨log, .ok (state', outcome)⟩) :
    Keeps deviceId (.streamMessage stream (.arbitration requested electionId) :: events) state' := by
  have haccepts := h.accepts_iff stream requested
  rw [step_arbitration] at hs
  split_ifs at hs with hmem hid
  · obtain ⟨rfl, -⟩ := Prod.mk.inj (Except.ok.inj (Exec.mk.inj hs).2)
    exact
      { device := h.device
        opened := h.opened
        running := fun s => by simp [isRunning, ← h.device, hid, State.registerStream, h.running]
        holder := by rw [Session.holder, if_pos (haccepts.mpr ⟨hmem, hid⟩)]; rfl }
  · obtain ⟨rfl, -⟩ := Prod.mk.inj (Except.ok.inj (Exec.mk.inj hs).2)
    exact
      { device := h.device
        opened := h.opened
        running := fun s => by simp [mem_endStream, isRunning, ← h.device, hid, h.running]
        holder := by rw [Session.holder, if_neg fun ha => hid (haccepts.mp ha).2]; exact h.holder }
  · obtain ⟨rfl, -⟩ := Prod.mk.inj (Except.ok.inj (Exec.mk.inj hs).2)
    refine
      { device := h.device
        opened := h.opened
        running := fun s => ?_
        holder := by rw [Session.holder, if_neg fun ha => hmem (haccepts.mp ha).1]; exact h.holder }
    rcases eq_or_ne s stream with rfl | hne
    · have hrun : isRunning deviceId s events = false := by
        rw [← Bool.not_eq_true, ← h.running]
        exact hmem
      simp [isRunning, hrun, hmem]
    · simp [isRunning, hne, h.running]

theorem Keeps.step (h : Keeps deviceId events state)
    (hs : step state event = ⟨log, .ok (state', outcome)⟩) :
    Keeps deviceId (event :: events) state' := by
  cases event with
  | rpc rpc =>
      obtain ⟨effects, server, reply, hserve, -, -, rfl⟩ := step_rpc_ok hs
      exact h.rpc hserve
  | getForwardingPipelineConfig request disk =>
      rw [step_get_eq] at hs
      obtain ⟨rfl, -⟩ := Prod.mk.inj (Except.ok.inj (Exec.mk.inj hs).2)
      have hframe := (serviceGet_frame disk state.server request).others
      refine { device := ?_, opened := h.opened, running := h.running, holder := ?_ }
      · rw [hframe]
        exact h.device
      · rw [hframe]
        exact h.holder
  | openStream =>
      obtain ⟨rfl, -⟩ := Prod.mk.inj (Except.ok.inj (Exec.mk.inj hs).2)
      exact
        { device := h.device
          opened := congrArg (· + 1) h.opened
          running := fun s => by simp [isRunning, h.opened, h.running]
          holder := h.holder }
  | streamMessage stream request =>
      cases request with
      | arbitration requested electionId => exact h.arbitration hs
      | packet | digestAck | other =>
          cases step_message_ok hs
          exact { device := h.device, opened := h.opened, running := h.running, holder := h.holder }
  | closeStream closed =>
      obtain ⟨rfl, -⟩ := Prod.mk.inj (Except.ok.inj (Exec.mk.inj hs).2)
      exact
        { device := h.device
          opened := h.opened
          running := fun s => by simp [mem_endStream, isRunning, h.running]
          holder := h.holder }
  | sendDigest digest digestId timestamp =>
      obtain ⟨rfl, -⟩ := step_digest_ok hs
      exact { device := h.device, opened := h.opened, running := h.running, holder := h.holder }

theorem keeps_of_happens (h : Happens deviceId history state) :
    Keeps deviceId (history.map Moment.event) state := by
  induction h with
  | start => exact keeps_start deviceId
  | step _ hs ih =>
      obtain ⟨log, hstep⟩ := hs
      exact ih.step hstep

theorem activeDigest_eq {map : DigestMap} {digest : DigestRecord} {it : DigestState}
    (hit : map.find? (fun it => it.name = digest.fieldListName.val) = some it)
    (ha : it.active = true) : activeDigest map digest = some it := by
  rw [activeDigest, DigestMap.lookup, hit]
  exact if_pos ha

theorem activeDigest_eq_none {digest : DigestRecord} (h : ¬IsActive state digest) :
    activeDigest state.server.dm.digestMap digest = none := by
  rw [activeDigest, DigestMap.lookup, Option.filter_eq_none_iff]
  intro it hit ha
  exact h ⟨it, hit, ha⟩

theorem filterMap_writeOf_device (effects : List Effect) :
    (effects.map Output.device).filterMap writeOf = [] := by
  rw [List.filterMap_map]
  exact List.filterMap_eq_nil_iff.mpr fun _ _ => rfl

theorem reaction_send (h : Happens deviceId history state) {digest : DigestRecord}
    {digestId : UInt64} {timestamp : Int64}
    (hs : step state (.sendDigest digest digestId timestamp) = ⟨log, .ok (state', outcome)⟩) :
    log.filterMap writeOf =
      (reaction deviceId history (.sendDigest digest digestId timestamp)).toList := by
  have hmap := (tracks_of_happens h).digest_map
  have hholder := (keeps_of_happens h).holder
  by_cases hactive : IsActive state digest
  · obtain ⟨it, hit, ha⟩ := hactive
    rw [step_send_active digestId timestamp hit ha, hholder] at hs
    rw [reaction, ← hmap, activeDigest_eq hit ha]
    cases hh : holder deviceId (history.map Moment.event) with
    | none =>
        rw [hh] at hs
        cases hs
    | some stream =>
        rw [hh] at hs
        obtain ⟨rfl, -⟩ := Exec.mk.inj hs
        rfl
  · rw [step_send_inactive hactive] at hs
    obtain ⟨rfl, -⟩ := Exec.mk.inj hs
    rw [reaction, ← hmap, activeDigest_eq_none hactive]
    rfl

theorem reaction_arbitration (h : Happens deviceId history state) {requested : UInt64}
    {electionId : Uint128}
    (hs : step state (.streamMessage stream (.arbitration requested electionId)) =
      ⟨log, .ok (state', outcome)⟩) :
    log.filterMap writeOf =
      (reaction deviceId history
        (.streamMessage stream (.arbitration requested electionId))).toList := by
  have haccepts := (keeps_of_happens h).accepts_iff stream requested
  rw [step_arbitration] at hs
  rw [reaction]
  split_ifs at hs with hmem hid
  · obtain ⟨rfl, -⟩ := Exec.mk.inj hs
    rw [if_pos (haccepts.mpr ⟨hmem, hid⟩)]
    rfl
  · obtain ⟨rfl, -⟩ := Exec.mk.inj hs
    rw [if_neg fun ha => hid (haccepts.mp ha).2]
    rfl
  · obtain ⟨rfl, -⟩ := Exec.mk.inj hs
    rw [if_neg fun ha => hmem (haccepts.mp ha).1]
    rfl

theorem reaction_step (h : Happens deviceId history state)
    (hs : step state event = ⟨log, .ok (state', outcome)⟩) :
    log.filterMap writeOf = (reaction deviceId history event).toList := by
  cases event with
  | rpc rpc =>
      obtain ⟨effects, _, _, -, rfl, -⟩ := step_rpc_ok hs
      exact filterMap_writeOf_device effects
  | streamMessage stream request =>
      cases request with
      | arbitration requested electionId => exact reaction_arbitration h hs
      | packet | digestAck | other =>
          cases step_message_ok hs
          rfl
  | getForwardingPipelineConfig | openStream | closeStream =>
      obtain ⟨rfl, -⟩ := Exec.mk.inj hs
      rfl
  | sendDigest digest digestId timestamp => exact reaction_send h hs

def SendsTo (turn : Turn) (stream : Nat) : Prop :=
  ∃ list, Output.stream { stream := stream, response := .digest list } ∈ turn.log

def arbitratedStream (moment : Moment) : Option Nat :=
  match moment.event, moment.outcome with
  | .streamMessage stream _, .arbitrated => some stream
  | _, _ => none

theorem observeRpc_registered (account : Ledger) (rpc : Rpc) :
    (account.observeRpc rpc).registered = account.registered := by
  cases rpc with
  | write | setForwardingPipelineConfig =>
      rw [Ledger.observeRpc]
      split_ifs <;> rfl
  | read => rfl

theorem registered_append (between earlier : List Moment) :
    (ledger (between ++ earlier)).registered =
      between.filterMap arbitratedStream ++ (ledger earlier).registered := by
  induction between with
  | nil => rfl
  | cons moment between ih =>
      have hobserve : (ledger (moment :: between ++ earlier)).registered =
          (arbitratedStream moment).toList ++ (ledger (between ++ earlier)).registered := by
        obtain ⟨event, outcome⟩ := moment
        cases event with
        | rpc rpc =>
            rw [List.cons_append, ledger_rpc]
            exact observeRpc_registered _ rpc
        | streamMessage stream request => cases outcome <;> rfl
        | getForwardingPipelineConfig | openStream | closeStream | sendDigest => rfl
      rw [hobserve, ih]
      cases hm : arbitratedStream moment with
      | none => rw [List.filterMap_cons_none hm]; rfl
      | some stream => rw [List.filterMap_cons_some hm]; rfl

theorem sendsTo_registered (h : Logged deviceId turns state) {turn : Turn}
    (hs : step state turn.moment.event = ⟨turn.log, .ok (state', turn.moment.outcome)⟩)
    (hsend : SendsTo turn stream) :
    (ledger (turns.map Turn.moment)).registered.head? = some stream ∧
      arbitratedStream turn.moment = none := by
  have htracks := tracks_of_happens (happens_of_logged h)
  obtain ⟨list, hmem⟩ := hsend
  obtain ⟨⟨event, outcome⟩, log⟩ := turn
  cases event with
  | rpc rpc =>
      obtain ⟨effects, _, _, -, rfl, -⟩ := step_rpc_ok hs
      obtain ⟨effect, -, heff⟩ := List.mem_map.mp hmem
      cases heff
  | streamMessage stream request =>
      cases step_message_ok hs with
      | refused | ignored => cases hmem
      | arbitrated => cases List.mem_singleton.mp hmem
  | getForwardingPipelineConfig | openStream | closeStream =>
      obtain ⟨rfl, -⟩ := Exec.mk.inj hs
      cases hmem
  | sendDigest digest digestId timestamp =>
      refine ⟨?_, rfl⟩
      by_cases hactive : IsActive state digest
      · obtain ⟨it, hit, ha⟩ := hactive
        rw [step_send_active digestId timestamp hit ha] at hs
        rw [← htracks.stream]
        cases hstream : state.server.dm.stream with
        | none =>
            rw [hstream] at hs
            cases hs
        | some current =>
            rw [hstream] at hs
            obtain ⟨rfl, -⟩ := Exec.mk.inj hs
            have hwrite := Output.stream.inj (List.mem_singleton.mp hmem)
            exact congrArg (fun write : StreamWrite => some write.stream) hwrite.symm
      · rw [step_send_inactive hactive] at hs
        obtain ⟨rfl, -⟩ := Exec.mk.inj hs
        cases hmem

namespace Transcript

open ListIds

def secondOpened : Turn := { moment := { event := .openStream, outcome := .opened 1 }, log := [] }

-- Its election id is the lower one.
def secondArbitrated : Turn :=
  { moment :=
      { event := .streamMessage 1 (.arbitration 1 { high := 0, low := 0 }), outcome := .arbitrated }
    log := [.stream (notifyOne 1 1 { high := 0, low := 0 })] }

def learnedBySecond : Turn :=
  { moment := learned.moment, log := [.stream { stream := 1, response := .digest learnedList }] }

def sharedState : State :=
  { server :=
      { L2fwd.learningServer with dm := { L2fwd.learningServer.dm with stream := some 1 } }
    running := [1, 0]
    opened := 2 }

theorem logged_shared :
    Logged 1 ([] ++ learnedBySecond :: [secondArbitrated, secondOpened] ++ learned :: connected)
      sharedState := by
  have hopened : Logged 1 (secondOpened :: learned :: connected)
      { L2fwd.connectedState with running := [1, 0], opened := 2 } := .step logged_learned rfl
  have harbitrated : Logged 1 (secondArbitrated :: secondOpened :: learned :: connected)
      sharedState := .step hopened rfl
  exact .step harbitrated rfl

end Transcript

end Session
