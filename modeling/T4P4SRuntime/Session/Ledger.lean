import T4P4SRuntime.L2fwd
import T4P4SRuntime.Session.Turns

namespace Session

open Device IdMap P4Config P4v1 Exec

-- What a controller can tell from the calls it made and their outcomes.
structure Ledger where
  config : Option ForwardingPipelineConfig
  saved : Bool
  updates : List (UInt32 × UpdateType)
  registered : List Nat

def Ledger.blank : Ledger := { config := none, saved := false, updates := [], registered := [] }

def digestUpdate (update : Update) : Option (UInt32 × UpdateType) :=
  match update.entity with
  | .digestEntry entry => some (entry.digestId, update.type)
  | .tableEntry _ | .counterEntry _ | .directCounterEntry | .other => none

def digestUpdates (updates : List Update) : List (UInt32 × UpdateType) :=
  (updates.filterMap digestUpdate).reverse

def Ledger.observeRpc (ledger : Ledger) : Rpc → Ledger
  | .setForwardingPipelineConfig request disk =>
      if ConfigAction.applied request.action then
        { ledger with
          config := some request.config, saved := decide (disk = Disk.reliable), updates := [] }
      else ledger
  | .write request =>
      if ledger.config.isSome ∧ request.atomicity = .continueOnError then
        { ledger with updates := digestUpdates request.updates ++ ledger.updates }
      else ledger
  | .read _ _ => ledger

def Ledger.observe (ledger : Ledger) (moment : Moment) : Ledger :=
  match moment.event, moment.outcome with
  | .rpc rpc, _ => ledger.observeRpc rpc
  | .streamMessage stream _, .arbitrated =>
      { ledger with registered := stream :: ledger.registered }
  | _, _ => ledger

def ledger (history : List Moment) : Ledger := Replay.view Ledger.blank Ledger.observe history

theorem ledger_rpc (rpc : Rpc) (outcome : Outcome) (history : List Moment) :
    ledger ({ event := .rpc rpc, outcome := outcome } :: history) =
      (ledger history).observeRpc rpc := rfl

def activateAll (map : DigestMap) (updates : List (UInt32 × UpdateType)) : DigestMap :=
  updates.foldr (fun update map => activateDigest map update.1.toUInt64) map

structure Unconfigured (server : Server) : Prop where
  has_p4info : server.dm.hasP4info = false
  id_map : server.dm.idMap = initMap
  digests : server.dm.digestMap = []

structure Configured (ledger : Ledger) (config : ForwardingPipelineConfig) (server : Server) :
    Prop where
  has_p4info : server.dm.hasP4info = true
  p4info : server.dm.p4info = config.p4info
  has_cookie : server.hasConfigCookie = true
  cookie : server.configCookie = config.cookie.getD 0
  digests : server.dm.digestMap =
    activateAll (inactiveDigests config.p4info.digests) ledger.updates
  saved : ledger.saved = true → server.savedDeviceConfig.Saves config.p4DeviceConfig

structure Tracks (ledger : Ledger) (state : State) : Prop where
  stream : state.server.dm.stream = ledger.registered.head?
  unconfigured : ledger.config = none → Unconfigured state.server
  configured : ∀ config, ledger.config = some config → Configured ledger config state.server

variable {deviceId : UInt64} {history : List Moment} {state state' : State} {moment : Moment}
  {account : Ledger} {log : List Output} {outcome : Outcome}

theorem Tracks.has_p4info (h : Tracks account state) :
    state.server.dm.hasP4info = account.config.isSome := by
  cases hc : account.config with
  | none => exact (h.unconfigured hc).has_p4info
  | some config => exact (h.configured config hc).has_p4info

theorem tracks_start (deviceId : UInt64) : Tracks Ledger.blank (State.init deviceId) where
  stream := rfl
  unconfigured := fun _ => ⟨rfl, rfl, rfl⟩
  configured := fun _ h => by cases h

theorem foldl_afterUpdate (dm : DeviceMgr) (updates : List Update) :
    updates.foldl afterUpdate dm =
      { dm with digestMap := activateAll dm.digestMap (digestUpdates updates) } := by
  induction updates generalizing dm with
  | nil => rfl
  | cons update updates ih =>
      rw [List.foldl_cons, ih]
      cases hu : update.entity <;>
        simp [afterUpdate, digestUpdates, digestUpdate, activateAll, hu]

theorem activateAll_append (map : DigestMap) (newer older : List (UInt32 × UpdateType)) :
    activateAll map (newer ++ older) = activateAll (activateAll map older) newer := by
  simp [activateAll]

theorem tracks_write {request : WriteRequest} {reply : Reply} {effects : List Effect}
    {server : Server} (h : Tracks account state)
    (hs : serve state.server (.write request) = ⟨effects, .ok (server, reply)⟩) :
    Tracks (account.observeRpc (.write request)) { state with server := server } := by
  rw [Ledger.observeRpc]
  cases hc : account.config with
  | none =>
      have hp := (h.unconfigured hc).has_p4info
      rw [serve_write_unconfigured request hp] at hs
      obtain ⟨rfl, -⟩ := Prod.mk.inj (Except.ok.inj (Exec.mk.inj hs).2)
      simpa [hc] using h
  | some config =>
      have hconf := h.configured config hc
      rw [(serve_write_ok hconf.has_p4info hs).2]
      rcases eq_or_ne request.atomicity .continueOnError with ha | ha
      · simp only [ha, Option.isSome_some, and_self, if_true, foldl_afterUpdate]
        exact
          { stream := h.stream
            unconfigured := fun hn => by cases hn
            configured := fun config' he => by
              obtain rfl : config = config' := Option.some.inj he
              exact { hconf with
                digests := by rw [activateAll_append, ← hconf.digests] } }
      · simpa [ha, hc] using h

theorem tracks_pushed {disk : Disk} {id : UInt64} {action : ConfigAction}
    {config : ForwardingPipelineConfig} {server : Server} (h : Tracks account state)
    (hp : PushedTo disk (withDeviceId state.server id) action config server) :
    Tracks (account.observeRpc (.setForwardingPipelineConfig
      { deviceId := id, action := action, config := config } disk))
      { state with server := server } := by
  rw [Ledger.observeRpc]
  cases hp with
  | ignored hn =>
      simp only [hn, Bool.false_eq_true, if_false]
      exact { h with
        unconfigured := fun hc => { h.unconfigured hc with }
        configured := fun config hc => { h.configured config hc with } }
  | applied ha _ =>
      simp only [ha, if_true]
      exact
        { stream := h.stream
          unconfigured := fun hn => by cases hn
          configured := fun config' he => by
            obtain rfl := Option.some.inj he
            exact
              { has_p4info := rfl, p4info := rfl, has_cookie := rfl, cookie := rfl, digests := rfl
                saved := fun hs => by
                  obtain rfl : disk = Disk.reliable := of_decide_eq_true hs
                  exact changeConfig_saves state.server.savedDeviceConfig config } }

theorem Tracks.same_but_file {server : Server} (h : Tracks account state)
    (hf : SameButFile state.server server) : Tracks account { state with server := server } := by
  obtain ⟨ho, hsaved⟩ := hf
  rw [ho] at hsaved ⊢
  exact { h with
    unconfigured := fun hc => { h.unconfigured hc with }
    configured := fun config hc =>
      { h.configured config hc with
        saved := fun hs => hsaved.saves ((h.configured config hc).saved hs) } }

theorem tracks_rpc {rpc : Rpc} {reply : Reply} {effects : List Effect} {server : Server}
    (h : Tracks account state) (hs : serve state.server rpc = ⟨effects, .ok (server, reply)⟩) :
    Tracks (account.observeRpc rpc) { state with server := server } := by
  cases rpc with
  | write request => exact tracks_write h hs
  | read request getCounterByName =>
      rw [(serve_read_ok hs).1]
      exact h
  | setForwardingPipelineConfig request disk => exact tracks_pushed h (serve_set_ok hs).2.2

theorem tracks_step (h : Tracks account state)
    (hs : step state moment.event = ⟨log, .ok (state', moment.outcome)⟩) :
    Tracks (account.observe moment) state' := by
  obtain ⟨event, outcome⟩ := moment
  cases event with
  | rpc rpc =>
      obtain ⟨effects, server, reply, hserve, -, -, rfl⟩ := step_rpc_ok hs
      exact tracks_rpc h hserve
  | getForwardingPipelineConfig request disk =>
      rw [step_get_eq] at hs
      obtain ⟨rfl, -⟩ := Prod.mk.inj (Except.ok.inj (Exec.mk.inj hs).2)
      exact h.same_but_file (serviceGet_frame disk state.server request)
  | openStream =>
      obtain ⟨rfl, -⟩ := Prod.mk.inj (Except.ok.inj (Exec.mk.inj hs).2)
      exact { h with }
  | streamMessage stream request =>
      cases step_message_ok hs with
      | refused => exact { h with }
      | arbitrated =>
          exact
            { stream := rfl
              unconfigured := fun hc => { h.unconfigured hc with }
              configured := fun config hc => { h.configured config hc with } }
      | ignored => exact h
  | closeStream stream =>
      obtain ⟨rfl, -⟩ := Prod.mk.inj (Except.ok.inj (Exec.mk.inj hs).2)
      exact { h with }
  | sendDigest digest digestId timestamp =>
      obtain ⟨rfl, -⟩ := step_digest_ok hs
      exact h

theorem tracks_of_happens (h : Happens deviceId history state) : Tracks (ledger history) state :=
  Replay.Runs.tracks (tracks_start deviceId) (fun _ _ _ _ ht ⟨_, hs⟩ => tracks_step ht hs) h

end Session

namespace L2fwd

open Device Session

def pushed : Moment :=
  { event := .rpc (.setForwardingPipelineConfig (pushOf p4info) Disk.reliable)
    outcome := .reply (.setForwardingPipelineConfig (Status.make .ok "ok")) }

def state : State := { server := server, running := [], opened := 0 }

theorem happens_pushed : Happens 1 [pushed] state := .step .start ⟨_, step_rpc_of_serve served⟩

end L2fwd
