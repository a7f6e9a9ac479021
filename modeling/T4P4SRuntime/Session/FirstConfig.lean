import T4P4SRuntime.Session.Ledger

namespace Session

open Device IdMap P4v1 Exec

def ConfigHandled (history : List Moment) : Prop :=
  ∃ moment ∈ history, ∃ request disk,
    moment.event = .rpc (.setForwardingPipelineConfig request disk) ∧
      ConfigAction.applied request.action = true

def Event.queries : Event → Bool
  | .rpc (.write _) | .rpc (.read _ _) | .getForwardingPipelineConfig _ _ => true
  | .rpc (.setForwardingPipelineConfig _ _) | .openStream | .streamMessage _ _ | .closeStream _
  | .sendDigest _ _ _ => false

def Outcome.code : Outcome → Option StatusCode
  | .reply answer => some answer.status.errorCode
  | .config _ status | .ended status => some status.errorCode
  | .opened _ | .arbitrated | .ignored | .sent => none

def IsArbitration (output : Output) : Prop :=
  ∃ stream deviceId electionId, output = .stream (notifyOne stream deviceId electionId)

structure NothingHappens (state : State) : Prop where
  id_map : state.server.dm.idMap = initMap
  digest_map : state.server.dm.digestMap = []
  refused : ∀ event, event.queries = true →
    ∃ outcome, step state event = ⟨[], .ok (state, outcome)⟩ ∧
      outcome.code = some .failedPrecondition
  quiet : ∀ event, ∀ output ∈ (step state event).log, IsArbitration output

def NeverRefusedAgain (state : State) : Prop :=
  ∀ event log state' outcome, event.queries = true →
    step state event = ⟨log, .ok (state', outcome)⟩ → outcome.code ≠ some .failedPrecondition

variable {deviceId : UInt64} {history : List Moment} {state state' : State} {log : List Output}
  {outcome : Outcome}

theorem observe_config_isSome (account : Ledger) (moment : Moment) :
    (account.observe moment).config.isSome = true ↔
      account.config.isSome = true ∨ ∃ request disk,
        moment.event = .rpc (.setForwardingPipelineConfig request disk) ∧
          ConfigAction.applied request.action = true := by
  obtain ⟨event, outcome⟩ := moment
  cases event with
  | rpc rpc =>
      cases rpc with
      | setForwardingPipelineConfig request disk =>
          simp only [Ledger.observe, Ledger.observeRpc]
          split <;> simp_all
      | write request =>
          simp only [Ledger.observe, Ledger.observeRpc]
          split <;> simp
      | read request getCounterByName => simp [Ledger.observe, Ledger.observeRpc]
  | streamMessage stream request => cases outcome <;> simp [Ledger.observe]
  | getForwardingPipelineConfig | openStream | closeStream | sendDigest => simp [Ledger.observe]

theorem config_isSome_iff (history : List Moment) :
    (ledger history).config.isSome = true ↔ ConfigHandled history := by
  induction history with
  | nil => simp [ledger, Replay.view, Ledger.blank, ConfigHandled]
  | cons moment history ih =>
      rw [ledger, Replay.view_cons, observe_config_isSome, ← ledger, ih, ConfigHandled,
        ConfigHandled, List.exists_mem_cons_iff, or_comm]

theorem step_query_unconfigured {event : Event} (hp : state.server.dm.hasP4info = false)
    (hq : event.queries = true) :
    ∃ outcome, step state event = ⟨[], .ok (state, outcome)⟩ ∧
      outcome.code = some .failedPrecondition := by
  cases event with
  | rpc rpc =>
      cases rpc with
      | write request =>
          refine ⟨.reply (.write noPipelineConfigStatus), ?_, rfl⟩
          rw [step, serve_write_unconfigured request hp]
          rfl
      | read request getCounterByName =>
          refine ⟨.reply (.read none noPipelineConfigStatus), ?_, rfl⟩
          rw [step, serve_read_unconfigured request getCounterByName hp]
          rfl
      | setForwardingPipelineConfig => cases hq
  | getForwardingPipelineConfig request disk =>
      refine ⟨.config none noPipelineConfigStatus, ?_, rfl⟩
      rw [step_get_eq, serviceGetForwardingPipelineConfig, if_pos hp]
  | openStream | streamMessage | closeStream | sendDigest => cases hq

theorem sendDigest_of_empty {dm : DeviceMgr} (h : dm.digestMap = []) (digest : DigestRecord)
    (digestId : UInt64) (timestamp : Int64) :
    devMgrSendDigest dm digest digestId timestamp = pure () := by
  simp [devMgrSendDigest, h]

theorem step_rpc_log_nil {rpc : Rpc} (h : (serve state.server rpc).log = []) :
    (step state (.rpc rpc)).log = [] :=
  bind_log_nil (congrArg (List.map Output.device) h) fun _ => rfl

theorem step_quiet_unconfigured (h : Unconfigured state.server) (event : Event) :
    ∀ output ∈ (step state event).log, IsArbitration output := by
  by_cases hq : event.queries = true
  · obtain ⟨outcome, he, -⟩ := step_query_unconfigured h.has_p4info hq
    simp [he]
  · cases event with
    | rpc rpc =>
        cases rpc with
        | setForwardingPipelineConfig request disk =>
            rw [step_rpc_log_nil (serve_set_log request disk)]
            exact fun _ ho => absurd ho List.not_mem_nil
        | write | read => exact absurd rfl hq
    | getForwardingPipelineConfig => exact absurd rfl hq
    | openStream | closeStream => exact fun _ ho => absurd ho List.not_mem_nil
    | streamMessage stream request =>
        intro output ho
        rw [step] at ho
        split at ho
        · cases request with
          | arbitration deviceId electionId =>
              rw [handleMessage] at ho
              split at ho
              · cases ho
              · exact ⟨stream, deviceId, electionId, List.mem_singleton.mp ho⟩
          | packet | digestAck | other => cases ho
        · cases ho
    | sendDigest digest digestId timestamp =>
        rw [step, sendDigest_of_empty h.digests]
        exact fun _ ho => absurd ho List.not_mem_nil

theorem step_query_configured {event : Event} (hp : state.server.dm.hasP4info = true)
    (hq : event.queries = true) (h : step state event = ⟨log, .ok (state', outcome)⟩) :
    outcome.code ≠ some .failedPrecondition := by
  cases event with
  | rpc rpc =>
      obtain ⟨effects, server, reply, hserve, -, rfl, -⟩ := step_rpc_ok h
      cases rpc with
      | write request =>
          exact fun hcode => (serve_write_ok hp hserve).1 (Option.some.inj hcode)
      | read request getCounterByName =>
          rw [Outcome.code, (serve_read_ok hserve).2 hp]
          decide
      | setForwardingPipelineConfig => cases hq
  | getForwardingPipelineConfig request disk =>
      rw [step_get_eq, serviceGetForwardingPipelineConfig, if_neg (by simp [hp])] at h
      obtain ⟨-, rfl⟩ := Prod.mk.inj (Except.ok.inj (Exec.mk.inj h).2)
      have hok : (devMgrGetPipelineConfig disk state.server request.responseType
          ReturnedConfig.empty).2.2 = Status.success := by
        cases request.responseType <;> rfl
      simp only [Outcome.code, hok]
      decide
  | openStream | streamMessage | closeStream | sendDigest => cases hq

theorem nothing_before_first_config (h : Happens deviceId history state) :
    (¬ConfigHandled history → NothingHappens state) ∧
      (ConfigHandled history → NeverRefusedAgain state) := by
  have htracks := tracks_of_happens h
  have hhas := htracks.has_p4info
  rw [← config_isSome_iff]
  constructor
  · intro hc
    have hun := htracks.unconfigured (Option.not_isSome_iff_eq_none.mp hc)
    exact
      { id_map := hun.id_map
        digest_map := hun.digests
        refused := fun event hq => step_query_unconfigured hun.has_p4info hq
        quiet := step_quiet_unconfigured hun }
  · intro hc event log state' outcome hq hs
    exact step_query_configured (hhas.trans hc) hq hs

namespace FirstConfig

def write : WriteRequest :=
  { deviceId := 1
    updates := [{ type := .insert, entity := .digestEntry { digestId := 401 } }]
    atomicity := .continueOnError }

-- A stream is registered and a digest offered, and every query is refused; the latest comes first.
def early : List Moment :=
  [{ event := .sendDigest { fieldListName := cStr "mac_learn_digest", fields := [] } 1 5
     outcome := .sent },
   { event := .getForwardingPipelineConfig { deviceId := 1, responseType := .all } ReadDisk.reliable
     outcome := .config none noPipelineConfigStatus },
   { event := .rpc (.write write), outcome := .reply (.write noPipelineConfigStatus) },
   { event := .streamMessage 0 (.arbitration 1 { high := 0, low := 7 }), outcome := .arbitrated },
   { event := .openStream, outcome := .opened 0 }]

def waiting : State := ({ State.init 1 with running := [0], opened := 1 } : State).registerStream 0

theorem happens_early : Happens 1 early waiting :=
  .step (.step (.step (.step (.step .start ⟨[], rfl⟩)
    ⟨[.stream (notifyOne 0 1 { high := 0, low := 7 })], rfl⟩) ⟨[], rfl⟩) ⟨[], rfl⟩) ⟨[], rfl⟩

theorem not_handled_early : ¬ConfigHandled early := by
  rintro ⟨moment, hm, request, disk, he, -⟩
  simp only [early, List.mem_cons, List.not_mem_nil, or_false] at hm
  rcases hm with rfl | rfl | rfl | rfl | rfl <;> cases he

theorem nothing_before_config_pushed :
    NothingHappens waiting ∧
      ∃ state, Happens 1 (L2fwd.pushed :: early) state ∧ NeverRefusedAgain state := by
  have hpushed : Happens 1 (L2fwd.pushed :: early) _ := .step happens_early ⟨[], rfl⟩
  exact ⟨(nothing_before_first_config happens_early).1 not_handled_early, _, hpushed,
    (nothing_before_first_config hpushed).2 ⟨L2fwd.pushed, by simp, _, _, rfl, rfl⟩⟩

end FirstConfig

end Session
