import T4P4SRuntime.Session.Ledger

namespace Session

open Device P4v1 Exec

def ResponseType.selectsP4info : ResponseType → Bool
  | .all | .p4infoAndCookie => true
  | .cookieOnly | .deviceConfigAndCookie | .unrecognized _ => false

def ResponseType.selectsDeviceConfig : ResponseType → Bool
  | .all | .deviceConfigAndCookie => true
  | .cookieOnly | .p4infoAndCookie | .unrecognized _ => false

def ResponseType.known : ResponseType → Bool
  | .all | .cookieOnly | .p4infoAndCookie | .deviceConfigAndCookie => true
  | .unrecognized _ => false

def partsOf (responseType : ResponseType) (config : ForwardingPipelineConfig) : ReturnedConfig :=
  { p4info := if ResponseType.selectsP4info responseType then some config.p4info else none
    p4DeviceConfig :=
      if ResponseType.selectsDeviceConfig responseType then config.p4DeviceConfig else []
    cookie := config.cookie }

def ReturnsConfig (state : State) (config : ForwardingPipelineConfig) : Prop :=
  ∀ request : GetForwardingPipelineConfigRequest, ResponseType.known request.responseType = true →
    ∃ state', step state (.getForwardingPipelineConfig request ReadDisk.reliable) =
      ⟨[], .ok (state', .config (some (partsOf request.responseType config)) Status.success)⟩

variable {deviceId : UInt64} {history : List Moment} {state : State} {account : Ledger}
  {config : ForwardingPipelineConfig} {server : Server}

def withStoredCookie (config : ForwardingPipelineConfig) : ForwardingPipelineConfig :=
  { config with cookie := some (config.cookie.getD 0) }

theorem readDeviceConfig_saved (h : server.savedDeviceConfig.Saves config.p4DeviceConfig)
    (p4info : Option P4Config.P4Info) :
    (server.readDeviceConfig ReadDisk.reliable
        { p4info := p4info, p4DeviceConfig := [], cookie := none }).2 =
      { p4info := p4info, p4DeviceConfig := config.p4DeviceConfig, cookie := none } :=
  readConfig_reliable h _

theorem copyCookie_readDeviceConfig (disk : ReadDisk) (read returned : ReturnedConfig) :
    (server.readDeviceConfig disk read).1.copyCookie returned = server.copyCookie returned := rfl

theorem Configured.copyCookie (h : Configured account config server) (returned : ReturnedConfig) :
    server.copyCookie returned = { returned with cookie := some (config.cookie.getD 0) } := by
  rw [Server.copyCookie, if_pos h.has_cookie, h.cookie]

theorem devMgrGetPipelineConfig_configured (h : Configured account config server)
    (hs : account.saved = true) {responseType : ResponseType}
    (hk : ResponseType.known responseType = true) :
    (devMgrGetPipelineConfig ReadDisk.reliable server responseType ReturnedConfig.empty).2 =
      (partsOf responseType (withStoredCookie config), Status.success) := by
  have hsaved := h.saved hs
  cases responseType with
  | all =>
      have hread := readDeviceConfig_saved hsaved (some config.p4info)
      simp only [devMgrGetPipelineConfig, ReturnedConfig.empty, hread,
        copyCookie_readDeviceConfig, h.copyCookie, h.p4info]
      rfl
  | cookieOnly =>
      simp only [devMgrGetPipelineConfig, h.copyCookie]
      rfl
  | p4infoAndCookie =>
      simp only [devMgrGetPipelineConfig, h.copyCookie, h.p4info]
      rfl
  | deviceConfigAndCookie =>
      have hread := readDeviceConfig_saved hsaved none
      simp only [devMgrGetPipelineConfig, ReturnedConfig.empty, hread,
        copyCookie_readDeviceConfig, h.copyCookie]
      rfl
  | unrecognized => cases hk

theorem step_get_configured (h : Configured account config state.server)
    (hs : account.saved = true) (request : GetForwardingPipelineConfigRequest)
    (hk : ResponseType.known request.responseType = true) :
    ∃ state', step state (.getForwardingPipelineConfig request ReadDisk.reliable) =
      ⟨[], .ok (state',
        .config (some (partsOf request.responseType (withStoredCookie config))) Status.success)⟩ := by
  have hget := devMgrGetPipelineConfig_configured h hs hk
  rw [step_get_eq, serviceGetForwardingPipelineConfig, if_neg (by simp [h.has_p4info])]
  simp only [hget]
  exact ⟨_, rfl⟩

theorem returnsConfig_iff (h : Configured account config state.server)
    (hs : account.saved = true) :
    ReturnsConfig state config ↔ config.cookie.isSome = true := by
  constructor
  · intro hr
    have hk : ResponseType.known ResponseType.cookieOnly = true := rfl
    obtain ⟨state₁, he⟩ := hr { deviceId := 0, responseType := .cookieOnly } hk
    obtain ⟨state₂, he'⟩ :=
      step_get_configured h hs { deviceId := 0, responseType := .cookieOnly } hk
    have heq := congrArg Prod.snd (Except.ok.inj (Exec.mk.inj (he.symm.trans he')).2)
    have hcookie : config.cookie = some (config.cookie.getD 0) := by
      simpa [partsOf, withStoredCookie, ResponseType.selectsP4info,
        ResponseType.selectsDeviceConfig] using heq
    rw [hcookie]
    rfl
  · intro hc request hk
    obtain ⟨cookie, hcookie⟩ := Option.isSome_iff_exists.mp hc
    have hsame : withStoredCookie config = config := by
      rw [withStoredCookie, hcookie, Option.getD_some, ← hcookie]
    have hget := step_get_configured h hs request hk
    rwa [hsame] at hget

theorem get_returns_last_config_iff (h : Happens deviceId history state)
    (hc : (ledger history).config = some config) (hs : (ledger history).saved = true) :
    ReturnsConfig state config ↔ config.cookie.isSome = true :=
  returnsConfig_iff ((tracks_of_happens h).configured config hc) hs

namespace ConfigReturn

def withCookie : ForwardingPipelineConfig :=
  { p4info := L2fwd.p4info, p4DeviceConfig := List.replicate 600 3, cookie := some 77 }

def saved : Moment :=
  { event := .rpc (.setForwardingPipelineConfig
      { deviceId := 1, action := .verifyAndSave, config := withCookie } Disk.reliable)
    outcome := .reply (.setForwardingPipelineConfig (Status.make .ok "ok")) }

def savedState : State :=
  match (step L2fwd.state saved.event).out with
  | .ok (state, _) => state
  | .error _ => L2fwd.state

theorem happens_saved : Happens 1 [saved, L2fwd.pushed] savedState :=
  .step L2fwd.happens_pushed ⟨[], rfl⟩

theorem get_returns_l2fwd : ReturnsConfig savedState withCookie :=
  (get_returns_last_config_iff happens_saved rfl rfl).mpr rfl

theorem absent_cookie_returned :
    Happens 1 [L2fwd.pushed] L2fwd.state ∧
      (L2fwd.pushOf L2fwd.p4info).config.cookie = none ∧
      ¬ReturnsConfig L2fwd.state (L2fwd.pushOf L2fwd.p4info).config := by
  refine ⟨L2fwd.happens_pushed, rfl, fun h => ?_⟩
  have hconf := (tracks_of_happens L2fwd.happens_pushed).configured _ rfl
  exact absurd ((returnsConfig_iff hconf rfl).mp h) (by decide)

end ConfigReturn

end Session
