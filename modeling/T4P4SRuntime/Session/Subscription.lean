import T4P4SRuntime.Device.DigestMap
import T4P4SRuntime.Session.DigestDelivery

namespace Session

open Device P4Config P4v1 Exec

def lastUpdate (updates : List (UInt32 × UpdateType)) (id : UInt32) : Option UpdateType :=
  (updates.find? (fun update => update.1 = id)).map Prod.snd

def Subscribes (updateType : UpdateType) : Prop := updateType = .insert ∨ updateType = .modify

def Subscribed (updates : List (UInt32 × UpdateType)) (id : UInt32) : Prop :=
  ∃ updateType, lastUpdate updates id = some updateType ∧ Subscribes updateType

def SendsMessage (dm : DeviceMgr) (name : String) : Prop :=
  ∃ digest : DigestRecord, digest.fieldListName.val = name ∧ ∃ stream digestId timestamp write,
    write ∈ (devMgrSendDigest { dm with stream := some stream } digest digestId timestamp).log

def UpdatesFollow (digests : List Digest) (updates : List (UInt32 × UpdateType)) : Prop :=
  ∀ d ∈ digests, ∀ updateType, lastUpdate updates d.preamble.id = some updateType →
    Subscribes updateType ∧ '\x00' ∉ d.preamble.name.toList ∧
      ∀ e ∈ digests, e.preamble.name = d.preamble.name → e = d

-- The last accepted configuration, and the digest updates that were processed since. A VERIFY
-- is not accepted, though the server applies it.
structure Accepted where
  config : Option ForwardingPipelineConfig
  updates : List (UInt32 × UpdateType)

def Accepted.none : Accepted := { config := Option.none, updates := [] }

def Accepted.observeRpc (accepted : Accepted) : Rpc → Accepted
  | .setForwardingPipelineConfig request _ =>
      if ConfigAction.accepted request.action then { config := some request.config, updates := [] }
      else accepted
  | .write request =>
      if accepted.config.isSome ∧ request.atomicity = .continueOnError then
        { accepted with updates := digestUpdates request.updates ++ accepted.updates }
      else accepted
  | .read _ _ => accepted

def Accepted.observe (accepted : Accepted) (moment : Moment) : Accepted :=
  match moment.event with
  | .rpc rpc => accepted.observeRpc rpc
  | .getForwardingPipelineConfig _ _ | .openStream | .streamMessage _ _ | .closeStream _
  | .sendDigest _ _ _ => accepted

def accepted (history : List Moment) : Accepted :=
  Replay.view Accepted.none Accepted.observe history

-- A VERIFY replaces the digests and clears what was subscribed.
def StepFollows (accepted : Accepted) : Event → Prop
  | .rpc (.write request) => ∀ config, accepted.config = some config →
      request.atomicity = .continueOnError →
        UpdatesFollow config.p4info.digests (digestUpdates request.updates)
  | .rpc (.setForwardingPipelineConfig request _) => request.action = .verify →
      ∀ config, accepted.config = some config →
        request.config.p4info.digests = config.p4info.digests ∧
          ∀ d ∈ config.p4info.digests, lastUpdate accepted.updates d.preamble.id = none
  | .rpc (.read _ _) | .getForwardingPipelineConfig _ _ | .openStream | .streamMessage _ _
  | .closeStream _ | .sendDigest _ _ _ => True

def StepsFollow : List Moment → Prop
  | [] => True
  | moment :: history => StepFollows (accepted history) moment.event ∧ StepsFollow history

structure SubscriptionFollows (accepted : Accepted) (digests : List Digest) (state : State) :
    Prop where
  active_iff : ∀ d ∈ digests,
    SendsMessage state.server.dm d.preamble.name ↔ Subscribed accepted.updates d.preamble.id
  others : ∀ request log state' outcome, StepFollows accepted (.rpc (.write request)) →
    step state (.rpc (.write request)) = ⟨log, .ok (state', outcome)⟩ →
      ∀ d ∈ digests, lastUpdate (digestUpdates request.updates) d.preamble.id = none →
        (SendsMessage state'.server.dm d.preamble.name ↔
          SendsMessage state.server.dm d.preamble.name)

variable {deviceId : UInt64} {history : List Moment} {state state' : State} {moment : Moment}
  {account : Ledger} {seen : Accepted} {updates newer older : List (UInt32 × UpdateType)} {digests : List Digest}
  {map : DigestMap} {name : String} {config : ForwardingPipelineConfig}

def activated (updates : List (UInt32 × UpdateType)) (it : DigestState) : DigestState :=
  updates.foldr (fun update it => activeIf update.1.toUInt64 it) it

theorem activated_id (updates : List (UInt32 × UpdateType)) (it : DigestState) :
    (activated updates it).id = it.id := by
  induction updates with
  | nil => rfl
  | cons update updates ih => exact (activeIf_id _ _).trans ih

theorem activated_active (updates : List (UInt32 × UpdateType)) (it : DigestState) :
    (activated updates it).active = true ↔
      it.active = true ∨ ∃ update ∈ updates, it.id = update.1.toUInt64 := by
  induction updates with
  | nil => simp [activated]
  | cons update updates ih =>
      have hcons : activated (update :: updates) it =
          activeIf update.1.toUInt64 (activated updates it) := rfl
      rw [hcons, activeIf_active, ih, activated_id, List.exists_mem_cons_iff, or_left_comm]

theorem distinctIds_activateAll (h : DistinctIds map) (updates : List (UInt32 × UpdateType)) :
    DistinctIds (activateAll map updates) := by
  induction updates with
  | nil => exact h
  | cons update updates ih => exact ih.activate update.1.toUInt64

theorem lookup_activateAll (h : DistinctIds map) (updates : List (UInt32 × UpdateType))
    (name : String) :
    (activateAll map updates).lookup name = (map.lookup name).map (activated updates) := by
  induction updates with
  | nil => cases hl : map.lookup name <;> simp [activateAll, activated, hl]
  | cons update updates ih =>
      have hcons : activateAll map (update :: updates) =
          activateDigest (activateAll map updates) update.1.toUInt64 := rfl
      rw [hcons, lookup_activateDigest (distinctIds_activateAll h updates), ih, Option.map_map]
      rfl

theorem sendsMessage_iff (dm : DeviceMgr) (name : String) :
    SendsMessage dm name ↔ '\x00' ∉ name.toList ∧
      ∃ it, dm.digestMap.lookup name = some it ∧ it.active = true := by
  constructor
  · rintro ⟨digest, rfl, stream, digestId, timestamp, write, hw⟩
    refine ⟨digest.fieldListName.property, ?_⟩
    rw [devMgrSendDigest] at hw
    split at hw
    · cases hw
    · rename_i it hit
      split at hw
      · rename_i ha
        exact ⟨it, hit, ha⟩
      · cases hw
  · rintro ⟨hnul, it, hit, ha⟩
    let digest : DigestRecord := { fieldListName := ⟨name, hnul⟩, fields := [] }
    refine ⟨digest, rfl, 0, 0, 0,
      { stream := 0, response := .digest (digestList it digest 0) }, ?_⟩
    have hfind : { dm with stream := some 0 }.digestMap.find?
        (fun it => it.name = digest.fieldListName.val) = some it := hit
    rw [sendDigest_active hfind ha]
    exact List.mem_singleton_self _

theorem active_lookup_iff (h : (digests.map (fun d => d.preamble.id)).Nodup)
    (updates : List (UInt32 × UpdateType)) (name : String) :
    (∃ it, (activateAll (inactiveDigests digests) updates).lookup name = some it ∧
        it.active = true) ↔
      ∃ e, digests.reverse.find? (fun d => d.preamble.name = name) = some e ∧
        ∃ updateType, lastUpdate updates e.preamble.id = some updateType := by
  rw [lookup_activateAll (inactiveDigests_distinct h), lookup_inactiveDigests, Option.map_map]
  have hactive (e : Digest) : (activated updates (inactive e)).active = true ↔
      ∃ updateType, lastUpdate updates e.preamble.id = some updateType := by
    rw [activated_active, lastUpdate, ← Option.isSome_iff_exists, Option.isSome_map,
      List.find?_isSome]
    simp [inactive, UInt32.toUInt64_inj, eq_comm]
  constructor
  · rintro ⟨it, hit, ha⟩
    obtain ⟨e, he, rfl⟩ := Option.map_eq_some_iff.mp hit
    exact ⟨e, he, (hactive e).mp ha⟩
  · rintro ⟨e, he, hu⟩
    exact ⟨_, Option.map_eq_some_iff.mpr ⟨e, he, rfl⟩, (hactive e).mpr hu⟩

theorem lastUpdate_append (newer older : List (UInt32 × UpdateType)) (id : UInt32) :
    lastUpdate (newer ++ older) id = (lastUpdate newer id).or (lastUpdate older id) := by
  rw [lastUpdate, List.find?_append, Option.map_or]
  rfl

theorem UpdatesFollow.append (hn : UpdatesFollow digests newer) (ho : UpdatesFollow digests older) :
    UpdatesFollow digests (newer ++ older) := by
  intro d hd updateType hu
  rw [lastUpdate_append] at hu
  rcases Option.or_eq_some_iff.mp hu with hnew | ⟨-, hold⟩
  · exact hn d hd updateType hnew
  · exact ho d hd updateType hold

theorem updatesFollow_nil (digests : List Digest) : UpdatesFollow digests [] :=
  fun _ _ _ hu => by cases hu

theorem sendsMessage_iff_updated (hids : (digests.map (fun d => d.preamble.id)).Nodup)
    {dm : DeviceMgr} (hm : dm.digestMap = activateAll (inactiveDigests digests) updates)
    {d : Digest} (hd : d ∈ digests) (hnul : '\x00' ∉ d.preamble.name.toList)
    (honly : ∀ e ∈ digests, e.preamble.name = d.preamble.name → e = d) :
    SendsMessage dm d.preamble.name ↔
      ∃ updateType, lastUpdate updates d.preamble.id = some updateType := by
  have hfind : digests.reverse.find? (fun e => e.preamble.name = d.preamble.name) = some d := by
    obtain ⟨e, he⟩ : ∃ e, digests.reverse.find? (fun e => e.preamble.name = d.preamble.name) =
        some e := by
      rw [← Option.isSome_iff_exists, List.find?_isSome]
      exact ⟨d, List.mem_reverse.mpr hd, by simp⟩
    have hmem : e ∈ digests := List.mem_reverse.mp (List.mem_of_find?_eq_some he)
    have hname : e.preamble.name = d.preamble.name := by simpa using List.find?_some he
    rwa [honly e hmem hname] at he
  rw [sendsMessage_iff, hm, active_lookup_iff hids, hfind]
  constructor
  · rintro ⟨-, e, he, hu⟩
    obtain rfl := Option.some.inj he
    exact hu
  · intro hu
    exact ⟨hnul, d, rfl, hu⟩

theorem active_iff_of_follow (hids : (digests.map (fun d => d.preamble.id)).Nodup)
    (hf : UpdatesFollow digests updates) {dm : DeviceMgr}
    (hm : dm.digestMap = activateAll (inactiveDigests digests) updates) {d : Digest}
    (hd : d ∈ digests) :
    SendsMessage dm d.preamble.name ↔ Subscribed updates d.preamble.id := by
  constructor
  · intro hs
    rw [sendsMessage_iff, hm, active_lookup_iff hids] at hs
    obtain ⟨-, e, he, updateType, hu⟩ := hs
    have hmem : e ∈ digests := List.mem_reverse.mp (List.mem_of_find?_eq_some he)
    have hname : e.preamble.name = d.preamble.name := by simpa using List.find?_some he
    obtain ⟨hsub, -, honly⟩ := hf e hmem updateType hu
    obtain rfl := honly d hd hname.symm
    exact ⟨updateType, hu, hsub⟩
  · rintro ⟨updateType, hu, -⟩
    obtain ⟨-, hnul, honly⟩ := hf d hd updateType hu
    exact (sendsMessage_iff_updated hids hm hd hnul honly).mpr ⟨updateType, hu⟩

-- What the server holds of the digests is what was accepted of them.
structure KeepsUp (account : Ledger) (seen : Accepted) (config : ForwardingPipelineConfig) :
    Prop where
  held : ∃ held, account.config = some held ∧ held.p4info.digests = config.p4info.digests
  updates : ∀ d ∈ config.p4info.digests,
    lastUpdate account.updates d.preamble.id = lastUpdate seen.updates d.preamble.id
  follow : UpdatesFollow config.p4info.digests account.updates

theorem keepsUp_write {request : WriteRequest}
    (h : ∀ config, seen.config = some config → KeepsUp account seen config)
    (hs : StepFollows seen (.rpc (.write request))) :
    ∀ config, (seen.observeRpc (.write request)).config = some config →
      KeepsUp (account.observeRpc (.write request)) (seen.observeRpc (.write request)) config := by
  intro config hc
  have hseen : seen.config = some config := by
    rw [Accepted.observeRpc] at hc
    split_ifs at hc <;> exact hc
  have hk := h config hseen
  obtain ⟨held, hheld, hdigests⟩ := hk.held
  rcases eq_or_ne request.atomicity .continueOnError with ha | ha
  · simp only [Ledger.observeRpc, Accepted.observeRpc, hheld, hseen, ha, Option.isSome_some, and_self,
      if_true]
    exact
      { held := ⟨held, rfl, hdigests⟩
        updates := fun d hd => by rw [lastUpdate_append, lastUpdate_append, hk.updates d hd]
        follow := (hs config hseen ha).append hk.follow }
  · simp only [Ledger.observeRpc, Accepted.observeRpc, ha, and_false, if_false]
    exact hk

theorem keepsUp_set {request : SetForwardingPipelineConfigRequest} {disk : Disk}
    (h : ∀ config, seen.config = some config → KeepsUp account seen config)
    (hs : StepFollows seen (.rpc (.setForwardingPipelineConfig request disk))) :
    ∀ config, (seen.observeRpc (.setForwardingPipelineConfig request disk)).config = some config →
      KeepsUp (account.observeRpc (.setForwardingPipelineConfig request disk))
        (seen.observeRpc (.setForwardingPipelineConfig request disk)) config := by
  intro config hc
  rw [Accepted.observeRpc] at hc ⊢
  rw [Ledger.observeRpc]
  cases ha : request.action with
  | verifyAndSave | verifyAndCommit | reconcileAndCommit =>
      rw [ha] at hc
      obtain rfl := Option.some.inj hc
      exact { held := ⟨_, rfl, rfl⟩, updates := fun _ _ => rfl, follow := updatesFollow_nil _ }
  | verify =>
      rw [ha] at hc
      obtain ⟨hdigests, hnone⟩ := hs ha config hc
      exact
        { held := ⟨request.config, rfl, hdigests⟩
          updates := fun d hd => (hnone d hd).symm
          follow := updatesFollow_nil _ }
  | unspecified | commit | unrecognized =>
      rw [ha] at hc
      exact h config hc

theorem keepsUp_step (h : ∀ config, seen.config = some config → KeepsUp account seen config)
    (hs : StepFollows seen moment.event) :
    ∀ config, (seen.observe moment).config = some config →
      KeepsUp (account.observe moment) (seen.observe moment) config := by
  obtain ⟨event, outcome⟩ := moment
  cases event with
  | rpc rpc =>
      cases rpc with
      | write request => exact keepsUp_write h hs
      | read request getCounterByName => exact h
      | setForwardingPipelineConfig request disk => exact keepsUp_set h hs
  | streamMessage stream request =>
      intro config hc
      have hk := h config hc
      cases outcome <;> exact ⟨hk.held, hk.updates, hk.follow⟩
  | getForwardingPipelineConfig | openStream | closeStream | sendDigest => exact h

theorem keepsUp_of_steps (hf : StepsFollow history) :
    ∀ config, (accepted history).config = some config →
      KeepsUp (ledger history) (accepted history) config := by
  induction history with
  | nil => exact fun _ hc => by cases hc
  | cons moment history ih => exact keepsUp_step (ih hf.2) hf.1

theorem subscribed_append {id : UInt32} (h : lastUpdate newer id = none) :
    Subscribed (newer ++ older) id ↔ Subscribed older id := by
  rw [Subscribed, Subscribed, lastUpdate_append, h, Option.none_or]

theorem active_iff_history (h : Happens deviceId history state) (hf : StepsFollow history)
    (hc : (accepted history).config = some config)
    (hids : (config.p4info.digests.map (fun d => d.preamble.id)).Nodup) {d : Digest}
    (hd : d ∈ config.p4info.digests) :
    SendsMessage state.server.dm d.preamble.name ↔
      Subscribed (accepted history).updates d.preamble.id := by
  have hk := keepsUp_of_steps hf config hc
  obtain ⟨held, hheld, hdigests⟩ := hk.held
  have hm := ((tracks_of_happens h).configured held hheld).digests
  rw [hdigests] at hm
  rw [active_iff_of_follow hids hk.follow hm hd, Subscribed, Subscribed, hk.updates d hd]

theorem subscription_follows_history (h : Happens deviceId history state)
    (hf : StepsFollow history) (hc : (accepted history).config = some config)
    (hids : (config.p4info.digests.map (fun d => d.preamble.id)).Nodup) :
    SubscriptionFollows (accepted history) config.p4info.digests state where
  active_iff := fun _ hd => active_iff_history h hf hc hids hd
  others := fun request log state' outcome hs hstep d hd hnone => by
    have hnext : Happens deviceId
        ({ event := .rpc (.write request), outcome := outcome } :: history) state' :=
      .step h ⟨log, hstep⟩
    have hobserved : accepted ({ event := .rpc (.write request), outcome := outcome } :: history) =
        (accepted history).observeRpc (.write request) := rfl
    have hc' : ((accepted history).observeRpc (.write request)).config = some config := by
      rw [Accepted.observeRpc]
      split_ifs <;> exact hc
    rw [active_iff_history h hf hc hids hd,
      active_iff_history hnext ⟨hs, hf⟩ (hobserved ▸ hc') hids hd, hobserved, Accepted.observeRpc]
    split_ifs
    · exact subscribed_append hnone
    · exact Iff.rfl

namespace Subscription

def mac : Digest := { preamble := { id := 401, name := "mac_learn_digest" } }

-- A VERIFY of the same digests before any of them is subscribed.
def verified : Moment :=
  { event := .rpc (.setForwardingPipelineConfig
      { L2fwd.pushOf L2fwd.learnInfo with action := .verify } Disk.reliable)
    outcome := .reply (.setForwardingPipelineConfig (Status.make .ok "ok")) }

theorem happens_verified : Happens 1 [verified, L2fwd.learnPushed] L2fwd.learnState :=
  .step L2fwd.happens_learnPushed ⟨[], rfl⟩

def inserted : List Moment := [L2fwd.digestWritten .insert, verified, L2fwd.learnPushed]

theorem happens_inserted : Happens 1 inserted L2fwd.learningState :=
  .step happens_verified ⟨[], rfl⟩

theorem follow_inserted : StepsFollow inserted := by
  refine ⟨fun config hc _ d hd updateType hu => ?_, fun _ config hc => ?_, fun hv => ?_, trivial⟩
  · obtain rfl := Option.some.inj hc
    obtain rfl := List.mem_singleton.mp hd
    obtain rfl : UpdateType.insert = updateType := Option.some.inj hu
    exact ⟨Or.inl rfl, by decide, fun e he _ => List.mem_singleton.mp he⟩
  · obtain rfl := Option.some.inj hc
    exact ⟨rfl, fun _ _ => rfl⟩
  · cases hv

theorem subscription_follows_insert :
    SubscriptionFollows (accepted inserted) [mac] L2fwd.learningState :=
  subscription_follows_history happens_inserted follow_inserted rfl (by decide)

theorem sends_learning : SendsMessage L2fwd.learningState.server.dm "mac_learn_digest" :=
  (sendsMessage_iff _ _).mpr
    ⟨by decide, { name := "mac_learn_digest", id := 401, active := true }, by decide, rfl⟩

theorem delete_subscribes :
    Happens 1 [L2fwd.digestWritten .delete, L2fwd.learnPushed] L2fwd.learningState ∧
      ((accepted [L2fwd.digestWritten .delete, L2fwd.learnPushed]).config.map
        (fun config => config.p4info.digests)) = some [mac] ∧
      ¬SubscriptionFollows (accepted [L2fwd.digestWritten .delete, L2fwd.learnPushed]) [mac]
        L2fwd.learningState := by
  refine ⟨L2fwd.happens_digestWritten .delete, rfl, fun h => ?_⟩
  obtain ⟨updateType, hu, hsub⟩ := (h.active_iff mac (List.mem_singleton_self _)).mp sends_learning
  obtain rfl : UpdateType.delete = updateType := Option.some.inj hu
  rcases hsub with hi | hm
  · cases hi
  · cases hm

theorem verify_unsubscribes :
    Happens 1 [verified, L2fwd.digestWritten .insert, L2fwd.learnPushed] L2fwd.learnState ∧
      ((accepted [verified, L2fwd.digestWritten .insert, L2fwd.learnPushed]).config.map
        (fun config => config.p4info.digests)) = some [mac] ∧
      ¬SubscriptionFollows (accepted [verified, L2fwd.digestWritten .insert, L2fwd.learnPushed])
        [mac] L2fwd.learnState := by
  refine ⟨.step (L2fwd.happens_digestWritten .insert) ⟨[], rfl⟩, rfl, fun h => ?_⟩
  have hsends := (h.active_iff mac (List.mem_singleton_self _)).mpr ⟨.insert, rfl, Or.inl rfl⟩
  obtain ⟨-, it, hit, hactive⟩ := (sendsMessage_iff _ _).mp hsends
  obtain rfl : { name := "mac_learn_digest", id := 401, active := false } = it :=
    Option.some.inj hit
  cases hactive

end Subscription

end Session
