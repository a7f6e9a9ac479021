import T4P4SRuntime.Device.PushOutcome
import T4P4SRuntime.Device.ReadReport
import T4P4SRuntime.Session.FirstConfig
import T4P4SRuntime.Switch.Rules

namespace Switch

open Device Codegen Messages Exec IdMap P4v1 Session Parking Probing FirstBinding

inductive SystemFault where
  | session (fault : SessionFault)
  | emitted (fault : CodeFault)
  deriving DecidableEq

def effectOf : Output → Option Effect
  | .device effect => some effect
  | .stream _ => none

def callbacks (log : List Output) : List Effect := log.filterMap effectOf

-- The server together with the switch program that its callback belongs to.
def react (layout : RecordLayout) (code : Code) (state : State) (event : Event) :
    Exec Promote SystemFault (State × Outcome) :=
  let handled := Session.step state event
  let delivered := deliver layout code (callbacks handled.log)
  ⟨delivered.log,
    match delivered.out with
    | .error f => .error (.emitted f)
    | .ok () =>
        match handled.out with
        | .error f => .error (.session f)
        | .ok result => .ok result⟩

structure Tick where
  moment : Moment
  promotes : List Promote

def Operates (layout : RecordLayout) (code : Code) (deviceId : UInt64) : List Tick → State → Prop :=
  Replay.Runs (State.init deviceId) (fun state tick state' =>
    react layout code state tick.moment.event =
      ⟨tick.promotes, .ok (state', tick.moment.outcome)⟩)

inductive Asks (program : Hlir.Program) (p4info : P4Config.P4Info) : Update → List Promote → Prop where
  | rule {entry : TableEntry} {promote : Promote} : Rule program p4info entry promote →
      Asks program p4info { type := .insert, entity := .tableEntry entry } [promote]
  | nothing {update : Update} :
      (∀ entry, update.entity = .tableEntry entry → update.type ≠ .insert) →
      Asks program p4info update []

inductive AsksAll (program : Hlir.Program) (p4info : P4Config.P4Info) :
    List Update → List Promote → Prop where
  | nil : AsksAll program p4info [] []
  | cons {update : Update} {updates : List Update} {now later : List Promote} :
      Asks program p4info update now → AsksAll program p4info updates later →
      AsksAll program p4info (update :: updates) (now ++ later)

-- What the tables have to be told when `event` is handled.
inductive Commands (program : Hlir.Program) (p4info : P4Config.P4Info) :
    Event → List Promote → Prop where
  | batch {request : WriteRequest} {promotes : List Promote} :
      request.atomicity = .continueOnError → AsksAll program p4info request.updates promotes →
      Commands program p4info (.rpc (.write request)) promotes
  | refused {request : WriteRequest} : request.atomicity ≠ .continueOnError →
      Commands program p4info (.rpc (.write request)) []
  | other {event : Event} : (∀ request, event ≠ .rpc (.write request)) →
      Commands program p4info event []

def afterBatch (state : State) (updates : List Update) : State :=
  { state with
    server := { state.server with dm := updates.foldl afterUpdate state.server.dm } }

structure Programmed (p4info : P4Config.P4Info) (server : Server) : Prop where
  has_p4info : server.dm.hasP4info = true
  resolves : ResolvesAllOf server.dm p4info
  packed : scheme.Packed server.dm.idMap.data

variable {layout : RecordLayout} {program : Hlir.Program} {code : Code} {deviceId : UInt64}
  {p4info : P4Config.P4Info} {dm : DeviceMgr} {server server' : Server} {state state' : State}
  {event : Event} {outcome : Outcome} {ticks later earlier : List Tick} {tick pushed : Tick}
  {promotes : List Promote} {update : Update} {updates : List Update} {request : WriteRequest}
  {log : List Output} {effects : List Effect} {entry : TableEntry} {promote : Promote}

theorem react_eq_ok_iff {result : State × Outcome} :
    react layout code state event = ⟨promotes, .ok result⟩ ↔
      ∃ log, Session.step state event = ⟨log, .ok result⟩ ∧
        deliver layout code (callbacks log) = ⟨promotes, .ok ()⟩ := by
  rw [react]
  generalize Session.step state event = handled
  obtain ⟨log, out⟩ := handled
  cases hd : deliver layout code (callbacks log) with
  | mk delivered ending => cases ending <;> cases out <;> simp [hd, and_comm]

theorem deliver_append (effects effects' : List Effect) :
    deliver layout code (effects ++ effects') =
      deliver layout code effects >>= fun _ => deliver layout code effects' := by
  induction effects with
  | nil => rfl
  | cons effect effects ih =>
      cases effect with
      | cb msg => simp only [List.cons_append, deliver, ih, bind_assoc]
      | getCounterByName name bytes => simp only [List.cons_append, deliver, ih]

def isCallback : Effect → Bool
  | .cb _ => true
  | .getCounterByName _ _ => false

theorem deliver_silent (h : ∀ effect ∈ effects, isCallback effect = false) :
    deliver layout code effects = pure () := by
  induction effects with
  | nil => rfl
  | cons effect effects ih =>
      obtain ⟨hone, hrest⟩ := List.forall_mem_cons.mp h
      cases effect with
      | cb msg => cases hone
      | getCounterByName name bytes => exact ih hrest

theorem installEntry_eq_ok {status : Status}
    (h : installEntry layout code dm entry = ⟨promotes, .ok status⟩) :
    ∃ effects, tableInsert dm entry = ⟨effects, .ok status⟩ ∧
      deliver layout code effects = ⟨promotes, .ok ()⟩ := by
  rw [installEntry] at h
  generalize tableInsert dm entry = inserted at h ⊢
  obtain ⟨effects, out⟩ := inserted
  cases hd : deliver layout code effects with
  | mk delivered ending => cases ending <;> cases out <;> simp_all

theorem updateStatus_quiet
    (h : ∀ entry, update.entity = .tableEntry entry → update.type ≠ .insert) :
    ∃ status, updateStatus dm update = pure status := by
  rw [updateStatus]
  cases hu : update.entity with
  | tableEntry entry =>
      have hne := h entry hu
      cases ht : update.type with
      | insert => exact absurd ht hne
      | unspecified | modify | delete | unrecognized => exact ⟨_, rfl⟩
  | counterEntry | directCounterEntry | digestEntry | other => exact ⟨_, rfl⟩

theorem Asks.applied (h : Asks program p4info update promotes) (hl : layout.Lawful)
    (hb : Builds program code) (hr : ResolvesAllOf dm p4info) :
    ∃ effects dm', applyUpdate dm update = ⟨effects, .ok dm'⟩ ∧
      deliver layout code effects = ⟨promotes, .ok ()⟩ := by
  cases h with
  | @rule entry promote hrule =>
      obtain ⟨effects, he, hd⟩ := installEntry_eq_ok (hrule.installs hl hb hr)
      have hupdate : updateStatus dm { type := .insert, entity := .tableEntry entry } =
          ⟨effects, .ok Status.success⟩ := he
      exact ⟨effects, _, by rw [applyUpdate, hupdate, map_ok], hd⟩
  | nothing hquiet =>
      obtain ⟨status, he⟩ := @updateStatus_quiet dm update hquiet
      exact ⟨[], _, by rw [applyUpdate, he, map_pure]; rfl, rfl⟩

theorem AsksAll.applied (h : AsksAll program p4info updates promotes) (hl : layout.Lawful)
    (hb : Builds program code) (hr : ResolvesAllOf dm p4info) :
    ∃ effects dm', applyAll dm updates = ⟨effects, .ok dm'⟩ ∧
      deliver layout code effects = ⟨promotes, .ok ()⟩ := by
  induction h generalizing dm with
  | nil => exact ⟨[], dm, rfl, rfl⟩
  | cons hone _ ih =>
      obtain ⟨effects, dm₁, he, hd⟩ := hone.applied hl hb hr
      have hmap := applyUpdate_idMap he
      have hr₁ : ResolvesAllOf dm₁ p4info := by
        rw [ResolvesAllOf, hmap]
        exact hr
      obtain ⟨effects', dm', he', hd'⟩ := ih hr₁
      refine ⟨effects ++ effects', dm', by rw [applyAll, he, mk_bind, he'], ?_⟩
      rw [deliver_append, hd, mk_bind, hd']

theorem callbacks_device (effects : List Effect) : callbacks (effects.map Output.device) = effects := by
  rw [callbacks, List.filterMap_map]
  exact List.filterMap_some

theorem react_rpc {rpc : Rpc} {reply : Reply}
    (hs : serve state.server rpc = ⟨effects, .ok (server, reply)⟩)
    (hd : deliver layout code effects = ⟨promotes, .ok ()⟩) :
    react layout code state (.rpc rpc) =
      ⟨promotes, .ok ({ state with server := server }, .reply reply)⟩ :=
  react_eq_ok_iff.mpr ⟨_, step_rpc_of_serve hs, by rw [callbacks_device, hd]⟩

theorem react_batch (h : Programmed p4info state.server) (hl : layout.Lawful)
    (hb : Builds program code) (ha : request.atomicity = .continueOnError)
    (hasked : AsksAll program p4info request.updates promotes) :
    react layout code state (.rpc (.write request)) =
      ⟨promotes, .ok (afterBatch state request.updates, .reply (.write Status.success))⟩ := by
  obtain ⟨effects, dm, he, hd⟩ := hasked.applied hl hb h.resolves
  obtain rfl := applyAll_ok he
  have hserve : serve state.server (.write request) =
      ⟨effects, .ok ((afterBatch state request.updates).server, .write Status.success)⟩ := by
    rw [serveWrite_eq h.has_p4info ha, he, map_ok]
    rfl
  exact react_rpc hserve hd

theorem react_refused (ha : request.atomicity ≠ .continueOnError) :
    ∃ state' reply, react layout code state (.rpc (.write request)) =
      ⟨[], .ok (state', .reply reply)⟩ := by
  obtain ⟨reply, he, -⟩ := @serveWrite_rejected state.server request fun hc => ha hc.2
  exact ⟨_, _, react_rpc he rfl⟩

def Silent {A : Type} (x : Run A) : Prop := ∀ effect ∈ x.log, isCallback effect = false

theorem silent_of_log_nil {A : Type} {x : Run A} (h : x.log = []) : Silent x := by
  rw [Silent, h]
  exact fun _ he => absurd he List.not_mem_nil

theorem silent_bind {A B : Type} {x : Run A} {g : A → Run B} (hx : Silent x)
    (hg : ∀ a, Silent (g a)) : Silent (x >>= g) := bind_log_forall hx hg

theorem silent_counter (name : CString) (bytes : Bool) :
    Silent (emit (.getCounterByName name bytes)) := by
  intro effect he
  rw [List.mem_singleton.mp he]
  rfl

theorem counterReadOne_log (bytes packets : CounterArray) (index : Int32)
    (data : Option CounterData) : (counterReadOne bytes packets index data).log = [] := by
  by_cases h : CellsHeld bytes packets index
  · obtain ⟨data', hd⟩ := counterReadOne_of_held h data
    rw [hd]
    rfl
  · rw [counterReadOne_of_not_held h]
    rfl

theorem wildcardLoop_log (bytes packets : CounterArray) (counterId : UInt32) (n : Nat)
    (index : Int32) (entities : List Entity) :
    (wildcardLoop bytes packets counterId n index entities).log = [] := by
  induction n generalizing index entities with
  | zero => rfl
  | succ n ih =>
      rw [wildcardLoop]
      split
      · exact bind_log_nil (counterReadOne_log _ _ _ _) fun _ => ih _ _
      · rfl

theorem counterRead_silent (getCounterByName : CounterReader) (entry : CounterEntry)
    (response : ReadResponse) : Silent (counterRead getCounterByName dm entry response) := by
  rw [counterRead]
  split
  · exact silent_of_log_nil rfl
  · apply silent_bind
    · cases getElement dm.idMap entry.counterId.toUInt64 <;> exact silent_of_log_nil rfl
    · intro elem
      refine silent_bind (silent_counter _ _) fun _ => silent_bind (silent_counter _ _) fun _ => ?_
      apply silent_of_log_nil
      split
      · rfl
      · split
        · split
          · rfl
          · exact bind_log_nil (counterReadOne_log _ _ _ _) fun _ => rfl
        · exact bind_log_nil (wildcardLoop_log _ _ _ _ _ _) fun _ => rfl

theorem readLoop_silent (getCounterByName : CounterReader) (entities : List Entity)
    (response : ReadResponse) : Silent (readLoop getCounterByName dm entities response) := by
  induction entities generalizing response with
  | nil => exact silent_of_log_nil rfl
  | cons entity entities ih =>
      rw [readLoop]
      apply silent_bind
      · cases entity with
        | counterEntry entry => exact counterRead_silent getCounterByName entry response
        | tableEntry | directCounterEntry | digestEntry | other => exact silent_of_log_nil rfl
      · rintro ⟨response', status⟩
        dsimp only
        split
        · exact ih response'
        · exact silent_of_log_nil rfl

theorem serve_read_silent (server : Server) (request : ReadRequest)
    (getCounterByName : CounterReader) : Silent (serve server (.read request getCounterByName)) := by
  rw [serve, serviceRead]
  split
  · exact silent_of_log_nil rfl
  · exact silent_bind (silent_bind (readLoop_silent _ _ _) fun _ => silent_of_log_nil rfl)
      fun _ => silent_of_log_nil rfl

theorem step_silent (hs : Session.step state event = ⟨log, .ok (state', outcome)⟩)
    (hw : ∀ request, event ≠ .rpc (.write request)) :
    ∀ effect ∈ callbacks log, isCallback effect = false := by
  cases event with
  | rpc rpc =>
      obtain ⟨effects, server, reply, hserve, rfl, -⟩ := step_rpc_ok hs
      rw [callbacks_device]
      cases rpc with
      | write request => exact absurd rfl (hw request)
      | read request getCounterByName =>
          have hsilent := serve_read_silent state.server request getCounterByName
          rwa [Silent, hserve] at hsilent
      | setForwardingPipelineConfig request disk =>
          rw [(serve_set_ok hserve).1]
          exact fun _ he => absurd he List.not_mem_nil
  | streamMessage stream request =>
      cases step_message_ok hs <;> exact fun _ he => absurd he List.not_mem_nil
  | getForwardingPipelineConfig | openStream | closeStream =>
      obtain ⟨rfl, -⟩ := Exec.mk.inj hs
      exact fun _ he => absurd he List.not_mem_nil
  | sendDigest digest digestId timestamp =>
      rw [Session.step, ofStream] at hs
      obtain ⟨_, _, _, hsend, hret, rfl⟩ := bind_eq_ok_iff.mp hs
      obtain ⟨writes, -, rfl⟩ := hoist_eq_ok_iff.mp hsend
      obtain ⟨rfl, -⟩ := pure_eq_ok_iff.mp hret
      have hnone : callbacks (writes.map Output.stream ++ []) = [] := by
        rw [List.append_nil, callbacks, List.filterMap_map]
        exact List.filterMap_eq_nil_iff.mpr fun _ _ => rfl
      rw [hnone]
      exact fun _ he => absurd he List.not_mem_nil

theorem react_silent (hr : react layout code state event = ⟨promotes, .ok (state', outcome)⟩)
    (hw : ∀ request, event ≠ .rpc (.write request)) : promotes = [] := by
  obtain ⟨log, hs, hd⟩ := react_eq_ok_iff.mp hr
  rw [deliver_silent (step_silent hs hw)] at hd
  exact (pure_eq_ok_iff.mp hd).1.symm

theorem Commands.promoted (h : Commands program p4info event promotes)
    (hp : Programmed p4info state.server) (hl : layout.Lawful) (hb : Builds program code)
    {now : List Promote}
    (hr : react layout code state event = ⟨now, .ok (state', outcome)⟩) : now = promotes := by
  cases h with
  | batch ha hasked =>
      exact (Exec.mk.inj (hr.symm.trans (react_batch hp hl hb ha hasked))).1
  | refused ha =>
      obtain ⟨_, _, he⟩ := @react_refused layout code state _ ha
      exact (Exec.mk.inj (hr.symm.trans he)).1
  | other hw => exact react_silent hr hw

-- A second push never changes what an id already stands for.
theorem Programmed.push {disk : Disk} {action : ConfigAction}
    {config : P4v1.ForwardingPipelineConfig} {id : UInt64} (h : Programmed p4info server)
    (hp : PushedTo disk (withDeviceId server id) action config server') :
    Programmed p4info server' := by
  have hpacked : scheme.Packed server'.dm.idMap.data :=
    @packed_pushed (withDeviceId server id) _ _ _ _ h.packed hp
  cases hp with
  | ignored => exact { h with }
  | applied _ hload =>
      obtain ⟨ds, -, rfl⟩ := loadP4info_registered hload
      refine { has_p4info := rfl, resolves := fun d hd => ?_, packed := hpacked }
      obtain ⟨elem, he, hr⟩ := h.resolves d hd
      exact ⟨elem, getElement_registered_of_some ds h.packed he, hr⟩

theorem Programmed.same_map (h : Programmed p4info server)
    (hmap : server'.dm.idMap = server.dm.idMap)
    (hp : server'.dm.hasP4info = server.dm.hasP4info) : Programmed p4info server' where
  has_p4info := hp.trans h.has_p4info
  resolves := by
    rw [ResolvesAllOf, hmap]
    exact h.resolves
  packed := by
    rw [hmap]
    exact h.packed

theorem Programmed.step (h : Programmed p4info state.server)
    (hs : Session.step state event = ⟨log, .ok (state', outcome)⟩) :
    Programmed p4info state'.server := by
  cases event with
  | rpc rpc =>
      obtain ⟨effects, server, reply, hserve, -, -, rfl⟩ := step_rpc_ok hs
      cases rpc with
      | write request =>
          have hframe := serveWrite_frame hserve
          exact h.same_map (by rw [hframe]) (by rw [hframe])
      | read request getCounterByName =>
          rw [(serve_read_ok hserve).1]
          exact h
      | setForwardingPipelineConfig request disk => exact h.push (serve_set_ok hserve).2.2
  | getForwardingPipelineConfig request disk =>
      rw [step_get_eq] at hs
      obtain ⟨rfl, -⟩ := Prod.mk.inj (Except.ok.inj (Exec.mk.inj hs).2)
      have hframe := (serviceGet_frame disk state.server request).others
      exact h.same_map (by rw [hframe]) (by rw [hframe])
  | streamMessage stream request =>
      cases step_message_ok hs <;> exact h.same_map rfl rfl
  | openStream | closeStream =>
      obtain ⟨rfl, -⟩ := Prod.mk.inj (Except.ok.inj (Exec.mk.inj hs).2)
      exact h.same_map rfl rfl
  | sendDigest digest digestId timestamp =>
      obtain ⟨rfl, -⟩ := step_digest_ok hs
      exact h

theorem programmed_of_first {disk : Disk} {action : ConfigAction}
    {config : P4v1.ForwardingPipelineConfig} {id : UInt64} (hfresh : server.dm.idMap = initMap)
    (ha : ConfigAction.applied action = true) (hw : WellDeclared config.p4info)
    (hadd : ∀ r ∈ (addElements initMap (addCalls config.p4info)).1, r ≠ none)
    (hp : PushedTo disk (withDeviceId server id) action config server') :
    Programmed config.p4info server' := by
  have hfits : ∀ d ∈ declarations config.p4info, d.Fits := fun d hd =>
    ⟨hw.arg_count d hd, hw.arg_names d hd⟩
  have hds := fitDecls_val _ hfits
  have hplaced := placed_of_calls hds hadd
  cases hp with
  | ignored hn => simp [ha] at hn
  | applied _ hload =>
      have hmap : (withDeviceId server id).dm.idMap = initMap := hfresh
      rw [hmap, loadP4info_eq _ hds.symm hplaced] at hload
      obtain ⟨-, rfl⟩ := pure_eq_ok_iff.mp hload
      refine
        { has_p4info := rfl, resolves := fun d hd => ?_
          packed := packed_insertAll Scheme.packed_empty _ }
      have hnodup : ((fitDecls _ hfits).map (fun d => d.val.id)).Nodup := by
        have hid := hw.ids
        rwa [← hds, List.map_map] at hid
      have hmem : (⟨d, hfits d hd⟩ : FitDecl) ∈ fitDecls _ hfits := by
        simpa [fitDecls, List.mem_attachWith] using hd
      refine ⟨FitDecl.element ⟨d, hfits d hd⟩, ?_, element_resolved _ (hw.arg_ids d hd)⟩
      have hget := getElement_registered (fitDecls _ hfits) Scheme.packed_empty hplaced
        d.id.toUInt64
      rw [getElement_initMap, Option.none_or] at hget
      rw [configured, hget, find?_of_nodup (f := fun d : FitDecl => d.val.id.toUInt64)
        (nodup_toUInt64 hnodup) hmem]
      rfl

theorem happens_of_operates (h : Operates layout code deviceId ticks state) :
    Happens deviceId (ticks.map Tick.moment) state :=
  h.map Tick.moment fun _ _ _ hr =>
    have ⟨log, hs, _⟩ := react_eq_ok_iff.mp hr
    ⟨log, hs⟩

theorem not_configHandled_cons {moment : Moment} {history : List Moment}
    (h : ¬ConfigHandled (moment :: history)) : ¬ConfigHandled history := by
  rintro ⟨m, hm, hrest⟩
  exact h ⟨m, List.mem_cons_of_mem moment hm, hrest⟩

theorem unconfigured_of_operates (h : Operates layout code deviceId ticks state)
    (hc : ¬ConfigHandled (ticks.map Tick.moment)) : Unconfigured state.server := by
  rw [← config_isSome_iff] at hc
  exact (tracks_of_happens (happens_of_operates h)).unconfigured (Option.not_isSome_iff_eq_none.mp hc)

theorem nothing_promoted_before (h : Operates layout code deviceId ticks state)
    (hc : ¬ConfigHandled (ticks.map Tick.moment)) : ticks.flatMap Tick.promotes = [] := by
  induction h with
  | start => rfl
  | @step ticks state state' tick hrun hr ih =>
      have hbefore := not_configHandled_cons hc
      rw [List.flatMap_cons, ih hbefore, List.append_nil]
      by_cases hw : ∃ request, tick.moment.event = .rpc (.write request)
      · obtain ⟨request, he⟩ := hw
        have hp := (unconfigured_of_operates hrun hbefore).has_p4info
        have hrefused : react layout code state (.rpc (.write request)) = ⟨[], _⟩ :=
          react_rpc (serve_write_unconfigured request hp) rfl
        rw [he, hrefused] at hr
        exact (Exec.mk.inj hr).1.symm
      · exact react_silent hr fun request he => hw ⟨request, he⟩

theorem programmed_after {first : State}
    (h : Replay.Runs first (fun state tick state' =>
      react layout code state tick.moment.event =
        ⟨tick.promotes, .ok (state', tick.moment.outcome)⟩) later state)
    (hp : Programmed p4info first.server) : Programmed p4info state.server := by
  apply Replay.Runs.invariant (P := fun state => Programmed p4info state.server) hp _ h
  intro s tick s' hs hr
  obtain ⟨log, hstep, -⟩ := react_eq_ok_iff.mp hr
  exact hs.step hstep

theorem commands_carried_out {first : State} {asked : List (List Promote)} (hl : layout.Lawful)
    (hb : Builds program code)
    (h : Replay.Runs first (fun state tick state' =>
      react layout code state tick.moment.event =
        ⟨tick.promotes, .ok (state', tick.moment.outcome)⟩) later state)
    (hp : Programmed p4info first.server)
    (hasked : List.Forall₂ (Commands program p4info)
      (later.map (fun tick => tick.moment.event)) asked) : later.map Tick.promotes = asked := by
  induction h generalizing asked with
  | start =>
      cases hasked
      rfl
  | step hrun hr ih =>
      cases hasked with
      | cons hone hrest =>
          rw [List.map_cons, ih hrest, hone.promoted (programmed_after hrun hp) hl hb hr]

theorem programmed_at_push {push : P4v1.SetForwardingPipelineConfigRequest} {disk : Disk}
    (hrun : Operates layout code deviceId (later ++ pushed :: earlier) state)
    (hbefore : ¬ConfigHandled (earlier.map Tick.moment))
    (hpushed : pushed.moment.event = .rpc (.setForwardingPipelineConfig push disk))
    (ha : ConfigAction.applied push.action = true) (hw : WellDeclared push.config.p4info)
    (hadd : ∀ r ∈ (addElements initMap (addCalls push.config.p4info)).1, r ≠ none) :
    (pushed :: earlier).flatMap Tick.promotes = [] ∧
      ∃ first, Programmed push.config.p4info first.server ∧
        Replay.Runs first (fun state tick state' =>
          react layout code state tick.moment.event =
            ⟨tick.promotes, .ok (state', tick.moment.outcome)⟩) later state := by
  obtain ⟨first, hfirst, hlater⟩ := hrun.cases_append
  cases hfirst with
  | step hearlier hr =>
      have hfresh := (unconfigured_of_operates hearlier hbefore).id_map
      have hquiet : pushed.promotes = [] := react_silent hr fun request he => by
        rw [hpushed] at he
        cases he
      obtain ⟨log, hs, -⟩ := react_eq_ok_iff.mp hr
      rw [hpushed] at hs
      obtain ⟨effects, server, reply, hserve, -, -, rfl⟩ := step_rpc_ok hs
      have hp := programmed_of_first hfresh ha hw hadd (serve_set_ok hserve).2.2
      refine ⟨?_, _, hp, hlater⟩
      rw [List.flatMap_cons, hquiet, nothing_promoted_before hearlier hbefore, List.append_nil]

theorem rules_reach_tables {push : P4v1.SetForwardingPipelineConfigRequest} {disk : Disk}
    (hl : layout.Lawful) (hb : Builds program code)
    (hrun : Operates layout code deviceId (later ++ pushed :: earlier) state)
    (hbefore : ¬ConfigHandled (earlier.map Tick.moment))
    (hpushed : pushed.moment.event = .rpc (.setForwardingPipelineConfig push disk))
    (ha : ConfigAction.applied push.action = true) (hw : WellDeclared push.config.p4info)
    (hadd : ∀ r ∈ (addElements initMap (addCalls push.config.p4info)).1, r ≠ none) :
    (pushed :: earlier).flatMap Tick.promotes = [] ∧
      (∀ asked, List.Forall₂ (Commands program push.config.p4info)
        (later.map (fun tick => tick.moment.event)) asked → later.map Tick.promotes = asked) ∧
      ∀ request promotes, request.atomicity = .continueOnError →
        AsksAll program push.config.p4info request.updates promotes →
        react layout code state (.rpc (.write request)) =
          ⟨promotes, .ok (afterBatch state request.updates, .reply (.write Status.success))⟩ := by
  obtain ⟨hquiet, first, hp, hlater⟩ := programmed_at_push hrun hbefore hpushed ha hw hadd
  exact ⟨hquiet, fun asked => commands_carried_out hl hb hlater hp, fun request promotes hatomic =>
    react_batch (programmed_after hlater hp) hl hb hatomic⟩

namespace System

def pushTick : Tick := { moment := L2fwd.pushed, promotes := [] }

def insertRequest : WriteRequest :=
  { deviceId := 1
    updates :=
      [{ type := .insert, entity := .tableEntry L2fwd.insertForward },
       { type := .insert, entity := .tableEntry Rules.defaultForward }]
    atomicity := .continueOnError }

def insertPromotes : List Promote :=
  [.exactAdd (cStr "dmac") ([[0, 0, 0, 0, 0, 7]].flatten.map some)
      (givenValue L2fwd.forwardAction L2fwd.forwardPort),
    .setdefault (cStr "dmac") (givenValue L2fwd.forwardAction L2fwd.forwardPort)]

def insertTick : Tick :=
  { moment :=
      { event := .rpc (.write insertRequest), outcome := .reply (.write Status.success) }
    promotes := insertPromotes }

theorem wellDeclared_l2fwd : WellDeclared L2fwd.p4info :=
  ⟨by decide, by decide, by decide, by decide⟩

theorem slots_l2fwd : ∀ r ∈ (addElements initMap (addCalls L2fwd.p4info)).1, r ≠ none := by decide

theorem offered_forward : Offered L2fwd.p4info L2fwd.dmac L2fwd.forward L2fwd.dmacTable L2fwd.dmacKey
    L2fwd.forwardAction where
  table_mem := by decide
  action_mem := by decide
  describes := ExactInstall.describes_forward
  action_names := by decide

theorem asks_insertRequest : AsksAll L2fwd.program L2fwd.p4info insertRequest.updates insertPromotes :=
  .cons (.rule (.exact offered_forward ExactInstall.dmac_exact ExactInstall.insertForward_complete))
    (.cons
      (.rule (.default offered_forward (mem_tablesWithKeys.mpr ⟨by decide, rfl⟩)
        Rules.defaultForward_default))
      .nil)

theorem operates_pushed : Operates packedLayout L2fwd.code 1 [pushTick] L2fwd.state :=
  .step .start (react_rpc L2fwd.served rfl)

theorem programmed_l2fwd : Programmed L2fwd.p4info L2fwd.server :=
  @programmed_of_first (Server.init 1) L2fwd.server _ _ _ 1 rfl rfl wellDeclared_l2fwd slots_l2fwd
    (serve_set_ok L2fwd.served).2.2

theorem operates_inserted :
    Operates packedLayout L2fwd.code 1 ([insertTick] ++ pushTick :: [])
      (afterBatch L2fwd.state insertRequest.updates) :=
  .step operates_pushed
    (react_batch programmed_l2fwd packedLayout_lawful L2fwd.builds_code rfl asks_insertRequest)

theorem rules_reach_dmac :
    [pushTick].flatMap Tick.promotes = [] ∧
      (∀ asked, List.Forall₂ (Commands L2fwd.program L2fwd.p4info)
        ([insertTick].map (fun tick => tick.moment.event)) asked →
          [insertTick].map Tick.promotes = asked) ∧
      ∀ request promotes, request.atomicity = .continueOnError →
        AsksAll L2fwd.program L2fwd.p4info request.updates promotes →
        react packedLayout L2fwd.code (afterBatch L2fwd.state insertRequest.updates)
            (.rpc (.write request)) =
          ⟨promotes, .ok (afterBatch (afterBatch L2fwd.state insertRequest.updates) request.updates,
            .reply (.write Status.success))⟩ :=
  rules_reach_tables packedLayout_lawful L2fwd.builds_code operates_inserted
    (fun ⟨_, hm, _⟩ => absurd hm List.not_mem_nil) rfl rfl wellDeclared_l2fwd slots_l2fwd

end System

end Switch
