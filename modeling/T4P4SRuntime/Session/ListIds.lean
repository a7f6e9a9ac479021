import T4P4SRuntime.Session.DigestDelivery

namespace Session

open Device P4Config P4v1 Exec

-- A moment together with what the server wrote in it.
structure Turn where
  moment : Moment
  log : List Output

def Logged (deviceId : UInt64) : List Turn → State → Prop :=
  Replay.Runs (State.init deviceId) (fun state turn state' =>
    step state turn.moment.event = ⟨turn.log, .ok (state', turn.moment.outcome)⟩)

def digestOf : Output → Option DigestList
  | .stream { response := .digest list, .. } => some list
  | .stream { response := .arbitration _, .. } | .device _ => none

def written (log : List Output) : List DigestList := (log.filterMap digestOf).reverse

-- The digest messages of a run, the latest first.
def messages (turns : List Turn) : List DigestList := turns.flatMap (fun turn => written turn.log)

def listIdsOf (id : UInt32) (lists : List DigestList) : List UInt64 :=
  (lists.filter (fun list => list.digestId = id)).map DigestList.listId

structure ListIdsIdentify (lists : List DigestList) : Prop where
  next : ∀ id, (listIdsOf id lists).IsChain (fun newer older => newer = older + 1)
  distinct : ∀ id, (listIdsOf id lists).Nodup

def digestMapOf (account : Ledger) : DigestMap :=
  match account.config with
  | none => []
  | some config => activateAll (inactiveDigests config.p4info.digests) account.updates

def activeId (map : DigestMap) (digest : DigestRecord) : Option UInt32 :=
  match map.find? (fun it => it.name = digest.fieldListName.val) with
  | none => none
  | some it => if it.active then some it.id.toUInt32 else none

def sentId (map : DigestMap) : Event → Option UInt32
  | .sendDigest digest _ _ => activeId map digest
  | .rpc _ | .getForwardingPipelineConfig _ _ | .openStream | .streamMessage _ _
  | .closeStream _ => none

def sentIds : List Moment → List UInt32
  | [] => []
  | moment :: history =>
      (sentId (digestMapOf (ledger history)) moment.event).toList ++ sentIds history

variable {deviceId : UInt64} {turns : List Turn} {state state' : State} {log : List Output}
  {outcome : Outcome} {lists : List DigestList} {account : Ledger} {event : Event}

theorem Tracks.digest_map (h : Tracks account state) :
    state.server.dm.digestMap = digestMapOf account := by
  rw [digestMapOf]
  cases hc : account.config with
  | none => exact (h.unconfigured hc).digests
  | some config => exact (h.configured config hc).digests

theorem happens_of_logged (h : Logged deviceId turns state) :
    Happens deviceId (turns.map Turn.moment) state :=
  h.map Turn.moment fun _ turn _ hs => ⟨turn.log, hs⟩

theorem filterMap_digestOf_device (effects : List Effect) :
    (effects.map Output.device).filterMap digestOf = [] := by
  rw [List.filterMap_map]
  exact List.filterMap_eq_nil_iff.mpr fun _ _ => rfl

theorem activeId_of_find {map : DigestMap} {digest : DigestRecord} {it : DigestState}
    (hit : map.find? (fun it => it.name = digest.fieldListName.val) = some it)
    (ha : it.active = true) : activeId map digest = some it.id.toUInt32 := by
  rw [activeId, hit]
  exact if_pos ha

theorem activeId_eq_none {digest : DigestRecord} (h : ¬IsActive state digest) :
    activeId state.server.dm.digestMap digest = none := by
  rw [activeId]
  split
  · rfl
  · rename_i it hit
    exact if_neg fun ha => h ⟨it, hit, ha⟩

structure Numbers (id : Option UInt32) (lists : List DigestList) : Prop where
  ids : lists.map DigestList.digestId = id.toList
  zero : ∀ list ∈ lists, list.listId = 0

theorem numbers_nil : Numbers none [] := ⟨rfl, fun _ h => absurd h List.not_mem_nil⟩

theorem numbers_send {digest : DigestRecord} {digestId : UInt64} {timestamp : Int64}
    (hs : step state (.sendDigest digest digestId timestamp) = ⟨log, .ok (state', outcome)⟩) :
    Numbers (activeId state.server.dm.digestMap digest) (written log) := by
  by_cases hactive : IsActive state digest
  · obtain ⟨it, hit, ha⟩ := hactive
    rw [step_send_active digestId timestamp hit ha] at hs
    rw [activeId_of_find hit ha]
    cases hstream : state.server.dm.stream with
    | none =>
        rw [hstream] at hs
        cases hs
    | some stream =>
        rw [hstream] at hs
        obtain ⟨rfl, -⟩ := Exec.mk.inj hs
        exact ⟨rfl, fun list hl => by rw [List.mem_singleton.mp hl]; rfl⟩
  · rw [step_send_inactive hactive] at hs
    obtain ⟨rfl, -⟩ := Exec.mk.inj hs
    rw [activeId_eq_none hactive]
    exact numbers_nil

theorem numbers_step (hs : step state event = ⟨log, .ok (state', outcome)⟩) :
    Numbers (sentId state.server.dm.digestMap event) (written log) := by
  cases event with
  | rpc rpc =>
      obtain ⟨effects, _, _, -, rfl, -⟩ := step_rpc_ok hs
      rw [written, filterMap_digestOf_device]
      exact numbers_nil
  | streamMessage stream request => cases step_message_ok hs <;> exact numbers_nil
  | getForwardingPipelineConfig | openStream | closeStream =>
      obtain ⟨rfl, -⟩ := Exec.mk.inj hs
      exact numbers_nil
  | sendDigest digest digestId timestamp => exact numbers_send hs

theorem messages_of_logged (h : Logged deviceId turns state) :
    (messages turns).map DigestList.digestId = sentIds (turns.map Turn.moment) ∧
      ∀ list ∈ messages turns, list.listId = 0 := by
  induction h with
  | start => exact ⟨rfl, fun _ h => absurd h List.not_mem_nil⟩
  | @step turns state state' turn hrun hs ih =>
      obtain ⟨hids, hzero⟩ := ih
      have hmap := (tracks_of_happens (happens_of_logged hrun)).digest_map
      have hturn := numbers_step hs
      rw [hmap] at hturn
      have hcons : messages (turn :: turns) = written turn.log ++ messages turns := rfl
      rw [hcons, List.map_append, List.map_cons, sentIds, hturn.ids, hids]
      refine ⟨rfl, fun list hl => ?_⟩
      rcases List.mem_append.mp hl with hnew | hold
      · exact hturn.zero list hnew
      · exact hzero list hold

theorem listIdsOf_eq (hzero : ∀ list ∈ lists, list.listId = 0) (id : UInt32) :
    listIdsOf id lists = List.replicate ((lists.map DigestList.digestId).count id) 0 := by
  have hlength : (listIdsOf id lists).length = (lists.map DigestList.digestId).count id := by
    rw [listIdsOf, List.length_map, List.count, List.countP_map, List.countP_eq_length_filter]
    rfl
  apply List.eq_replicate_iff.mpr
  refine ⟨hlength, fun listId hl => ?_⟩
  obtain ⟨list, hmem, rfl⟩ := List.mem_map.mp hl
  exact hzero list (List.mem_of_mem_filter hmem)

theorem listIdsIdentify_iff_nodup (hzero : ∀ list ∈ lists, list.listId = 0) :
    ListIdsIdentify lists ↔ (lists.map DigestList.digestId).Nodup := by
  rw [List.nodup_iff_count_le_one]
  constructor
  · intro h id
    have hnodup := h.distinct id
    rw [listIdsOf_eq hzero] at hnodup
    exact List.nodup_replicate.mp hnodup
  · intro h
    refine ⟨fun id => ?_, fun id => ?_⟩
    · rw [listIdsOf_eq hzero]
      rcases Nat.le_one_iff_eq_zero_or_eq_one.mp (h id) with hc | hc
      · rw [hc]
        exact List.isChain_nil
      · rw [hc]
        exact List.isChain_singleton 0
    · rw [listIdsOf_eq hzero]
      exact List.nodup_replicate.mpr (h id)

theorem list_ids_identify_iff (h : Logged deviceId turns state) :
    ListIdsIdentify (messages turns) ↔ (sentIds (turns.map Turn.moment)).Nodup := by
  obtain ⟨hids, hzero⟩ := messages_of_logged h
  rw [listIdsIdentify_iff_nodup hzero, hids]

namespace ListIds

def connected : List Turn :=
  [{ moment := L2fwd.streamArbitrated, log := [.stream (notifyOne 0 1 { high := 0, low := 1 })] },
    { moment := L2fwd.streamOpened, log := [] },
    { moment := L2fwd.digestWritten .insert, log := [] },
    { moment := L2fwd.learnPushed, log := [] }]

def learnedList : DigestList := { digestId := 401, listId := 0, data := [[]], timestamp := 0 }

def learned : Turn :=
  { moment := { event := .sendDigest L2fwd.macLearnDigest 0 0, outcome := .sent }
    log := [.stream { stream := 0, response := .digest learnedList }] }

theorem logged_connected : Logged 1 connected L2fwd.connectedState := by
  have hpushed : Logged 1 [{ moment := L2fwd.learnPushed, log := [] }] L2fwd.learnState :=
    .step .start rfl
  have hwritten : Logged 1 [{ moment := L2fwd.digestWritten .insert, log := [] },
      { moment := L2fwd.learnPushed, log := [] }] L2fwd.learningState := .step hpushed rfl
  have hopened : Logged 1 [{ moment := L2fwd.streamOpened, log := [] },
      { moment := L2fwd.digestWritten .insert, log := [] },
      { moment := L2fwd.learnPushed, log := [] }]
      { L2fwd.learningState with running := [0], opened := 1 } := .step hwritten rfl
  exact .step hopened rfl

theorem logged_learned : Logged 1 (learned :: connected) L2fwd.connectedState :=
  .step logged_connected rfl

theorem list_ids_identify_learned : ListIdsIdentify (messages (learned :: connected)) :=
  (list_ids_identify_iff logged_learned).mpr (by decide)

theorem second_list_id_zero :
    Logged 1 (learned :: learned :: connected) L2fwd.connectedState ∧
      messages (learned :: learned :: connected) = [learnedList, learnedList] ∧
      ¬ListIdsIdentify (messages (learned :: learned :: connected)) := by
  refine ⟨.step logged_learned rfl, rfl, fun h => ?_⟩
  have hnodup : (listIdsOf 401 [learnedList, learnedList]).Nodup := h.distinct 401
  exact absurd hnodup (by decide)

end ListIds

end Session
