import T4P4SRuntime.Library.Heap
import T4P4SRuntime.Library.Replay

namespace PIGrpcServer

open Memory

inductive Fault where
  | null
  | memory (fault : Memory.Fault)
  deriving DecidableEq, Repr

-- What `BuildAndStart` answers: the port it writes, and whether it returns a server.
structure Started where
  port : Int32
  server : Bool
  deriving DecidableEq, Repr

structure ServerData where
  serverAddress : String
  serverPort : Int32
  server : Bool
  deriving DecidableEq, Repr

-- `listening` are the servers that were started and not shut down, each by the block that owns it.
structure Process where
  heap : Heap ServerData
  serverData : Option Nat
  listening : List Nat

inductive Call where
  | runAddrGnmi (serverAddress : String) (started : Started)
  | getPort
  | getPacketInCount (deviceId : UInt64)
  | getPacketOutCount (deviceId : UInt64)
  | wait
  | shutdown
  | forceShutdown (deadlineSeconds : Int32)
  | cleanup
  deriving DecidableEq, Repr

inductive Reply where
  | returned
  | waiting
  | port (serverPort : Int32)
  | count (packets : UInt64)
  deriving DecidableEq, Repr

def Process.start : Process := { heap := Heap.empty, serverData := none, listening := [] }

def runAddr (serverAddress : String) (started : Started) : Call := .runAddrGnmi serverAddress started

def run (started : Started) : Call := .runAddrGnmi "127.0.0.1:50051" started

def Process.data (process : Process) : Except Fault (Nat × ServerData) :=
  match process.serverData with
  | none => throw .null
  | some p =>
      match process.heap.load p with
      | .error fault => throw (.memory fault)
      | .ok data => pure (p, data)

-- `server_data->server->`
def Process.server (process : Process) : Except Fault Nat := do
  let (p, data) ← process.data
  if data.server then pure p else throw .null

def Process.stop (process : Process) (p : Nat) : Process :=
  { process with listening := process.listening.filter (· ≠ p) }

def Process.launch (process : Process) (serverAddress : String) (started : Started) : Process :=
  { heap := process.heap.malloc
      { serverAddress := serverAddress, serverPort := started.port, server := started.server }
    serverData := some process.heap.next
    listening :=
      if started.server then process.heap.next :: process.listening else process.listening }

def call (process : Process) : Call → Except Fault (Process × Reply)
  | .runAddrGnmi serverAddress started => pure (process.launch serverAddress started, .returned)
  | .getPort => do
      let (_, data) ← process.data
      pure (process, .port data.serverPort)
  | .getPacketInCount _ | .getPacketOutCount _ => pure (process, .count 0)
  | .wait => do
      let p ← process.server
      pure (process, if p ∈ process.listening then .waiting else .returned)
  | .shutdown | .forceShutdown _ => do
      let p ← process.server
      pure (process.stop p, .returned)
  -- `delete` of a null pointer does nothing; that of a `ServerData` shuts its server down.
  | .cleanup =>
      match process.serverData with
      | none => pure (process, .returned)
      | some p =>
          match process.heap.free p with
          | .error fault => throw (.memory fault)
          | .ok heap => pure ({ process.stop p with heap := heap }, .returned)

-- The calls that returned without a fault, the latest one first.
def Lives : List Call → Process → Prop :=
  Replay.Runs Process.start (fun process c process' => ∃ reply, call process c = .ok (process', reply))

def Call.runs : Call → Bool
  | .runAddrGnmi _ _ => true
  | .getPort | .getPacketInCount _ | .getPacketOutCount _ | .wait | .shutdown | .forceShutdown _
  | .cleanup => false

def Call.stops : Call → Bool
  | .shutdown | .forceShutdown _ | .cleanup => true
  | .runAddrGnmi _ _ | .getPort | .getPacketInCount _ | .getPacketOutCount _ | .wait => false

def Call.frees : Call → Bool
  | .cleanup => true
  | .runAddrGnmi _ _ | .getPort | .getPacketInCount _ | .getPacketOutCount _ | .wait | .shutdown
  | .forceShutdown _ => false

-- The answer of the latest run, while its `ServerData` is not deleted.
def standing : List Call → Option Started
  | [] => none
  | .runAddrGnmi _ started :: _ => some started
  | .cleanup :: _ => none
  | _ :: earlier => standing earlier

def Safe (earlier : List Call) : Call → Prop
  | .runAddrGnmi _ _ | .getPacketInCount _ | .getPacketOutCount _ => True
  | .getPort => standing earlier ≠ none
  | .wait | .shutdown | .forceShutdown _ =>
      ∃ started, standing earlier = some started ∧ started.server = true
  | .cleanup => standing earlier ≠ none ∨ ∀ c ∈ earlier, c.runs = false

def AllSafe : List Call → Prop
  | [] => True
  | c :: earlier => AllSafe earlier ∧ Safe earlier c

-- Some call of the kind comes before the next run.
def met (kind : Call → Bool) : List Call → Bool
  | [] => false
  | c :: later => met kind later || (kind c && !later.any Call.runs)

def runsOf (history : List Call) : Nat := history.countP Call.runs

variable {process process' : Process} {history later earlier : List Call} {c : Call} {reply : Reply}
  {serverAddress : String} {started : Started} {p : Nat} {data : ServerData}

theorem data_of_null (h : process.serverData = none) : process.data = .error .null := by
  rw [Process.data, h]
  rfl

theorem data_of_dead (h : process.serverData = some p) (hb : process.heap.block p = none) :
    process.data = .error (.memory .access) := by
  simp only [Process.data, h, Heap.load_dead hb]
  rfl

theorem data_of_live (h : process.serverData = some p) (hb : process.heap.block p = some data) :
    process.data = .ok (p, data) := by
  simp only [Process.data, h, Heap.load_live hb]
  rfl

inductive Stands (process : Process) (history : List Call) : Prop where
  | null : standing history = none → (∀ c ∈ history, c.runs = false) → process.serverData = none →
      Stands process history
  | dead {p : Nat} : standing history = none → (∃ c ∈ history, c.runs = true) →
      process.serverData = some p → process.heap.block p = none → Stands process history
  | live {p : Nat} {data : ServerData} {started : Started} : standing history = some started →
      process.serverData = some p → process.heap.block p = some data →
      data.serverPort = started.port → data.server = started.server → Stands process history

inductive Effect (process : Process) : Call → Process → Prop where
  | launched {serverAddress : String} {started : Started} :
      Effect process (.runAddrGnmi serverAddress started) (process.launch serverAddress started)
  | kept {c : Call} : c.runs = false → c.stops = false → c.frees = false → Effect process c process
  | stopped {c : Call} {p : Nat} : process.serverData = some p → c.runs = false →
      c.stops = true → c.frees = false → Effect process c (process.stop p)
  | deleted {p : Nat} {data : ServerData} : process.serverData = some p →
      process.heap.block p = some data →
      Effect process .cleanup { process.stop p with heap := process.heap.replace p none }
  | nothing : process.serverData = none → Effect process .cleanup process

theorem data_ok_iff : process.data = .ok (p, data) ↔
    process.serverData = some p ∧ process.heap.block p = some data := by
  constructor
  · intro h
    cases hs : process.serverData with
    | none =>
        rw [data_of_null hs] at h
        cases h
    | some q =>
        cases hb : process.heap.block q with
        | none =>
            rw [data_of_dead hs hb] at h
            cases h
        | some found =>
            rw [data_of_live hs hb] at h
            cases h
            exact ⟨rfl, hb⟩
  · rintro ⟨hs, hb⟩
    exact data_of_live hs hb

theorem server_of_data (h : process.data = .ok (p, data)) :
    process.server = if data.server = true then .ok p else .error .null := by
  rw [Process.server, h]
  rfl

theorem server_ok_iff : process.server = .ok p ↔
    ∃ data, process.serverData = some p ∧ process.heap.block p = some data ∧
      data.server = true := by
  constructor
  · intro h
    cases hd : process.data with
    | error fault =>
        rw [Process.server, hd] at h
        cases h
    | ok found =>
        obtain ⟨q, data⟩ := found
        obtain ⟨hs, hb⟩ := data_ok_iff.mp hd
        rw [server_of_data hd] at h
        split at h
        · rename_i hserver
          obtain rfl := Except.ok.inj h
          exact ⟨data, hs, hb, hserver⟩
        · cases h
  · rintro ⟨data, hs, hb, hserver⟩
    rw [server_of_data (data_of_live hs hb), if_pos hserver]

theorem effect_of_ok (h : call process c = .ok (process', reply)) : Effect process c process' := by
  cases c with
  | runAddrGnmi serverAddress started =>
      cases h
      exact .launched
  | getPacketInCount deviceId | getPacketOutCount deviceId =>
      cases h
      exact .kept rfl rfl rfl
  | getPort =>
      rw [call] at h
      cases hd : process.data with
      | error fault =>
          rw [hd] at h
          cases h
      | ok found =>
          rw [hd] at h
          cases h
          exact .kept rfl rfl rfl
  | wait =>
      rw [call] at h
      cases hs : process.server with
      | error fault =>
          rw [hs] at h
          cases h
      | ok p =>
          rw [hs] at h
          cases h
          exact .kept rfl rfl rfl
  | shutdown | forceShutdown deadlineSeconds =>
      rw [call] at h
      cases hs : process.server with
      | error fault =>
          rw [hs] at h
          cases h
      | ok p =>
          obtain ⟨data, hp, -, -⟩ := server_ok_iff.mp hs
          rw [hs] at h
          cases h
          exact .stopped hp rfl rfl rfl
  | cleanup =>
      cases hs : process.serverData with
      | none =>
          simp only [call, hs] at h
          cases h
          exact .nothing hs
      | some p =>
          cases hb : process.heap.block p with
          | none =>
              simp only [call, hs, Heap.free_dead hb] at h
              cases h
          | some data =>
              simp only [call, hs, Heap.free_live hb] at h
              cases h
              exact .deleted hs hb

theorem effects_of_lives (h : Lives history process) :
    Replay.Runs Process.start Effect history process :=
  Replay.Runs.mono (fun _ _ _ ⟨_, hs⟩ => effect_of_ok hs) h

theorem standing_cons (hr : c.runs = false) (hf : c.frees = false) (history : List Call) :
    standing (c :: history) = standing history := by
  cases c with
  | runAddrGnmi => cases hr
  | cleanup => cases hf
  | getPort | getPacketInCount | getPacketOutCount | wait | shutdown | forceShutdown => rfl

theorem run_of_standing (h : standing history = some started) : ∃ c ∈ history, c.runs = true := by
  induction history with
  | nil => cases h
  | cons c history ih =>
      cases hr : c.runs with
      | true => exact ⟨c, List.mem_cons_self, hr⟩
      | false =>
          cases hf : c.frees with
          | true =>
              cases c with
              | cleanup => cases h
              | runAddrGnmi | getPort | getPacketInCount | getPacketOutCount | wait | shutdown
              | forceShutdown => cases hf
          | false =>
              rw [standing_cons hr hf] at h
              obtain ⟨d, hd, hruns⟩ := ih h
              exact ⟨d, List.mem_cons_of_mem c hd, hruns⟩

theorem Stands.silent (h : Stands process history) (hr : c.runs = false) (hf : c.frees = false)
    (hheap : process'.heap = process.heap) (hdata : process'.serverData = process.serverData) :
    Stands process' (c :: history) := by
  cases h with
  | null hn hnone hs =>
      exact .null (by rw [standing_cons hr hf, hn]) (List.forall_mem_cons.mpr ⟨hr, hnone⟩)
        (by rw [hdata, hs])
  | dead hn hrun hs hb =>
      obtain ⟨d, hd, hruns⟩ := hrun
      exact .dead (by rw [standing_cons hr hf, hn]) ⟨d, List.mem_cons_of_mem c hd, hruns⟩
        (by rw [hdata, hs]) (by rw [hheap, hb])
  | live hn hs hb hport hserver =>
      exact .live (by rw [standing_cons hr hf, hn]) (by rw [hdata, hs]) (by rw [hheap, hb]) hport
        hserver

theorem Stands.step (h : Stands process history) (he : Effect process c process') :
    Stands process' (c :: history) := by
  cases he with
  | launched => exact .live rfl rfl (Heap.malloc_next _ _) rfl rfl
  | kept hr hk hf => exact h.silent hr hf rfl rfl
  | stopped hs hr hk hf => exact h.silent hr hf rfl rfl
  | nothing hs =>
      cases h with
      | null hn hnone => exact .null rfl (List.forall_mem_cons.mpr ⟨rfl, hnone⟩) hs
      | dead hn hrun hs' | live hn hs' =>
          rw [hs] at hs'
          cases hs'
  | deleted hs hb =>
      have hrun : ∃ d ∈ history, d.runs = true := by
        cases h with
        | null hn hnone hs' =>
            rw [hs] at hs'
            cases hs'
        | dead hn hrun => exact hrun
        | live hn => exact run_of_standing hn
      obtain ⟨d, hd, hruns⟩ := hrun
      exact .dead rfl ⟨d, List.mem_cons_of_mem _ hd, hruns⟩ hs (Heap.replace_same none hb)

theorem stands_of_lives (h : Lives history process) : Stands process history := by
  replace h := effects_of_lives h
  induction h with
  | start => exact .null rfl (by simp) rfl
  | step _ he ih => exact ih.step he

theorem call_ok_of_no_data {fault : Fault} (hd : process.data = .error fault)
    (hn : standing history = none) (hc : c.frees = false) :
    (∃ process' reply, call process c = .ok (process', reply)) ↔ Safe history c := by
  cases c with
  | cleanup => cases hc
  | runAddrGnmi | getPacketInCount | getPacketOutCount => exact iff_of_true ⟨_, _, rfl⟩ trivial
  | getPort =>
      refine iff_of_false ?_ (not_not.mpr hn)
      rintro ⟨_, _, he⟩
      rw [call, hd] at he
      cases he
  | wait | shutdown | forceShutdown =>
      refine iff_of_false ?_ (by simp [Safe, hn])
      rintro ⟨_, _, he⟩
      rw [call, Process.server, hd] at he
      cases he

theorem call_ok_of_data (hd : process.data = .ok (p, data)) (hn : standing history = some started)
    (hserver : data.server = started.server) (hc : c.frees = false) :
    (∃ process' reply, call process c = .ok (process', reply)) ↔ Safe history c := by
  have hs := server_of_data hd
  cases c with
  | cleanup => cases hc
  | runAddrGnmi | getPacketInCount | getPacketOutCount => exact iff_of_true ⟨_, _, rfl⟩ trivial
  | getPort =>
      refine iff_of_true ⟨process, .port data.serverPort, ?_⟩ (by simp [Safe, hn])
      rw [call, hd]
      rfl
  | wait | shutdown | forceShutdown =>
      cases hb : data.server with
      | true =>
          rw [if_pos hb] at hs
          refine iff_of_true ?_ ⟨started, hn, hserver ▸ hb⟩
          rw [call, hs]
          exact ⟨_, _, rfl⟩
      | false =>
          rw [if_neg (by simp [hb])] at hs
          refine iff_of_false ?_ ?_
          · rintro ⟨_, _, he⟩
            rw [call, hs] at he
            cases he
          · rintro ⟨other, ho, htrue⟩
            rw [hn] at ho
            obtain rfl := Option.some.inj ho
            rw [← hserver, hb] at htrue
            cases htrue

theorem cleanup_ok_iff (h : Stands process history) :
    (∃ process' reply, call process .cleanup = .ok (process', reply)) ↔ Safe history .cleanup := by
  cases h with
  | null hn hnone hs =>
      refine iff_of_true ⟨process, .returned, ?_⟩ (Or.inr hnone)
      simp only [call, hs]
      rfl
  | dead hn hrun hs hb =>
      refine iff_of_false ?_ ?_
      · rintro ⟨_, _, he⟩
        simp only [call, hs, Heap.free_dead hb] at he
        cases he
      · obtain ⟨d, hd, hruns⟩ := hrun
        rintro (hsome | hnone)
        · exact hsome hn
        · rw [hnone d hd] at hruns
          cases hruns
  | live hn hs hb hport hserver =>
      refine iff_of_true ?_ (Or.inl (by simp [hn]))
      simp only [call, hs, Heap.free_live hb]
      exact ⟨_, _, rfl⟩

theorem call_ok_iff (h : Stands process history) (c : Call) :
    (∃ process' reply, call process c = .ok (process', reply)) ↔ Safe history c := by
  cases hc : c.frees with
  | true =>
      cases c with
      | cleanup => exact cleanup_ok_iff h
      | runAddrGnmi | getPort | getPacketInCount | getPacketOutCount | wait | shutdown
      | forceShutdown => cases hc
  | false =>
      cases h with
      | null hn hnone hs => exact call_ok_of_no_data (data_of_null hs) hn hc
      | dead hn hrun hs hb => exact call_ok_of_no_data (data_of_dead hs hb) hn hc
      | live hn hs hb hport hserver => exact call_ok_of_data (data_of_live hs hb) hn hserver hc

theorem lives_iff (history : List Call) : (∃ process, Lives history process) ↔ AllSafe history := by
  induction history with
  | nil => exact iff_of_true ⟨Process.start, .start⟩ trivial
  | cons c earlier ih =>
      rw [AllSafe, ← ih]
      constructor
      · rintro ⟨process', h⟩
        cases h with
        | @step _ process _ _ hrun hs =>
            obtain ⟨reply, hs⟩ := hs
            exact ⟨⟨process, hrun⟩, (call_ok_iff (stands_of_lives hrun) c).mp ⟨process', reply, hs⟩⟩
      · rintro ⟨⟨process, hrun⟩, hsafe⟩
        obtain ⟨process', reply, hs⟩ := (call_ok_iff (stands_of_lives hrun) c).mpr hsafe
        exact ⟨process', .step hrun ⟨reply, hs⟩⟩

theorem Effect.next (h : Effect process c process') :
    process'.heap.next = process.heap.next + if c.runs then 1 else 0 := by
  cases h with
  | launched => rfl
  | kept hr | stopped _ hr => rw [hr]; rfl
  | deleted | nothing => rfl

theorem next_of_lives (h : Lives history process) : process.heap.next = runsOf history := by
  replace h := effects_of_lives h
  induction h with
  | start => rfl
  | step _ he ih => rw [he.next, ih, runsOf, runsOf, List.countP_cons]

-- What has become of the block `p` and of its server since the run that made them.
structure Follows (p : Nat) (data : ServerData) (later : List Call) (process : Process) : Prop where
  next : p < process.heap.next
  pointer : ∃ q, process.serverData = some q ∧ (q = p ↔ ∀ c ∈ later, c.runs = false)
  block : process.heap.block p = if met Call.frees later then none else some data
  listening : p ∈ process.listening ↔ data.server = true ∧ met Call.stops later = false

theorem met_skip {kind : Call → Bool} (hk : kind c = false) (later : List Call) :
    met kind (c :: later) = met kind later := by
  simp [met, hk]

theorem met_alone {kind : Call → Bool} (hk : kind c = true) (ha : ∀ d ∈ later, d.runs = false) :
    met kind (c :: later) = true := by
  have hany : later.any Call.runs = false := List.any_eq_false.mpr fun d hd => by simp [ha d hd]
  simp [met, hk, hany]

theorem met_over (kind : Call → Bool) (c : Call) (ha : ¬∀ d ∈ later, d.runs = false) :
    met kind (c :: later) = met kind later := by
  have hany : later.any Call.runs = true := by
    rw [List.any_eq_true]
    by_contra hnone
    exact ha fun d hd => by
      cases hr : d.runs with
      | false => rfl
      | true => exact absurd ⟨d, hd, hr⟩ hnone
  simp [met, hany]

theorem mem_stop_iff {q : Nat} : p ∈ (process.stop q).listening ↔ p ∈ process.listening ∧ p ≠ q := by
  rw [Process.stop, List.mem_filter, decide_eq_true_iff]

theorem Follows.alone (h : Follows p data later process) {q : Nat}
    (hs : process.serverData = some q) : q = p ↔ ∀ d ∈ later, d.runs = false := by
  obtain ⟨q', hq', hiff⟩ := h.pointer
  rw [hs] at hq'
  obtain rfl := Option.some.inj hq'
  exact hiff

theorem Follows.stopped (h : Follows p data later process) {q : Nat}
    (hs : process.serverData = some q) (hk : c.stops = true) :
    p ∈ (process.stop q).listening ↔ data.server = true ∧ met Call.stops (c :: later) = false := by
  rw [mem_stop_iff, h.listening]
  rcases eq_or_ne q p with rfl | hne
  · rw [met_alone hk ((h.alone hs).mp rfl)]
    simp
  · rw [met_over Call.stops c (mt (h.alone hs).mpr hne)]
    exact and_iff_left hne.symm

theorem Follows.pointer_cons (h : Follows p data later process) (hr : c.runs = false) :
    ∃ q, process.serverData = some q ∧ (q = p ↔ ∀ d ∈ c :: later, d.runs = false) := by
  obtain ⟨q, hs, hiff⟩ := h.pointer
  refine ⟨q, hs, ?_⟩
  rw [List.forall_mem_cons, and_iff_right hr]
  exact hiff

theorem Follows.step (h : Follows p data later process) (he : Effect process c process') :
    Follows p data (c :: later) process' := by
  cases he with
  | @launched serverAddress started =>
      have hne : p ≠ process.heap.next := h.next.ne
      refine ⟨Nat.lt_succ_of_lt h.next, ⟨process.heap.next, rfl, ?_⟩, ?_, ?_⟩
      · refine iff_of_false hne.symm fun hall => ?_
        cases hall _ List.mem_cons_self
      · rw [met_skip rfl, ← h.block]
        exact Heap.malloc_block _ hne
      · rw [met_skip rfl, ← h.listening, Process.launch]
        dsimp only
        split_ifs
        · rw [List.mem_cons, or_iff_right hne]
        · rfl
  | kept hr hk hf =>
      refine ⟨h.next, h.pointer_cons hr, ?_, ?_⟩
      · rw [met_skip hf, h.block]
      · rw [met_skip hk, h.listening]
  | stopped hs hr hk hf =>
      refine ⟨h.next, h.pointer_cons hr, ?_, h.stopped hs hk⟩
      rw [met_skip hf]
      exact h.block
  | @deleted q found hs hb =>
      refine ⟨h.next, h.pointer_cons rfl, ?_, h.stopped hs rfl⟩
      rcases eq_or_ne q p with rfl | hne
      · rw [met_alone rfl ((h.alone hs).mp rfl), if_pos rfl]
        exact Heap.replace_same none hb
      · rw [met_over Call.frees _ (mt (h.alone hs).mpr hne), ← h.block]
        exact Heap.replace_block none hne.symm
  | nothing hs =>
      obtain ⟨q, hq, -⟩ := h.pointer
      rw [hs] at hq
      cases hq

theorem follows_launch (process : Process) (serverAddress : String) (started : Started)
    (hl : process.heap.next ∉ process.listening) :
    Follows process.heap.next
      { serverAddress := serverAddress, serverPort := started.port, server := started.server } []
      (process.launch serverAddress started) where
  next := Nat.lt_succ_self _
  pointer := ⟨_, rfl, iff_of_true rfl (by simp)⟩
  block := Heap.malloc_next _ _
  listening := by
    rw [Process.launch]
    cases hs : started.server with
    | true => exact iff_of_true List.mem_cons_self ⟨rfl, rfl⟩
    | false => exact iff_of_false hl (by simp)

theorem listening_lt (h : Lives history process) : ∀ p ∈ process.listening, p < process.heap.next := by
  replace h := effects_of_lives h
  induction h with
  | start => simp [Process.start]
  | step _ he ih =>
      cases he with
      | launched =>
          intro p hp
          rw [Process.launch] at hp ⊢
          dsimp only at hp ⊢
          split_ifs at hp
          · rcases List.mem_cons.mp hp with rfl | hmem
            · exact Nat.lt_succ_self _
            · exact Nat.lt_succ_of_lt (ih p hmem)
          · exact Nat.lt_succ_of_lt (ih p hp)
      | kept | nothing => exact ih
      | stopped | deleted => exact fun p hp => ih p (mem_stop_iff.mp hp).1

theorem follows_of_lives
    (h : Lives (later ++ .runAddrGnmi serverAddress started :: earlier) process) :
    Follows (runsOf earlier)
      { serverAddress := serverAddress, serverPort := started.port, server := started.server } later
      process := by
  obtain ⟨middle, hfirst, hlater⟩ := Replay.Runs.cases_append h
  cases hfirst with
  | @step _ before _ _ hearlier hs =>
      obtain ⟨reply, hs⟩ := hs
      cases hs
      have hbase := follows_launch before serverAddress started fun hmem =>
        (listening_lt hearlier _ hmem).ne rfl
      rw [next_of_lives hearlier] at hbase
      clear h
      induction hlater with
      | start => exact hbase
      | step _ hs ih =>
          obtain ⟨reply, hs⟩ := hs
          exact ih.step (effect_of_ok hs)

theorem server_lifecycle
    (h : Lives (later ++ .runAddrGnmi serverAddress started :: earlier) process) :
    (process.heap.block (runsOf earlier) ≠ none ↔ met Call.frees later = false) ∧
      (runsOf earlier ∈ process.listening ↔
        started.server = true ∧ met Call.stops later = false) := by
  have hf := follows_of_lives h
  refine ⟨?_, hf.listening⟩
  rw [hf.block]
  cases met Call.frees later <;> simp

theorem met_behind_run (kind : Call → Bool) (hk : kind (.runAddrGnmi serverAddress started) = false)
    (later : List Call) : met kind (later ++ [.runAddrGnmi serverAddress started]) = false := by
  induction later with
  | nil => simp [met, hk]
  | cons c later ih =>
      have hover : ¬∀ d ∈ later ++ [Call.runAddrGnmi serverAddress started], d.runs = false := by
        intro hall
        cases hall (.runAddrGnmi serverAddress started) (by simp)
      rw [List.cons_append, met_over kind c hover, ih]

-- `init_control_plane` starts a server and then a second one.
theorem first_server_never_stops {first second : Started}
    (h : Lives (later ++ [run second, .runAddrGnmi "127.0.0.1:50051" first]) process)
    (hs : first.server = true) : 0 ∈ process.listening ∧ process.heap.block 0 ≠ none := by
  have hsplit : later ++ [run second, .runAddrGnmi "127.0.0.1:50051" first] =
      (later ++ [run second]) ++ .runAddrGnmi "127.0.0.1:50051" first :: [] := by simp
  rw [hsplit] at h
  have hf := follows_of_lives h
  have hblock := hf.block
  rw [run, met_behind_run Call.frees rfl later] at hblock
  refine ⟨hf.listening.mpr ⟨hs, met_behind_run Call.stops rfl later⟩, ?_⟩
  rw [show (0 : Nat) = runsOf [] from rfl, hblock]
  simp

namespace Lifecycle

def bound : Started := { port := 50051, server := true }

def shutDown : Process := (Process.start.launch "127.0.0.1:50051" bound).stop 0

theorem lives_shutDown : Lives ([.shutdown] ++ run bound :: []) shutDown :=
  .step (.step .start ⟨.returned, rfl⟩) ⟨.returned, rfl⟩

theorem server_lifecycle_shutDown :
    (shutDown.heap.block 0 ≠ none ↔ met Call.frees [.shutdown] = false) ∧
      (0 ∈ shutDown.listening ↔ bound.server = true ∧ met Call.stops [.shutdown] = false) :=
  server_lifecycle lives_shutDown

def controlPlane : Process :=
  ((Process.start.launch "127.0.0.1:50051" bound).launch "127.0.0.1:50051" bound).stop 1

theorem lives_controlPlane :
    Lives ([.shutdown] ++ [run bound, .runAddrGnmi "127.0.0.1:50051" bound]) controlPlane :=
  .step (.step (.step .start ⟨.returned, rfl⟩) ⟨.returned, rfl⟩) ⟨.returned, rfl⟩

theorem control_plane_shut_down :
    0 ∈ controlPlane.listening ∧ controlPlane.heap.block 0 ≠ none :=
  first_server_never_stops lives_controlPlane rfl

end Lifecycle

end PIGrpcServer
