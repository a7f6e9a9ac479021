import T4P4SRuntime.L2fwd

namespace Device

open IdMap P4v1 Exec

variable {getCounterByName : CounterReader} {dm : DeviceMgr} {bytes packets : CounterArray}

def readAlone (getCounterByName : CounterReader) (dm : DeviceMgr) (entity : Entity) :
    Run (ReadResponse × Status) :=
  devMgrReadOne getCounterByName dm entity { entities := [] }

-- The entities of the successful reads before the first failed one, and the status of that one.
inductive ReadsTo (getCounterByName : CounterReader) (dm : DeviceMgr) :
    List Entity → List Entity → Option Status → Prop where
  | done : ReadsTo getCounterByName dm [] [] none
  | read {entity : Entity} {entities produced : List Entity} {failed : Option Status}
      {log : List Effect} {response : ReadResponse} {status : Status} :
      readAlone getCounterByName dm entity = ⟨log, .ok (response, status)⟩ → status.ok = true →
      ReadsTo getCounterByName dm entities produced failed →
      ReadsTo getCounterByName dm (entity :: entities) (response.entities ++ produced) failed
  | fails {entity : Entity} {entities : List Entity} {log : List Effect} {response : ReadResponse}
      {status : Status} :
      readAlone getCounterByName dm entity = ⟨log, .ok (response, status)⟩ → status.ok = false →
      ReadsTo getCounterByName dm (entity :: entities) [] (some status)

def ReportsFailure (status : Status) : Option Status → Prop
  | none => status.ok = true
  | some failed => status = failed

def ReadReports (getCounterByName : CounterReader) (dm : DeviceMgr) (request : ReadRequest) : Prop :=
  ∃ log response status failed,
    devMgrRead getCounterByName dm request = ⟨log, .ok (response, status)⟩ ∧
      ReadsTo getCounterByName dm request.entities response.entities failed ∧
      ReportsFailure status failed

def CounterArray.isRead (array : CounterArray) : Prop :=
  array.cells.isSome ∧ array.size.toUInt32 > 0

instance (array : CounterArray) : Decidable array.isRead := inferInstanceAs (Decidable (_ ∧ _))

def CounterArray.InBounds (array : CounterArray) (index : Int32) : Prop :=
  array.size ≠ -1 ∧ 0 ≤ index ∧ index < array.size

instance (array : CounterArray) (index : Int32) : Decidable (array.InBounds index) :=
  inferInstanceAs (Decidable (_ ∧ _ ∧ _))

def CellsHeld (bytes packets : CounterArray) (index : Int32) : Prop :=
  (bytes.isRead → bytes.InBounds index) ∧ (packets.isRead → packets.InBounds index)

def CounterReadable (bytes packets : CounterArray) : Option Int64 → Prop
  | some index => 0 ≤ index ∧ CellsHeld bytes packets index.toInt32
  | none => ∀ i : Int32, 0 ≤ i → i < packets.size ∨ i < bytes.size → CellsHeld bytes packets i

def Readable (getCounterByName : CounterReader) (dm : DeviceMgr) : Entity → Prop
  | .counterEntry entry =>
      ∃ elem, getElement dm.idMap entry.counterId.toUInt64 = some elem ∧
        ¬((getCounterByName elem.value true).absent ∧ (getCounterByName elem.value false).absent) ∧
        CounterReadable (getCounterByName elem.value true) (getCounterByName elem.value false)
          entry.index
  | .tableEntry _ | .directCounterEntry | .digestEntry _ | .other => False

theorem cell_of_inBounds {array : CounterArray} {index : Int32} (hr : array.isRead)
    (h : array.InBounds index) : ∃ cell, array.cell index = pure cell := by
  obtain ⟨cells, hc⟩ := Option.isSome_iff_exists.mp hr.1
  refine ⟨cells index.toNatClampNeg, ?_⟩
  simp only [CounterArray.cell, hc]
  exact if_pos h

theorem cell_of_not_inBounds {array : CounterArray} {index : Int32} (hr : array.isRead)
    (h : ¬array.InBounds index) : array.cell index = fault .counterOutOfBounds := by
  obtain ⟨cells, hc⟩ := Option.isSome_iff_exists.mp hr.1
  simp only [CounterArray.cell, hc]
  exact if_neg h

def storeCell (array : CounterArray) (index : Int32) (data : Option CounterData)
    (store : CounterData → UInt32 → CounterData) : Run (Option CounterData) :=
  if array.isRead then do
    let cell ← array.cell index
    pure (some (store (data.getD CounterData.zero) cell))
  else pure data

theorem counterReadOne_eq (index : Int32) (data : Option CounterData) :
    counterReadOne bytes packets index data =
      storeCell bytes index data (fun d cell => { d with byteCount := cell.toUInt64.toInt64 }) >>=
        fun data => storeCell packets index data
          (fun d cell => { d with packetCount := cell.toUInt64.toInt64 }) := by
  by_cases hb : bytes.isRead
  · have hb' : bytes.cells.isSome ∧ bytes.size.toUInt32 > 0 := hb
    simp only [counterReadOne, storeCell, if_pos hb, if_pos hb', bind_assoc, pure_bind]
    rfl
  · have hb' : ¬(bytes.cells.isSome ∧ bytes.size.toUInt32 > 0) := hb
    simp only [counterReadOne, storeCell, if_neg hb, if_neg hb', pure_bind]
    rfl

theorem storeCell_of_held {array : CounterArray} {index : Int32}
    (h : array.isRead → array.InBounds index) (data : Option CounterData)
    (store : CounterData → UInt32 → CounterData) :
    ∃ data', storeCell array index data store = pure data' := by
  rw [storeCell]
  split
  · rename_i hr
    obtain ⟨cell, hcell⟩ := cell_of_inBounds hr (h hr)
    exact ⟨_, by rw [hcell, pure_bind]⟩
  · exact ⟨data, rfl⟩

theorem storeCell_of_not_held {array : CounterArray} {index : Int32}
    (h : ¬(array.isRead → array.InBounds index)) (data : Option CounterData)
    (store : CounterData → UInt32 → CounterData) :
    storeCell array index data store = fault .counterOutOfBounds := by
  push Not at h
  rw [storeCell, if_pos h.1, cell_of_not_inBounds h.1 h.2, fault_bind]

theorem counterReadOne_of_held {index : Int32} (h : CellsHeld bytes packets index)
    (data : Option CounterData) : ∃ data', counterReadOne bytes packets index data = pure data' := by
  obtain ⟨data₁, h₁⟩ := storeCell_of_held h.1 data
    (fun d cell => { d with byteCount := cell.toUInt64.toInt64 })
  obtain ⟨data₂, h₂⟩ := storeCell_of_held h.2 data₁
    (fun d cell => { d with packetCount := cell.toUInt64.toInt64 })
  exact ⟨data₂, by rw [counterReadOne_eq, h₁, pure_bind, h₂]⟩

theorem counterReadOne_of_not_held {index : Int32} (h : ¬CellsHeld bytes packets index)
    (data : Option CounterData) :
    counterReadOne bytes packets index data = fault .counterOutOfBounds := by
  rw [counterReadOne_eq]
  by_cases hb : bytes.isRead → bytes.InBounds index
  · obtain ⟨data', hd⟩ := storeCell_of_held hb data
      (fun d cell => { d with byteCount := cell.toUInt64.toInt64 })
    rw [hd, pure_bind, storeCell_of_not_held fun hp => h ⟨hb, hp⟩]
  · rw [storeCell_of_not_held hb, fault_bind]

theorem nonneg_iff {index : Int32} : 0 ≤ index ↔ 0 ≤ index.toInt := by
  rw [Int32.le_iff_toInt_le, Int32.toInt_zero]

theorem succ_toInt {index size : Int32} (h : index < size) :
    (index + 1).toInt = index.toInt + 1 := by
  have hlt := Int32.lt_iff_toInt_lt.mp h
  have hsize := size.toInt_lt
  have hindex := index.le_toInt
  rw [Int32.toInt_add, show (1 : Int32).toInt = 1 from rfl]
  exact Int.bmod_eq_of_le (by omega) (by omega)

theorem wildcardLoop_append (counterId : UInt32) (n : Nat) (index : Int32)
    (entities produced : List Entity) :
    wildcardLoop bytes packets counterId n index (entities ++ produced) =
      (entities ++ ·) <$> wildcardLoop bytes packets counterId n index produced := by
  induction n generalizing index produced with
  | zero => simp [wildcardLoop]
  | succ n ih =>
      rw [wildcardLoop, wildcardLoop]
      split
      · simp only [map_bind]
        apply bind_congr
        intro data
        rw [List.append_assoc, ih]
      · simp

def loopBound (bytes packets : CounterArray) : Nat :=
  max packets.size.toNatClampNeg bytes.size.toNatClampNeg

theorem next_index {n : Nat} {index : Int32} (h0 : 0 ≤ index)
    (hn : index.toInt + (n + 1 : Nat) = loopBound bytes packets) :
    (index < packets.size ∨ index < bytes.size) ∧ (index + 1).toInt = index.toInt + 1 ∧
      0 ≤ index + 1 := by
  have h0' := nonneg_iff.mp h0
  simp only [loopBound, Int32.toNatClampNeg] at hn
  have hlt : index < packets.size ∨ index < bytes.size := by
    simp only [Int32.lt_iff_toInt_lt]
    omega
  have hsucc : (index + 1).toInt = index.toInt + 1 := hlt.elim succ_toInt succ_toInt
  refine ⟨hlt, hsucc, ?_⟩
  rw [nonneg_iff, hsucc]
  omega

theorem wildcardLoop_finishes_iff (counterId : UInt32) (n : Nat) {index : Int32}
    (h0 : 0 ≤ index) (hn : index.toInt + n = loopBound bytes packets) (entities : List Entity) :
    (∃ log produced, wildcardLoop bytes packets counterId n index entities = ⟨log, .ok produced⟩) ↔
      ∀ i : Int32, index ≤ i → i < packets.size ∨ i < bytes.size → CellsHeld bytes packets i := by
  simp only [Int32.le_iff_toInt_le, Int32.lt_iff_toInt_lt]
  induction n generalizing index entities with
  | zero =>
      have h0' := nonneg_iff.mp h0
      simp only [loopBound, Int32.toNatClampNeg] at hn
      apply iff_of_true ⟨[], entities, rfl⟩
      intro i hi hlt
      omega
  | succ n ih =>
      obtain ⟨hlt, hsucc, hpos⟩ := next_index h0 hn
      rw [wildcardLoop, if_pos hlt]
      by_cases hheld : CellsHeld bytes packets index
      · obtain ⟨data, hd⟩ := counterReadOne_of_held hheld none
        rw [hd, pure_bind]
        apply (ih hpos (by omega) _).trans
        constructor
        · intro h i hi hil
          rcases eq_or_ne i.toInt index.toInt with hii | hii
          · rwa [Int32.toInt.inj hii]
          · exact h i (by omega) hil
        · intro h i hi hil
          exact h i (by omega) hil
      · rw [counterReadOne_of_not_held hheld, fault_bind]
        refine iff_of_false ?_ fun h => hheld (h index (le_refl _) ?_)
        · rintro ⟨log, produced, he⟩
          simp [fault] at he
        · simpa [Int32.lt_iff_toInt_lt] using hlt

def appended (response : ReadResponse) (read : ReadResponse × Status) : ReadResponse × Status :=
  ({ entities := response.entities ++ read.1.entities }, read.2)

theorem devMgrReadOne_eq (entity : Entity) (response : ReadResponse) :
    devMgrReadOne getCounterByName dm entity response =
      appended response <$> readAlone getCounterByName dm entity := by
  cases entity with
  | counterEntry entry =>
      simp only [readAlone, devMgrReadOne, counterRead, checkP4Id, Bool.not_true, Bool.false_and,
        Bool.false_eq_true, if_false, map_bind]
      refine bind_congr fun elem => bind_congr fun _ => bind_congr fun _ => ?_
      split
      · simp [appended]
      · cases hi : entry.index with
        | some index =>
            by_cases hneg : index < 0
            · simp [hneg, appended]
            · simp [hneg, appended]
        | none =>
            have happ := @wildcardLoop_append (getCounterByName elem.value true)
              (getCounterByName elem.value false) entry.counterId
              (loopBound (getCounterByName elem.value true) (getCounterByName elem.value false)) 0
              response.entities []
            rw [List.append_nil, loopBound] at happ
            simp [happ, appended]
  | tableEntry | directCounterEntry | digestEntry | other =>
      simp [readAlone, devMgrReadOne, appended]

def ReadSucceeds (getCounterByName : CounterReader) (dm : DeviceMgr) (entity : Entity) : Prop :=
  ∃ log response status, readAlone getCounterByName dm entity = ⟨log, .ok (response, status)⟩ ∧
    status.ok = true

theorem counter_readSucceeds_iff (entry : CounterEntry) (elem : Element)
    (he : getElement dm.idMap entry.counterId.toUInt64 = some elem) :
    ReadSucceeds getCounterByName dm (.counterEntry entry) ↔
      ¬((getCounterByName elem.value true).absent ∧ (getCounterByName elem.value false).absent) ∧
        CounterReadable (getCounterByName elem.value true) (getCounterByName elem.value false)
          entry.index := by
  rw [ReadSucceeds, readAlone, devMgrReadOne]
  generalize hb : getCounterByName elem.value true = bytes
  generalize hp : getCounterByName elem.value false = packets
  by_cases habs : bytes.absent ∧ packets.absent
  · simp [counterRead, checkP4Id, he, hb, hp, habs, emit, mk_bind, pure_def, Status.ok]
  · cases hi : entry.index with
    | some index =>
        by_cases hneg : index < 0
        · have hnot : ¬0 ≤ index := Int64.not_le.mpr hneg
          simp [counterRead, checkP4Id, he, hb, hp, habs, hi, hneg, hnot, CounterReadable, emit,
            mk_bind, pure_def, Status.make, Status.ok]
        · have hnonneg : 0 ≤ index := Int64.not_lt.mp hneg
          by_cases hheld : CellsHeld bytes packets index.toInt32
          · obtain ⟨data, hd⟩ := counterReadOne_of_held hheld entry.data
            simp [counterRead, checkP4Id, he, hb, hp, habs, hi, hneg, hnonneg, hheld, hd,
              CounterReadable, emit, mk_bind, pure_def]
          · have hd := counterReadOne_of_not_held hheld entry.data
            simp only [CounterReadable, hheld, and_false, iff_false]
            rintro ⟨log, response, status, hread, -⟩
            simp [counterRead, checkP4Id, he, hb, hp, habs, hi, hneg, hd, emit, mk_bind] at hread
            simp [fault] at hread
    | none =>
        have hloop := @wildcardLoop_finishes_iff bytes packets entry.counterId
          (loopBound bytes packets) 0 (Int32.le_refl 0) (by simp) []
        rw [CounterReadable, ← hloop]
        simp only [loopBound]
        generalize hw : wildcardLoop bytes packets entry.counterId
          (max packets.size.toNatClampNeg bytes.size.toNatClampNeg) 0 [] = w
        obtain ⟨log, f | produced⟩ := w
        · simp [counterRead, checkP4Id, he, hb, hp, habs, hi, hw, emit, mk_bind, map_error]
        · simp [counterRead, checkP4Id, he, hb, hp, habs, hi, hw, emit, mk_bind, pure_def]

theorem readSucceeds_iff (entity : Entity) :
    ReadSucceeds getCounterByName dm entity ↔ Readable getCounterByName dm entity := by
  cases entity with
  | counterEntry entry =>
      cases he : getElement dm.idMap entry.counterId.toUInt64 with
      | none =>
          simp [ReadSucceeds, Readable, readAlone, devMgrReadOne, he,
            counterRead_of_none getCounterByName he, fault]
      | some elem =>
          rw [counter_readSucceeds_iff entry elem he]
          simp [Readable, he]
  | tableEntry | directCounterEntry | digestEntry | other =>
      simp [ReadSucceeds, Readable, readAlone, devMgrReadOne, pure_def, Status.make, Status.ok]

theorem readsTo_none {entities produced : List Entity}
    (h : ReadsTo getCounterByName dm entities produced none) :
    ∀ entity ∈ entities, Readable getCounterByName dm entity := by
  generalize hf : (none : Option Status) = failed at h
  induction h with
  | done => simp
  | read he hs _ ih =>
      refine List.forall_mem_cons.mpr ⟨(readSucceeds_iff _).mp ⟨_, _, _, he, hs⟩, ih hf⟩
  | fails => cases hf

theorem readsTo_some {entities produced : List Entity} {status : Status}
    (h : ReadsTo getCounterByName dm entities produced (some status)) : status.ok = false := by
  generalize hf : some status = failed at h
  induction h with
  | done => cases hf
  | read _ _ _ ih => exact ih hf
  | fails _ hs => rwa [Option.some.inj hf]

theorem readLoop_of_readable (entities : List Entity) (response : ReadResponse)
    (h : ∀ entity ∈ entities, Readable getCounterByName dm entity) :
    ∃ log produced, readLoop getCounterByName dm entities response =
        ⟨log, .ok { entities := response.entities ++ produced }⟩ ∧
      ReadsTo getCounterByName dm entities produced none := by
  induction entities generalizing response with
  | nil => exact ⟨[], [], by simp [readLoop, pure_def], .done⟩
  | cons entity entities ih =>
      obtain ⟨hentity, hrest⟩ := List.forall_mem_cons.mp h
      obtain ⟨log, alone, status, he, hs⟩ := (readSucceeds_iff entity).mpr hentity
      obtain ⟨log', produced, hloop, hto⟩ :=
        ih { entities := response.entities ++ alone.entities } hrest
      refine ⟨log ++ log', alone.entities ++ produced, ?_, .read he hs hto⟩
      have hone : devMgrReadOne getCounterByName dm entity response =
          ⟨log, .ok (appended response (alone, status))⟩ := by
        rw [devMgrReadOne_eq, he]
        simp [map_eq_pure_bind, mk_bind, pure_def]
      rw [readLoop, hone, mk_bind]
      simp [appended, hs, hloop]

theorem devMgrRead_ok {request : ReadRequest} {log : List Effect} {response : ReadResponse}
    {status : Status}
    (h : devMgrRead getCounterByName dm request = ⟨log, .ok (response, status)⟩) :
    status = Status.success := by
  rw [devMgrRead, bind_eq_ok_iff] at h
  obtain ⟨_, response', _, -, hret, -⟩ := h
  simp only [pure_eq_ok_iff, Prod.mk.injEq] at hret
  exact hret.2.2.symm

theorem readable_of_reports {request : ReadRequest}
    (h : ReadReports getCounterByName dm request) :
    ∀ entity ∈ request.entities, Readable getCounterByName dm entity := by
  obtain ⟨log, response, status, failed, he, hto, hrep⟩ := h
  obtain rfl := devMgrRead_ok he
  cases failed with
  | none => exact readsTo_none hto
  | some status =>
      obtain rfl : Status.success = status := hrep
      exact absurd (readsTo_some hto) (by simp)

theorem read_reports_iff (request : ReadRequest) :
    ReadReports getCounterByName dm request ↔
      ∀ entity ∈ request.entities, Readable getCounterByName dm entity := by
  constructor
  · exact readable_of_reports
  · intro h
    obtain ⟨log, produced, hloop, hto⟩ :=
      readLoop_of_readable request.entities { entities := [] } h
    refine ⟨log ++ [], { entities := produced }, Status.success, none, ?_, hto, rfl⟩
    rw [devMgrRead, hloop, mk_bind]
    simp [pure_def]

namespace ReadReport

def readDmac : ReadRequest :=
  { deviceId := 1
    entities :=
      [.tableEntry { tableId := 33610402, matchList := [], action := .notSet, isDefaultAction := false }] }

theorem read_hides_failure :
    Reachable 1 L2fwd.server (some L2fwd.p4info) ∧
      ∀ getCounterByName, ¬ReadReports getCounterByName L2fwd.server.dm readDmac :=
  ⟨L2fwd.reachable_server, fun _ h => readable_of_reports h _ (List.mem_singleton.mpr rfl)⟩

end ReadReport

end Device
