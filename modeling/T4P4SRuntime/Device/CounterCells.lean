import T4P4SRuntime.Device.ReadReport

namespace Device

open IdMap P4v1 Exec

variable {getCounterByName : CounterReader} {dm : DeviceMgr} {entry : CounterEntry} {elem : Element}
  {array bytes packets : CounterArray}

def CounterArray.presentSize (array : CounterArray) : Nat :=
  if array.absent then 0 else array.size.toNatClampNeg

def CounterArray.cellAt (array : CounterArray) (i : Nat) : Option UInt32 :=
  if i < array.presentSize then array.cells.map (fun cells => cells i) else none

def putByteCount (data : CounterData) (cell : UInt32) : CounterData :=
  { data with byteCount := cell.toUInt64.toInt64 }

def putPacketCount (data : CounterData) (cell : UInt32) : CounterData :=
  { data with packetCount := cell.toUInt64.toInt64 }

def withCell (data : Option CounterData) (put : CounterData → UInt32 → CounterData) :
    Option UInt32 → Option CounterData
  | none => data
  | some cell => some (put (data.getD CounterData.zero) cell)

def dataAt (bytes packets : CounterArray) (i : Nat) (data : Option CounterData) :
    Option CounterData :=
  withCell (withCell data putByteCount (bytes.cellAt i)) putPacketCount (packets.cellAt i)

def entryAt (bytes packets : CounterArray) (counterId : UInt32) (i : Nat) : Entity :=
  .counterEntry
    { counterId := counterId, index := some (Int64.ofNat i), data := dataAt bytes packets i none }

def wildcardEntries (bytes packets : CounterArray) (counterId : UInt32) : List Entity :=
  (List.range (max bytes.presentSize packets.presentSize)).map (entryAt bytes packets counterId)

def WildcardComplete (getCounterByName : CounterReader) (dm : DeviceMgr) (entry : CounterEntry)
    (elem : Element) (response : ReadResponse) : Prop :=
  let entries := wildcardEntries (getCounterByName elem.value true)
    (getCounterByName elem.value false) entry.counterId
  ∃ log, counterRead getCounterByName dm entry response =
    ⟨log, .ok ({ entities := response.entities ++ entries }, Status.success)⟩

-- The loop runs to the larger size, whatever the pointers, and reads every array it does not
-- take for empty.
structure SizesAgree (bytes packets : CounterArray) : Prop where
  bound : loopBound bytes packets = max bytes.presentSize packets.presentSize
  sizes : ∀ array, array = bytes ∨ array = packets → array.cells.isSome →
    array.size = 0 ∨ array.size.toNatClampNeg = loopBound bytes packets

theorem cellsHeld_iff {index : Int32} :
    CellsHeld bytes packets index ↔
      ∀ array, array = bytes ∨ array = packets → array.isRead → array.InBounds index := by
  simp only [CellsHeld, forall_eq_or_imp, forall_eq]

theorem cellAt_of_inBounds {index : Int32} {cells : Nat → UInt32} (hc : array.cells = some cells)
    (h : array.InBounds index) :
    array.cellAt index.toNatClampNeg = some (cells index.toNatClampNeg) := by
  obtain ⟨hsize, h0, hlt⟩ := h
  have habs : array.absent = false := by simp [CounterArray.absent, hc, hsize]
  have h0' := nonneg_iff.mp h0
  have hlt' := Int32.lt_iff_toInt_lt.mp hlt
  rw [CounterArray.cellAt, CounterArray.presentSize, habs, if_neg Bool.false_ne_true, if_pos ?_, hc]
  · rfl
  · simp only [Int32.toNatClampNeg]
    omega

theorem isRead_iff : array.isRead ↔ array.cells.isSome ∧ array.size ≠ 0 := by
  have hzero : array.size.toUInt32 > 0 ↔ array.size ≠ 0 := by
    rw [gt_iff_lt, UInt32.pos_iff_ne_zero, ne_eq, ne_eq, not_iff_not]
    exact ⟨fun h => congrArg UInt32.toInt32 h, fun h => h ▸ rfl⟩
  rw [CounterArray.isRead, hzero]

theorem cellAt_of_not_read (h : ¬array.isRead) (i : Nat) : array.cellAt i = none := by
  rw [isRead_iff, not_and_or, not_not] at h
  rcases h with hc | hz
  · simp [CounterArray.cellAt, Option.not_isSome_iff_eq_none.mp hc]
  · have hsize : array.presentSize = 0 := by
      rw [CounterArray.presentSize, hz]
      split <;> rfl
    simp [CounterArray.cellAt, hsize]

theorem storeCell_held {index : Int32} (h : array.isRead → array.InBounds index)
    (data : Option CounterData) (put : CounterData → UInt32 → CounterData) :
    storeCell array index data put = pure (withCell data put (array.cellAt index.toNatClampNeg)) := by
  rw [storeCell]
  split
  · rename_i hr
    obtain ⟨cells, hc⟩ := Option.isSome_iff_exists.mp hr.1
    have hin := h hr
    have hcell : array.cell index = pure (cells index.toNatClampNeg) := by
      simp only [CounterArray.cell, hc]
      exact if_pos hin
    rw [hcell, pure_bind, cellAt_of_inBounds hc hin]
    rfl
  · rename_i hr
    rw [cellAt_of_not_read hr]
    rfl

theorem counterReadOne_held {index : Int32} (h : CellsHeld bytes packets index)
    (data : Option CounterData) :
    counterReadOne bytes packets index data =
      pure (dataAt bytes packets index.toNatClampNeg data) := by
  have hbytes := storeCell_held h.1 data putByteCount
  have hpackets := storeCell_held h.2
    (withCell data putByteCount (bytes.cellAt index.toNatClampNeg)) putPacketCount
  rw [counterReadOne_eq]
  exact (congrArg (· >>= _) hbytes).trans ((pure_bind _ _).trans hpackets)

theorem wildcardLoop_held (counterId : UInt32) (n : Nat) {index : Int32} (h0 : 0 ≤ index)
    (hn : index.toInt + n = loopBound bytes packets)
    (hheld : ∀ i : Int32, index ≤ i → i < packets.size ∨ i < bytes.size →
      CellsHeld bytes packets i) (entities : List Entity) :
    wildcardLoop bytes packets counterId n index entities =
      pure (entities ++
        (List.range' index.toNatClampNeg n).map (entryAt bytes packets counterId)) := by
  induction n generalizing index entities with
  | zero => simp [wildcardLoop]
  | succ n ih =>
      have h0' := nonneg_iff.mp h0
      have hbound := hn
      simp only [loopBound, Int32.toNatClampNeg] at hbound
      obtain ⟨hlt, hsucc, hpos⟩ := next_index h0 hn
      have hnat : (index + 1).toNatClampNeg = index.toNatClampNeg + 1 := by
        simp only [Int32.toNatClampNeg, hsucc]
        omega
      have hentry : index.toInt64 = Int64.ofNat index.toNatClampNeg := by
        rw [← Int64.toInt_inj, Int32.toInt_toInt64, Int64.toInt_ofNat_of_lt]
        · simp only [Int32.toNatClampNeg]
          omega
        · have hmax := index.toInt_lt
          simp only [Int32.toNatClampNeg]
          omega
      have hnext := ih hpos (by omega) fun i hi => hheld i (by
        rw [Int32.le_iff_toInt_le] at hi ⊢
        omega)
      rw [wildcardLoop, if_pos hlt, counterReadOne_held (hheld index (Int32.le_refl _) hlt),
        pure_bind,
        hnext, hnat, List.range'_succ, List.map_cons, List.append_assoc, List.singleton_append,
        entryAt, ← hentry]

def lookups (elem : Element) : List Effect :=
  [.getCounterByName elem.value true, .getCounterByName elem.value false]

def NonePresent (bytes packets : CounterArray) : Prop := bytes.absent ∧ packets.absent

instance (bytes packets : CounterArray) : Decidable (NonePresent bytes packets) :=
  inferInstanceAs (Decidable (_ ∧ _))

theorem counterRead_wildcard (he : getElement dm.idMap entry.counterId.toUInt64 = some elem)
    (hb : getCounterByName elem.value true = bytes)
    (hp : getCounterByName elem.value false = packets) (hn : ¬NonePresent bytes packets)
    (hi : entry.index = none) (response : ReadResponse) :
    counterRead getCounterByName dm entry response =
      ⟨lookups elem, .ok ()⟩ >>= fun _ =>
        wildcardLoop bytes packets entry.counterId (loopBound bytes packets) 0 response.entities >>=
          fun entities => pure ({ entities := entities }, Status.success) := by
  rw [NonePresent] at hn
  simp [counterRead, checkP4Id, he, hb, hp, hn, hi, emit, mk_bind, lookups, loopBound]

theorem counterRead_indexed (he : getElement dm.idMap entry.counterId.toUInt64 = some elem)
    (hb : getCounterByName elem.value true = bytes)
    (hp : getCounterByName elem.value false = packets) (hn : ¬NonePresent bytes packets)
    {index : Int64} (hi : entry.index = some index) (h0 : 0 ≤ index) (response : ReadResponse) :
    counterRead getCounterByName dm entry response =
      ⟨lookups elem, .ok ()⟩ >>= fun _ =>
        counterReadOne bytes packets index.toInt32 entry.data >>= fun data =>
          pure ({ entities := response.entities ++ [.counterEntry { entry with data := data }] },
            Status.success) := by
  rw [NonePresent] at hn
  have hneg : ¬index < 0 := Int64.not_lt.mpr h0
  simp [counterRead, checkP4Id, he, hb, hp, hn, hi, hneg, emit, mk_bind, lookups]

theorem counterRead_refused (he : getElement dm.idMap entry.counterId.toUInt64 = some elem)
    {index : Int64} (hi : entry.index = some index)
    (h : index < 0 ∨
      NonePresent (getCounterByName elem.value true) (getCounterByName elem.value false))
    (response : ReadResponse) :
    ∃ status, counterRead getCounterByName dm entry response =
      ⟨lookups elem, .ok (response, status)⟩ ∧ status.ok = false := by
  by_cases hn : NonePresent (getCounterByName elem.value true) (getCounterByName elem.value false)
  · have hand := hn
    rw [NonePresent] at hand
    refine ⟨{ errorCode := .invalidArgument, errorMessage := "Counter cannot be found %s",
              errorDetails := elem.value.val }, ?_, rfl⟩
    simp [counterRead, checkP4Id, he, hand, emit, mk_bind, lookups, pure_def]
  · have hneg := h.resolve_right hn
    rw [NonePresent] at hn
    refine ⟨Status.make .unknown "counter index negative", ?_, rfl⟩
    simp [counterRead, checkP4Id, he, hn, hi, hneg, emit, mk_bind, lookups, pure_def]

theorem held_of_sizesAgree (h : SizesAgree bytes packets) {i : Int32} (h0 : 0 ≤ i)
    (hlt : i < packets.size ∨ i < bytes.size) : CellsHeld bytes packets i := by
  have h0' := nonneg_iff.mp h0
  simp only [Int32.lt_iff_toInt_lt] at hlt
  apply cellsHeld_iff.mpr
  intro array ha hr
  obtain ⟨hc, hz⟩ := isRead_iff.mp hr
  have hsize := (h.sizes array ha hc).resolve_left hz
  simp only [loopBound, Int32.toNatClampNeg] at hsize
  have hpos : i.toInt < array.size.toInt := by omega
  refine ⟨fun hneg => ?_, h0, Int32.lt_iff_toInt_lt.mpr hpos⟩
  rw [hneg] at hpos
  simp only [show (-1 : Int32).toInt = -1 from rfl] at hpos
  omega

theorem sizes_of_held
    (h : ∀ i : Int32, 0 ≤ i → i < packets.size ∨ i < bytes.size → CellsHeld bytes packets i) :
    ∀ array, array = bytes ∨ array = packets → array.cells.isSome →
      array.size = 0 ∨ array.size.toNatClampNeg = loopBound bytes packets := by
  intro array ha hc
  rcases eq_or_ne array.size 0 with hz | hz
  · exact Or.inl hz
  · right
    have hr : array.isRead := isRead_iff.mpr ⟨hc, hz⟩
    have hle : array.size.toNatClampNeg ≤ loopBound bytes packets := by
      rcases ha with rfl | rfl <;> simp [loopBound]
    rcases Nat.eq_zero_or_pos (loopBound bytes packets) with hzero | hpos
    · omega
    · -- the last index of the loop must lie in the array
      have hbytes := bytes.size.toInt_lt
      have hpackets := packets.size.toInt_lt
      have hlast : (Int32.ofNat (loopBound bytes packets - 1)).toInt =
          (loopBound bytes packets - 1 : Nat) := by
        rw [Int32.toInt_ofNat_of_lt]
        simp only [loopBound, Int32.toNatClampNeg]
        omega
      have hheld := h (Int32.ofNat (loopBound bytes packets - 1))
        (by rw [nonneg_iff, hlast]; omega)
        (by
          simp only [Int32.lt_iff_toInt_lt, hlast]
          simp only [loopBound, Int32.toNatClampNeg] at hpos ⊢
          omega)
      have hin := cellsHeld_iff.mp hheld array ha hr
      have hlt := Int32.lt_iff_toInt_lt.mp hin.2.2
      rw [hlast] at hlt
      simp only [Int32.toNatClampNeg] at hle ⊢
      omega

theorem sizesAgree_of_loop {response : ReadResponse} {log : List Effect} {produced : List Entity}
    (h : wildcardLoop bytes packets entry.counterId (loopBound bytes packets) 0 response.entities =
      ⟨log, .ok produced⟩)
    (hp : produced = response.entities ++ wildcardEntries bytes packets entry.counterId) :
    SizesAgree bytes packets := by
  have hstart : (0 : Int32).toInt + loopBound bytes packets = loopBound bytes packets := by simp
  have hheld := (wildcardLoop_finishes_iff entry.counterId (loopBound bytes packets)
    (Int32.le_refl 0) hstart response.entities).mp ⟨log, produced, h⟩
  rw [wildcardLoop_held entry.counterId _ (Int32.le_refl 0) hstart hheld] at h
  have hproduced := Except.ok.inj (Exec.mk.inj h).2
  rw [← hproduced] at hp
  have hlen := congrArg List.length (List.append_cancel_left hp)
  simp only [List.length_map, List.length_range', wildcardEntries, List.length_range] at hlen
  exact ⟨hlen, sizes_of_held hheld⟩

theorem loop_of_sizesAgree (h : SizesAgree bytes packets) (counterId : UInt32)
    (entities : List Entity) :
    wildcardLoop bytes packets counterId (loopBound bytes packets) 0 entities =
      pure (entities ++ wildcardEntries bytes packets counterId) := by
  have hstart : (0 : Int32).toInt + loopBound bytes packets = loopBound bytes packets := by simp
  have hloop := wildcardLoop_held counterId _ (Int32.le_refl 0) hstart
    (fun i h0 => held_of_sizesAgree h h0) entities
  rw [hloop, wildcardEntries, ← h.bound, List.range_eq_range']
  rfl

theorem wildcard_read_complete_iff (response : ReadResponse)
    (he : getElement dm.idMap entry.counterId.toUInt64 = some elem) (hi : entry.index = none)
    (hn : ¬NonePresent (getCounterByName elem.value true) (getCounterByName elem.value false)) :
    WildcardComplete getCounterByName dm entry elem response ↔
      SizesAgree (getCounterByName elem.value true) (getCounterByName elem.value false) := by
  rw [WildcardComplete]
  generalize hb : getCounterByName elem.value true = bytes at hn ⊢
  generalize hp : getCounterByName elem.value false = packets at hn ⊢
  rw [counterRead_wildcard he hb hp hn hi response]
  constructor
  · rintro ⟨log, hlog⟩
    rw [mk_bind] at hlog
    have hout := (Exec.mk.inj hlog).2
    generalize hw : wildcardLoop bytes packets entry.counterId (loopBound bytes packets) 0
      response.entities = w at hout
    obtain ⟨l, f | produced⟩ := w
    · cases hout
    · rw [mk_bind] at hout
      exact sizesAgree_of_loop hw (congrArg (fun out => out.1.entities) (Except.ok.inj hout))
  · intro h
    rw [loop_of_sizesAgree h, pure_bind]
    exact ⟨_, rfl⟩

namespace CounterCells

def p4info : P4Config.P4Info :=
  { tables := [], actions := [], counters := [{ preamble := { id := 301, name := "hits" } }],
    digests := [] }

def server : Server := L2fwd.serverAfter p4info

theorem reachable_server : Reachable 1 server (some p4info) := L2fwd.reachable_of_served rfl

def hits : Element :=
  newElement 301 (cStr "hits")

theorem hits_resolves : getElement server.dm.idMap 301 = some hits := by decide

def readHits (index : Option Int64) : CounterEntry :=
  { counterId := 301, index := index, data := none }

def sized (sizeBytes sizePackets : Int32) : CounterReader :=
  fun _ bytes =>
    { cells := some fun i => UInt32.ofNat i, size := if bytes then sizeBytes else sizePackets }

theorem read_of_two : WildcardComplete (sized 2 2) server.dm (readHits none) hits ⟨[]⟩ :=
  (wildcard_read_complete_iff ⟨[]⟩ hits_resolves rfl (by decide)).mpr
    ⟨rfl, by rintro array (rfl | rfl) - <;> exact Or.inr rfl⟩

theorem shorter_packets_overread :
    Reachable 1 server (some p4info) ∧ getElement server.dm.idMap 301 = some hits ∧
      ¬NonePresent (sized 2 1 hits.value true) (sized 2 1 hits.value false) ∧
      ¬WildcardComplete (sized 2 1) server.dm (readHits none) hits ⟨[]⟩ := by
  refine ⟨reachable_server, hits_resolves, by decide, ?_⟩
  rintro ⟨log, h⟩
  have hfault : (counterRead (sized 2 1) server.dm (readHits none) ⟨[]⟩).out =
      .error .counterOutOfBounds := rfl
  rw [h] at hfault
  cases hfault

end CounterCells

def Present (bytes packets array : CounterArray) : Prop :=
  (array = bytes ∨ array = packets) ∧ array.absent = false

def IndexHeld (bytes packets : CounterArray) (index : Int64) : Prop :=
  0 ≤ index ∧ ¬NonePresent bytes packets ∧
    ∀ array, Present bytes packets array → index.toInt < array.size.toInt

def cellEntry (bytes packets : CounterArray) (entry : CounterEntry) (index : Int64) : Entity :=
  .counterEntry { entry with data := dataAt bytes packets index.toNatClampNeg entry.data }

structure CellOrError (bytes packets : CounterArray) (entry : CounterEntry) (index : Int64)
    (response response' : ReadResponse) (status : Status) : Prop where
  refused : ¬IndexHeld bytes packets index → response' = response ∧ status.ok = false
  read : IndexHeld bytes packets index →
    response' = { entities := response.entities ++ [cellEntry bytes packets entry index] } ∧
      status = Status.success

def IndexedRead (getCounterByName : CounterReader) (dm : DeviceMgr) (entry : CounterEntry)
    (index : Int64) (response : ReadResponse) : Prop :=
  ∃ log response' status,
    counterRead getCounterByName dm entry response = ⟨log, .ok (response', status)⟩ ∧
      ∀ elem, getElement dm.idMap entry.counterId.toUInt64 = some elem →
        CellOrError (getCounterByName elem.value true) (getCounterByName elem.value false) entry
          index response response' status

def IndexChecked (bytes packets : CounterArray) (index : Int64) : Prop :=
  index < 0 ∨ NonePresent bytes packets ∨
    ((∀ array, Present bytes packets array → index.toInt < array.size.toInt) ∧
      ∀ array, array = bytes ∨ array = packets → array.absent → array.cells = none)

theorem present_of_some (h : ¬NonePresent bytes packets) : ∃ array, Present bytes packets array := by
  rw [NonePresent, not_and_or, Bool.not_eq_true, Bool.not_eq_true] at h
  rcases h with hb | hp
  · exact ⟨bytes, Or.inl rfl, hb⟩
  · exact ⟨packets, Or.inr rfl, hp⟩

theorem narrowed {index : Int64} {size : Int32} (h0 : 0 ≤ index) (h : index.toInt < size.toInt) :
    index.toInt32.toInt = index.toInt := by
  have h0' := Int64.le_iff_toInt_le.mp h0
  have hsize := size.toInt_lt
  rw [Int64.toInt_zero] at h0'
  rw [Int64.toInt_toInt32]
  exact Int.bmod_eq_of_le (by omega) (by omega)

theorem held_of_present {index : Int32} (h0 : 0 ≤ index.toInt)
    (hpresent : ∀ array, Present bytes packets array → index.toInt < array.size.toInt)
    (habsent : ∀ array, array = bytes ∨ array = packets → array.absent → array.cells = none) :
    CellsHeld bytes packets index := by
  apply cellsHeld_iff.mpr
  intro array ha hr
  rcases habs : array.absent with _ | _
  · refine ⟨?_, nonneg_iff.mpr h0, Int32.lt_iff_toInt_lt.mpr (hpresent array ⟨ha, habs⟩)⟩
    simp only [CounterArray.absent, Bool.or_eq_false_iff, decide_eq_false_iff_not] at habs
    exact habs.2
  · have hc := hr.1
    rw [habsent array ha habs] at hc
    cases hc

theorem absent_null_of_held {index : Int32} (h : CellsHeld bytes packets index) :
    ∀ array, array = bytes ∨ array = packets → array.absent → array.cells = none := by
  intro array ha habs
  rcases hc : array.cells with _ | cells
  · rfl
  · have hsize : array.size = -1 := by
      simpa [CounterArray.absent, hc] using habs
    have hr : array.isRead := by
      rw [isRead_iff, hc, hsize]
      exact ⟨rfl, by decide⟩
    exact absurd hsize (cellsHeld_iff.mp h array ha hr).1

theorem counterRead_held {index : Int64} (response : ReadResponse)
    (he : getElement dm.idMap entry.counterId.toUInt64 = some elem)
    (hb : getCounterByName elem.value true = bytes)
    (hp : getCounterByName elem.value false = packets) (hi : entry.index = some index)
    (h : IndexHeld bytes packets index)
    (habsent : ∀ array, array = bytes ∨ array = packets → array.absent → array.cells = none) :
    counterRead getCounterByName dm entry response =
      ⟨lookups elem, .ok ({ entities := response.entities ++ [cellEntry bytes packets entry index] },
        Status.success)⟩ := by
  obtain ⟨h0, hn, hpresent⟩ := h
  obtain ⟨array, harray⟩ := present_of_some hn
  have hnarrow := narrowed h0 (hpresent array harray)
  have hheld : CellsHeld bytes packets index.toInt32 := by
    apply held_of_present
    · rw [hnarrow]
      exact Int64.le_iff_toInt_le.mp h0
    · intro array ha
      rw [hnarrow]
      exact hpresent array ha
    · exact habsent
  have hnat : index.toInt32.toNatClampNeg = index.toNatClampNeg := congrArg Int.toNat hnarrow
  rw [counterRead_indexed he hb hp hn hi h0 response, counterReadOne_held hheld, hnat, pure_bind,
    mk_bind]
  simp [pure_def, cellEntry]

theorem indexedRead_of_fault {index : Int64} {response : ReadResponse} {log : List Effect}
    {f : Fault} (h : counterRead getCounterByName dm entry response = ⟨log, .error f⟩) :
    ¬IndexedRead getCounterByName dm entry index response := by
  rintro ⟨log', response', status, hread, -⟩
  rw [h] at hread
  cases (Exec.mk.inj hread).2

theorem indexedRead_of_refused {index : Int64} (hi : entry.index = some index)
    (he : getElement dm.idMap entry.counterId.toUInt64 = some elem)
    (h : index < 0 ∨
      NonePresent (getCounterByName elem.value true) (getCounterByName elem.value false))
    (response : ReadResponse) : IndexedRead getCounterByName dm entry index response := by
  obtain ⟨status, hread, hstatus⟩ := counterRead_refused he hi h response
  refine ⟨_, _, status, hread, ?_⟩
  intro elem' he'
  obtain rfl := Option.some.inj (he.symm.trans he')
  refine ⟨fun _ => ⟨rfl, hstatus⟩, ?_⟩
  rintro ⟨h0, hn, -⟩
  exact absurd h (not_or.mpr ⟨Int64.not_lt.mpr h0, hn⟩)

theorem checked_of_indexedRead {index : Int64} {response : ReadResponse}
    (hi : entry.index = some index)
    (he : getElement dm.idMap entry.counterId.toUInt64 = some elem)
    (hb : getCounterByName elem.value true = bytes)
    (hp : getCounterByName elem.value false = packets) (hn : ¬NonePresent bytes packets)
    (h0 : 0 ≤ index) (h : IndexedRead getCounterByName dm entry index response) :
    (∀ array, Present bytes packets array → index.toInt < array.size.toInt) ∧
      ∀ array, array = bytes ∨ array = packets → array.absent → array.cells = none := by
  obtain ⟨log, response', status, hout, hcell⟩ := h
  have hcell := hcell elem he
  rw [hb, hp] at hcell
  rw [counterRead_indexed he hb hp hn hi h0 response] at hout
  by_cases hheld : CellsHeld bytes packets index.toInt32
  · rw [counterReadOne_held hheld, pure_bind, mk_bind] at hout
    have hok := Except.ok.inj (Exec.mk.inj hout).2
    have hindex : IndexHeld bytes packets index := by
      by_contra hnot
      have hstatus : Status.success = status := congrArg Prod.snd hok
      have hbad := (hcell.refused hnot).2
      rw [← hstatus] at hbad
      cases hbad
    exact ⟨hindex.2.2, absent_null_of_held hheld⟩
  · rw [counterReadOne_of_not_held hheld, fault_bind] at hout
    cases (Exec.mk.inj hout).2

theorem indexedRead_of_held {index : Int64} (response : ReadResponse)
    (hi : entry.index = some index)
    (he : getElement dm.idMap entry.counterId.toUInt64 = some elem)
    (hb : getCounterByName elem.value true = bytes)
    (hp : getCounterByName elem.value false = packets) (h : IndexHeld bytes packets index)
    (habsent : ∀ array, array = bytes ∨ array = packets → array.absent → array.cells = none) :
    IndexedRead getCounterByName dm entry index response := by
  refine ⟨_, _, _, counterRead_held response he hb hp hi h habsent, ?_⟩
  intro elem' he'
  obtain rfl := Option.some.inj (he.symm.trans he')
  rw [hb, hp]
  exact ⟨fun hnot => absurd h hnot, fun _ => ⟨rfl, rfl⟩⟩

theorem indexed_read_checked_iff {index : Int64} (response : ReadResponse)
    (hi : entry.index = some index) :
    IndexedRead getCounterByName dm entry index response ↔
      ∃ elem, getElement dm.idMap entry.counterId.toUInt64 = some elem ∧
        IndexChecked (getCounterByName elem.value true) (getCounterByName elem.value false)
          index := by
  rcases he : getElement dm.idMap entry.counterId.toUInt64 with _ | elem
  · have hfault := counterRead_of_none getCounterByName he response
    exact iff_of_false (indexedRead_of_fault hfault) (by simp)
  · simp only [Option.some.injEq, exists_eq_left']
    by_cases href : index < 0 ∨
        NonePresent (getCounterByName elem.value true) (getCounterByName elem.value false)
    · exact iff_of_true (indexedRead_of_refused hi he href response) (or_assoc.mp (Or.inl href))
    · obtain ⟨hneg, hn⟩ := not_or.mp href
      have h0 := Int64.not_lt.mp hneg
      simp only [IndexChecked, hneg, hn, false_or]
      constructor
      · exact checked_of_indexedRead hi he rfl rfl hn h0
      · rintro ⟨hpresent, habsent⟩
        exact indexedRead_of_held response hi he rfl rfl ⟨h0, hn, hpresent⟩ habsent

namespace CounterCells

theorem read_second_cell :
    IndexedRead (sized 2 2) server.dm (readHits (some 1)) 1 ⟨[]⟩ :=
  (indexed_read_checked_iff ⟨[]⟩ rfl).mpr
    ⟨hits, hits_resolves, Or.inr (Or.inr ⟨by
      rintro array ⟨rfl | rfl, -⟩ <;> decide, by
      rintro array (rfl | rfl) habs <;> cases habs⟩)⟩

theorem large_index_overreads :
    Reachable 1 server (some p4info) ∧ getElement server.dm.idMap 301 = some hits ∧
      ¬IndexedRead (sized 2 2) server.dm (readHits (some 5)) 5 ⟨[]⟩ := by
  refine ⟨reachable_server, hits_resolves, ?_⟩
  rintro ⟨log, response', status, h, -⟩
  have hfault : (counterRead (sized 2 2) server.dm (readHits (some 5)) ⟨[]⟩).out =
      .error .counterOutOfBounds := rfl
  rw [h] at hfault
  cases hfault

end CounterCells

end Device
