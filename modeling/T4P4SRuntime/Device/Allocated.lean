import T4P4SRuntime.IdMap.Allocation
import T4P4SRuntime.L2fwd

namespace Device

open IdMap P4Config Exec Memory Memory.Heap

def nonNull : Option Nat → Checked Nat
  | none => throw .nullElement
  | some p => pure p

def heapStoreArg (heap : Heap Block) (p : Nat) (decl : FieldDecl) : Checked (Heap Block) := do
  let e ← loadElement heap p
  let args ← initialized e.args
  if hn : strlen (cStr decl.name) < maxNameSize then
    if args.length < maxArgs then
      storeElement heap p (fun e => { e with args := some (args ++ [argumentOf decl hn]) })
    else throw .argsOverflow
  else throw .nameOverflow

def heapStoreArgs (m : HeapMap) (elem : Option Nat) : List FieldDecl → Checked HeapMap
  | [] => pure m
  | decl :: decls => do
      let p ← nonNull elem
      let heap ← heapStoreArg m.heap p decl
      heapStoreArgs { m with heap := heap } elem decls

def heapTableLoop (m : HeapMap) : List Table → Checked HeapMap
  | [] => pure m
  | table :: tables => do
      match ← m.addElement table.preamble.id.toUInt64 (cStr table.preamble.name) with
      | (none, m) => pure m
      | (some p, m) => do
          let m ← heapStoreArgs m (some p) table.matchFields
          heapTableLoop m tables

def heapActionLoop (m : HeapMap) : List P4Config.Action → Checked HeapMap
  | [] => pure m
  | action :: actions => do
      let (elem, m) ← m.addElement action.preamble.id.toUInt64 (cStr action.preamble.name)
      let m ← heapStoreArgs m elem action.params
      heapActionLoop m actions

def heapCounterLoop (m : HeapMap) : List Counter → Checked HeapMap
  | [] => pure m
  | counter :: counters => do
      let (_, m) ← m.addElement counter.preamble.id.toUInt64 (cStr counter.preamble.name)
      heapCounterLoop m counters

def heapLoadP4info (m : HeapMap) (p4info : P4Info) : Checked HeapMap := do
  let m ← heapTableLoop m p4info.tables
  let m ← heapActionLoop m p4info.actions
  heapCounterLoop m p4info.counters

inductive MapCall where
  | load (p4info : P4Info)
  | lookup (key : UInt64)

abbrev Found := List (Option (CString × UInt64 × List Argument))

def mapRun (map : Map) : List MapCall → Run (Map × Found)
  | [] => pure (map, [])
  | .load p4info :: calls => do
      let map ← loadP4info map p4info
      mapRun map calls
  | .lookup key :: calls => do
      let (map', found) ← mapRun map calls
      pure (map', (getElement map key).map Element.contents :: found)

def heapRun (m : HeapMap) : List MapCall → Checked (HeapMap × Found)
  | [] => pure (m, [])
  | .load p4info :: calls => do
      let m ← heapLoadP4info m p4info
      heapRun m calls
  | .lookup key :: calls => do
      let contents ← m.lookup key
      let (m', found) ← heapRun m calls
      pure (m', contents :: found)

def Represented (m : HeapMap) (map : Map) : Prop := ∃ cells, Represents m cells map

-- A run on the heap stops for one of the reasons for which a run on the values does, and for no
-- misuse of memory.
inductive SameFault : MapFault → Fault → Prop where
  | nullElement : SameFault .nullElement .nullElement
  | argsOverflow : SameFault .argsOverflow .argsOverflow
  | nameOverflow : SameFault .nameOverflow .nameOverflow

structure SameFound (x : HeapMap × Found) (y : Map × Found) : Prop where
  map : Represented x.1 y.1
  found : x.2 = y.2

variable {m : HeapMap} {cells : Cells} {map : Map} {p q i : Nat} {e : Element}

theorem heapStoreArg_eq (h : HoldsElement m.heap p q e) (decl : FieldDecl) :
    heapStoreArg m.heap p decl =
      if hn : strlen (cStr decl.name) < maxNameSize then
        if ha : e.args.length < maxArgs then
          .ok (m.heap.replace p (some (blockOf q (appendArg e (argumentOf decl hn) ha))))
        else .error .argsOverflow
      else .error .nameOverflow := by
  have hload := h.load
  rw [heapStoreArg]
  simp only [hload, bind, Except.bind, initialized, pure, Except.pure]
  split_ifs with hn ha
  · exact storeElement_live _ h.element
  · rfl
  · rfl

theorem simulates_storeArgs (h : Represents m cells map) (elem : Option Nat) (slot : Option Nat)
    (hp : elem = slot.bind (fun i => (cells i).map Prod.fst)) (decls : List FieldDecl) :
    Simulates Represented SameFault (heapStoreArgs m elem decls) (storeArgs map slot decls) := by
  induction decls generalizing m map with
  | nil => exact .ok ⟨cells, h⟩
  | cons decl decls ih =>
      rw [heapStoreArgs, storeArgs]
      cases slot with
      | none =>
          subst hp
          exact .fault .nullElement
      | some i =>
          have hcontent := h.content i
          rw [Option.bind_some] at hp
          cases hc : cells i with
          | none =>
              rw [hc] at hp hcontent
              subst hp
              generalize hd : map.data i = stored at hcontent
              cases hcontent
              simp only [deref_some, pure_bind, storeArg, hd]
              exact .fault .nullElement
          | some cell =>
              obtain ⟨p, q⟩ := cell
              obtain ⟨e, hd, hholds⟩ := h.holds hc
              have hstore := heapStoreArg_eq hholds decl
              rw [hc] at hp
              subst hp
              simp only [Option.map_some, nonNull, deref_some, pure_bind, storeArg, hd, hstore]
              split_ifs with hn ha
              · have hnext : Represents _ cells
                    ⟨map.data.store i (appendArg e (argumentOf decl hn) ha)⟩ :=
                  h.replaced hc hd rfl
                exact ih hnext
              · exact .fault .argsOverflow
              · exact .fault .nameOverflow

theorem simulates_tableLoop (h : Represented m map) (tables : List Table) :
    Simulates Represented SameFault (heapTableLoop m tables) (tableLoop map tables) := by
  induction tables generalizing m map with
  | nil => exact .ok h
  | cons table tables ih =>
      obtain ⟨cells, h⟩ := h
      obtain ⟨elem, m', cells', he, hm', hp, hnone⟩ :=
        h.add table.preamble.id.toUInt64 (cStr table.preamble.name)
      rw [heapTableLoop, tableLoop, he]
      generalize addElement map table.preamble.id.toUInt64 (cStr table.preamble.name) = added
        at hm' hp hnone ⊢
      obtain ⟨slot, map'⟩ := added
      cases slot with
      | none =>
          subst hp
          exact .ok ⟨cells', hm'⟩
      | some i =>
          have hargs := simulates_storeArgs hm' elem (some i) hp table.matchFields
          cases elem with
          | none => cases hnone.mp rfl
          | some p => exact hargs.bind fun _ _ hnext => ih hnext

theorem simulates_actionLoop (h : Represented m map) (actions : List P4Config.Action) :
    Simulates Represented SameFault (heapActionLoop m actions) (actionLoop map actions) := by
  induction actions generalizing m map with
  | nil => exact .ok h
  | cons action actions ih =>
      obtain ⟨cells, h⟩ := h
      obtain ⟨elem, m', cells', he, hm', hp, -⟩ :=
        h.add action.preamble.id.toUInt64 (cStr action.preamble.name)
      rw [heapActionLoop, actionLoop, he]
      exact (simulates_storeArgs hm' elem _ hp action.params).bind fun _ _ hnext => ih hnext

theorem simulates_counterLoop (h : Represented m map) (counters : List Counter) :
    Simulates (E := Effect) Represented SameFault (heapCounterLoop m counters)
      (pure (counterLoop map counters)) := by
  induction counters generalizing m map with
  | nil => exact .ok h
  | cons counter counters ih =>
      obtain ⟨cells, h⟩ := h
      obtain ⟨elem, m', cells', he, hm', -⟩ :=
        h.add counter.preamble.id.toUInt64 (cStr counter.preamble.name)
      rw [heapCounterLoop, he]
      exact ih ⟨cells', hm'⟩

theorem simulates_load (h : Represented m map) (p4info : P4Info) :
    Simulates Represented SameFault (heapLoadP4info m p4info) (loadP4info map p4info) :=
  (simulates_tableLoop h p4info.tables).bind fun _ _ h₁ =>
    (simulates_actionLoop h₁ p4info.actions).bind fun _ _ h₂ =>
      simulates_counterLoop h₂ p4info.counters

theorem simulates_run (h : Represented m map) (calls : List MapCall) :
    Simulates SameFound SameFault (heapRun m calls) (mapRun map calls) := by
  induction calls generalizing m map with
  | nil => exact .ok ⟨h, rfl⟩
  | cons call calls ih =>
      cases call with
      | load p4info => exact (simulates_load h p4info).bind fun _ _ hnext => ih hnext
      | lookup key =>
          obtain ⟨cells, hcells⟩ := h
          rw [heapRun, mapRun, hcells.lookup]
          exact (ih ⟨cells, hcells⟩).bind fun _ _ hr =>
            simulates_pure ⟨hr.map, congrArg (List.cons _) hr.found⟩

theorem represented_init {heap : Heap Block} (h : ∀ a, heap.block a = none) :
    Represented (HeapMap.init heap) initMap := ⟨_, represents_init h⟩

theorem heap_map_refines_map (calls : List MapCall) :
    Simulates SameFound SameFault (heapRun (HeapMap.init Heap.empty) calls) (mapRun initMap calls) :=
  simulates_run (represented_init fun _ => rfl) calls

theorem represented_of_run {heap : Heap Block} {calls : List MapCall} {found : Found}
    (hempty : ∀ a, heap.block a = none) (h : heapRun (HeapMap.init heap) calls = .ok (m, found)) :
    ∃ map, Represented m map := by
  have hs := simulates_run (represented_init hempty) calls
  rw [h] at hs
  generalize mapRun initMap calls = r at hs
  cases hs with
  | ok hr => exact ⟨_, hr.map⟩

structure Destroyed (m m' : HeapMap) : Prop where
  freed : ∀ a, m'.heap.block a = none
  kept : m'.data = m.data
  lookup : ∀ key, m'.getElement key =
    match m.data (index key) with
    | none => .ok none
    | some _ => .error (.memory .access)
  destroy : (∃ m'', m'.destroy = .ok m'') ↔ ∀ i < maxMapSize, m.data i = none
  reinit : ∀ calls, Simulates SameFound SameFault (heapRun (HeapMap.init m'.heap) calls) (mapRun initMap calls)

theorem destroy_map_frees_all {calls : List MapCall} {found : Found}
    (h : heapRun (HeapMap.init Heap.empty) calls = .ok (m, found)) :
    ∃ m', m.destroy = .ok m' ∧ Destroyed m m' := by
  obtain ⟨map, cells, hrep⟩ := represented_of_run (fun _ => rfl) h
  obtain ⟨heap', he, hdead⟩ := hrep.destroyed
  refine ⟨{ m with heap := heap' }, he, ?_⟩
  exact
    { freed := hdead
      kept := rfl
      lookup := fun key => getElement_dead hdead key
      destroy := by
        have hloop := @destroyLoop_dead heap' m.data hdead maxMapSize 0
        rw [HeapMap.destroy, hloop]
        constructor
        · rintro ⟨m'', hm''⟩
          by_contra hne
          rw [if_neg fun hall => hne fun i hi => hall i (Nat.zero_le i) (by omega)] at hm''
          cases hm''
        · intro hall
          rw [if_pos fun i _ hi => hall i (by omega)]
          exact ⟨_, rfl⟩
      reinit := fun calls => simulates_run (represented_init hdead) calls }

namespace Allocated

def l2fwdCalls : List MapCall := [.load L2fwd.p4info, .lookup 33610402]

def l2fwdRun : HeapMap × Found :=
  match heapRun (HeapMap.init Heap.empty) l2fwdCalls with
  | .ok result => result
  | .error _ => (HeapMap.init Heap.empty, [])

theorem l2fwdRun_ok : heapRun (HeapMap.init Heap.empty) l2fwdCalls = .ok (l2fwdRun.1, l2fwdRun.2) :=
  rfl

theorem destroy_l2fwd_frees_all : ∃ m', l2fwdRun.1.destroy = .ok m' ∧ Destroyed l2fwdRun.1 m' :=
  destroy_map_frees_all l2fwdRun_ok

end Allocated

end Device
