import T4P4SRuntime.Device.InsertSpec
import T4P4SRuntime.L2fwd

namespace Device

open IdMap P4v1

variable {dm : DeviceMgr} {entry : TableEntry} {elem : Element}

def InsertAcceptable (dm : DeviceMgr) (entry : TableEntry) : Prop :=
  (∀ m ∈ entry.matchList, FieldMatchType.supported m.fieldMatchType = true) ∧
    ∃ action actionElem, ActionResolves dm entry action actionElem

def StatusEffectAgree (dm : DeviceMgr) (entry : TableEntry) : Prop :=
  (InsertAcceptable dm entry → Installs (tableInsert dm entry)) ∧
    (¬InsertAcceptable dm entry → Refuses (tableInsert dm entry))

structure IdsResolve (dm : DeviceMgr) (entry : TableEntry) (elem : Element) : Prop where
  table : TableResolves dm entry elem
  fields : ∀ m ∈ entry.matchList, getArgument elem m.fieldId.toUInt64 ≠ none
  params : ∀ action actionElem, ActionResolves dm entry action actionElem →
    ParamsResolve actionElem action.params

theorem IdsResolve.clean (h : IdsResolve dm entry elem) : InsertClean dm entry elem where
  table := h.table
  fields := fun m hm _ => h.fields m hm
  params := h.params

theorem insert_status_effect_agree_iff (h : IdsResolve dm entry elem) :
    StatusEffectAgree dm entry ↔
      (∀ action actionElem, ¬ActionResolves dm entry action actionElem) ∨
        (∀ m ∈ entry.matchList, FieldMatchType.supported m.fieldMatchType = true) ∨
        RejectionStands entry.matchList := by
  rw [StatusEffectAgree, refuses_iff h.clean, installs_iff h.clean]
  by_cases hex : ∃ action actionElem, ActionResolves dm entry action actionElem
  · by_cases hs : ∀ m ∈ entry.matchList, FieldMatchType.supported m.fieldMatchType = true
    · have hr := not_rejectionStands_of_supported hs
      simp [InsertAcceptable, hex, hr]
    · have hn : ¬∀ action actionElem, ¬ActionResolves dm entry action actionElem := by
        push Not
        exact hex
      simp [InsertAcceptable, hex, hs, hn]
  · have hn : ∀ action actionElem, ¬ActionResolves dm entry action actionElem :=
      fun action actionElem ha => hex ⟨action, actionElem, ha⟩
    simp [InsertAcceptable, hn]

namespace StatusEffect

def elementOf (server : Server) (id : UInt64) : Element :=
  (getElement server.dm.idMap id).getD (newElement id (cStr ""))

def rangeThenExact : TableEntry :=
  { tableId := 33610402
    matchList :=
      [{ fieldId := 1, fieldMatchType := .range [0, 0, 0, 0, 0, 1] [0, 0, 0, 0, 0, 9] },
       { fieldId := 1, fieldMatchType := .exact [0, 0, 0, 0, 0, 7] }]
    action := .action { actionId := 16811908, params := [{ paramId := 1, value := [0, 3] }] }
    isDefaultAction := false }

theorem rangeThenExact_resolves :
    IdsResolve L2fwd.server.dm rangeThenExact (elementOf L2fwd.server 33610402) where
  table := by rw [TableResolves]; decide
  fields := by decide
  params := by
    rintro action actionElem ⟨ha, he⟩
    obtain rfl : { actionId := 16811908, params := [{ paramId := 1, value := [0, 3] }] } = action := by
      simpa [rangeThenExact] using ha
    have hf : getElement L2fwd.server.dm.idMap 16811908 =
        some (elementOf L2fwd.server 16811908) := by decide
    obtain rfl : elementOf L2fwd.server 16811908 = actionElem := by simpa [hf] using he
    decide

theorem insert_status_effect_disagrees :
    Reachable 1 L2fwd.server (some L2fwd.p4info) ∧
      IdsResolve L2fwd.server.dm rangeThenExact (elementOf L2fwd.server 33610402) ∧
      ¬StatusEffectAgree L2fwd.server.dm rangeThenExact := by
  refine ⟨L2fwd.reachable_server, rangeThenExact_resolves, fun h => ?_⟩
  have hn : ¬InsertAcceptable L2fwd.server.dm rangeThenExact := fun ha => by
    simpa [rangeThenExact, FieldMatchType.supported] using ha.1
  obtain ⟨status, he, hs⟩ := h.2 hn
  have ho : (tableInsert L2fwd.server.dm rangeThenExact).out = .ok Status.success := by decide
  rw [he] at ho
  obtain rfl : status = Status.success := by simpa using ho
  simp at hs

theorem insert_status_effect_agree_rangeThenExact :
    StatusEffectAgree L2fwd.server.dm rangeThenExact ↔
      (∀ action actionElem, ¬ActionResolves L2fwd.server.dm rangeThenExact action actionElem) ∨
        (∀ m ∈ rangeThenExact.matchList, FieldMatchType.supported m.fieldMatchType = true) ∨
        RejectionStands rangeThenExact.matchList :=
  insert_status_effect_agree_iff rangeThenExact_resolves

end StatusEffect

end Device
