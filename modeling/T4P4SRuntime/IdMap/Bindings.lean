import T4P4SRuntime.IdMap.Map

namespace IdMap

open Probing FirstBinding

abbrev AddCall := UInt64 × CString

def addElements : Map → List AddCall → List (Option Nat) × Map
  | map, [] => ([], map)
  | map, c :: cs =>
      let r := addElement map c.1 c.2
      let rest := addElements r.2 cs
      (r.1 :: rest.1, rest.2)

def bindings : List AddCall → List (Option Nat) → List (UInt64 × Returned Element)
  | c :: cs, r :: rs => (c.1, r.map (·, newElement c.1 c.2)) :: bindings cs rs
  | _, _ => []

theorem addElement_refines {map : Map} {d : Dict UInt64 (Returned Element)}
    (h : Refines scheme map.data d) (key : UInt64) (value : CString) :
    Refines scheme (addElement map key value).2.data
      (d.bind key ((addElement map key value).1.map (·, newElement key value))) := by
  have hi := h.insert (newElement key value)
  rw [returned] at hi
  rw [addElement_eq]
  exact hi

theorem addElements_refines (calls : List AddCall) {map : Map}
    {d : Dict UInt64 (Returned Element)} (h : Refines scheme map.data d) :
    Refines scheme (addElements map calls).2.data
      (d.bindAll (bindings calls (addElements map calls).1)) := by
  induction calls generalizing map d with
  | nil => exact h
  | cons c cs ih => exact ih (addElement_refines h c.1 c.2)

theorem find_bindings (calls : List AddCall) (rs : List (Option Nat)) (k : UInt64) :
    ((bindings calls rs).find? (fun b => b.1 = k)).map Prod.snd =
      ((calls.zip rs).find? (fun c => c.1.1 = k)).map
        (fun c => c.2.map (·, newElement c.1.1 c.1.2)) := by
  induction calls generalizing rs with
  | nil => simp [bindings]
  | cons c cs ih =>
      cases rs with
      | nil => simp [bindings]
      | cons r rs =>
          rcases eq_or_ne c.1 k with hc | hc
          · simp [bindings, hc]
          · simp [bindings, hc, ih]

theorem refines_getElement {map : Map} {d : Dict UInt64 (Returned Element)}
    (h : Refines scheme map.data d) (k : UInt64) :
    getElementSlot map k = (d k).join.map Prod.fst ∧
      getElement map k = (d k).join.map Prod.snd := by
  have hs : getElementSlot map k = (d k).join.map Prod.fst := by
    rw [getElementSlot_eq, h.slot]
  refine ⟨hs, ?_⟩
  rw [getElement, hs]
  cases hd : d k with
  | none => rfl
  | some r =>
      cases r with
      | none => rfl
      | some p => exact h.content k p.1 p.2 hd

theorem refines_addElement_other {map : Map} {d : Dict UInt64 (Returned Element)}
    (h : Refines scheme map.data d) {k k' : UInt64} (value : CString) (hk : k ≠ k') :
    getElementSlot (addElement map k' value).2 k = getElementSlot map k ∧
      getElement (addElement map k' value).2 k = getElement map k := by
  have h' := refines_getElement (addElement_refines h k' value) k
  rw [Dict.bind_other d _ hk] at h'
  have h0 := refines_getElement h k
  exact ⟨h'.1.trans h0.1.symm, h'.2.trans h0.2.symm⟩

def firstCall (calls : List AddCall) (rs : List (Option Nat)) (k : UInt64) :
    Option (AddCall × Option Nat) :=
  (calls.zip rs).find? (fun c => c.1.1 = k)

theorem id_map_first_binding_wins (calls : List AddCall) (k : UInt64) :
    (match firstCall calls (addElements initMap calls).1 k with
      | none => getElement (addElements initMap calls).2 k = none
      | some (_, none) => getElement (addElements initMap calls).2 k = none
      | some ((_, value), some i) =>
          getElementSlot (addElements initMap calls).2 k = some i ∧
            getElement (addElements initMap calls).2 k = some (newElement k value)) ∧
      ∀ k' value, k' ≠ k →
        getElementSlot (addElement (addElements initMap calls).2 k' value).2 k =
            getElementSlot (addElements initMap calls).2 k ∧
          getElement (addElement (addElements initMap calls).2 k' value).2 k =
            getElement (addElements initMap calls).2 k := by
  have h := @addElements_refines calls initMap Dict.empty refines_empty
  refine ⟨?_, fun k' value hk => refines_addElement_other h value hk.symm⟩
  have hg := refines_getElement h k
  rw [Dict.empty_bindAll, find_bindings] at hg
  cases hf : firstCall calls (addElements initMap calls).1 k with
  | none =>
      rw [firstCall] at hf
      simpa [hf] using hg.2
  | some c =>
      obtain ⟨⟨key, value⟩, r⟩ := c
      have hkey : key = k := by simpa using List.find?_some hf
      rw [firstCall] at hf
      rw [hf] at hg
      cases r with
      | none => simpa using hg.2
      | some i => simpa [hkey] using hg

end IdMap
