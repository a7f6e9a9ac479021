import T4P4SRuntime.Device.Pipeline
import T4P4SRuntime.Device.Write

namespace Device

open P4Config P4v1

def DigestMap.lookup (map : DigestMap) (name : String) : Option DigestState :=
  map.find? (fun d => d.name = name)

def DistinctIds (map : DigestMap) : Prop := map.Pairwise (fun d e => d.id ≠ e.id)

def inactive (digest : Digest) : DigestState :=
  { name := digest.preamble.name, id := digest.preamble.id.toUInt64, active := false }

def activeIf (id : UInt64) (d : DigestState) : DigestState :=
  if d.id = id then { d with active := true } else d

variable {map : DigestMap} {d : DigestState} {name : String}

@[simp] theorem activeIf_name (id : UInt64) (d : DigestState) : (activeIf id d).name = d.name := by
  rw [activeIf]
  split_ifs <;> rfl

@[simp] theorem activeIf_id (id : UInt64) (d : DigestState) : (activeIf id d).id = d.id := by
  rw [activeIf]
  split_ifs <;> rfl

theorem activeIf_active (id : UInt64) (d : DigestState) :
    (activeIf id d).active = true ↔ d.id = id ∨ d.active = true := by
  rw [activeIf]
  split_ifs with h <;> simp [h]

theorem lookup_cons (e : DigestState) (map : DigestMap) (name : String) :
    DigestMap.lookup (e :: map) name = if e.name = name then some e else map.lookup name := by
  by_cases h : e.name = name <;> simp [DigestMap.lookup, h]

theorem lookup_set_self (map : DigestMap) (d : DigestState) :
    (map.set d).lookup d.name = some d := by
  induction map with
  | nil => simp [DigestMap.set, lookup_cons]
  | cons e es ih =>
      rw [DigestMap.set]
      split_ifs with heq hlt
      · simp [lookup_cons]
      · simp [lookup_cons]
      · rw [lookup_cons, if_neg (Ne.symm heq), ih]

theorem lookup_set_ne (map : DigestMap) (h : d.name ≠ name) :
    (map.set d).lookup name = map.lookup name := by
  induction map with
  | nil => simp [DigestMap.set, DigestMap.lookup, h]
  | cons e es ih =>
      rw [DigestMap.set]
      split_ifs with heq hlt
      · rw [lookup_cons, lookup_cons, if_neg h, if_neg (heq ▸ h)]
      · rw [lookup_cons, if_neg h]
      · rw [lookup_cons, lookup_cons, ih]

theorem mem_set {e : DigestState} (h : e ∈ map.set d) : e = d ∨ e ∈ map := by
  induction map with
  | nil => exact Or.inl (List.mem_singleton.mp h)
  | cons f fs ih =>
      rw [DigestMap.set] at h
      split_ifs at h with heq hlt
      · rcases List.mem_cons.mp h with rfl | hm
        · exact Or.inl rfl
        · exact Or.inr (List.mem_cons_of_mem f hm)
      · exact List.mem_cons.mp h
      · rcases List.mem_cons.mp h with rfl | hm
        · exact Or.inr List.mem_cons_self
        · rcases ih hm with rfl | hm
          · exact Or.inl rfl
          · exact Or.inr (List.mem_cons_of_mem f hm)

theorem DistinctIds.set (h : DistinctIds map) (hd : ∀ e ∈ map, e.id ≠ d.id) :
    DistinctIds (map.set d) := by
  induction map with
  | nil => exact List.pairwise_singleton _ d
  | cons e es ih =>
      obtain ⟨he, hes⟩ := List.pairwise_cons.mp h
      obtain ⟨hde, hdes⟩ := List.forall_mem_cons.mp hd
      rw [DigestMap.set]
      split_ifs with heq hlt
      · exact List.pairwise_cons.mpr ⟨fun f hf => (hdes f hf).symm, hes⟩
      · exact List.pairwise_cons.mpr ⟨fun f hf => (hd f hf).symm, h⟩
      · refine List.pairwise_cons.mpr ⟨fun f hf => ?_, ih hes hdes⟩
        rcases mem_set hf with rfl | hm
        · exact hde
        · exact he f hm

theorem inactiveDigests_append (digests : List Digest) (digest : Digest) :
    inactiveDigests (digests ++ [digest]) = (inactiveDigests digests).set (inactive digest) := by
  simp [inactiveDigests, inactive]

-- A later digest of the same name takes the place of an earlier one.
theorem lookup_inactiveDigests (digests : List Digest) (name : String) :
    (inactiveDigests digests).lookup name =
      (digests.reverse.find? (fun digest => digest.preamble.name = name)).map inactive := by
  induction digests using List.reverseRecOn with
  | nil => rfl
  | append_singleton digests digest ih =>
      rw [inactiveDigests_append, List.reverse_append, List.reverse_singleton,
        List.singleton_append]
      rcases eq_or_ne digest.preamble.name name with rfl | h
      · rw [List.find?_cons_of_pos (by simp)]
        exact lookup_set_self _ (inactive digest)
      · rw [lookup_set_ne _ h, ih, List.find?_cons_of_neg (by simpa using h)]

theorem mem_inactiveDigests {digests : List Digest} (h : d ∈ inactiveDigests digests) :
    ∃ digest ∈ digests, d = inactive digest := by
  induction digests using List.reverseRecOn with
  | nil => cases h
  | append_singleton digests digest ih =>
      rw [inactiveDigests_append] at h
      rcases mem_set h with rfl | hm
      · exact ⟨digest, by simp, rfl⟩
      · obtain ⟨other, ho, rfl⟩ := ih hm
        exact ⟨other, List.mem_append_left _ ho, rfl⟩

theorem inactiveDigests_distinct {digests : List Digest}
    (h : (digests.map (fun digest => digest.preamble.id)).Nodup) :
    DistinctIds (inactiveDigests digests) := by
  induction digests using List.reverseRecOn with
  | nil => exact List.Pairwise.nil
  | append_singleton digests digest ih =>
      rw [List.map_append, List.nodup_append] at h
      obtain ⟨hnodup, -, hdisj⟩ := h
      rw [inactiveDigests_append]
      apply (ih hnodup).set
      intro e he heq
      obtain ⟨other, ho, rfl⟩ := mem_inactiveDigests he
      exact hdisj _ (List.mem_map_of_mem ho) _ (by simp) (UInt32.toUInt64_inj.mp heq)

theorem activateDigest_eq (h : DistinctIds map) (id : UInt64) :
    activateDigest map id = map.map (activeIf id) := by
  induction map with
  | nil => rfl
  | cons d ds ih =>
      obtain ⟨hd, hds⟩ := List.pairwise_cons.mp h
      rw [activateDigest, List.map_cons, activeIf]
      split_ifs with hid
      · have hsame : ∀ e ∈ ds, activeIf id e = e :=
          fun e he => if_neg fun hee => hd e he (hid.trans hee.symm)
        rw [List.map_congr_left hsame, List.map_id']
      · rw [ih hds]

theorem lookup_map_activeIf (map : DigestMap) (id : UInt64) (name : String) :
    DigestMap.lookup (map.map (activeIf id)) name = (map.lookup name).map (activeIf id) := by
  simp [DigestMap.lookup, List.find?_map]

theorem DistinctIds.activate (h : DistinctIds map) (id : UInt64) :
    DistinctIds (activateDigest map id) := by
  rw [activateDigest_eq h, DistinctIds, List.pairwise_map]
  simpa [DistinctIds] using h

theorem lookup_activateDigest (h : DistinctIds map) (id : UInt64) (name : String) :
    (activateDigest map id).lookup name = (map.lookup name).map (activeIf id) := by
  rw [activateDigest_eq h, lookup_map_activeIf]

theorem lookup_id_activateDigest (map : DigestMap) (id : UInt64) (name : String) :
    ((activateDigest map id).lookup name).map DigestState.id =
      (map.lookup name).map DigestState.id := by
  induction map with
  | nil => rfl
  | cons d ds ih =>
      rw [activateDigest]
      split_ifs with hid
      · rw [lookup_cons, lookup_cons]
        split_ifs <;> rfl
      · rw [lookup_cons, lookup_cons]
        split_ifs
        · rfl
        · exact ih

end Device
