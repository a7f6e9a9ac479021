import Mathlib.Algebra.Order.Floor.Div
import T4P4SRuntime.Session.Subscription

namespace Device

open P4Config P4v1

def networkLength (length : UInt32) : Nat :=
  length.toNat % 256 * 256 ^ 3 + length.toNat / 256 % 256 * 256 ^ 2 +
    length.toNat / 256 ^ 2 % 256 * 256 + length.toNat / 256 ^ 3

theorem or_eq_add {a b : Nat} (i : Nat) (ha : 2 ^ i ∣ a) (hb : b < 2 ^ i) : a ||| b = a + b := by
  obtain ⟨k, rfl⟩ := ha
  exact (Nat.two_pow_add_eq_or_of_lt hb k).symm

theorem or_bytes {a b c d : Nat} (ha : 256 ^ 3 ∣ a) (hb : 256 ^ 2 ∣ b ∧ b < 256 ^ 3)
    (hc : 256 ∣ c ∧ c < 256 ^ 2) (hd : d < 256) : a ||| b ||| c ||| d = a + b + c + d := by
  have hab : a ||| b = a + b := or_eq_add 24 ha hb.2
  have habc : a + b ||| c = a + b + c := or_eq_add 16 (by omega) hc.2
  have habcd : a + b + c ||| d = a + b + c + d := or_eq_add 8 (by omega) hd
  rw [hab, habc, habcd]

theorem secondByte (n : Nat) : n &&& 0xff00 = n / 256 % 256 * 256 := by
  have hmask : 0xff00 = (2 ^ 8 - 1) <<< 8 := rfl
  have hbyte : n / 256 % 256 * 256 = (n / 2 ^ 8 % 2 ^ 8) <<< 8 := by
    simp [Nat.shiftLeft_eq]
  apply Nat.eq_of_testBit_eq
  intro i
  rw [hmask, hbyte, Nat.testBit_and, Nat.testBit_shiftLeft, Nat.testBit_shiftLeft,
    Nat.testBit_two_pow_sub_one, Nat.testBit_mod_two_pow, Nat.testBit_div_two_pow]
  rcases Nat.lt_or_ge i 8 with hi | hi
  · simp [Nat.not_le.mpr hi]
  · rw [Nat.sub_add_cancel hi]
    simp [hi, Bool.and_comm]

theorem htonl_toNat (x : UInt32) : (htonl x).toNat = networkLength x := by
  have hx := x.toNat_lt
  have hmask : (0xff00 : UInt32).toNat = 0xff00 := rfl
  have height : (8 : UInt32).toNat % 32 = 8 := rfl
  have h3 : (x <<< 24).toNat = x.toNat % 256 * 256 ^ 3 := by
    have hshift : (x <<< 24).toNat = x.toNat * 2 ^ 24 % 2 ^ 32 := by
      rw [UInt32.toNat_shiftLeft, Nat.shiftLeft_eq]
      rfl
    omega
  have h2 : ((x &&& 0xff00) <<< 8).toNat = x.toNat / 256 % 256 * 256 ^ 2 := by
    have hshift : ((x &&& 0xff00) <<< 8).toNat = (x.toNat &&& 0xff00) * 2 ^ 8 % 2 ^ 32 := by
      rw [UInt32.toNat_shiftLeft, Nat.shiftLeft_eq, UInt32.toNat_and, hmask, height]
    rw [secondByte] at hshift
    omega
  have h1 : ((x >>> 8) &&& 0xff00).toNat = x.toNat / 256 ^ 2 % 256 * 256 := by
    rw [UInt32.toNat_and, UInt32.toNat_shiftRight, Nat.shiftRight_eq_div_pow, hmask, height,
      secondByte, Nat.div_div_eq_div_mul]
    rfl
  have h0 : (x >>> 24).toNat = x.toNat / 256 ^ 3 := by
    simp [UInt32.toNat_shiftRight, Nat.shiftRight_eq_div_pow]
  rw [htonl, networkLength, UInt32.toNat_or, UInt32.toNat_or, UInt32.toNat_or, h3, h2, h1, h0]
  exact or_bytes (by omega) (by omega) (by omega) (by omega)

theorem digestBytes_toNat {length : UInt32} (h : networkLength length ≤ 2 ^ 32 - 8) :
    (digestBytes length).toNat = networkLength length ⌈/⌉ 8 := by
  have hadd : (htonl length + 7).toNat = networkLength length + 7 := by
    rw [UInt32.toNat_add, htonl_toNat]
    exact Nat.mod_eq_of_lt (by simp; omega)
  have height : (8 : UInt32).toNat = 8 := rfl
  rw [digestBytes, UInt32.toNat_div, hadd, height, Nat.ceilDiv_eq_add_pred_div]
  omega

end Device

namespace Session

open Device P4Config P4v1 Exec

variable {deviceId : UInt64} {history : List Moment} {state : State} {stream : Nat}
  {digest : DigestRecord} {digestId : UInt64} {timestamp : Int64}

structure OpenStream (state : State) (stream : Nat) : Prop where
  registered : state.server.dm.stream = some stream
  running : stream ∈ state.running

structure GivesId (digests : List Digest) (name : String) (id : UInt32) : Prop where
  named : ∃ d ∈ digests, d.preamble.name = name
  only : ∀ d ∈ digests, d.preamble.name = name → d.preamble.id = id

def memberBytes (field : DigestField) : Bytes :=
  field.value.take (networkLength field.length ⌈/⌉ 8)

def CarriesTuple (stream : Nat) (digest : DigestRecord) (id : UInt32) (log : List Output) : Prop :=
  ∃ list members, log = [.stream { stream := stream, response := .digest list }] ∧
    list.digestId = id ∧ list.data = [members] ∧ members.length = digest.fields.length ∧
    ∀ (k : Nat) field, digest.fields[k]? = some field → members[k]? = some (memberBytes field)

structure SendsContent (state : State) (stream : Nat) (digest : DigestRecord)
    (log : List Output) : Prop where
  active : IsActive state digest → ∃ id,
    GivesId state.server.dm.p4info.digests digest.fieldListName.val id ∧
      CarriesTuple stream digest id log
  otherwise : ¬IsActive state digest → log = []

theorem lookup_id_activateAll (map : DigestMap) (updates : List (UInt32 × UpdateType))
    (name : String) :
    ((activateAll map updates).lookup name).map DigestState.id =
      (map.lookup name).map DigestState.id := by
  induction updates with
  | nil => rfl
  | cons update updates ih => exact (lookup_id_activateDigest _ _ name).trans ih

theorem givesId_of_lookup (h : Happens deviceId history state)
    (hnames : (state.server.dm.p4info.digests.map (fun d => d.preamble.name)).Nodup)
    {name : String} {it : DigestState} (hit : state.server.dm.digestMap.lookup name = some it) :
    GivesId state.server.dm.p4info.digests name it.id.toUInt32 := by
  have ht := tracks_of_happens h
  cases hc : (ledger history).config with
  | none =>
      rw [(ht.unconfigured hc).digests] at hit
      cases hit
  | some config =>
      have hconf := ht.configured config hc
      have hid : ((inactiveDigests config.p4info.digests).lookup name).map DigestState.id =
          some it.id := by
        rw [← lookup_id_activateAll _ (ledger history).updates, ← hconf.digests, hit]
        rfl
      rw [lookup_inactiveDigests, Option.map_map, Option.map_eq_some_iff] at hid
      obtain ⟨d, hd, hdid⟩ := hid
      have hmem : d ∈ config.p4info.digests := List.mem_reverse.mp (List.mem_of_find?_eq_some hd)
      have hname : d.preamble.name = name := by simpa using List.find?_some hd
      rw [hconf.p4info] at hnames ⊢
      refine ⟨⟨d, hmem, hname⟩, fun e he hename => ?_⟩
      obtain rfl := List.inj_on_of_nodup_map hnames he hmem (hename.trans hname.symm)
      rw [← hdid, Function.comp_apply, inactive, UInt32.toUInt32_toUInt64]

theorem bitstring_eq {field : DigestField} (h : networkLength field.length ≤ 2 ^ 32 - 8) :
    field.bitstring = memberBytes field := by
  rw [DigestField.bitstring, memberBytes, digestBytes_toNat h]

theorem digest_message_content (h : Happens deviceId history state)
    (hopen : OpenStream state stream)
    (hnames : (state.server.dm.p4info.digests.map (fun d => d.preamble.name)).Nodup)
    (hlengths : ∀ field ∈ digest.fields, networkLength field.length ≤ 2 ^ 32 - 8) :
    ∃ log, step state (.sendDigest digest digestId timestamp) = ⟨log, .ok (state, .sent)⟩ ∧
      SendsContent state stream digest log := by
  by_cases ha : IsActive state digest
  · obtain ⟨it, hit, hactive⟩ := ha
    have hsend := step_send_active digestId timestamp hit hactive
    rw [hopen.registered] at hsend
    refine ⟨_, hsend, fun _ => ⟨it.id.toUInt32, givesId_of_lookup h hnames hit, ?_⟩,
      fun hn => absurd ⟨it, hit, hactive⟩ hn⟩
    refine ⟨digestList it digest timestamp, digest.fields.map DigestField.bitstring, rfl, rfl, rfl,
      List.length_map _, ?_⟩
    intro k field hk
    have hfield := hlengths field (List.mem_of_getElem? hk)
    rw [List.getElem?_map, hk, Option.map_some, bitstring_eq hfield]
  · exact ⟨[], step_send_inactive ha, fun hact => absurd hact ha, fun _ => rfl⟩

namespace DigestContent

def learned : DigestRecord :=
  { fieldListName := cStr "mac_learn_digest"
    fields :=
      [{ length := 0x30000000, value := [0, 0, 0, 0, 0, 7], value_held := by decide },
        { length := 0x09000000, value := [0, 3, 0], value_held := by decide }] }

example : (learned.fields.map memberBytes) = [[0, 0, 0, 0, 0, 7], [0, 3]] := by decide

theorem learned_content :
    ∃ log, step L2fwd.connectedState (.sendDigest learned 5 0) =
        ⟨log, .ok (L2fwd.connectedState, .sent)⟩ ∧
      SendsContent L2fwd.connectedState 0 learned log :=
  digest_message_content L2fwd.happens_connected ⟨rfl, by decide⟩ (by decide) (by decide)

end DigestContent

end Session
