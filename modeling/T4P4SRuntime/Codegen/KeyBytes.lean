import Mathlib.Data.UInt
import T4P4SRuntime.Codegen.Dispatch
import T4P4SRuntime.Library.Positional

namespace Codegen

open Hlir Messages Exec Layout Positional

variable {program : Program} {code : Code} {table : Table} {ks : List KeyElement}
  {layout : RecordLayout} {msg msg' : CtrlMsg} {views views' : Field → ByteView}

def castBitmap (layout : RecordLayout) (matchType : MatchType) (rec : FieldMatchRecord) :
    ByteView :=
  match matchType with
  | .exact => layout.exactBitmap rec
  | .lpm | .ternary => layout.lpmBitmap rec

theorem bitmapAt_of_lt {f : Field} (h : f.2 < msg.fieldMatches.length) :
    bitmapAt layout msg f = castBitmap layout f.1.matchType msg.fieldMatches[f.2] := by
  rw [bitmapAt, List.getElem?_eq_getElem h]
  rfl

def spansOf (program : Program) : Nat → List Field → List (Nat × Field)
  | _, [] => []
  | off, f :: fs =>
      if isSpecial f.1 then spansOf program off fs
      else (off, f) :: spansOf program (off + step f.1) fs

def covers (program : Program) (o : Nat) (s : Nat × Field) : Bool :=
  s.1 ≤ o && o - s.1 < byteWidth program s.2.1

-- The field whose copy is the last to write byte `o` of the key, with the offset of the copy.
def writerOf (program : Program) (ks : List KeyElement) (o : Nat) : Option (Nat × Field) :=
  (spansOf program 0 (sortedFields ks)).reverse.find? (covers program o)

def writeOf (program : Program) (views : Field → ByteView) (s : Nat × Field) :
    Write (Option UInt8) :=
  (s.1, readBytes (views s.2) (byteWidth program s.2.1))

theorem writesOf_eq (fs : List Field) (off : Nat) :
    writesOf program views off fs = (spansOf program off fs).map (writeOf program views) := by
  induction fs generalizing off with
  | nil => rfl
  | cons f fs ih => cases hs : isSpecial f.1 <;> simp [writesOf, spansOf, hs, ih, writeOf]

theorem mem_spansOf {fs : List Field} {off : Nat} {s : Nat × Field}
    (h : s ∈ spansOf program off fs) : s.2 ∈ fs ∧ isSpecial s.2.1 = false := by
  induction fs generalizing off with
  | nil => cases h
  | cons f fs ih =>
      cases hs : isSpecial f.1 with
      | true =>
          rw [spansOf, hs, if_pos rfl] at h
          exact ⟨List.mem_cons_of_mem f (ih h).1, (ih h).2⟩
      | false =>
          rw [spansOf, hs, if_neg Bool.false_ne_true] at h
          rcases List.mem_cons.mp h with rfl | hmem
          · exact ⟨List.mem_cons_self, hs⟩
          · exact ⟨List.mem_cons_of_mem f (ih hmem).1, (ih hmem).2⟩

theorem writerOf_mem {o : Nat} {s : Nat × Field} (h : writerOf program ks o = some s) :
    s.2 ∈ fieldsOf ks := by
  obtain ⟨hmem, hs⟩ := mem_spansOf (List.mem_reverse.mp (List.mem_of_find?_eq_some h))
  exact mem_sortedFields hmem hs

theorem byteAt_writeOf (s : Nat × Field) (o : Nat) :
    byteAt (writeOf program views s) o =
      if covers program o s then some (views s.2 (o - s.1)) else none := by
  by_cases hle : s.1 ≤ o
  · by_cases hlt : o - s.1 < byteWidth program s.2.1 <;>
      simp [byteAt, writeOf, covers, readBytes, hle, hlt]
  · simp [byteAt, writeOf, covers, hle]

theorem lastWrite_writeOf (ss : List (Nat × Field)) (o : Nat) :
    lastWrite (ss.map (writeOf program views)) o =
      (ss.reverse.find? (covers program o)).map (fun s => views s.2 (o - s.1)) := by
  induction ss with
  | nil => rfl
  | cons s ss ih =>
      rw [List.map_cons, lastWrite_cons, ih, List.reverse_cons, List.find?_append, Option.map_or,
        byteAt_writeOf]
      cases hc : covers program o s <;> simp [hc]

theorem builtKey_getElem? {key : Buffer} (h : builtKey program table views ks = some key)
    (o : Nat) :
    key[o]? = ((writerOf program ks o).map (fun s => views s.2 (o - s.1))).or
      (List.replicate (keySizeOf program table ks) none)[o]? := by
  rw [writeAll_getElem? h, writesOf_eq, lastWrite_writeOf]
  rfl

theorem builtKey_eq_iff (h : KeyFits program table ks) :
    builtKey program table views ks = builtKey program table views' ks ↔
      ∀ o s, writerOf program ks o = some s →
        views s.2 (o - s.1) = views' s.2 (o - s.1) := by
  obtain ⟨key, hkey⟩ := @builtKey_of_fits program table ks views h
  obtain ⟨key', hkey'⟩ := @builtKey_of_fits program table ks views' h
  rw [hkey, hkey', Option.some.injEq]
  constructor
  · rintro rfl o s hs
    have hget := (builtKey_getElem? hkey o).symm.trans (builtKey_getElem? hkey' o)
    simpa [hs] using hget
  · intro hw
    apply List.ext_getElem?
    intro o
    rw [builtKey_getElem? hkey, builtKey_getElem? hkey']
    cases hs : writerOf program ks o with
    | none => rfl
    | some s => simp [hw o s hs]

def depthFields (ks : List KeyElement) : List Field :=
  (fieldsOf ks).filter (fun f => f.1.header.isSome && f.1.matchType = .lpm)

def depthConst (f : Field) : UInt8 :=
  if f.1.header.isSome && f.1.matchType = .exact then UInt8.ofNat (getKeyByteWidth f.1) else 0

def recordDepth (layout : RecordLayout) (rec : FieldMatchRecord) : UInt8 :=
  (layout.lpmPrefixLength rec).toUInt8

theorem prefixAt_eq (f : Field) :
    (prefixAt layout msg f).toUInt8 = valueAt (recordDepth layout) msg.fieldMatches f.2 := by
  cases hget : msg.fieldMatches[f.2]? <;> simp [prefixAt, valueAt, hget, recordDepth]

theorem foldl_depthStep (fs : List Field) (depth : UInt8) :
    fs.foldl (depthStep layout msg) depth =
      depth + (fs.map depthConst).sum +
        readSum (recordDepth layout)
          ((fs.filter (fun f => f.1.header.isSome && f.1.matchType = .lpm)).map Prod.snd)
          msg.fieldMatches := by
  induction fs generalizing depth with
  | nil => simp [readSum]
  | cons f fs ih =>
      rw [List.foldl_cons, ih, List.map_cons, List.sum_cons]
      cases hh : f.1.header with
      | none => simp [depthStep, depthConst, hh]
      | some header =>
          cases ht : f.1.matchType with
          | exact =>
              simp only [depthStep, depthConst, hh, ht, List.filter_cons]
              simp
              abel
          | lpm =>
              simp only [depthStep, depthConst, hh, ht, List.filter_cons, prefixAt_eq]
              simp [readSum]
              abel
          | ternary => simp [depthStep, depthConst, hh, ht]

theorem depthOf_eq_iff :
    depthOf layout msg ks = depthOf layout msg' ks ↔
      readSum (recordDepth layout) ((depthFields ks).map Prod.snd) msg.fieldMatches =
        readSum (recordDepth layout) ((depthFields ks).map Prod.snd) msg'.fieldMatches := by
  rw [depthOf, depthOf, foldl_depthStep, foldl_depthStep, add_right_inj]
  rfl

theorem positions_nodup (ks : List KeyElement) : ((depthFields ks).map Prod.snd).Nodup := by
  have hsub : ((depthFields ks).map Prod.snd).Sublist (ks.zipIdx.map Prod.snd) :=
    (List.filter_sublist.trans List.filter_sublist).map Prod.snd
  rw [List.zipIdx_map_snd] at hsub
  exact hsub.nodup List.nodup_range'

theorem reversePrefix_inj {n : Nat} {key key' : Buffer} (hlen : key.length = key'.length)
    (h : reversePrefix n key = reversePrefix n key') : key = key' := by
  obtain ⟨htake, hdrop⟩ := List.append_inj h (by simp [hlen])
  rw [← List.take_append_drop n key, ← List.take_append_drop n key', hdrop,
    List.reverse_injective htake]

theorem finishAdd_log_eq_iff {value value' : ActionValue} {depth depth' : UInt8}
    (h : Finishes program code table ks) :
    (finishAdd code program table views depth ks value).log =
        (finishAdd code program table views' depth' ks value').log ↔
      value = value' ∧ builtKey program table views ks = builtKey program table views' ks ∧
        (table.matchType = .lpm → depth = depth') := by
  obtain ⟨key, hkey⟩ := @builtKey_of_fits program table ks views h.fits
  obtain ⟨key', hkey'⟩ := @builtKey_of_fits program table ks views' h.fits
  have hlen : key.length = key'.length := (builtKey_length hkey).trans (builtKey_length hkey').symm
  rw [hkey, hkey', Option.some.injEq]
  cases ht : table.matchType with
  | exact =>
      rw [finishAdd_exact ht hkey, finishAdd_exact ht hkey']
      simp [and_comm]
  | lpm =>
      have hrev : reversePrefix (byteIdxOf program ks) key =
          reversePrefix (byteIdxOf program ks) key' ↔ key = key' :=
        ⟨reversePrefix_inj hlen, fun he => he ▸ rfl⟩
      rw [finishAdd_lpm h ht hkey, finishAdd_lpm h ht hkey']
      simp only [List.cons.injEq, and_true, Promote.lpmAdd.injEq, true_and, hrev, true_implies]
      exact ⟨fun ⟨hk, hd, hv⟩ => ⟨hv, hk, hd⟩, fun ⟨hv, hk, hd⟩ => ⟨hk, hd, hv⟩⟩
  | ternary => exact absurd ht h.promotes

end Codegen
