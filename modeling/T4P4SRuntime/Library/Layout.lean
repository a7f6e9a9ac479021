import Mathlib.Tactic

namespace Layout

variable {A : Type}

abbrev Write (A : Type) := Nat × List A

def writeAt (buf : List A) (off : Nat) (src : List A) : Option (List A) :=
  if off + src.length ≤ buf.length then
    some (buf.take off ++ src ++ buf.drop (off + src.length))
  else none

def writeAll : List A → List (Write A) → Option (List A)
  | buf, [] => some buf
  | buf, w :: ws => (writeAt buf w.1 w.2).bind (writeAll · ws)

def byteAt (w : Write A) (o : Nat) : Option A := if w.1 ≤ o then w.2[o - w.1]? else none

def lastWrite (ws : List (Write A)) (o : Nat) : Option A :=
  ws.foldl (fun acc w => (byteAt w o).or acc) none

def segments : Nat → List (List A) → List (Write A)
  | _, [] => []
  | off, s :: ss => (off, s) :: segments (off + s.length) ss

def rangesOf (ws : List (Write A)) : List (Nat × Nat) := ws.map (fun w => (w.1, w.2.length))

-- Each range starts where the one before it ends.
def Contiguous : Nat → List (Nat × Nat) → Prop
  | _, [] => True
  | off, r :: rs => r.1 = off ∧ Contiguous (off + r.2) rs

def totalOf (rs : List (Nat × Nat)) : Nat := (rs.map Prod.snd).sum

variable {buf buf' : List A} {off : Nat} {src : List A} {ws ws' : List (Write A)}
  {rs : List (Nat × Nat)}

theorem writeAt_of_fits (h : off + src.length ≤ buf.length) :
    writeAt buf off src = some (buf.take off ++ src ++ buf.drop (off + src.length)) := by
  simp [writeAt, h]

theorem writeAt_length (h : writeAt buf off src = some buf') : buf'.length = buf.length := by
  rw [writeAt] at h
  split at h
  · obtain rfl := Option.some.inj h
    simp only [List.length_append, List.length_take, List.length_drop]
    omega
  · cases h

theorem writeAt_getElem? (h : writeAt buf off src = some buf') (o : Nat) :
    buf'[o]? = (byteAt (off, src) o).or buf[o]? := by
  rw [writeAt] at h
  split at h
  · rename_i hfit
    obtain rfl := Option.some.inj h
    have htake : (buf.take off).length = off := by
      rw [List.length_take]
      omega
    rw [List.append_assoc, List.getElem?_append, htake]
    rcases Nat.lt_or_ge o off with hlt | hle
    · have hn : ¬off ≤ o := by omega
      simp [byteAt, hn, hlt]
    · rw [if_neg (Nat.not_lt.mpr hle), List.getElem?_append]
      rcases Nat.lt_or_ge (o - off) src.length with hin | hin
      · simp [byteAt, hle, hin]
      · have hidx : off + src.length + (o - off - src.length) = o := by omega
        simp [byteAt, hle, hin, hidx]
  · cases h

theorem writeAll_length (h : writeAll buf ws = some buf') : buf'.length = buf.length := by
  induction ws generalizing buf with
  | nil =>
      obtain rfl := Option.some.inj h
      rfl
  | cons w ws ih =>
      obtain ⟨mid, hw, hrest⟩ := Option.bind_eq_some_iff.mp h
      rw [ih hrest, writeAt_length hw]

theorem writeAll_eq_none_iff :
    writeAll buf ws = none ↔ ∃ w ∈ ws, buf.length < w.1 + w.2.length := by
  induction ws generalizing buf with
  | nil => simp [writeAll]
  | cons w ws ih =>
      by_cases hfit : w.1 + w.2.length ≤ buf.length
      · have hw := writeAt_of_fits hfit
        have hlen := writeAt_length hw
        simp only [writeAll, hw, Option.bind_some, ih, hlen, List.exists_mem_cons_iff]
        exact ⟨Or.inr, fun h => h.resolve_left (by omega)⟩
      · have hw : writeAt buf w.1 w.2 = none := by simp [writeAt, hfit]
        simp only [writeAll, hw, Option.bind_none, List.exists_mem_cons_iff, true_iff]
        exact Or.inl (by omega)

theorem foldl_or (ws : List (Write A)) (o : Nat) (acc : Option A) :
    ws.foldl (fun acc w => (byteAt w o).or acc) acc = (lastWrite ws o).or acc := by
  induction ws generalizing acc with
  | nil => simp [lastWrite]
  | cons w ws ih =>
      rw [lastWrite, List.foldl_cons, List.foldl_cons, ih, ih, Option.or_none, Option.or_assoc]

theorem lastWrite_cons (w : Write A) (ws : List (Write A)) (o : Nat) :
    lastWrite (w :: ws) o = (lastWrite ws o).or (byteAt w o) := by
  rw [lastWrite, List.foldl_cons, foldl_or, Option.or_none]

theorem writeAll_getElem? (h : writeAll buf ws = some buf') (o : Nat) :
    buf'[o]? = (lastWrite ws o).or buf[o]? := by
  induction ws generalizing buf with
  | nil =>
      obtain rfl := Option.some.inj h
      simp [lastWrite]
  | cons w ws ih =>
      obtain ⟨mid, hw, hrest⟩ := Option.bind_eq_some_iff.mp h
      rw [ih hrest, writeAt_getElem? hw, lastWrite_cons, Option.or_assoc]

theorem writeAll_segments (segs : List (List A)) (h : off + segs.flatten.length ≤ buf.length) :
    writeAll buf (segments off segs) =
      some (buf.take off ++ segs.flatten ++ buf.drop (off + segs.flatten.length)) := by
  induction segs generalizing buf off with
  | nil => simp [segments, writeAll]
  | cons s ss ih =>
      simp only [List.flatten_cons, List.length_append] at h ⊢
      have hs : writeAt buf off s = some (buf.take off ++ s ++ buf.drop (off + s.length)) :=
        writeAt_of_fits (by omega)
      have hlen := writeAt_length hs
      have htake : (buf.take off).length = off := by
        rw [List.length_take]
        omega
      rw [segments, writeAll, hs, Option.bind_some, ih (by omega)]
      rw [List.take_append_of_le_length (by simp [htake]), List.take_of_length_le (by simp [htake])]
      have hdrop : (buf.take off ++ s ++ buf.drop (off + s.length)).drop
          (off + s.length + ss.flatten.length) =
            buf.drop (off + (s.length + ss.flatten.length)) := by
        have hall : (buf.take off ++ s).drop (off + s.length + ss.flatten.length) = [] :=
          List.drop_eq_nil_of_le (by simp [htake])
        rw [List.drop_append, hall, List.nil_append, List.drop_drop]
        congr 1
        simp only [List.length_append, htake]
        omega
      rw [hdrop]
      simp

theorem writeAll_segments_fill {a : A} {n : Nat} (segs : List (List A))
    (h : segs.flatten.length = n) :
    writeAll (List.replicate n a) (segments 0 segs) = some segs.flatten := by
  have hfit : 0 + segs.flatten.length ≤ (List.replicate n a).length := by simp [h]
  rw [writeAll_segments segs hfit, List.take_zero, List.nil_append, Nat.zero_add, h,
    List.drop_eq_nil_of_le (by rw [List.length_replicate]), List.append_nil]

theorem exists_segment_end (segs : List (List A)) (off : Nat) (h : segs ≠ []) :
    ∃ w ∈ segments off segs, w.1 + w.2.length = off + segs.flatten.length := by
  induction segs generalizing off with
  | nil => exact absurd rfl h
  | cons s ss ih =>
      rcases eq_or_ne ss [] with rfl | hss
      · exact ⟨(off, s), by simp [segments], by simp⟩
      · obtain ⟨w, hw, hend⟩ := ih (off + s.length) hss
        refine ⟨w, List.mem_cons_of_mem _ hw, ?_⟩
        simp only [List.flatten_cons, List.length_append]
        omega

theorem writeAll_segments_overflow (segs : List (List A)) (h : segs ≠ [])
    (hlt : buf.length < off + segs.flatten.length) : writeAll buf (segments off segs) = none := by
  obtain ⟨w, hw, hend⟩ := exists_segment_end segs off h
  exact writeAll_eq_none_iff.mpr ⟨w, hw, by omega⟩

theorem totalOf_cons (r : Nat × Nat) (rs : List (Nat × Nat)) :
    totalOf (r :: rs) = r.2 + totalOf rs := by
  simp [totalOf]

theorem Contiguous.bounds (h : Contiguous off rs) :
    ∀ r ∈ rs, off ≤ r.1 ∧ r.1 + r.2 ≤ off + totalOf rs := by
  induction rs generalizing off with
  | nil => simp
  | cons r rs ih =>
      obtain ⟨rfl, hrest⟩ := h
      rw [totalOf_cons]
      intro s hs
      rcases List.mem_cons.mp hs with rfl | hs
      · omega
      · have hbounds := ih hrest s hs
        omega

theorem Contiguous.pairwise (h : Contiguous off rs) :
    rs.Pairwise (fun r s => r.1 + r.2 ≤ s.1) := by
  induction rs generalizing off with
  | nil => exact List.Pairwise.nil
  | cons r rs ih =>
      obtain ⟨rfl, hrest⟩ := h
      exact List.pairwise_cons.mpr ⟨fun s hs => (hrest.bounds s hs).1, ih hrest⟩

theorem Contiguous.exists_end (h : Contiguous off rs) (hne : rs ≠ []) :
    ∃ r ∈ rs, r.1 + r.2 = off + totalOf rs := by
  induction rs generalizing off with
  | nil => exact absurd rfl hne
  | cons r rs ih =>
      obtain ⟨rfl, hrest⟩ := h
      rw [totalOf_cons]
      rcases eq_or_ne rs [] with rfl | hrs
      · exact ⟨r, List.mem_cons_self, rfl⟩
      · obtain ⟨s, hs, hend⟩ := ih hrest hrs
        exact ⟨s, List.mem_cons_of_mem r hs, by omega⟩

theorem segments_of_contiguous (h : Contiguous off (rangesOf ws)) :
    ws = segments off (ws.map Prod.snd) := by
  induction ws generalizing off with
  | nil => rfl
  | cons w ws ih =>
      obtain ⟨hw, hrest⟩ := h
      rw [List.map_cons, segments, ← ih hrest, ← hw]

theorem totalOf_rangesOf (ws : List (Write A)) :
    totalOf (rangesOf ws) = (ws.map Prod.snd).flatten.length := by
  rw [totalOf, rangesOf, List.map_map, List.length_flatten, List.map_map]
  rfl

theorem writeAll_of_contiguous (h : Contiguous off (rangesOf ws))
    (hfit : off + totalOf (rangesOf ws) ≤ buf.length) :
    writeAll buf ws = some (buf.take off ++ (ws.map Prod.snd).flatten ++
      buf.drop (off + totalOf (rangesOf ws))) := by
  rw [totalOf_rangesOf] at hfit ⊢
  have hws := writeAll_segments (ws.map Prod.snd) hfit
  rwa [← segments_of_contiguous h] at hws

theorem writeAll_inj (h : Contiguous off (rangesOf ws)) (hr : rangesOf ws = rangesOf ws')
    (hfit : off + totalOf (rangesOf ws) ≤ buf.length)
    (he : writeAll buf ws = writeAll buf ws') : ws = ws' := by
  rw [writeAll_of_contiguous h hfit, writeAll_of_contiguous (hr ▸ h) (hr ▸ hfit), ← hr] at he
  have hflat : (ws.map Prod.snd).flatten = (ws'.map Prod.snd).flatten :=
    List.append_cancel_left (List.append_cancel_right (Option.some.inj he))
  have hlens : (ws.map Prod.snd).map List.length = (ws'.map Prod.snd).map List.length := by
    simpa [rangesOf, Function.comp_def] using congrArg (List.map Prod.snd) hr
  have hsnd := List.eq_iff_flatten_eq.mpr ⟨hflat, hlens⟩
  have hws' := segments_of_contiguous (hr ▸ h : Contiguous off (rangesOf ws'))
  rw [← hsnd, ← segments_of_contiguous h] at hws'
  exact hws'.symm

end Layout
