import T4P4SRuntime.Codegen.KeyBytes

namespace Codegen

open Hlir Messages Exec Layout

variable {program : Program} {code : Code} {table : Table} {ks : List KeyElement} {off : Nat}

inductive KeyPart (program : Program) (k : KeyElement) : Prop where
  | field {header : Header} : k.header = some header → header.isVw = false → isMeta k = false →
      KeyPart program k
  | metadata : isMeta k = true → k.matchType = .exact → 0 < program.metafieldSize k.fieldName →
      KeyPart program k

def headerBytes (ks : List KeyElement) : Nat :=
  ((ks.filter (fun k => !isMeta k)).map getKeyByteWidth).sum

structure MixedTable (program : Program) (table : Table) (ks : List KeyElement) : Prop where
  mem : (table, ks) ∈ tablesWithKeys program
  parts : ∀ k ∈ ks, KeyPart program k
  key_length : table.keyLengthBytes = headerBytes ks
  compiles : (tableCode program table ks).Compiles

def Binds (frame : Env) (ks : List KeyElement) (values : KeyElement → ByteView) : Prop :=
  ∀ k ∈ ks, lookup frame (valueVar k) = pure (.bytes (values k))

def turnedKey (program : Program) (code : Code) (table : Table) (ks : List KeyElement)
    (key : Buffer) : Emitted Buffer :=
  match table.matchType with
  | .lpm => reverseKey key (byteIdxOf program ks) code.reverseBufferSize
  | .exact | .ternary => pure key

-- The key `${table}_add` passes on when it is called with the arguments of `frame`.
def passedKey (program : Program) (code : Code) (table : Table) (ks : List KeyElement)
    (frame : Env) : Emitted Buffer := do
  let add := addFunction program table ks
  let key ← runCopies frame add.copies (List.replicate add.keySize none)
  turnedKey program code table ks key

def bytesOf (program : Program) (values : KeyElement → ByteView) (k : KeyElement) : Buffer :=
  readBytes (values k) (byteWidth program k)

structure KeyLaidOut (program : Program) (code : Code) (table : Table) (ks : List KeyElement) :
    Prop where
  copied : ((addFunction program table ks).copies.map (fun c => (c.var, c.length))).Perm
    (ks.map (fun k => (valueVar k, byteWidth program k)))
  contiguous : Contiguous 0 (copyRanges program ks)
  disjoint : (copyRanges program ks).Pairwise (fun r s => r.1 + r.2 ≤ s.1)
  inside : KeyFits program table ks
  passes : ∀ frame values, Binds frame ks values →
    ∃ key, passedKey program code table ks frame = pure key
  injective : ∀ frame frame' values values', Binds frame ks values → Binds frame' ks values' →
    passedKey program code table ks frame = passedKey program code table ks frame' →
      ∀ k ∈ ks, bytesOf program values k = bytesOf program values' k

-- A metadata field in front, and no other element of any width.
structure LoneMetadata (program : Program) (code : Code) (table : Table) (k : KeyElement)
    (rest : List KeyElement) : Prop where
  metadata : isMeta k = true
  no_width : ∀ r ∈ rest, byteWidth program r = 0
  single : rest ≠ [] → program.metafieldSize k.fieldName = 1
  reverses : table.matchType = .lpm → 0 < code.reverseBufferSize

def KeepsLayout (program : Program) (code : Code) (table : Table) (ks : List KeyElement) : Prop :=
  (∀ k ∈ ks, isMeta k = false) ∨ ∃ k rest, ks = k :: rest ∧ LoneMetadata program code table k rest

def widthSum (program : Program) (ks : List KeyElement) : Nat := (ks.map (byteWidth program)).sum

def stepSum (ks : List KeyElement) : Nat := (ks.map step).sum

theorem KeyPart.not_special {k : KeyElement} (h : KeyPart program k) : isSpecial k = false := by
  cases h with
  | field hh _ _ => simp [isSpecial, hh]
  | metadata hm _ _ => simp [isSpecial, hm]

theorem MixedTable.not_special (h : MixedTable program table ks) :
    ∀ k ∈ sortedKeyElements ks, isSpecial k = false :=
  fun k hk => (h.parts k ((List.mem_insertionSort _).mp hk)).not_special

theorem sorted_perm (ks : List KeyElement) : (sortedKeyElements ks).Perm ks :=
  List.perm_insertionSort _ ks

theorem step_of_header {k : KeyElement} (h : isMeta k = false) : step k = byteWidth program k := by
  simp [step, byteWidth, h]

theorem step_of_metadata {k : KeyElement} (h : isMeta k = true) : step k = 1 := by simp [step, h]

theorem byteWidth_of_metadata {k : KeyElement} (h : isMeta k = true) :
    byteWidth program k = program.metafieldSize k.fieldName := by
  simp [byteWidth, h]

theorem MixedTable.metadata (h : MixedTable program table ks) {k : KeyElement} (hk : k ∈ ks)
    (hm : isMeta k = true) : k.matchType = .exact ∧ 0 < byteWidth program k := by
  rw [byteWidth_of_metadata hm]
  cases h.parts k hk with
  | field _ _ hn => simp [hm] at hn
  | metadata _ he hpos => exact ⟨he, hpos⟩

theorem copyLoop_copied (h : ∀ k ∈ ks, isSpecial k = false) :
    (copyLoop program off ks).1.map (fun c => (c.var, c.length)) =
      ks.map (fun k => (valueVar k, byteWidth program k)) := by
  induction ks generalizing off with
  | nil => rfl
  | cons k ks ih =>
      obtain ⟨hk, hks⟩ := List.forall_mem_cons.mp h
      rw [copyLoop_cons hk, List.map_cons, ih hks, List.map_cons]

theorem copyLoop_end (h : ∀ k ∈ ks, isSpecial k = false) :
    (copyLoop program off ks).2 = off + stepSum ks := by
  induction ks generalizing off with
  | nil => rfl
  | cons k ks ih =>
      obtain ⟨hk, hks⟩ := List.forall_mem_cons.mp h
      rw [copyLoop_cons hk, ih hks, stepSum, stepSum, List.map_cons, List.sum_cons, Nat.add_assoc]

def loopRanges (program : Program) (off : Nat) (ks : List KeyElement) : List (Nat × Nat) :=
  (copyLoop program off ks).1.map (fun c => (c.offset, c.length))

theorem loopRanges_cons {k : KeyElement} (h : isSpecial k = false) (off : Nat)
    (ks : List KeyElement) :
    loopRanges program off (k :: ks) =
      (off, byteWidth program k) :: loopRanges program (off + step k) ks := by
  rw [loopRanges, copyLoop_cons h]
  rfl

theorem totalOf_loopRanges (h : ∀ k ∈ ks, isSpecial k = false) :
    totalOf (loopRanges program off ks) = widthSum program ks := by
  induction ks generalizing off with
  | nil => rfl
  | cons k ks ih =>
      obtain ⟨hk, hks⟩ := List.forall_mem_cons.mp h
      rw [loopRanges_cons hk, totalOf_cons, ih hks, widthSum, widthSum, List.map_cons,
        List.sum_cons]

-- What follows the last element is not placed by its step.
theorem contiguous_iff (h : ∀ k ∈ ks, isSpecial k = false) :
    Contiguous off (loopRanges program off ks) ↔
      ∀ k ∈ ks.dropLast, step k = byteWidth program k := by
  induction ks generalizing off with
  | nil => simp [loopRanges, copyLoop, Contiguous]
  | cons k ks ih =>
      obtain ⟨hk, hks⟩ := List.forall_mem_cons.mp h
      rw [loopRanges_cons hk]
      cases ks with
      | nil => simp [loopRanges, copyLoop, Contiguous]
      | cons k' ks =>
          have hstart : Contiguous (off + byteWidth program k)
              (loopRanges program (off + step k) (k' :: ks)) →
                step k = byteWidth program k := by
            rw [loopRanges_cons (hks k' List.mem_cons_self)]
            rintro ⟨he, -⟩
            have he : off + step k = off + byteWidth program k := he
            omega
          rw [List.dropLast_cons_cons, List.forall_mem_cons, ← @ih (off + step k) hks]
          constructor
          · rintro ⟨-, hrest⟩
            have hs := hstart hrest
            rw [← hs] at hrest
            exact ⟨hs, hrest⟩
          · rintro ⟨hs, hrest⟩
            rw [hs] at hrest
            exact ⟨rfl, by rwa [hs]⟩

theorem widthSum_sorted (ks : List KeyElement) :
    widthSum program (sortedKeyElements ks) = widthSum program ks :=
  ((sorted_perm ks).map _).sum_eq

theorem stepSum_sorted (ks : List KeyElement) : stepSum (sortedKeyElements ks) = stepSum ks :=
  ((sorted_perm ks).map _).sum_eq

theorem MixedTable.total (h : MixedTable program table ks) :
    totalOf (copyRanges program ks) = widthSum program ks :=
  (totalOf_loopRanges h.not_special).trans (widthSum_sorted ks)

theorem MixedTable.byteIdx (h : MixedTable program table ks) :
    byteIdxOf program ks = stepSum ks := by
  rw [byteIdxOf, copyLoop_end h.not_special, Nat.zero_add, stepSum_sorted]

def keyWrites (program : Program) (values : KeyElement → ByteView) :
    Nat → List KeyElement → List (Write (Option UInt8))
  | _, [] => []
  | off, k :: ks => (off, bytesOf program values k) :: keyWrites program values (off + step k) ks

theorem keyWrites_ranges (values : KeyElement → ByteView) (h : ∀ k ∈ ks, isSpecial k = false) :
    rangesOf (keyWrites program values off ks) = loopRanges program off ks := by
  induction ks generalizing off with
  | nil => rfl
  | cons k ks ih =>
      obtain ⟨hk, hks⟩ := List.forall_mem_cons.mp h
      have hrest := @ih (off + step k) hks
      rw [loopRanges_cons hk, ← hrest]
      simp [keyWrites, rangesOf, bytesOf, readBytes]

theorem keyWrites_inj {values values' : KeyElement → ByteView}
    (h : keyWrites program values off ks = keyWrites program values' off ks) :
    ∀ k ∈ ks, bytesOf program values k = bytesOf program values' k := by
  induction ks generalizing off with
  | nil => simp
  | cons k ks ih =>
      obtain ⟨hk, hks⟩ := List.cons.inj h
      exact List.forall_mem_cons.mpr ⟨(Prod.mk.inj hk).2, ih hks⟩

theorem runCopies_bound {frame : Env} {values : KeyElement → ByteView}
    (h : ∀ k ∈ ks, isSpecial k = false) (hb : Binds frame ks values) (key : Buffer) :
    runCopies frame (copyLoop program off ks).1 key =
      deref .keyOverflow (writeAll key (keyWrites program values off ks)) := by
  induction ks generalizing off key with
  | nil => rfl
  | cons k ks ih =>
      obtain ⟨hk, hks⟩ := List.forall_mem_cons.mp h
      obtain ⟨hbk, hbks⟩ := List.forall_mem_cons.mp hb
      simp only [copyLoop_cons hk, runCopies, hbk, pure_bind, keyWrites, writeAll]
      rw [← deref_bind]
      exact congrArg _ (funext fun key' => ih hks hbks key')

def blankKey (program : Program) (table : Table) (ks : List KeyElement) : Buffer :=
  List.replicate (keySizeOf program table ks) none

theorem MixedTable.passedKey_eq (h : MixedTable program table ks) {frame : Env}
    {values : KeyElement → ByteView} (hb : Binds frame ks values) :
    passedKey program code table ks frame =
      deref .keyOverflow (writeAll (blankKey program table ks)
          (keyWrites program values 0 (sortedKeyElements ks))) >>=
        turnedKey program code table ks := by
  have hbs : Binds frame (sortedKeyElements ks) values :=
    fun k hk => hb k ((List.mem_insertionSort _).mp hk)
  rw [← runCopies_bound h.not_special hbs]
  rfl

-- What makes the running offset of the loop right, in terms of the widths alone.
structure Placed (program : Program) (code : Code) (table : Table) (ks : List KeyElement) :
    Prop where
  steps : ∀ k ∈ (sortedKeyElements ks).dropLast, step k = byteWidth program k
  fits : widthSum program ks ≤ keySizeOf program table ks
  reverses : table.matchType = .lpm →
    stepSum ks ≤ keySizeOf program table ks ∧ stepSum ks ≤ code.reverseBufferSize

theorem Placed.contiguous (h : MixedTable program table ks) (hp : Placed program code table ks) :
    Contiguous 0 (copyRanges program ks) :=
  (contiguous_iff h.not_special).mpr hp.steps

theorem Placed.inside (h : MixedTable program table ks) (hp : Placed program code table ks) :
    KeyFits program table ks := by
  intro r hr
  have hend := ((hp.contiguous h).bounds r hr).2
  have hfits := hp.fits
  rw [h.total] at hend
  omega

theorem Placed.finishes (h : MixedTable program table ks) (hp : Placed program code table ks)
    (ht : table.matchType ≠ .ternary) : Finishes program code table ks where
  promotes := ht
  fits := hp.inside h
  reverses := fun hl => h.byteIdx ▸ hp.reverses hl

theorem Placed.writes (h : MixedTable program table ks) (hp : Placed program code table ks)
    (values : KeyElement → ByteView) :
    Contiguous 0 (rangesOf (keyWrites program values 0 (sortedKeyElements ks))) ∧
      0 + totalOf (rangesOf (keyWrites program values 0 (sortedKeyElements ks))) ≤
        (blankKey program table ks).length := by
  have htotal : totalOf (loopRanges program 0 (sortedKeyElements ks)) = widthSum program ks :=
    h.total
  rw [keyWrites_ranges values h.not_special, htotal, Nat.zero_add, blankKey, List.length_replicate]
  exact ⟨hp.contiguous h, hp.fits⟩

def turnedOf (program : Program) (table : Table) (ks : List KeyElement) (key : Buffer) : Buffer :=
  if table.matchType = .lpm then reversePrefix (byteIdxOf program ks) key else key

theorem turnedOf_inj {key key' : Buffer} (hlen : key.length = key'.length)
    (h : turnedOf program table ks key = turnedOf program table ks key') : key = key' := by
  rw [turnedOf, turnedOf] at h
  split at h
  · exact reversePrefix_inj hlen h
  · exact h

theorem Placed.turned (h : MixedTable program table ks) (hp : Placed program code table ks)
    {key : Buffer} (hkey : key.length = keySizeOf program table ks) :
    turnedKey program code table ks key = pure (turnedOf program table ks key) := by
  rw [turnedKey, turnedOf]
  cases ht : table.matchType with
  | lpm =>
      have hrev := hp.reverses ht
      rw [← h.byteIdx, ← hkey] at hrev
      exact reverseKey_of_fits hrev.1 hrev.2
  | exact | ternary => rfl

theorem Placed.passes (h : MixedTable program table ks) (hp : Placed program code table ks)
    {frame : Env} {values : KeyElement → ByteView} (hb : Binds frame ks values) :
    ∃ key, writeAll (blankKey program table ks)
        (keyWrites program values 0 (sortedKeyElements ks)) = some key ∧
      passedKey program code table ks frame = pure (turnedOf program table ks key) := by
  obtain ⟨hc, hfit⟩ := hp.writes h values
  obtain ⟨key, hw⟩ : ∃ key, writeAll (blankKey program table ks)
      (keyWrites program values 0 (sortedKeyElements ks)) = some key :=
    ⟨_, writeAll_of_contiguous hc hfit⟩
  refine ⟨key, hw, ?_⟩
  have hlen : key.length = keySizeOf program table ks := by
    rw [writeAll_length hw, blankKey, List.length_replicate]
  rw [← hp.turned h hlen, h.passedKey_eq hb, hw, deref_some, pure_bind]

theorem Placed.injective (h : MixedTable program table ks) (hp : Placed program code table ks)
    {frame frame' : Env} {values values' : KeyElement → ByteView} (hb : Binds frame ks values)
    (hb' : Binds frame' ks values')
    (he : passedKey program code table ks frame = passedKey program code table ks frame') :
    ∀ k ∈ ks, bytesOf program values k = bytesOf program values' k := by
  obtain ⟨key, hw, hkey⟩ := hp.passes h hb
  obtain ⟨key', hw', hkey'⟩ := hp.passes h hb'
  have hlen : key.length = key'.length := (writeAll_length hw).trans (writeAll_length hw').symm
  have hsame : key = key' := by
    rw [hkey, hkey'] at he
    exact turnedOf_inj hlen (Except.ok.inj (Exec.mk.inj he).2)
  obtain ⟨hc, hfit⟩ := hp.writes h values
  have hranges : rangesOf (keyWrites program values 0 (sortedKeyElements ks)) =
      rangesOf (keyWrites program values' 0 (sortedKeyElements ks)) :=
    (keyWrites_ranges values h.not_special).trans (keyWrites_ranges values' h.not_special).symm
  have hwrites := writeAll_inj hc hranges hfit (by rw [hw, hw', hsame])
  exact fun k hk => keyWrites_inj hwrites k ((List.mem_insertionSort _).mpr hk)

theorem keyLaidOut_of_placed (h : MixedTable program table ks)
    (hp : Placed program code table ks) : KeyLaidOut program code table ks where
  copied := by
    have hcopied := @copyLoop_copied program (sortedKeyElements ks) 0 h.not_special
    have hperm := (sorted_perm ks).map (fun k => (valueVar k, byteWidth program k))
    rwa [← hcopied] at hperm
  contiguous := hp.contiguous h
  disjoint := (hp.contiguous h).pairwise
  inside := hp.inside h
  passes := fun _ _ hb => by
    obtain ⟨_, -, hkey⟩ := hp.passes h hb
    exact ⟨_, hkey⟩
  injective := fun _ _ _ _ hb hb' he => hp.injective h hb hb' he

theorem exists_binds (ks : List KeyElement) :
    ∃ frame, Binds frame ks (fun _ _ => none) := by
  refine ⟨ks.map (fun k => (valueVar k, .bytes fun _ => none)), fun k hk => ?_⟩
  obtain ⟨b, hb⟩ : ∃ b, (ks.map (fun k => (valueVar k, Val.bytes fun _ => none))).find?
      (fun b => b.1 = valueVar k) = some b := by
    rw [← Option.isSome_iff_exists, List.find?_isSome]
    exact ⟨_, List.mem_map_of_mem hk, by simp⟩
  obtain ⟨k', -, rfl⟩ := List.mem_map.mp (List.mem_of_find?_eq_some hb)
  rw [lookup, hb]
  rfl

theorem placed_of_keyLaidOut (h : MixedTable program table ks)
    (hl : KeyLaidOut program code table ks) : Placed program code table ks where
  steps := (contiguous_iff h.not_special).mp hl.contiguous
  fits := by
    rw [← h.total]
    rcases eq_or_ne (copyRanges program ks) [] with hnil | hne
    · rw [hnil]
      exact Nat.zero_le _
    · obtain ⟨r, hr, hend⟩ := hl.contiguous.exists_end hne
      have hin := hl.inside r hr
      omega
  reverses := fun ht => by
    obtain ⟨frame, hb⟩ := exists_binds ks
    obtain ⟨passed, hpass⟩ := hl.passes frame _ hb
    rw [h.passedKey_eq hb] at hpass
    rw [← h.byteIdx]
    by_contra hn
    cases hw : writeAll (blankKey program table ks)
        (keyWrites program (fun _ _ => none) 0 (sortedKeyElements ks)) with
    | none =>
        rw [hw] at hpass
        cases hpass
    | some key =>
        have hlen : key.length = keySizeOf program table ks := by
          rw [writeAll_length hw, blankKey, List.length_replicate]
        rw [← hlen] at hn
        obtain ⟨f, hf⟩ := reverseKey_faults hn
        rw [hw, deref_some, pure_bind, turnedKey, ht] at hpass
        simp only [hf] at hpass
        cases hpass

def metaBytes (program : Program) (ks : List KeyElement) : Nat :=
  widthSum program (ks.filter isMeta)

theorem widthSum_eq (program : Program) (ks : List KeyElement) :
    widthSum program ks = headerBytes ks + metaBytes program ks := by
  induction ks with
  | nil => rfl
  | cons k ks ih =>
      simp only [widthSum, headerBytes, metaBytes] at ih ⊢
      cases hm : isMeta k with
      | true =>
          simp [hm, ih]
          omega
      | false =>
          simp [hm, ih, byteWidth]
          omega

theorem metaBytes_pos (h : MixedTable program table ks) {k : KeyElement} (hk : k ∈ ks)
    (hm : isMeta k = true) : 0 < metaBytes program ks := by
  have hwidth := (h.metadata hk hm).2
  have hmem : byteWidth program k ∈ (ks.filter isMeta).map (byteWidth program) :=
    List.mem_map_of_mem (List.mem_filter.mpr ⟨hk, hm⟩)
  exact hwidth.trans_le (List.single_le_sum (by simp) _ hmem)

theorem sorted_cons_exact {k : KeyElement} (h : k.matchType = .exact) (ks : List KeyElement) :
    sortedKeyElements (k :: ks) = k :: sortedKeyElements ks := by
  have hinsert : sortedKeyElements (k :: ks) = (sortedKeyElements ks).orderedInsert
      (fun a b => matchTypeOrder a.matchType ≤ matchTypeOrder b.matchType) k := rfl
  rw [hinsert]
  cases sortedKeyElements ks with
  | nil => rfl
  | cons a l =>
      have hle : matchTypeOrder k.matchType ≤ matchTypeOrder a.matchType := by
        rw [h]
        exact Nat.zero_le _
      exact if_pos hle

theorem widthSum_cons (k : KeyElement) (ks : List KeyElement) :
    widthSum program (k :: ks) = byteWidth program k + widthSum program ks := by
  simp [widthSum]

theorem stepSum_cons (k : KeyElement) (ks : List KeyElement) :
    stepSum (k :: ks) = step k + stepSum ks := by
  simp [stepSum]

theorem loneMetadata_of_placed {k : KeyElement} {rest : List KeyElement}
    (h : MixedTable program table (k :: rest)) (hp : Placed program code table (k :: rest))
    (hlength : table.keyLengthBytes = 0) (hm : isMeta k = true) :
    LoneMetadata program code table k rest := by
  have hwidth : byteWidth program k = program.metafieldSize k.fieldName := byteWidth_of_metadata hm
  have hstep := step_of_metadata hm
  have hsize : keySizeOf program table (k :: rest) = program.metafieldSize k.fieldName :=
    if_pos ⟨hlength, hm⟩
  have hfits := hp.fits
  rw [hsize, widthSum_cons, hwidth] at hfits
  have hzero : widthSum program rest = 0 := by omega
  refine { metadata := hm, no_width := ?_, single := ?_, reverses := ?_ }
  · intro r hr
    have hsum := List.sum_eq_zero_iff.mp hzero
    exact hsum _ (List.mem_map_of_mem hr)
  · intro hne
    have hexact := (h.metadata List.mem_cons_self hm).1
    have hsorted : sortedKeyElements rest ≠ [] := by
      intro hnil
      exact hne (List.Perm.nil_eq (hnil ▸ sorted_perm rest)).symm
    have hdrop : k ∈ (sortedKeyElements (k :: rest)).dropLast := by
      rw [sorted_cons_exact hexact, List.dropLast_cons_of_ne_nil hsorted]
      exact List.mem_cons_self
    rw [← hwidth, ← hp.steps k hdrop, hstep]
  · intro ht
    have hrev := (hp.reverses ht).2
    rw [stepSum_cons, hstep] at hrev
    omega

theorem keepsLayout_of_placed (h : MixedTable program table ks)
    (hp : Placed program code table ks) : KeepsLayout program code table ks := by
  by_cases hall : ∀ k ∈ ks, isMeta k = false
  · exact Or.inl hall
  · push Not at hall
    obtain ⟨m, hmem, hm⟩ := hall
    have hpos := metaBytes_pos h hmem (by simpa using hm)
    cases ks with
    | nil => cases hmem
    | cons k rest =>
        by_cases hfirst : table.keyLengthBytes = 0 ∧ isMeta k
        · exact Or.inr ⟨k, rest, rfl, loneMetadata_of_placed h hp hfirst.1 hfirst.2⟩
        · have hsize : keySizeOf program table (k :: rest) = table.keyLengthBytes := if_neg hfirst
          have hfits := hp.fits
          rw [hsize, widthSum_eq, h.key_length] at hfits
          omega

theorem reverseBuffer_holds (hgen : generate program = some code)
    (hm : (table, ks) ∈ tablesWithKeys program) :
    table.keyLengthBytes ≤ code.reverseBufferSize := by
  rw [(generate_eq hgen).2.2]
  exact List.le_max_of_le' 0 (List.mem_map.mpr ⟨(table, ks), hm, rfl⟩) (le_refl _)

theorem stepSum_of_headers (program : Program) (hall : ∀ k ∈ ks, isMeta k = false) :
    stepSum ks = widthSum program ks := by
  rw [stepSum, widthSum, List.map_congr_left fun k hk => step_of_header (hall k hk)]

theorem placed_of_headers (hgen : generate program = some code) (h : MixedTable program table ks)
    (hall : ∀ k ∈ ks, isMeta k = false) : Placed program code table ks := by
  have hsame := stepSum_of_headers program hall
  have hmeta : metaBytes program ks = 0 := by
    rw [metaBytes, List.filter_eq_nil_iff.mpr fun k hk => by simp [hall k hk]]
    rfl
  have hwidth : widthSum program ks = table.keyLengthBytes := by
    rw [widthSum_eq, hmeta, h.key_length, Nat.add_zero]
  have hsize : keySizeOf program table ks = table.keyLengthBytes := by
    cases hks : ks with
    | nil => rfl
    | cons k rest => simp [keySizeOf, hall k (by simp [hks])]
  exact
    { steps := fun k hk => step_of_header
        (hall k ((List.mem_insertionSort _).mp (List.mem_of_mem_dropLast hk)))
      fits := by rw [hwidth, hsize]
      reverses := fun _ => by
        rw [hsame, hwidth, hsize]
        exact ⟨le_refl _, reverseBuffer_holds hgen h.mem⟩ }

theorem LoneMetadata.headers {k : KeyElement} {rest : List KeyElement}
    (hl : LoneMetadata program code table k rest) (h : MixedTable program table (k :: rest)) :
    ∀ r ∈ rest, isMeta r = false := by
  intro r hr
  by_contra hm
  have hpos := (h.metadata (List.mem_cons_of_mem k hr) (by simpa using hm)).2
  exact hpos.ne' (hl.no_width r hr)

theorem LoneMetadata.widths {k : KeyElement} {rest : List KeyElement}
    (hl : LoneMetadata program code table k rest) : widthSum program rest = 0 := by
  apply List.sum_eq_zero_iff.mpr
  intro n hn
  obtain ⟨r, hr, rfl⟩ := List.mem_map.mp hn
  exact hl.no_width r hr

theorem LoneMetadata.key_size {k : KeyElement} {rest : List KeyElement}
    (hl : LoneMetadata program code table k rest) (h : MixedTable program table (k :: rest)) :
    keySizeOf program table (k :: rest) = byteWidth program k := by
  have hlength : table.keyLengthBytes = 0 := by
    have hsum := widthSum_eq program rest
    have hcons : headerBytes (k :: rest) = headerBytes rest := by simp [headerBytes, hl.metadata]
    rw [h.key_length, hcons]
    have hwidths := hl.widths
    omega
  rw [byteWidth_of_metadata hl.metadata]
  exact if_pos ⟨hlength, hl.metadata⟩

theorem placed_of_lone {k : KeyElement} {rest : List KeyElement}
    (h : MixedTable program table (k :: rest)) (hl : LoneMetadata program code table k rest) :
    Placed program code table (k :: rest) := by
  have hrest := hl.headers h
  have hsize := hl.key_size h
  have hstep := step_of_metadata hl.metadata
  have hpos := (h.metadata List.mem_cons_self hl.metadata).2
  have hsteps : stepSum rest = 0 := (stepSum_of_headers program hrest).trans hl.widths
  exact
    { steps := by
        intro k' hk'
        rcases eq_or_ne rest [] with rfl | hne
        · cases hk'
        · have hmem : k' ∈ k :: rest :=
            (List.mem_insertionSort _).mp (List.mem_of_mem_dropLast hk')
          rcases List.mem_cons.mp hmem with rfl | hr
          · rw [hstep, byteWidth_of_metadata hl.metadata, hl.single hne]
          · exact step_of_header (hrest k' hr)
      fits := by rw [widthSum_cons, hl.widths, hsize, Nat.add_zero]
      reverses := fun ht => by
        rw [stepSum_cons, hsteps, hstep, hsize]
        exact ⟨hpos, hl.reverses ht⟩ }

theorem key_laid_out_iff (hgen : generate program = some code)
    (h : MixedTable program table ks) :
    KeyLaidOut program code table ks ↔ KeepsLayout program code table ks := by
  constructor
  · intro hl
    exact keepsLayout_of_placed h (placed_of_keyLaidOut h hl)
  · rintro (hall | ⟨k, rest, rfl, hl⟩)
    · exact keyLaidOut_of_placed h (placed_of_headers hgen h hall)
    · exact keyLaidOut_of_placed h (placed_of_lone h hl)

namespace KeyLayout

def dstAddr : KeyElement := Header.field { name := "ethernet", isVw := false } "dstAddr" 48 .exact

def ingressPort : KeyElement :=
  { header := none
    headerName := "meta"
    fieldName := "ingress_port"
    width := 9
    matchType := .exact
    header_named := by simp }

def tableOf (matchType : MatchType) (ks : List KeyElement) : Table :=
  { name := cStr "dmac"
    key := some ks
    keyLengthBytes := headerBytes ks
    matchType := matchType
    actions := [] }

def programOf (matchType : MatchType) (ks : List KeyElement) : Program :=
  { tables := [tableOf matchType ks], metafieldSize := fun _ => 2 }

def codeOf (matchType : MatchType) (ks : List KeyElement) : Code :=
  { reverseBufferSize := headerBytes ks
    tables := [tableCode (programOf matchType ks) (tableOf matchType ks) ks] }

def routeKey : List KeyElement :=
  [Header.field { name := "tcp", isVw := false } "dstPort" 16 .ternary,
    Header.field { name := "ipv4", isVw := false } "dstAddr" 32 .lpm, dstAddr]

theorem mixed_route : MixedTable (programOf .lpm routeKey) (tableOf .lpm routeKey) routeKey where
  mem := by decide
  parts := by
    intro k hk
    simp only [routeKey, List.mem_cons, List.not_mem_nil, or_false] at hk
    rcases hk with rfl | rfl | rfl <;> exact .field rfl rfl rfl
  key_length := rfl
  compiles := by decide

theorem key_laid_out_route :
    KeyLaidOut (programOf .lpm routeKey) (codeOf .lpm routeKey) (tableOf .lpm routeKey) routeKey :=
  (key_laid_out_iff rfl mixed_route).mpr (Or.inl (by decide))

theorem mixed_tagged :
    MixedTable (programOf .exact [dstAddr, ingressPort]) (tableOf .exact [dstAddr, ingressPort])
      [dstAddr, ingressPort] where
  mem := by decide
  parts := by
    intro k hk
    rcases List.mem_cons.mp hk with rfl | hk
    · exact .field rfl rfl rfl
    · obtain rfl := List.mem_singleton.mp hk
      exact .metadata rfl rfl (by decide)
  key_length := rfl
  compiles := by decide

theorem metadata_copied_past_key :
    generate (programOf .exact [dstAddr, ingressPort]) =
        some (codeOf .exact [dstAddr, ingressPort]) ∧
      MixedTable (programOf .exact [dstAddr, ingressPort]) (tableOf .exact [dstAddr, ingressPort])
        [dstAddr, ingressPort] ∧
      ¬KeyLaidOut (programOf .exact [dstAddr, ingressPort]) (codeOf .exact [dstAddr, ingressPort])
        (tableOf .exact [dstAddr, ingressPort]) [dstAddr, ingressPort] := by
  refine ⟨rfl, mixed_tagged, fun h => ?_⟩
  have hfits := h.inside
  revert hfits
  decide

end KeyLayout

end Codegen
