import T4P4SRuntime.Device.Manager

namespace Device

open P4v1

structure TmpFile where
  content : Bytes
  pos : Nat
  deriving DecidableEq, Repr

structure ConfigFile where
  fp : Option TmpFile
  size : Nat
  deriving DecidableEq, Repr

-- What the file system answers while one configuration is saved.
structure Disk where
  tmpfile : Bool
  shortWrite : Option Nat
  deriving DecidableEq, Repr

def Disk.reliable : Disk := { tmpfile := true, shortWrite := none }

def Disk.fwrite (disk : Disk) (data : Bytes) : Bytes :=
  match disk.shortWrite with
  | none => data
  | some n => data.take n

def ConfigFile.init : ConfigFile := { fp := none, size := 0 }

def ConfigFile.changeConfig (disk : Disk) (file : ConfigFile)
    (config : ForwardingPipelineConfig) : ConfigFile × Status :=
  if disk.tmpfile then
    let content := if config.p4DeviceConfig.length > 0 then disk.fwrite config.p4DeviceConfig else []
    ({ fp := some { content := content, pos := content.length },
       size := config.p4DeviceConfig.length }, Status.success)
  else ({ file with fp := none }, Status.success)

-- What the file system answers while a configuration is read back; `none` is a full read.
structure ReadDisk where
  fseek : Bool
  shortRead : Nat → Option Nat

def ReadDisk.reliable : ReadDisk := { fseek := true, shortRead := fun _ => none }

def bufferSize : Nat := 512

def TmpFile.rewind (fp : TmpFile) : TmpFile := { fp with pos := 0 }

def TmpFile.fread (shortRead : Option Nat) (size : Nat) (fp : TmpFile) : Option Bytes × TmpFile :=
  let read := ((fp.content.drop fp.pos).take size).take (shortRead.getD size)
  (if read.length = size then some read else none, { fp with pos := fp.pos + read.length })

def readChunks (disk : ReadDisk) (done : Nat) : Nat → TmpFile → Bytes → Bool × TmpFile × Bytes
  | 0, fp, deviceConfig => (true, fp, deviceConfig)
  | n + 1, fp, deviceConfig =>
      match fp.fread (disk.shortRead done) bufferSize with
      | (some buffer, fp) => readChunks disk (done + 1) n fp (deviceConfig ++ buffer)
      | (none, fp) => (false, fp, deviceConfig)

def TmpFile.readAll (disk : ReadDisk) (size : Nat) (fp : TmpFile) (deviceConfig : Bytes) :
    TmpFile × Bytes :=
  let iters := size / bufferSize
  let remainder := size - iters * bufferSize
  match readChunks disk 0 iters fp deviceConfig with
  | (false, fp, deviceConfig) => (fp, deviceConfig)
  | (true, fp, deviceConfig) =>
      if remainder = 0 then (fp, deviceConfig)
      else
        match fp.fread (disk.shortRead iters) remainder with
        | (none, fp) => (fp, deviceConfig)
        | (some buffer, fp) => (fp, deviceConfig ++ buffer)

def ConfigFile.readConfig (disk : ReadDisk) (file : ConfigFile) (config : ReturnedConfig) :
    ConfigFile × ReturnedConfig × Status :=
  match file.fp with
  | none => (file, config, Status.success)
  | some fp =>
      if file.size = 0 then (file, config, Status.success)
      else if disk.fseek then
        let (fp, deviceConfig) := fp.rewind.readAll disk file.size config.p4DeviceConfig
        ({ file with fp := some fp }, { config with p4DeviceConfig := deviceConfig },
          Status.success)
      else (file, config, Status.success)

structure ConfigFile.Saves (file : ConfigFile) (data : Bytes) : Prop where
  content : file.fp.map TmpFile.content = some data
  size : file.size = data.length

-- The two files differ at most in where the next read starts.
structure SavedAs (file file' : ConfigFile) : Prop where
  content : file'.fp.map TmpFile.content = file.fp.map TmpFile.content
  size : file'.size = file.size

theorem SavedAs.refl (file : ConfigFile) : SavedAs file file := ⟨rfl, rfl⟩

theorem SavedAs.saves {file file' : ConfigFile} {data : Bytes} (h : SavedAs file file')
    (hs : file.Saves data) : file'.Saves data :=
  ⟨h.content.trans hs.content, h.size.trans hs.size⟩

theorem changeConfig_saves (file : ConfigFile) (config : ForwardingPipelineConfig) :
    (file.changeConfig Disk.reliable config).1.Saves config.p4DeviceConfig := by
  obtain ⟨p4info, data, cookie⟩ := config
  cases data <;> exact ⟨rfl, rfl⟩

theorem fread_content (shortRead : Option Nat) (size : Nat) (fp : TmpFile) :
    (fp.fread shortRead size).2.content = fp.content := rfl

theorem readChunks_content (disk : ReadDisk) (n i : Nat) (fp : TmpFile) (bytes : Bytes) :
    (readChunks disk i n fp bytes).2.1.content = fp.content := by
  induction n generalizing i fp bytes with
  | zero => rfl
  | succ n ih =>
      have hc := fread_content (disk.shortRead i) bufferSize fp
      rw [readChunks]
      split
      · rename_i buffer fp' hr
        rw [hr] at hc
        exact (ih _ _ _).trans hc
      · rename_i fp' hr
        rwa [hr] at hc

theorem readAll_content (disk : ReadDisk) (size : Nat) (fp : TmpFile) (bytes : Bytes) :
    (fp.readAll disk size bytes).1.content = fp.content := by
  have hc := readChunks_content disk (size / bufferSize) 0 fp bytes
  rw [TmpFile.readAll]
  split
  · rename_i fp' _ hr
    rwa [hr] at hc
  · rename_i fp' _ hr
    rw [hr] at hc
    split
    · exact hc
    · have hf := fread_content (disk.shortRead (size / bufferSize))
        (size - size / bufferSize * bufferSize) fp'
      split <;>
      · rename_i hread
        rw [hread] at hf
        exact hf.trans hc

theorem readConfig_savedAs (disk : ReadDisk) (file : ConfigFile) (config : ReturnedConfig) :
    SavedAs file (file.readConfig disk config).1 := by
  rw [ConfigFile.readConfig]
  split
  · exact SavedAs.refl file
  · rename_i fp hfp
    split
    · exact SavedAs.refl file
    · split
      · refine ⟨?_, rfl⟩
        rw [hfp]
        exact congrArg some (readAll_content disk file.size fp.rewind config.p4DeviceConfig)
      · exact SavedAs.refl file

def ReadDisk.ReadsAll (disk : ReadDisk) (i size : Nat) : Prop :=
  ∀ n, disk.shortRead i = some n → size ≤ n

-- Every `fread` that reads `size` bytes back is a full one.
structure ReadDisk.ReadsSize (disk : ReadDisk) (size : Nat) : Prop where
  chunks : ∀ i, i < size / bufferSize → disk.ReadsAll i bufferSize
  remainder : size - size / bufferSize * bufferSize ≠ 0 →
    disk.ReadsAll (size / bufferSize) (size - size / bufferSize * bufferSize)

theorem ReadDisk.reliable_readsSize (size : Nat) : ReadDisk.reliable.ReadsSize size where
  chunks := fun _ _ _ h => by cases h
  remainder := fun _ _ h => by cases h

variable {disk : ReadDisk} {size : Nat} {fp : TmpFile}

theorem fread_full {i : Nat} (hs : disk.ReadsAll i size)
    (h : fp.pos + size ≤ fp.content.length) :
    fp.fread (disk.shortRead i) size =
      (some ((fp.content.drop fp.pos).take size), { fp with pos := fp.pos + size }) := by
  have hlen : ((fp.content.drop fp.pos).take size).length = size := by
    rw [List.length_take, List.length_drop]
    omega
  have hshort : size ≤ (disk.shortRead i).getD size := by
    cases hn : disk.shortRead i with
    | none => exact le_refl size
    | some n => exact hs n hn
  have htake : ((fp.content.drop fp.pos).take size).take ((disk.shortRead i).getD size) =
      (fp.content.drop fp.pos).take size := List.take_of_length_le (by omega)
  simp only [TmpFile.fread, htake, hlen, if_true]

theorem fread_some {i : Nat} {buffer : Bytes} {fp' : TmpFile} (hpos : fp.pos ≤ fp.content.length)
    (h : fp.fread (disk.shortRead i) size = (some buffer, fp')) :
    disk.ReadsAll i size ∧ fp.pos + size ≤ fp.content.length := by
  rw [TmpFile.fread] at h
  have hread := (Prod.mk.inj h).1
  split at hread
  · rename_i hlen
    rw [List.length_take, List.length_take, List.length_drop] at hlen
    refine ⟨fun n hn => ?_, by omega⟩
    rw [hn, Option.getD_some] at hlen
    omega
  · cases hread

theorem readChunks_full (n i : Nat) (fp : TmpFile) (bytes : Bytes)
    (hs : ∀ j, j < n → disk.ReadsAll (i + j) bufferSize)
    (h : fp.pos + n * bufferSize ≤ fp.content.length) :
    readChunks disk i n fp bytes =
      (true, { fp with pos := fp.pos + n * bufferSize },
        bytes ++ (fp.content.drop fp.pos).take (n * bufferSize)) := by
  induction n generalizing i fp bytes with
  | zero => simp [readChunks]
  | succ n ih =>
      have hsize : (n + 1) * bufferSize = bufferSize + n * bufferSize := by ring
      rw [hsize] at h ⊢
      have hread := fread_full (hs 0 (by omega)) (show fp.pos + bufferSize ≤ _ by omega)
      rw [Nat.add_zero] at hread
      rw [readChunks, hread]
      simp only
      rw [ih _ _ _ (fun j hj => by
        have hnext := hs (j + 1) (by omega)
        rwa [← Nat.add_assoc, Nat.add_right_comm] at hnext) (by simp only; omega)]
      simp only [List.append_assoc, List.take_add, List.drop_drop, Nat.add_assoc]

-- The loop ends early exactly when a chunk is not read whole.
theorem readChunks_short (n i : Nat) (fp : TmpFile) (bytes : Bytes)
    (hpos : fp.pos ≤ fp.content.length)
    (h : ¬((∀ j, j < n → disk.ReadsAll (i + j) bufferSize) ∧
      fp.pos + n * bufferSize ≤ fp.content.length)) :
    (readChunks disk i n fp bytes).1 = false ∧
      (readChunks disk i n fp bytes).2.2.length < bytes.length + n * bufferSize := by
  induction n generalizing i fp bytes with
  | zero => exact absurd ⟨fun j hj => by omega, by omega⟩ h
  | succ n ih =>
      have hsize : (n + 1) * bufferSize = bufferSize + n * bufferSize := by ring
      rw [hsize] at h ⊢
      rw [readChunks]
      split
      · rename_i buffer fp' hread
        obtain ⟨hs, hfit⟩ := fread_some hpos hread
        rw [fread_full hs hfit] at hread
        obtain ⟨hbuffer, rfl⟩ := Prod.mk.inj hread
        have hbytes : (bytes ++ buffer).length = bytes.length + bufferSize := by
          rw [← Option.some.inj hbuffer, List.length_append, List.length_take, List.length_drop]
          omega
        obtain ⟨hstop, hshort⟩ := ih (i + 1) { fp with pos := fp.pos + bufferSize }
          (bytes ++ buffer) hfit fun hc => h ⟨fun j hj => by
            cases j with
            | zero => exact hs
            | succ j =>
                have hnext := hc.1 j (by omega)
                rwa [Nat.add_right_comm] at hnext,
            by have hend := hc.2; simp only at hend; omega⟩
        exact ⟨hstop, by omega⟩
      · refine ⟨rfl, ?_⟩
        simp only [bufferSize]
        omega

theorem readAll_full (bytes : Bytes) (hpos : fp.pos = 0) (hs : disk.ReadsSize size)
    (h : size ≤ fp.content.length) :
    (fp.readAll disk size bytes).2 = bytes ++ fp.content.take size := by
  have hle := Nat.div_mul_le_self size bufferSize
  rw [TmpFile.readAll, readChunks_full _ _ _ _ (fun j hj => by
    rw [Nat.zero_add]
    exact hs.chunks j hj) (by omega), hpos]
  simp only [List.drop_zero, Nat.zero_add]
  split_ifs with hz
  · have hall : size / bufferSize * bufferSize = size := by omega
    rw [hall]
  · have hread := @fread_full disk (size - size / bufferSize * bufferSize)
      { fp with pos := size / bufferSize * bufferSize } (size / bufferSize) (hs.remainder hz)
      (by simp only; omega)
    rw [hread]
    simp only [List.append_assoc]
    rw [← List.take_add, Nat.add_sub_cancel' hle]

theorem readAll_short (bytes : Bytes) (hpos : fp.pos = 0)
    (h : ¬(disk.ReadsSize size ∧ size ≤ fp.content.length)) :
    (fp.readAll disk size bytes).2.length < bytes.length + size := by
  have hle := Nat.div_mul_le_self size bufferSize
  rw [TmpFile.readAll]
  by_cases hchunks : (∀ j, j < size / bufferSize → disk.ReadsAll (0 + j) bufferSize) ∧
      fp.pos + size / bufferSize * bufferSize ≤ fp.content.length
  · rw [readChunks_full _ _ _ _ hchunks.1 hchunks.2]
    have hbytes : (bytes ++ (fp.content.drop fp.pos).take (size / bufferSize * bufferSize)).length =
        bytes.length + size / bufferSize * bufferSize := by
      rw [List.length_append, List.length_take, List.length_drop]
      omega
    simp only
    split_ifs with hz
    · refine absurd ⟨⟨fun i hi => ?_, fun hr => absurd hz hr⟩, by omega⟩ h
      simpa using hchunks.1 i hi
    · split
      · simp only [hbytes]
        omega
      · rename_i buffer fp' hread
        obtain ⟨hs, hfit⟩ := fread_some (by simpa using hchunks.2) hread
        simp only at hfit
        refine absurd ⟨⟨fun i hi => ?_, fun _ => hs⟩, by omega⟩ h
        simpa using hchunks.1 i hi
  · obtain ⟨hstop, hshort⟩ := readChunks_short _ _ fp bytes (by omega) hchunks
    generalize hr : readChunks disk 0 (size / bufferSize) fp bytes = r at hstop hshort
    obtain ⟨ok, fp', bytes'⟩ := r
    obtain rfl : ok = false := hstop
    simp only at hshort ⊢
    omega

-- Every length is read back, an empty configuration by the early return.
theorem readConfig_reliable {file : ConfigFile} {data : Bytes} (h : file.Saves data)
    (config : ReturnedConfig) :
    (file.readConfig ReadDisk.reliable config).2.1 =
      { config with p4DeviceConfig := config.p4DeviceConfig ++ data } := by
  obtain ⟨fp, hfp, rfl⟩ := Option.map_eq_some_iff.mp h.content
  rw [ConfigFile.readConfig, hfp]
  simp only
  split_ifs with hz hseek
  · have hnil : fp.content = [] := List.length_eq_zero_iff.mp (h.size.symm.trans hz)
    simp [hnil]
  · have hread := @readAll_full ReadDisk.reliable file.size fp.rewind config.p4DeviceConfig rfl
      (ReadDisk.reliable_readsSize _) h.size.le
    rw [h.size] at hread ⊢
    rw [show fp.content.length = fp.rewind.content.length from rfl, List.take_length] at hread
    exact congrArg (fun bytes => { config with p4DeviceConfig := bytes }) hread
  · exact absurd rfl hseek

end Device
