import T4P4SRuntime.Device.ConfigFile

namespace Device

open P4v1

inductive FileCall where
  | change (config : ForwardingPipelineConfig) (disk : Disk)
  | read (config : ReturnedConfig) (disk : ReadDisk)

def FileCall.run (file : ConfigFile) : FileCall → ConfigFile
  | .change config disk => (file.changeConfig disk config).1
  | .read config disk => (file.readConfig disk config).1

def runCalls (file : ConfigFile) (calls : List FileCall) : ConfigFile :=
  calls.foldl FileCall.run file

def FileCall.Reliable : FileCall → Prop
  | .change _ disk => disk = Disk.reliable
  | .read _ disk => disk = ReadDisk.reliable

def changedBytes (bytes : Bytes) : FileCall → Bytes
  | .change config _ => config.p4DeviceConfig
  | .read _ _ => bytes

-- The bytes given to the last `change_config`; none were given before the first.
def lastBytes (calls : List FileCall) : Bytes := calls.foldl changedBytes []

structure Restores (file : ConfigFile) (bytes : Bytes) : Prop where
  exact : ∀ config : ReturnedConfig, config.p4DeviceConfig = [] →
    (file.readConfig ReadDisk.reliable config).2 =
      ({ config with p4DeviceConfig := bytes }, Status.success)
  again : ∀ config next : ReturnedConfig, next.p4DeviceConfig = [] →
    ((file.readConfig ReadDisk.reliable config).1.readConfig ReadDisk.reliable next).2.1 =
      { next with p4DeviceConfig := bytes }

variable {file file' : ConfigFile} {bytes data : Bytes} {disk : Disk} {readDisk : ReadDisk}

def Holds (file : ConfigFile) (bytes : Bytes) : Prop :=
  file.Saves bytes ∨ (file.fp = none ∧ bytes = [])

theorem readConfig_status (disk : ReadDisk) (file : ConfigFile) (config : ReturnedConfig) :
    (file.readConfig disk config).2.2 = Status.success := by
  rw [ConfigFile.readConfig]
  split
  · rfl
  · split
    · rfl
    · split <;> rfl

theorem readConfig_closed (disk : ReadDisk) (config : ReturnedConfig) (h : file.fp = none) :
    file.readConfig disk config = (file, config, Status.success) := by
  rw [ConfigFile.readConfig, h]

theorem Holds.run (h : Holds file bytes) {call : FileCall} (hr : call.Reliable) :
    Holds (call.run file) (changedBytes bytes call) := by
  cases call with
  | change config disk =>
      obtain rfl : disk = Disk.reliable := hr
      exact Or.inl (changeConfig_saves file config)
  | read config disk =>
      rcases h with hs | ⟨hfp, hb⟩
      · exact Or.inl ((readConfig_savedAs disk file config).saves hs)
      · right
        rw [FileCall.run, readConfig_closed disk config hfp]
        exact ⟨hfp, hb⟩

theorem Holds.runCalls (h : Holds file bytes) {calls : List FileCall}
    (hr : ∀ call ∈ calls, call.Reliable) :
    Holds (Device.runCalls file calls) (calls.foldl changedBytes bytes) := by
  induction calls generalizing file bytes with
  | nil => exact h
  | cons call calls ih =>
      obtain ⟨hcall, hcalls⟩ := List.forall_mem_cons.mp hr
      exact ih (h.run hcall) hcalls

theorem Holds.read (h : Holds file bytes) (config : ReturnedConfig)
    (he : config.p4DeviceConfig = []) :
    (file.readConfig ReadDisk.reliable config).2 =
      ({ config with p4DeviceConfig := bytes }, Status.success) := by
  refine Prod.ext ?_ (readConfig_status _ file config)
  rcases h with hs | ⟨hfp, rfl⟩
  · rw [readConfig_reliable hs, he, List.nil_append]
  · rw [readConfig_closed _ config hfp, ← he]

theorem config_round_trip (calls : List FileCall) (h : ∀ call ∈ calls, call.Reliable) :
    Restores (runCalls ConfigFile.init calls) (lastBytes calls) := by
  have hstart : Holds ConfigFile.init [] := Or.inr ⟨rfl, rfl⟩
  have hholds := hstart.runCalls h
  refine ⟨hholds.read, fun config next hnext => ?_⟩
  have hafter := @Holds.run _ _ hholds (.read config ReadDisk.reliable) rfl
  exact congrArg Prod.fst (hafter.read next hnext)

def Disk.SavesAll (disk : Disk) (data : Bytes) : Prop :=
  disk.tmpfile = true ∧ ∀ n, disk.shortWrite = some n → data.length ≤ n

def ReadDisk.Delivers (disk : ReadDisk) (data : Bytes) : Prop :=
  disk.fseek = true ∧ disk.ReadsSize data.length

def runReads (file : ConfigFile) (reads : List (ReturnedConfig × ReadDisk)) : ConfigFile :=
  reads.foldl (fun file read => (file.readConfig read.2 read.1).1) file

-- `saved` is given to the last `change_config`, which is followed by `reads` and by one more read.
def StorageReported (before : List FileCall) (saved : ForwardingPipelineConfig) (disk : Disk)
    (reads : List (ReturnedConfig × ReadDisk)) (config : ReturnedConfig) (readDisk : ReadDisk) :
    Prop :=
  let changed := (runCalls ConfigFile.init before).changeConfig disk saved
  let read := (runReads changed.1 reads).readConfig readDisk config
  let delivered := read.2.1.p4DeviceConfig = config.p4DeviceConfig ++ saved.p4DeviceConfig
  (changed.2.ok = true → read.2.2.ok = true → delivered) ∧
    (¬delivered → read.2.2.ok = false ∧ read.2.1.p4DeviceConfig = config.p4DeviceConfig)

structure Kept (disk : Disk) (data : Bytes) (file : ConfigFile) : Prop where
  content : file.fp.map TmpFile.content = if disk.tmpfile then some (disk.fwrite data) else none
  size : disk.tmpfile = true → file.size = data.length

theorem fwrite_nil (disk : Disk) : disk.fwrite [] = [] := by
  rw [Disk.fwrite]
  split <;> simp

theorem fwrite_full_iff (disk : Disk) (data : Bytes) :
    data.length ≤ (disk.fwrite data).length ↔ ∀ n, disk.shortWrite = some n → data.length ≤ n := by
  cases hn : disk.shortWrite with
  | none => simp [Disk.fwrite, hn]
  | some n => simp [Disk.fwrite, hn]

theorem fwrite_of_full (h : data.length ≤ (disk.fwrite data).length) : disk.fwrite data = data := by
  cases hn : disk.shortWrite with
  | none => simp [Disk.fwrite, hn]
  | some n =>
      have hle := (fwrite_full_iff disk data).mp h n hn
      simp [Disk.fwrite, hn, List.take_of_length_le hle]

theorem changeConfig_status (disk : Disk) (file : ConfigFile) (config : ForwardingPipelineConfig) :
    (file.changeConfig disk config).2 = Status.success := by
  rw [ConfigFile.changeConfig]
  split <;> rfl

theorem changeConfig_kept (disk : Disk) (file : ConfigFile) (config : ForwardingPipelineConfig) :
    Kept disk config.p4DeviceConfig (file.changeConfig disk config).1 := by
  rw [ConfigFile.changeConfig]
  split
  · rename_i ht
    refine ⟨?_, fun _ => rfl⟩
    rcases eq_or_ne config.p4DeviceConfig [] with hnil | hne
    · simp [ht, hnil, fwrite_nil]
    · simp [ht, List.length_pos_iff.mpr hne]
  · rename_i ht
    exact ⟨by simp [ht], fun h => absurd h ht⟩

theorem Kept.saved_as (h : Kept disk data file) (hs : SavedAs file file') : Kept disk data file' :=
  ⟨hs.content.trans h.content, fun ht => hs.size.trans (h.size ht)⟩

theorem Kept.reads (h : Kept disk data file) (reads : List (ReturnedConfig × ReadDisk)) :
    Kept disk data (runReads file reads) := by
  induction reads generalizing file with
  | nil => exact h
  | cons read reads ih => exact ih (h.saved_as (readConfig_savedAs read.2 file read.1))

-- What the read appends is the saved data exactly when nothing was cut, in writing or in reading.
theorem readAll_delivers_iff {fp : TmpFile} (hpos : fp.pos = 0)
    (hcontent : fp.content = disk.fwrite data) (readDisk : ReadDisk) (bytes : Bytes) :
    (fp.readAll readDisk data.length bytes).2 = bytes ++ data ↔
      (∀ n, disk.shortWrite = some n → data.length ≤ n) ∧ readDisk.ReadsSize data.length := by
  rw [← fwrite_full_iff, ← hcontent]
  constructor
  · intro heq
    by_contra hcut
    have hshort := readAll_short bytes hpos fun h => hcut h.symm
    have hlen := congrArg List.length heq
    rw [List.length_append] at hlen
    omega
  · rintro ⟨hlen, hread⟩
    rw [readAll_full bytes hpos hread hlen]
    rw [hcontent] at hlen ⊢
    rw [fwrite_of_full hlen, List.take_length]

theorem Kept.delivers_iff (h : Kept disk data file) (readDisk : ReadDisk) (config : ReturnedConfig) :
    (file.readConfig readDisk config).2.1.p4DeviceConfig = config.p4DeviceConfig ++ data ↔
      data = [] ∨ (disk.SavesAll data ∧ readDisk.Delivers data) := by
  cases ht : disk.tmpfile with
  | false =>
      have hfp : file.fp = none := by simpa [ht] using h.content
      rw [readConfig_closed readDisk config hfp]
      simp [Disk.SavesAll, ht]
  | true =>
      have hsize := h.size ht
      obtain ⟨fp, hfp, hcontent⟩ : ∃ fp, file.fp = some fp ∧ fp.content = disk.fwrite data := by
        simpa [ht, Option.map_eq_some_iff] using h.content
      rw [ConfigFile.readConfig, hfp, hsize]
      dsimp only
      rcases eq_or_ne data [] with hnil | hne
      · simp [hnil]
      · rw [if_neg (List.length_pos_iff.mpr hne).ne']
        by_cases hseek : readDisk.fseek = true
        · have hall := @readAll_delivers_iff data disk fp.rewind rfl hcontent readDisk
            config.p4DeviceConfig
          rw [if_pos hseek]
          simpa [hne, Disk.SavesAll, ReadDisk.Delivers, ht, hseek] using hall
        · simp [hne, ReadDisk.Delivers, hseek]

theorem storage_failures_reported_iff (before : List FileCall) (saved : ForwardingPipelineConfig)
    (disk : Disk) (reads : List (ReturnedConfig × ReadDisk)) (config : ReturnedConfig)
    (readDisk : ReadDisk) :
    StorageReported before saved disk reads config readDisk ↔
      saved.p4DeviceConfig = [] ∨
        (disk.SavesAll saved.p4DeviceConfig ∧ readDisk.Delivers saved.p4DeviceConfig) := by
  have hkept := changeConfig_kept disk (runCalls ConfigFile.init before) saved
  rw [← (hkept.reads reads).delivers_iff readDisk config, StorageReported]
  simp only [changeConfig_status, readConfig_status, Status.success_ok, true_implies]
  exact ⟨fun h => h.1, fun h => ⟨h, fun hn => absurd h hn⟩⟩

namespace ConfigStore

def storing (bytes : Bytes) : ForwardingPipelineConfig :=
  { p4info := P4Config.P4Info.empty, p4DeviceConfig := bytes, cookie := none }

-- Three chunks of the read loop over what four chunks were written before.
def savedTwice : List FileCall :=
  [.change (storing (List.replicate 1600 1)) Disk.reliable,
   .read ReturnedConfig.empty ReadDisk.reliable,
   .change (storing (List.replicate 1100 2)) Disk.reliable]

theorem round_trip_saved :
    Restores (runCalls ConfigFile.init savedTwice) (List.replicate 1100 2) := by
  have hreliable : ∀ call ∈ savedTwice, call.Reliable := by
    intro call hc
    simp only [savedTwice, List.mem_cons, List.not_mem_nil, or_false] at hc
    rcases hc with rfl | rfl | rfl <;> rfl
  exact config_round_trip savedTwice hreliable

def noTmpfile : Disk := { tmpfile := false, shortWrite := none }

theorem failed_save_hidden :
    ¬StorageReported [] (storing [1, 2, 3]) noTmpfile [] ReturnedConfig.empty ReadDisk.reliable := by
  rintro ⟨h, -⟩
  exact absurd (h rfl rfl) (by decide)

end ConfigStore

end Device
