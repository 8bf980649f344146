import DrcNode.Library.SyncedFile
import DrcNode.Wire.Decode

/-!
# The flat files of the blocks

Blocks are appended to numbered files. A block is written as a record: the network, the length, the
bytes of the block and a checksum. When a record would make the file too large, the file is closed
and the next one is begun. The position after the last record is the write cursor.

All that the store does to the directory are the operations of `FileOp`, so that one can say what is
there when the machine stops between two of them.

Source: `database/ffldb/blockio.go`. Errors of the file system are left out, and so are the open
files that are only read. The Castagnoli checksum is a parameter.
-/

namespace DrcNode

open Function List UInt32

open SyncedFile

/-! ### Locations -/

structure BlockLocation where
  blockFileNum : UInt32
  fileOffset : UInt32
  blockLen : UInt32

def serializeBlockLoc (loc : BlockLocation) : List UInt8 :=
  leBytes 4 loc.blockFileNum.toNat ++ (leBytes 4 loc.fileOffset.toNat ++
    leBytes 4 loc.blockLen.toNat)

/-- `deserializeBlockLoc`, which panics when there are not enough bytes. -/
def deserializeBlockLoc (serializedLoc : List UInt8) : Option BlockLocation :=
  if serializedLoc.length < 12 then none
  else some ⟨uint32At serializedLoc 0, uint32At serializedLoc 1, uint32At serializedLoc 2⟩

/-- **A location is read back.** -/
theorem deserializeBlockLoc_serialize (loc : BlockLocation) :
    deserializeBlockLoc (serializeBlockLoc loc) = some loc := by
  have hl : (serializeBlockLoc loc).length = 12 := by
    simp [serializeBlockLoc]
  have h0 : uint32At (serializeBlockLoc loc) 0 = loc.blockFileNum := uint32At_append [] _ _ rfl
  have h1 : uint32At (serializeBlockLoc loc) 1 = loc.fileOffset :=
    uint32At_append _ _ _ (length_leBytes 4 _)
  have h2 : uint32At (serializeBlockLoc loc) 2 = loc.blockLen := by
    have he := uint32At_append (leBytes 4 loc.blockFileNum.toNat ++ leBytes 4 loc.fileOffset.toNat)
      [] loc.blockLen (n := 2) (by rw [length_append, length_leBytes, length_leBytes])
    rwa [append_nil, append_assoc] at he
  rw [deserializeBlockLoc, hl, if_neg (by decide), h0, h1, h2]

/-! ### Files -/

/-- A file of blocks. -/
abbrev BlockFile := SyncedFile UInt8

/-- The files of the directory, by their numbers. -/
abbrev BlockFiles := UInt32 → Option BlockFile

/-- What is done to the files of the directory. -/
inductive FileOp
  | create (fileNum : UInt32)
  | write (fileNum : UInt32) (off : UInt32) (data : List UInt8)
  | truncate (fileNum : UInt32) (size : UInt32)
  | sync (fileNum : UInt32)
  | delete (fileNum : UInt32)

/-- The files after an operation. A file that is there is opened, not created. -/
def FileOp.apply (files : BlockFiles) : FileOp → BlockFiles
  | .create n => if (files n).isSome then files else update files n (some .empty)
  | .write n off data =>
      update files n ((files n).map fun f => f.writeAt 0 off.toNat data)
  | .truncate n size => update files n ((files n).map fun f => f.truncate 0 size.toNat)
  | .sync n => update files n ((files n).map SyncedFile.sync)
  | .delete n => update files n none

/-- The position in the files where the next record is written. -/
structure WriteCursor where
  curFileNum : UInt32
  curOffset : UInt32

/-- A position that is not after another one. -/
instance : LE WriteCursor where
  le pos pos' := pos.curFileNum < pos'.curFileNum ∨
    pos.curFileNum = pos'.curFileNum ∧ pos.curOffset ≤ pos'.curOffset

/-- The parameters of a store: the network, the largest size of a file, and the checksum. -/
structure BlockStoreConfig where
  network : UInt32
  maxBlockFileSize : UInt32
  checksum : List UInt8 → UInt32

/-- `blockStore`. The field `curFile` says whether the current file is open for writing. -/
structure BlockStore where
  files : BlockFiles
  writeCursor : WriteCursor
  curFile : Bool

/-- The errors of `readBlock`, and its panic on a location that is too short for a record. -/
inductive ReadBlockError
  | openFile
  | readAt
  | checksum
  | network
  | sliceBounds
  deriving DecidableEq

namespace BlockStore

variable (cfg : BlockStoreConfig) (s : BlockStore) (old : WriteCursor)

def writeData (data : List UInt8) : BlockStore :=
  { s with
    files := (FileOp.write s.writeCursor.curFileNum s.writeCursor.curOffset data).apply s.files
    writeCursor := ⟨s.writeCursor.curFileNum,
      s.writeCursor.curOffset + UInt32.ofNat data.length⟩ }

/-- Whether a record of some length goes into the next file. -/
def RollsOver (fullLen : UInt32) : Prop :=
  s.writeCursor.curOffset + fullLen < s.writeCursor.curOffset ∨
    s.writeCursor.curOffset + fullLen > cfg.maxBlockFileSize
  deriving Decidable

/-- The first part of `writeBlock`: the current file is closed when the record does not fit. It is
not synced. -/
def nextFile (fullLen : UInt32) : BlockStore :=
  if s.RollsOver cfg fullLen then
    { s with writeCursor := ⟨s.writeCursor.curFileNum + 1, 0⟩, curFile := false }
  else s

/-- The second part of `writeBlock`: the current file is opened. -/
def openCurrent : BlockStore :=
  if s.curFile then s
  else { s with files := (FileOp.create s.writeCursor.curFileNum).apply s.files, curFile := true }

def writeBlock (rawBlock : List UInt8) : BlockLocation × BlockStore :=
  let blockLen := UInt32.ofNat rawBlock.length
  let fullLen := blockLen + 12
  let s₁ := (s.nextFile cfg fullLen).openCurrent
  let network := leBytes 4 cfg.network.toNat
  let length := leBytes 4 blockLen.toNat
  let sum := cfg.checksum (network ++ (length ++ rawBlock))
  let s₂ := (((s₁.writeData network).writeData length).writeData rawBlock).writeData
    (beBytes 4 sum.toNat)
  (⟨s₁.writeCursor.curFileNum, s₁.writeCursor.curOffset, fullLen⟩, s₂)

def readBlock (loc : BlockLocation) : Except ReadBlockError (List UInt8) :=
  match s.files loc.blockFileNum with
  | none => .error .openFile
  | some f =>
      let serializedData := (f.data.drop loc.fileOffset.toNat).take loc.blockLen.toNat
      let n := serializedData.length
      if n < loc.blockLen.toNat then .error .readAt
      else if n < 4 then .error .sliceBounds
      else if UInt32.ofNat (ofLeBytes (serializedData.drop (n - 4)).reverse) ≠
          cfg.checksum (serializedData.take (n - 4)) then .error .checksum
      else if uint32At serializedData 0 ≠ cfg.network then .error .network
      else if n < 12 then .error .sliceBounds
      else .ok ((serializedData.take (n - 4)).drop 8)

def syncBlocks : BlockStore :=
  if s.curFile then { s with files := (FileOp.sync s.writeCursor.curFileNum).apply s.files } else s

/-- The files that `handleRollback` deletes, the last one first. -/
def newerFiles : List UInt32 :=
  (List.range (s.writeCursor.curFileNum.toNat - old.curFileNum.toNat)).map fun i =>
    s.writeCursor.curFileNum - UInt32.ofNat i

/-- What `handleRollback` does to the files. It stops at a file that cannot be deleted. -/
def rollbackOps : List FileOp :=
  if (s.newerFiles old).all fun n => (s.files n).isSome then
    (s.newerFiles old).map .delete ++
      [.create old.curFileNum, .truncate old.curFileNum old.curOffset, .sync old.curFileNum]
  else ((s.newerFiles old).takeWhile fun n => (s.files n).isSome).map .delete

def handleRollback : BlockStore :=
  if s.writeCursor.curFileNum = old.curFileNum ∧ s.writeCursor.curOffset = old.curOffset then s
  else
    { files := (s.rollbackOps old).foldl FileOp.apply s.files
      writeCursor := old
      curFile := (s.newerFiles old).all fun n => (s.files n).isSome }

end BlockStore

/-- The loop of `scanBlockFiles`, which does not end when there is a file for every number. -/
def scanLoop (files : BlockFiles) : Nat → UInt32 → WriteCursor → Option WriteCursor
  | 0, _, _ => none
  | fuel + 1, i, last =>
      match files i with
      | none => some last
      | some f => scanLoop files fuel (i + 1) ⟨i, UInt32.ofNat f.data.length⟩

/-- `scanBlockFiles`, with the position that `newBlockStore` takes when there is no file. -/
def scanBlockFiles (files : BlockFiles) : Option WriteCursor := scanLoop files (2 ^ 32) 0 ⟨0, 0⟩

def newBlockStore (files : BlockFiles) : Option BlockStore :=
  (scanBlockFiles files).map fun writeCursor => { files, writeCursor, curFile := false }

/-! ### Positions -/

namespace WriteCursor

variable {pos pos' pos'' : WriteCursor}

theorem le_def : pos ≤ pos' ↔ pos.curFileNum.toNat < pos'.curFileNum.toNat ∨
    pos.curFileNum.toNat = pos'.curFileNum.toNat ∧ pos.curOffset.toNat ≤ pos'.curOffset.toNat := by
  rw [UInt32.toNat_inj]
  exact .rfl

protected theorem le_refl (pos : WriteCursor) : pos ≤ pos := Or.inr ⟨rfl, UInt32.le_refl _⟩

protected theorem le_trans (h : pos ≤ pos') (h' : pos' ≤ pos'') : pos ≤ pos'' := by
  rw [le_def] at *
  omega

end WriteCursor

/-! ### What is kept -/

section Keeps

variable {durable : Bool} {pos pos' : WriteCursor} {files files' files'' : BlockFiles} {n : UInt32}
  {f f' : BlockFile}

/-- How much of a file there is before the position, on disk or at all. -/
def keptOf (durable : Bool) (pos : WriteCursor) (n : UInt32) (f : BlockFile) : Nat :=
  if n = pos.curFileNum then min (f.extent durable) pos.curOffset.toNat else f.extent durable

theorem keptOf_le_extent : keptOf durable pos n f ≤ f.extent durable := by
  rw [keptOf]
  split_ifs
  · exact min_le_left _ _
  · exact le_rfl

theorem keptOf_le_length : keptOf durable pos n f ≤ f.data.length :=
  keptOf_le_extent.trans (f.extent_le_length durable)

/-- What is before the position is before an offset of the same file that is after the position. -/
theorem keptOf_le_offset (durable : Bool) (f : BlockFile) {off : UInt32}
    (hn : n ≤ pos.curFileNum) (hp : pos ≤ ⟨n, off⟩) :
    keptOf durable pos n f ≤ min (f.extent durable) off.toNat := by
  rw [le_iff_toNat_le] at hn
  rw [WriteCursor.le_def] at hp
  have hf : n = pos.curFileNum := UInt32.toNat_inj.1 (by simp only at hp; omega)
  rw [keptOf, if_pos hf]
  simp only at hp
  omega

/-- The files before the position are kept, on disk or at all. -/
def Keeps (durable : Bool) (pos : WriteCursor) (files files' : BlockFiles) : Prop :=
  ∀ n f, n ≤ pos.curFileNum → files n = some f → 0 < keptOf durable pos n f →
    ∃ f', files' n = some f' ∧
      f'.data.take (keptOf durable pos n f) = f.data.take (keptOf durable pos n f) ∧
      keptOf durable pos n f ≤ f'.extent durable

theorem Keeps.refl (files : BlockFiles) : Keeps durable pos files files :=
  fun _ f _ hf _ => ⟨f, hf, rfl, keptOf_le_extent⟩

theorem Keeps.trans (h : Keeps durable pos files files') (h' : Keeps durable pos files' files'') :
    Keeps durable pos files files'' := by
  intro n f hn hf hk
  obtain ⟨f', hf', ht, hle⟩ := h n f hn hf hk
  have hm : keptOf durable pos n f ≤ keptOf durable pos n f' := by
    rw [keptOf] at hle ⊢
    rw [keptOf]
    split_ifs at hle ⊢
    · exact le_min hle (min_le_right _ _)
    · exact hle
  obtain ⟨f'', hf'', ht', hle'⟩ := h' n f' hn hf' (hk.trans_le hm)
  refine ⟨f'', hf'', ?_, hm.trans hle'⟩
  have hc := congrArg (List.take (keptOf durable pos n f)) ht'
  rwa [take_take, take_take, Nat.min_eq_left hm, ht] at hc

theorem Keeps.of_le (h : Keeps durable pos' files files') (hp : pos ≤ pos') :
    Keeps durable pos files files' := by
  intro n f hn hf hk
  rw [WriteCursor.le_def] at hp
  rw [le_iff_toNat_le] at hn
  have hm : keptOf durable pos n f ≤ keptOf durable pos' n f := by
    rw [keptOf, keptOf]
    simp only [← UInt32.toNat_inj]
    split_ifs <;> omega
  have hn' : n ≤ pos'.curFileNum := le_iff_toNat_le.2 (by omega)
  obtain ⟨f', hf', ht, hle⟩ := h n f hn' hf (hk.trans_le hm)
  refine ⟨f', hf', ?_, hm.trans hle⟩
  have hc := congrArg (List.take (keptOf durable pos n f)) ht
  rwa [take_take, take_take, Nat.min_eq_left hm] at hc

/-- The operations that leave what is before a position as it is. -/
def FileOp.After (pos : WriteCursor) : FileOp → Prop
  | .create _ => True
  | .write n off _ => pos ≤ ⟨n, off⟩
  | .truncate n size => pos ≤ ⟨n, size⟩
  | .sync _ => True
  | .delete n => pos.curFileNum < n

theorem keeps_update {g : BlockFile → BlockFile} (h : ∀ f, n ≤ pos.curFileNum → files n = some f →
      (g f).data.take (keptOf durable pos n f) = f.data.take (keptOf durable pos n f) ∧
        keptOf durable pos n f ≤ (g f).extent durable) :
    Keeps durable pos files (update files n ((files n).map g)) := by
  intro n' f hn hf hk
  by_cases heq : n' = n
  · subst heq
    rw [update_self, hf]
    exact ⟨g f, rfl, h f hn hf⟩
  · rw [update_of_ne heq]
    exact ⟨f, hf, rfl, keptOf_le_extent⟩

/-- **An operation after a position keeps what is before it.** -/
theorem keeps_apply {op : FileOp} (h : op.After pos) :
    Keeps durable pos files (op.apply files) := by
  cases op with
  | create n =>
    rw [FileOp.apply]
    split_ifs with hs
    · exact .refl files
    intro n' f _ hf _
    have hne : n' ≠ n := by
      rintro rfl
      rw [hf] at hs
      exact hs rfl
    rw [update_of_ne hne]
    exact ⟨f, hf, rfl, keptOf_le_extent⟩
  | write n off data =>
    refine keeps_update fun f hn _ => ?_
    have hle := keptOf_le_offset durable f hn h
    exact ⟨take_writeAt (hle.trans (min_le_right _ _)) keptOf_le_length,
      hle.trans (min_le_extent_writeAt durable)⟩
  | truncate n size =>
    refine keeps_update fun f hn _ => ?_
    have hle := keptOf_le_offset durable f hn h
    exact ⟨take_truncate (hle.trans (min_le_right _ _)) keptOf_le_length,
      hle.trans (min_le_extent_truncate durable)⟩
  | sync n =>
    exact keeps_update fun f _ _ => ⟨rfl, keptOf_le_extent.trans (extent_le_extent_sync durable)⟩
  | delete n =>
    intro n' f hn hf _
    have hne : n' ≠ n := by
      rintro rfl
      exact absurd hn (UInt32.not_le.2 h)
    rw [FileOp.apply, update_of_ne hne]
    exact ⟨f, hf, rfl, keptOf_le_extent⟩

theorem keeps_foldl {ops : List FileOp} (h : ∀ op ∈ ops, op.After pos) :
    Keeps durable pos files (ops.foldl FileOp.apply files) := by
  induction ops generalizing files with
  | nil => exact .refl files
  | cons op ops ih =>
    exact (keeps_apply (h op mem_cons_self)).trans
      (ih fun op' hop' => h op' (mem_cons_of_mem op hop'))

/-- The file at the position goes up to it, on disk or at all. -/
def Reached (durable : Bool) (files : BlockFiles) (pos : WriteCursor) : Prop :=
  pos.curOffset = 0 ∨
    ∃ f, files pos.curFileNum = some f ∧ pos.curOffset.toNat ≤ f.extent durable

theorem Reached.keep (h : Reached durable files pos) (hke : Keeps durable pos files files') :
    Reached durable files' pos := by
  obtain hz | ⟨f, hf, hle⟩ := h
  · exact .inl hz
  by_cases hz : pos.curOffset = 0
  · exact .inl hz
  have hk : keptOf durable pos pos.curFileNum f = pos.curOffset.toNat := by
    rw [keptOf, if_pos rfl, Nat.min_eq_right hle]
  have hp : 0 < keptOf durable pos pos.curFileNum f := by
    rw [hk]
    exact Nat.pos_of_ne_zero fun h0 => hz (UInt32.toNat_inj.1 h0)
  obtain ⟨f', hf', -, hle'⟩ := hke _ f (UInt32.le_refl _) hf hp
  exact .inr ⟨f', hf', hk ▸ hle'⟩

theorem Reached.of_durable (h : Reached true files pos) : Reached durable files pos := by
  obtain hz | ⟨f, hf, hle⟩ := h
  · exact .inl hz
  · refine .inr ⟨f, hf, hle.trans ?_⟩
    cases durable with
    | true => exact le_rfl
    | false => exact f.synced_le

end Keeps

/-! ### Records -/

section Records

variable {cfg : BlockStoreConfig} {durable : Bool} {pos pos' : WriteCursor}
  {files files' : BlockFiles} {bytes : List UInt8} {loc : BlockLocation} {s : BlockStore}

section

variable (cfg bytes)

/-- What a record has before its checksum. -/
def BlockStoreConfig.checked : List UInt8 :=
  leBytes 4 cfg.network.toNat ++ (leBytes 4 (UInt32.ofNat bytes.length).toNat ++ bytes)

/-- The record of a block. -/
def BlockStoreConfig.record : List UInt8 :=
  cfg.checked bytes ++ beBytes 4 (cfg.checksum (cfg.checked bytes)).toNat

theorem length_checked :
    (cfg.checked bytes).length = bytes.length + 8 := by
  simp only [BlockStoreConfig.checked, length_append, length_leBytes]
  omega

theorem drop_checked :
    (cfg.checked bytes).drop 8 = bytes := by
  rw [BlockStoreConfig.checked, ← append_assoc]
  exact drop_left' (by rw [length_append, length_leBytes, length_leBytes])

theorem length_record :
    (cfg.record bytes).length = bytes.length + 12 := by
  rw [BlockStoreConfig.record, length_append, length_checked, length_beBytes]

end

/-- The location leads to the record of the block, which is before the position, on disk or at
all. -/
structure Located (cfg : BlockStoreConfig) (durable : Bool) (files : BlockFiles) (pos : WriteCursor)
    (bytes : List UInt8) (loc : BlockLocation) : Prop where
  before : loc.blockFileNum < pos.curFileNum ∨ loc.blockFileNum = pos.curFileNum ∧
    loc.fileOffset.toNat + (bytes.length + 12) ≤ pos.curOffset.toNat
  blockLen_eq : loc.blockLen.toNat = bytes.length + 12
  holds : ∃ f, files loc.blockFileNum = some f ∧
    f.Holds loc.fileOffset.toNat (cfg.record bytes) ∧
    loc.fileOffset.toNat + (bytes.length + 12) ≤ f.extent durable

theorem Located.mono (h : Located cfg durable files pos bytes loc) (hp : pos ≤ pos') :
    Located cfg durable files pos' bytes loc := by
  refine ⟨?_, h.blockLen_eq, h.holds⟩
  have hb := h.before
  rw [WriteCursor.le_def] at hp
  rw [lt_iff_toNat_lt, ← UInt32.toNat_inj] at hb ⊢
  omega

theorem Located.keep (h : Located cfg durable files pos bytes loc)
    (hk : Keeps durable pos files files') : Located cfg durable files' pos bytes loc := by
  refine ⟨h.before, h.blockLen_eq, ?_⟩
  obtain ⟨f, hf, hh, hle⟩ := h.holds
  have he : loc.fileOffset.toNat + (bytes.length + 12) ≤ keptOf durable pos loc.blockFileNum f := by
    rw [keptOf]
    split_ifs with heq
    · refine le_min hle ?_
      obtain hlt | ⟨-, ho⟩ := h.before
      · rw [heq] at hlt
        exact absurd hlt (UInt32.lt_irrefl _)
      · exact ho
    · exact hle
  have hn : loc.blockFileNum ≤ pos.curFileNum := by
    obtain hlt | ⟨heq, -⟩ := h.before
    · exact UInt32.le_of_lt hlt
    · exact UInt32.le_of_eq heq
  obtain ⟨f', hf', ht, hle'⟩ := hk _ f hn hf (by omega)
  exact ⟨f', hf', hh.of_take_eq ((length_record cfg bytes).symm ▸ he) ht, he.trans hle'⟩

/-- **A block is read where its record is.** -/
theorem Located.readBlock_eq (h : Located cfg durable s.files pos bytes loc) :
    s.readBlock cfg loc = .ok bytes := by
  obtain ⟨f, hf, hh, -⟩ := h.holds
  have hr : (f.data.drop loc.fileOffset.toNat).take (bytes.length + 12) = cfg.record bytes := by
    rw [← length_record cfg, hh.take_eq]
  have hn : bytes.length + 12 - 4 = (cfg.checked bytes).length := by
    rw [length_checked]
    omega
  have hs : UInt32.ofNat (ofLeBytes ((cfg.record bytes).drop (bytes.length + 12 - 4)).reverse) =
      cfg.checksum (cfg.checked bytes) := by
    rw [hn, BlockStoreConfig.record, drop_left, beBytes, reverse_reverse, ofNat_ofLeBytes_leBytes]
  have hc : (cfg.record bytes).take (bytes.length + 12 - 4) = cfg.checked bytes := by
    rw [hn, BlockStoreConfig.record, take_left]
  have hnk : uint32At (cfg.record bytes) 0 = cfg.network := by
    exact uint32At_append [] _ _ rfl
  rw [BlockStore.readBlock, hf]
  simp only [h.blockLen_eq, hr, length_record, hs, hc, hnk, drop_checked, lt_irrefl,
    ne_eq, not_true_eq_false, if_false]
  rw [if_neg (by omega), if_neg (by omega)]

end Records

/-! ### What is written -/

namespace BlockStore

variable {cfg : BlockStoreConfig} {s s' : BlockStore} {f : BlockFile}
  {bytes data data' : List UInt8} {loc : BlockLocation} {durable : Bool}

/-- **What `writeBlock` does**: the files before the cursor are kept, and the record of the block is
before the cursor now. -/
structure Writes (cfg : BlockStoreConfig) (s s' : BlockStore) (bytes : List UInt8)
    (loc : BlockLocation) : Prop where
  keeps : ∀ durable, Keeps durable s.writeCursor s.files s'.files
  le : s.writeCursor ≤ s'.writeCursor
  located : Located cfg false s'.files s'.writeCursor bytes loc
  reached : Reached false s'.files s'.writeCursor
  curFile : s'.curFile = true
  opened : (s'.files s'.writeCursor.curFileNum).isSome

/-- The current file is there, and goes up to the cursor. -/
def Ready (s : BlockStore) (f : BlockFile) : Prop :=
  s.files s.writeCursor.curFileNum = some f ∧ s.writeCursor.curOffset.toNat ≤ f.data.length

theorem files_writeData (s : BlockStore) (data : List UInt8) : (s.writeData data).files =
    (FileOp.write s.writeCursor.curFileNum s.writeCursor.curOffset data).apply s.files := rfl

theorem Ready.writeData_curFileNum (h : s.Ready f) (data : List UInt8) :
    (s.writeData data).files s.writeCursor.curFileNum =
      some (f.writeAt 0 s.writeCursor.curOffset.toNat data) := by
  rw [files_writeData, FileOp.apply, update_self, h.1]
  rfl

theorem toNat_curOffset_writeData (h : s.writeCursor.curOffset.toNat + data.length < 2 ^ 32) :
    (s.writeCursor.curOffset + UInt32.ofNat data.length).toNat =
      s.writeCursor.curOffset.toNat + data.length := by
  rw [UInt32.toNat_add, toNat_ofNat']
  omega

theorem Ready.writeData_writeData (h : s.Ready f)
    (hlt : s.writeCursor.curOffset.toNat + data.length < 2 ^ 32) :
    (s.writeData data).writeData data' = s.writeData (data ++ data') := by
  simp [writeData, FileOp.apply, h.1, toNat_curOffset_writeData hlt, writeAt_writeAt h.2, ofNat_add,
    UInt32.add_assoc]

/-- The cursor may be written at, once the current file is open. -/
structure Open (s : BlockStore) : Prop where
  reached : Reached false s.files s.writeCursor
  opened : s.curFile = true → (s.files s.writeCursor.curFileNum).isSome

theorem Open.ready (h : s.Open) (hf : s.files s.writeCursor.curFileNum = some f) : s.Ready f := by
  refine ⟨hf, ?_⟩
  obtain hz | ⟨f', hf', hle⟩ := h.reached
  · rw [hz]
    exact Nat.zero_le _
  · cases hf.symm.trans hf'
    exact hle

theorem writeCursor_openCurrent (s : BlockStore) : s.openCurrent.writeCursor = s.writeCursor := by
  rw [openCurrent]
  split_ifs <;> rfl

theorem curFile_openCurrent : s.openCurrent.curFile = true := by
  rw [openCurrent]
  split_ifs with hc
  · exact hc
  · rfl

theorem keeps_openCurrent {pos : WriteCursor} : Keeps durable pos s.files s.openCurrent.files := by
  rw [openCurrent]
  split_ifs
  · exact .refl s.files
  · exact @keeps_apply durable pos s.files (.create s.writeCursor.curFileNum) trivial

theorem Open.exists_ready (h : s.Open) : ∃ f, s.openCurrent.Ready f := by
  cases hf : s.files s.writeCursor.curFileNum with
  | some f =>
    have hfi : s.openCurrent.files = s.files := by
      simp only [openCurrent, FileOp.apply, hf, Option.isSome_some]
      split_ifs <;> rfl
    refine ⟨f, ?_⟩
    rw [Ready, hfi, writeCursor_openCurrent]
    exact h.ready hf
  | none =>
    have hc : s.curFile = false := by
      rw [← Bool.not_eq_true]
      intro ho
      have hs := h.opened ho
      rw [hf] at hs
      cases hs
    have hz : s.writeCursor.curOffset = 0 := by
      obtain hz | ⟨f', hf', -⟩ := h.reached
      · exact hz
      · rw [hf] at hf'
        cases hf'
    refine ⟨.empty, ?_, ?_⟩
    · simp [openCurrent, hc, FileOp.apply, hf]
    · rw [writeCursor_openCurrent, hz]
      exact Nat.zero_le _

theorem Ready.writes (h : s.Ready f) (hc : s.curFile = true)
    (hlt : s.writeCursor.curOffset.toNat + (bytes.length + 12) < 2 ^ 32) :
    Writes cfg s (s.writeData (cfg.record bytes)) bytes
      ⟨s.writeCursor.curFileNum, s.writeCursor.curOffset, UInt32.ofNat bytes.length + 12⟩ := by
  have ho : (s.writeData (cfg.record bytes)).writeCursor.curOffset.toNat =
      s.writeCursor.curOffset.toNat + (bytes.length + 12) := by
    rw [← length_record cfg bytes] at hlt ⊢
    exact toNat_curOffset_writeData hlt
  have hf := h.writeData_curFileNum (cfg.record bytes)
  have hl : s.writeCursor.curOffset.toNat + (bytes.length + 12) ≤
      (f.writeAt 0 s.writeCursor.curOffset.toNat (cfg.record bytes)).data.length := by
    rw [← length_record cfg bytes]
    exact le_length_writeAt
  have hk : ∀ durable, Keeps durable s.writeCursor s.files
      (s.writeData (cfg.record bytes)).files := by
    intro durable
    rw [files_writeData]
    exact keeps_apply (WriteCursor.le_refl s.writeCursor)
  refine ⟨hk, ?_, ⟨.inr ⟨rfl, ho.ge⟩, ?_, ?_⟩, ?_, hc, ?_⟩
  · refine .inr ⟨rfl, le_iff_toNat_le.2 ?_⟩
    rw [ho]
    exact Nat.le_add_right _ _
  · simp only [UInt32.toNat_add, toNat_ofNat', UInt32.reduceToNat]
    omega
  · exact ⟨_, hf, holds_writeAt, hl⟩
  · exact .inr ⟨_, hf, ho ▸ hl⟩
  · exact Option.isSome_iff_exists.2 ⟨_, hf⟩

theorem writeBlock_eq {s₁ : BlockStore}
    (hs₁ : (s.nextFile cfg (UInt32.ofNat bytes.length + 12)).openCurrent = s₁) (h : s₁.Ready f)
    (hlt : s₁.writeCursor.curOffset.toNat + (bytes.length + 12) < 2 ^ 32) :
    s.writeBlock cfg bytes =
      (⟨s₁.writeCursor.curFileNum, s₁.writeCursor.curOffset, UInt32.ofNat bytes.length + 12⟩,
        s₁.writeData (cfg.record bytes)) := by
  have hl := length_leBytes 4 cfg.network.toNat
  have hl' := length_leBytes 4 (UInt32.ofNat bytes.length).toNat
  simp only [writeBlock, hs₁]
  rw [h.writeData_writeData (by omega), h.writeData_writeData (by rw [length_append]; omega),
    h.writeData_writeData (by rw [length_append, length_append]; omega)]
  simp [BlockStoreConfig.record, BlockStoreConfig.checked]

section

variable (h : s.Open) (hl : bytes.length + 12 < 2 ^ 32) (hro : s.RollsOver cfg
  (UInt32.ofNat bytes.length + 12) → s.writeCursor.curFileNum.toNat + 1 < 2 ^ 32)
include h hl hro

theorem Open.nextFile :
    (s.nextFile cfg (UInt32.ofNat bytes.length + 12)).Open ∧
      (s.nextFile cfg (UInt32.ofNat bytes.length + 12)).files = s.files ∧
      s.writeCursor ≤ (s.nextFile cfg (UInt32.ofNat bytes.length + 12)).writeCursor ∧
      (s.nextFile cfg (UInt32.ofNat bytes.length + 12)).writeCursor.curOffset.toNat +
        (bytes.length + 12) < 2 ^ 32 := by
  rw [BlockStore.nextFile]
  split_ifs with hr
  · refine ⟨⟨.inl rfl, fun hf => by cases hf⟩, rfl, WriteCursor.le_def.2 (.inl ?_), ?_⟩
    · have hlt := hro hr
      simp only [UInt32.toNat_add, UInt32.reduceToNat]
      omega
    · simpa only [UInt32.reduceToNat, Nat.zero_add] using hl
  · refine ⟨h, rfl, WriteCursor.le_refl _, ?_⟩
    have hno : ¬ s.writeCursor.curOffset + (UInt32.ofNat bytes.length + 12) <
        s.writeCursor.curOffset := fun hlt => hr (.inl hlt)
    rw [lt_iff_toNat_lt] at hno
    simp only [UInt32.toNat_add, toNat_ofNat', UInt32.reduceToNat] at hno
    omega

/-- **A block is written**, when its length is one of a `uint32` and the numbers of the files do not
run out. -/
theorem Open.writes_writeBlock :
    Writes cfg s (s.writeBlock cfg bytes).2 bytes (s.writeBlock cfg bytes).1 := by
  obtain ⟨ho, hf, hle, hlt⟩ := h.nextFile hl hro
  obtain ⟨f, hr⟩ := ho.exists_ready
  rw [← writeCursor_openCurrent (s.nextFile _ _)] at hle hlt
  rw [writeBlock_eq rfl hr hlt]
  have hw : Writes cfg _ _ bytes _ := hr.writes curFile_openCurrent hlt
  refine ⟨fun durable => ?_, WriteCursor.le_trans hle hw.le, hw.located, hw.reached,
    hw.curFile, hw.opened⟩
  rw [← hf]
  exact keeps_openCurrent.trans ((hw.keeps durable).of_le hle)

end

end BlockStore

end DrcNode
