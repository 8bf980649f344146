import DrcNode.Database.BlockFiles
import DrcNode.Database.Cache
import DrcNode.Library.Checked
import DrcNode.Library.Runs

/-!
# Blocks that survive a crash

A committed transaction appends its blocks to the flat files, and puts their locations and the new
write cursor among its keys. These reach leveldb when the cache is flushed, and before that the
current file is synced, so that a block whose location is in leveldb can be read after a crash. It
is not so when the store has moved on to another file since the last flush: the file before is
closed without a sync. The machine may stop between any two steps, also in the middle of a
transaction or of the rollback of an earlier restart.

## Main results

* `blocks_durable`.

Source: `database/ffldb/db.go`, `writePendingAndCommit`, `initDB` and `openDB`;
`database/ffldb/reconcile.go`; `database/ffldb/dbcache.go`, `flush` and `commitTx`. A batch of
leveldb is on disk when it has been written. Of the keys only the write cursor and the block index
are there.
-/

namespace DrcNode

open Function List Option UInt32 BlockStore DbCache Layer

open SyncedFile

/-! ### The write cursor in the metadata -/

def serializeWriteRow (cfg : BlockStoreConfig) (pos : WriteCursor) : List UInt8 :=
  let row := leBytes 4 pos.curFileNum.toNat ++ leBytes 4 pos.curOffset.toNat
  row ++ leBytes 4 (cfg.checksum row).toNat

/-- The errors of `openDB`. -/
inductive ReconcileError
  | noWriteCursor
  | sliceBounds
  | checksum
  | blocksBehind
  | scanForever
  deriving DecidableEq

def deserializeWriteRow (cfg : BlockStoreConfig) (writeRow : List UInt8) :
    Except ReconcileError WriteCursor :=
  if writeRow.length < 12 then .error .sliceBounds
  else if cfg.checksum (writeRow.take 8) ≠ uint32At writeRow 2 then .error .checksum
  else .ok ⟨uint32At writeRow 0, uint32At writeRow 1⟩

/-- **The write cursor is read back.** -/
theorem deserializeWriteRow_serialize (cfg : BlockStoreConfig) (pos : WriteCursor) :
    deserializeWriteRow cfg (serializeWriteRow cfg pos) = .ok pos := by
  have hl : (leBytes 4 pos.curFileNum.toNat ++ leBytes 4 pos.curOffset.toNat).length = 8 := by
    rw [length_append, length_leBytes, length_leBytes]
  have ht : (serializeWriteRow cfg pos).take 8 =
      leBytes 4 pos.curFileNum.toNat ++ leBytes 4 pos.curOffset.toNat := take_left' hl
  have h0 : uint32At (serializeWriteRow cfg pos) 0 = pos.curFileNum := by
    exact uint32At_append [] _ _ rfl
  have h1 : uint32At (serializeWriteRow cfg pos) 1 = pos.curOffset := by
    rw [serializeWriteRow, append_assoc]
    exact uint32At_append _ _ _ (length_leBytes 4 _)
  have h2 : uint32At (serializeWriteRow cfg pos) 2 = cfg.checksum
      (leBytes 4 pos.curFileNum.toNat ++ leBytes 4 pos.curOffset.toNat) := by
    have he := uint32At_append _ [] (cfg.checksum
      (leBytes 4 pos.curFileNum.toNat ++ leBytes 4 pos.curOffset.toNat)) (n := 2) hl
    rwa [append_nil] at he
  have hr : ¬ (serializeWriteRow cfg pos).length < 12 := by
    rw [serializeWriteRow, length_append, hl, length_leBytes]
    decide
  rw [deserializeWriteRow, if_neg hr, ht, h2, if_neg (not_not.2 rfl), h0, h1]

/-! ### The database -/

/-- The keys of the metadata: that of the write cursor, and after it those of the block index. -/
abbrev MetaKey := WithBot Nat

/-- The key of a block in the block index. -/
def blockKey (hash : Hash) : MetaKey := (hash.toNat : WithBot Nat)

theorem blockKey_inj {hash hash' : Hash} : blockKey hash = blockKey hash' ↔ hash = hash' :=
  WithBot.coe_inj.trans BitVec.toNat_inj

/-- The block store, the cache, and the pending keys of the transaction that is committed. -/
structure BlockDb where
  store : BlockStore
  cache : DbCache MetaKey (List UInt8)
  pending : Layer MetaKey (List UInt8)

namespace BlockDb

variable (cfg : BlockStoreConfig) (db : BlockDb)

/-- What the transaction reads. -/
def view : MetaKey → Option (List UInt8) := db.pending.read db.cache.contents

def hasBlock (hash : Hash) : Bool := (db.view (blockKey hash)).isSome

/-- A round of the loop of `writePendingAndCommit`. -/
def writePending (hash : Hash) (bytes : List UInt8) : BlockDb :=
  let written := db.store.writeBlock cfg bytes
  { db with
    store := written.2
    pending := db.pending.put (blockKey hash) (serializeBlockLoc written.1) }

/-- The end of `writePendingAndCommit`: the write cursor is put, and the keys are committed. -/
def commitPending (needsFlush : Bool) : BlockDb where
  store := if needsFlush then db.store.syncBlocks else db.store
  cache := db.cache.commitTx needsFlush
    (db.pending.put ⊥ (serializeWriteRow cfg db.store.writeCursor))
  pending := .empty

def writePendingAndCommit (blocks : List (Hash × List UInt8)) (needsFlush : Bool) : BlockDb :=
  (blocks.foldl (fun db block => db.writePending cfg block.1 block.2) db).commitPending cfg
    needsFlush

def flush : BlockDb := { db with store := db.store.syncBlocks, cache := db.cache.flush }

/-- A new database, `initDB`. -/
def create : BlockDb where
  store := ⟨fun _ => none, ⟨0, 0⟩, false⟩
  cache := ⟨Bucket.empty.put ⊥ (serializeWriteRow cfg ⟨0, 0⟩), .empty⟩
  pending := .empty

end BlockDb

/-- A position that is before another one. -/
instance : LT WriteCursor where
  lt pos pos' := pos.curFileNum < pos'.curFileNum ∨
    pos.curFileNum = pos'.curFileNum ∧ pos.curOffset < pos'.curOffset

instance (pos pos' : WriteCursor) : Decidable (pos < pos') := inferInstanceAs (Decidable (_ ∨ _))

section

variable (cfg : BlockStoreConfig) (ldb : Bucket MetaKey (List UInt8))

/-- The write cursor in leveldb. -/
def persistedCursor :
    Except ReconcileError WriteCursor :=
  match ldb.get ⊥ with
  | none => .error .noWriteCursor
  | some writeRow => deserializeWriteRow cfg writeRow

/-- `reconcileDB`: the files are rolled back to the write cursor in leveldb. -/
def reconcileDB (store : BlockStore) :
    Except ReconcileError BlockDb :=
  match persistedCursor cfg ldb with
  | .error e => .error e
  | .ok pos =>
      let store := if pos < store.writeCursor then store.handleRollback pos else store
      if store.writeCursor < pos then .error .blocksBehind
      else .ok { store, cache := ⟨ldb, .empty⟩, pending := .empty }

/-- `openDB` of a database that exists. -/
def openDB (files : BlockFiles) :
    Except ReconcileError BlockDb :=
  match newBlockStore files with
  | none => .error .scanForever
  | some store => reconcileDB cfg ldb store

/-- What `openDB` does to the files. -/
def recoveryOps (files : BlockFiles) :
    List FileOp :=
  match newBlockStore files, persistedCursor cfg ldb with
  | some store, .ok pos => if pos < store.writeCursor then store.rollbackOps pos else []
  | _, _ => []

end

/-! ### Crashes -/

/-- The files that may be left when the machine stops. A file of which nothing was synced may be
gone. -/
structure FilesSurvive (files files' : BlockFiles) : Prop where
  left : ∀ n f', files' n = some f' → ∃ f, files n = some f ∧ f.Survives f'
  lost : ∀ n f, files n = some f → files' n = none → f.synced = 0

theorem FilesSurvive.cut {files : BlockFiles} {n : UInt32} {f f' : BlockFile}
    (hf : files n = some f) (h : f.Survives f') :
    FilesSurvive files (update files n (some f')) := by
  refine ⟨fun n' g hg => ?_, fun n' g hg hn => ?_⟩
  · by_cases heq : n' = n
    · subst heq
      rw [update_self] at hg
      exact ⟨f, hf, some.inj hg ▸ h⟩
    · rw [update_of_ne heq] at hg
      exact ⟨g, hg, .refl g⟩
  · by_cases heq : n' = n
    · subst heq
      rw [update_self] at hn
      cases hn
    · rw [update_of_ne heq, hg] at hn
      cases hn

/-- The files that a crash may leave, which may be followed by crashes in the rollback of the
restart. -/
inductive CrashLeaves (cfg : BlockStoreConfig) (ldb : Bucket MetaKey (List UInt8))
    (files : BlockFiles) : BlockFiles → Prop
  | stop {files' : BlockFiles} : FilesSurvive files files' → CrashLeaves cfg ldb files files'
  | again {files' files'' : BlockFiles} (i : Nat) : CrashLeaves cfg ldb files files' →
      FilesSurvive (((recoveryOps cfg ldb files').take i).foldl FileOp.apply files') files'' →
      CrashLeaves cfg ldb files files''

/-- The steps of the database. -/
inductive BlockDbEvent
  | writePending (hash : Hash) (bytes : List UInt8)
  | commitPending (needsFlush : Bool)
  | flush
  | restart (files : BlockFiles)

namespace BlockDb

/-- One step. -/
def step (cfg : BlockStoreConfig) (db : BlockDb) : BlockDbEvent → Except ReconcileError BlockDb
  | .writePending hash bytes => .ok (db.writePending cfg hash bytes)
  | .commitPending needsFlush => .ok (db.commitPending cfg needsFlush)
  | .flush => .ok db.flush
  | .restart files => openDB cfg db.cache.ldb files

/-- The steps that occur: `StoreBlock` rejects a block that is there, and a restart finds what a
crash leaves. -/
def Possible (cfg : BlockStoreConfig) (db : BlockDb) : BlockDbEvent → Prop
  | .writePending hash _ => db.hasBlock hash = false
  | .restart files => CrashLeaves cfg db.cache.ldb db.store.files files
  | _ => True

theorem possible_writePending {cfg : BlockStoreConfig} {db : BlockDb} {hash : Hash}
    {bytes : List UInt8} (h : db.hasBlock hash = false) :
    db.Possible cfg (.writePending hash bytes) := h

end BlockDb

/-- The bytes that were stored last for each block. -/
def lastStored : List BlockDbEvent → Hash → Option (List UInt8) :=
  List.foldl (fun stored event =>
    match event with
    | .writePending hash bytes => update stored hash (some bytes)
    | _ => stored) fun _ => none

/-! ### What the metadata say of the files -/

section Levels

variable {cfg : BlockStoreConfig} {stored : Hash → Option (List UInt8)}
  {files files' : BlockFiles} {durable : Bool} {pos pos' : WriteCursor}
  {view : MetaKey → Option (List UInt8)} {s : BlockStore} {hash : Hash}

/-- The block index leads to the bytes that were stored, before the position, on disk or at all. -/
def IndexedBefore (cfg : BlockStoreConfig) (stored : Hash → Option (List UInt8))
    (files : BlockFiles) (durable : Bool) (pos : WriteCursor)
    (view : MetaKey → Option (List UInt8)) : Prop :=
  ∀ hash row, view (blockKey hash) = some row → ∃ bytes loc, stored hash = some bytes ∧
    row = serializeBlockLoc loc ∧ Located cfg durable files pos bytes loc

/-- The write cursor is at the position, the files go up to it, and the block index leads to what is
before it. -/
structure Level (cfg : BlockStoreConfig) (stored : Hash → Option (List UInt8)) (files : BlockFiles)
    (durable : Bool) (pos : WriteCursor) (view : MetaKey → Option (List UInt8)) : Prop where
  cursor : view ⊥ = some (serializeWriteRow cfg pos)
  reached : Reached durable files pos
  indexed : IndexedBefore cfg stored files durable pos view

section

variable (h : IndexedBefore cfg stored files durable pos view)
include h

theorem IndexedBefore.keep (hk : Keeps durable pos files files') :
    IndexedBefore cfg stored files' durable pos view := by
  intro hash row hr
  obtain ⟨bytes, loc, hs, rfl, hl⟩ := h hash row hr
  exact ⟨bytes, loc, hs, rfl, hl.keep hk⟩

theorem IndexedBefore.mono (hp : pos ≤ pos') :
    IndexedBefore cfg stored files durable pos' view := by
  intro hash row hr
  obtain ⟨bytes, loc, hs, rfl, hl⟩ := h hash row hr
  exact ⟨bytes, loc, hs, rfl, hl.mono hp⟩

theorem IndexedBefore.store (hn : view (blockKey hash) = none) (bytes : List UInt8) :
    IndexedBefore cfg (update stored hash (some bytes)) files durable pos view := by
  intro hash' row hr
  have hne : hash' ≠ hash := by
    rintro rfl
    rw [hn] at hr
    cases hr
  rw [update_of_ne hne]
  exact h hash' row hr

end

theorem Level.keep (h : Level cfg stored files durable pos view)
    (hk : Keeps durable pos files files') : Level cfg stored files' durable pos view :=
  ⟨h.cursor, h.reached.keep hk, h.indexed.keep hk⟩

theorem Level.store (h : Level cfg stored files durable pos view)
    (hn : view (blockKey hash) = none) (bytes : List UInt8) :
    Level cfg (update stored hash (some bytes)) files durable pos view :=
  ⟨h.cursor, h.reached, h.indexed.store hn bytes⟩

theorem Level.of_durable (h : Level cfg stored files true pos view) :
    Level cfg stored files false pos view := by
  refine ⟨h.cursor, h.reached.of_durable, fun hash row hr => ?_⟩
  obtain ⟨bytes, loc, hs, rfl, hl⟩ := h.indexed hash row hr
  obtain ⟨f, hf, hh, hle⟩ := hl.holds
  exact ⟨bytes, loc, hs, rfl, hl.before, hl.blockLen_eq, f, hf, hh, hle.trans f.synced_le⟩

/-! ### Flushes -/

/-- No file before the current one has bytes that are not on disk. -/
def BlockStore.EarlierSynced (s : BlockStore) : Prop :=
  ∀ n f, n < s.writeCursor.curFileNum → s.files n = some f → f.synced = f.data.length

theorem BlockStore.earlierSynced_iff : s.EarlierSynced ↔
    ∀ i ∈ List.range s.writeCursor.curFileNum.toNat, ∀ f ∈ s.files (UInt32.ofNat i),
      f.synced = f.data.length := by
  constructor
  · intro h i hi f hf
    have hlt := mem_range.1 hi
    refine h _ f (lt_iff_toNat_lt.2 ?_) hf
    rw [toNat_ofNat']
    omega
  · intro h n f hn hf
    refine h n.toNat (mem_range.2 (lt_iff_toNat_lt.1 hn)) f ?_
    rwa [UInt32.ofNat_toNat]

instance : Decidable s.EarlierSynced := decidable_of_iff _ earlierSynced_iff.symm

/-- Everything before the cursor is on disk. -/
structure BlockStore.Flushed (s : BlockStore) : Prop where
  earlier : s.EarlierSynced
  reached : Reached true s.files s.writeCursor

theorem BlockStore.Flushed.le_synced (h : s.Flushed) {n : UInt32} {f : BlockFile} {m : Nat}
    (hf : s.files n = some f) (hm : m ≤ f.data.length)
    (hb : n.toNat < s.writeCursor.curFileNum.toNat ∨ n = s.writeCursor.curFileNum ∧
      m ≤ s.writeCursor.curOffset.toNat) : m ≤ f.synced := by
  obtain hlt | ⟨rfl, hle⟩ := hb
  · rwa [h.earlier n f (lt_iff_toNat_lt.2 hlt) hf]
  · obtain hz | ⟨f', hf', hs⟩ := h.reached
    · rw [hz] at hle
      exact (Nat.le_zero.1 hle).le.trans (Nat.zero_le _)
    · cases hf.symm.trans hf'
      exact hle.trans hs

/-- **What a flush persists is on disk.** -/
theorem Level.flush (h : Level cfg stored s.files false pos view) (hfl : s.Flushed)
    (hp : pos ≤ s.writeCursor) : Level cfg stored s.files true pos view := by
  rw [WriteCursor.le_def] at hp
  refine ⟨h.cursor, ?_, fun hash row hr => ?_⟩
  · obtain hz | ⟨f, hf, hle⟩ := h.reached
    · exact .inl hz
    · refine .inr ⟨f, hf, hfl.le_synced hf hle ?_⟩
      rw [← UInt32.toNat_inj]
      exact hp
  · obtain ⟨bytes, loc, hs, rfl, hl⟩ := h.indexed hash row hr
    obtain ⟨f, hf, hh, hle⟩ := hl.holds
    have hb := hl.before
    refine ⟨bytes, loc, hs, rfl, hl.before, hl.blockLen_eq, f, hf, hh, ?_⟩
    refine hfl.le_synced hf hle ?_
    rw [lt_iff_toNat_lt, ← UInt32.toNat_inj] at hb
    rw [← UInt32.toNat_inj]
    omega

theorem writeCursor_syncBlocks (s : BlockStore) : s.syncBlocks.writeCursor = s.writeCursor := by
  rw [syncBlocks]
  split_ifs <;> rfl

theorem curFile_syncBlocks (s : BlockStore) : s.syncBlocks.curFile = s.curFile := by
  rw [syncBlocks]
  split_ifs <;> rfl

theorem keeps_syncBlocks : Keeps durable pos s.files s.syncBlocks.files := by
  rw [syncBlocks]
  split_ifs
  · exact @keeps_apply durable pos s.files (.sync s.writeCursor.curFileNum) trivial
  · exact .refl s.files

theorem BlockStore.Open.syncBlocks (h : s.Open) : s.syncBlocks.Open := by
  refine ⟨?_, fun hc => ?_⟩
  · rw [writeCursor_syncBlocks]
    exact h.reached.keep keeps_syncBlocks
  · rw [curFile_syncBlocks] at hc
    rw [BlockStore.syncBlocks, if_pos hc]
    simp only [FileOp.apply, update_self, isSome_map]
    exact h.opened hc

/-- **After a sync everything before the cursor is on disk**, if the earlier files are. -/
theorem BlockStore.Open.flushed (h : s.Open)
    (hi : s.curFile = false → Reached true s.files s.writeCursor) (he : s.EarlierSynced) :
    s.syncBlocks.Flushed := by
  refine ⟨fun n f hn hf => ?_, ?_⟩
  · rw [writeCursor_syncBlocks] at hn
    have hne : n ≠ s.writeCursor.curFileNum := fun heq => UInt32.lt_irrefl _ (heq ▸ hn)
    rw [BlockStore.syncBlocks] at hf
    split_ifs at hf
    · simp only [FileOp.apply, update_of_ne hne] at hf
      exact he n f hn hf
    · exact he n f hn hf
  · rw [BlockStore.syncBlocks]
    split_ifs with hc
    · obtain ⟨f, hf⟩ := isSome_iff_exists.1 (h.opened hc)
      refine .inr ⟨f.sync, ?_, (h.ready hf).2⟩
      simp [FileOp.apply, hf]
    · exact hi (Bool.not_eq_true _ ▸ hc)

/-! ### Restarts -/

theorem FilesSurvive.keeps (h : FilesSurvive files files') : Keeps true pos files files' := by
  intro n f _ hf hk
  have hle : keptOf true pos n f ≤ f.synced := keptOf_le_extent
  cases hf' : files' n with
  | none =>
    have hz := h.lost n f hf hf'
    omega
  | some f' =>
    obtain ⟨f₀, hf₀, hs⟩ := h.left n f' hf'
    cases hf.symm.trans hf₀
    refine ⟨f', rfl, ?_, hle.trans hs.synced_le⟩
    have hc := congrArg (List.take (keptOf true pos n f)) hs.take_eq
    rwa [take_take, take_take, Nat.min_eq_left hle] at hc

theorem after_rollbackOps : ∀ op ∈ s.rollbackOps pos, op.After pos := by
  have hnr : ∀ n ∈ s.newerFiles pos, pos.curFileNum < n := by
    intro n hn
    obtain ⟨i, hi, rfl⟩ := List.mem_map.1 hn
    have hlt := mem_range.1 hi
    have := s.writeCursor.curFileNum.toNat_lt
    have hi' : (UInt32.ofNat i).toNat = i := by
      rw [toNat_ofNat']
      omega
    have hle : UInt32.ofNat i ≤ s.writeCursor.curFileNum := le_iff_toNat_le.2 (by omega)
    rw [lt_iff_toNat_lt, UInt32.toNat_sub_of_le _ _ hle]
    omega
  intro op hop
  rw [rollbackOps] at hop
  split_ifs at hop
  · rcases mem_append.1 hop with hd | hl
    · obtain ⟨n, hn, rfl⟩ := List.mem_map.1 hd
      exact hnr n hn
    · simp only [mem_cons, not_mem_nil, or_false] at hl
      obtain rfl | rfl | rfl := hl
      · exact trivial
      · exact WriteCursor.le_refl pos
      · exact trivial
  · obtain ⟨n, hn, rfl⟩ := List.mem_map.1 hop
    exact hnr n ((takeWhile_sublist _).subset hn)

variable {ldb : Bucket MetaKey (List UInt8)}

/-- What is on disk before the cursor in leveldb is kept by a crash, and by the crashes in the
rollback after it. -/
theorem CrashLeaves.keeps (h : CrashLeaves cfg ldb files files')
    (hp : persistedCursor cfg ldb = .ok pos) : Keeps true pos files files' := by
  induction h with
  | stop hs => exact hs.keeps
  | @again files₁ files₂ i _ hs ih =>
    have ha : ∀ op ∈ (recoveryOps cfg ldb files₁).take i, op.After pos := by
      intro op hop
      have hop := mem_of_mem_take hop
      rw [recoveryOps, hp] at hop
      cases hst : newBlockStore files₁ with
      | none =>
        rw [hst] at hop
        cases hop
      | some store =>
        rw [hst] at hop
        simp only at hop
        split_ifs at hop
        · exact after_rollbackOps op hop
        · cases hop
    exact (ih.trans (keeps_foldl ha)).trans hs.keeps

end Levels

/-! ### The invariant -/

namespace BlockDb

variable {cfg : BlockStoreConfig} {stored : Hash → Option (List UInt8)} {db db' : BlockDb}
  {pos : WriteCursor} {files : BlockFiles}

/-- What holds between the steps. -/
structure Inv (cfg : BlockStoreConfig) (stored : Hash → Option (List UInt8)) (db : BlockDb) :
    Prop where
  persisted : ∃ pos, pos ≤ db.store.writeCursor ∧
    Level cfg stored db.store.files true pos db.cache.ldb.get
  committed : ∃ pos, pos ≤ db.store.writeCursor ∧
    Level cfg stored db.store.files false pos db.cache.contents
  pending : IndexedBefore cfg stored db.store.files false db.store.writeCursor db.view
  opened : db.store.Open
  idle : db.store.curFile = false → Reached true db.store.files db.store.writeCursor
  persisted_sub : ∀ hash, db.cache.contents (blockKey hash) = none →
    db.cache.ldb.get (blockKey hash) = none
  committed_sub : ∀ hash, db.view (blockKey hash) = none →
    db.cache.contents (blockKey hash) = none

/-- The steps that keep the blocks: whenever keys go to leveldb, no earlier file has bytes that are
not synced. -/
def Safe (cfg : BlockStoreConfig) (db : BlockDb) : BlockDbEvent → Prop
  | .writePending _ bytes => bytes.length + 12 < 2 ^ 32 ∧
      (db.store.RollsOver cfg (UInt32.ofNat bytes.length + 12) →
        db.store.writeCursor.curFileNum.toNat + 1 < 2 ^ 32)
  | .commitPending needsFlush => needsFlush = true → db.store.EarlierSynced
  | .flush => db.store.EarlierSynced
  | .restart _ => True

theorem inv_create (cfg : BlockStoreConfig) : (create cfg).Inv cfg fun _ => none := by
  have hg : ∀ hash, (create cfg).cache.ldb.get (blockKey hash) = none := by
    intro hash
    rfl
  have hl : ∀ durable, Level cfg (fun _ => none) (create cfg).store.files durable ⟨0, 0⟩
      (create cfg).cache.ldb.get := by
    intro durable
    refine ⟨?_, .inl rfl, fun hash row hr => ?_⟩
    · rw [create, Bucket.get_put, if_pos rfl]
    · rw [hg] at hr
      cases hr
  exact ⟨⟨⟨0, 0⟩, WriteCursor.le_refl _, hl true⟩, ⟨⟨0, 0⟩, WriteCursor.le_refl _, hl false⟩,
    (hl false).indexed, ⟨.inl rfl, fun hf => by cases hf⟩, fun _ => .inl rfl,
    fun hash _ => hg hash, fun hash _ => hg hash⟩

/-- **A block is written.** -/
theorem Inv.writePending (h : db.Inv cfg stored) {hash : Hash} {bytes : List UInt8}
    (hnw : db.hasBlock hash = false) (hs : db.Safe cfg (.writePending hash bytes)) :
    (db.writePending cfg hash bytes).Inv cfg (update stored hash (some bytes)) := by
  have hw := h.opened.writes_writeBlock hs.1 hs.2
  have hv : db.view (blockKey hash) = none := not_isSome_iff_eq_none.1 (by
    rw [Bool.not_eq_true]
    exact hnw)
  have hco := h.committed_sub hash hv
  obtain ⟨p, hp, hpe⟩ := h.persisted
  obtain ⟨c, hc, hcd⟩ := h.committed
  have hpu : ∀ hash', (db.writePending cfg hash bytes).view (blockKey hash') =
      if hash' = hash then some (serializeBlockLoc (db.store.writeBlock cfg bytes).1)
      else db.view (blockKey hash') := by
    intro hash'
    rw [view, BlockDb.writePending, read_put]
    simp only [blockKey_inj]
    rfl
  refine ⟨⟨p, WriteCursor.le_trans hp hw.le, ?_⟩, ⟨c, WriteCursor.le_trans hc hw.le, ?_⟩,
    fun hash' row hr => ?_, ⟨hw.reached, fun _ => hw.opened⟩, fun hf => ?_,
    h.persisted_sub, fun hash' hn => ?_⟩
  · exact (hpe.keep ((hw.keeps true).of_le hp)).store (h.persisted_sub hash hco) bytes
  · exact (hcd.keep ((hw.keeps false).of_le hc)).store hco bytes
  · rw [hpu] at hr
    split_ifs at hr with heq
    · subst heq
      exact ⟨bytes, _, update_self .., (some.inj hr).symm, hw.located⟩
    · exact ((h.pending.keep (hw.keeps false)).mono hw.le).store hv bytes hash' row hr
  · cases hw.curFile.symm.trans hf
  · rw [hpu] at hn
    split_ifs at hn
    exact h.committed_sub hash' hn

theorem level_commit (h : db.Inv cfg stored) :
    Level cfg stored db.store.files false db.store.writeCursor
      ((db.pending.put ⊥ (serializeWriteRow cfg db.store.writeCursor)).read db.cache.contents) := by
  refine ⟨?_, h.opened.reached, fun hash row hr => ?_⟩
  · rw [read_put, if_pos rfl]
  · rw [read_put] at hr
    exact h.pending hash row hr

theorem inv_of_level (hpe : db.pending = .empty) (hp : ∃ pos, pos ≤ db.store.writeCursor ∧
      Level cfg stored db.store.files true pos db.cache.ldb.get)
    (hl : Level cfg stored db.store.files false db.store.writeCursor db.cache.contents)
    (ho : db.store.Open)
    (hi : db.store.curFile = false → Reached true db.store.files db.store.writeCursor)
    (hs : ∀ hash, db.cache.contents (blockKey hash) = none →
      db.cache.ldb.get (blockKey hash) = none) : db.Inv cfg stored := by
  have hv : db.view = db.cache.contents := by
    rw [view, hpe, read_empty]
  refine ⟨hp, ⟨_, WriteCursor.le_refl _, hl⟩, ?_, ho, hi, hs, fun hash hn => ?_⟩
  · rw [hv]
    exact hl.indexed
  · rwa [hv] at hn

/-- **A transaction is committed.** -/
theorem Inv.commitPending (h : db.Inv cfg stored) {needsFlush : Bool}
    (hs : db.Safe cfg (.commitPending needsFlush)) :
    (db.commitPending cfg needsFlush).Inv cfg stored := by
  have hl := level_commit h
  have hc : (db.commitPending cfg needsFlush).cache.contents =
      (db.pending.put ⊥ (serializeWriteRow cfg db.store.writeCursor)).read db.cache.contents :=
    contents_commitTx ..
  rw [← hc] at hl
  cases needsFlush with
  | true =>
    have hf := h.opened.flushed h.idle (hs rfl)
    have hld : (db.commitPending cfg true).cache.ldb.get =
        (db.commitPending cfg true).cache.contents := by
      rw [hc]
      exact get_ldb_commitTx ..
    have hl' : Level cfg stored db.store.syncBlocks.files false db.store.syncBlocks.writeCursor
        (db.commitPending cfg true).cache.contents := by
      rw [writeCursor_syncBlocks]
      exact hl.keep keeps_syncBlocks
    refine inv_of_level rfl ⟨_, WriteCursor.le_refl _, ?_⟩ hl' h.opened.syncBlocks
      (fun _ => hf.reached) fun hash hn => ?_
    · rw [hld]
      exact hl'.flush hf (WriteCursor.le_refl _)
    · rwa [hld]
  | false =>
    refine inv_of_level rfl h.persisted hl h.opened h.idle fun hash hn => ?_
    rw [hc, read_put] at hn
    exact h.persisted_sub hash (h.committed_sub hash hn)

/-- **The cache is flushed.** -/
theorem Inv.flush (h : db.Inv cfg stored) (hs : db.Safe cfg .flush) : db.flush.Inv cfg stored := by
  have hf := h.opened.flushed h.idle hs
  obtain ⟨c, hc, hco⟩ := h.committed
  have hl : Level cfg stored db.flush.store.files false c db.flush.cache.contents := by
    rw [BlockDb.flush, contents_flush]
    exact hco.keep keeps_syncBlocks
  have hcu : db.flush.store.writeCursor = db.store.writeCursor := writeCursor_syncBlocks db.store
  refine ⟨⟨c, hcu ▸ hc, ?_⟩, ⟨c, hcu ▸ hc, hl⟩, ?_, h.opened.syncBlocks,
    fun _ => hf.reached, fun hash hn => ?_, fun hash hn => ?_⟩
  · have hld : db.flush.cache.ldb.get = db.flush.cache.contents := by
      rw [BlockDb.flush, contents_flush, get_ldb_flush]
    rw [hld]
    exact hl.flush hf (hcu ▸ hc)
  · rw [view, hcu, BlockDb.flush, contents_flush]
    exact h.pending.keep keeps_syncBlocks
  · rw [BlockDb.flush, contents_flush] at hn
    rw [BlockDb.flush, get_ldb_flush]
    exact hn
  · rw [view, BlockDb.flush, contents_flush] at hn
    rw [BlockDb.flush, contents_flush]
    exact h.committed_sub hash hn

theorem open_handleRollback {s : BlockStore} (hc : s.curFile = false)
    (ho : (s.handleRollback pos).curFile = true) :
    ((s.handleRollback pos).files (s.handleRollback pos).writeCursor.curFileNum).isSome := by
  rw [handleRollback] at ho ⊢
  split_ifs at ho ⊢
  · rw [hc] at ho
    cases ho
  have ha : ((s.newerFiles pos).all fun n => (s.files n).isSome) = true := ho
  simp only [rollbackOps, if_pos ha, foldl_append, foldl_cons,
    foldl_nil, FileOp.apply, update_self, isSome_map]
  split_ifs with hs
  · exact hs
  · rw [update_self]
    rfl

theorem writeCursor_handleRollback (s : BlockStore) (pos : WriteCursor) :
    (s.handleRollback pos).writeCursor = pos := by
  rw [handleRollback]
  split_ifs with heq
  · cases pos
    exact congrArg₂ WriteCursor.mk heq.1 heq.2
  · rfl

theorem keeps_handleRollback (s : BlockStore) (pos : WriteCursor) (durable : Bool) :
    Keeps durable pos s.files (s.handleRollback pos).files := by
  rw [handleRollback]
  split_ifs
  · exact .refl s.files
  · exact keeps_foldl after_rollbackOps

theorem WriteCursor.eq_of_not_lt {pos' : WriteCursor} (h : ¬ pos < pos') (h' : ¬ pos' < pos) :
    pos' = pos := by
  obtain ⟨n, off⟩ := pos
  obtain ⟨n', off'⟩ := pos'
  have hne : ¬ (n < n' ∨ n = n' ∧ off < off') := h
  have hne' : ¬ (n' < n ∨ n' = n ∧ off' < off) := h'
  simp only [lt_iff_toNat_lt, ← UInt32.toNat_inj] at hne hne'
  rw [UInt32.toNat_inj.1 (show n'.toNat = n.toNat by omega),
    UInt32.toNat_inj.1 (show off'.toNat = off.toNat by omega)]

/-- **The database is opened**: the cursor is the one in leveldb, and what is on disk before it is
kept. -/
theorem of_openDB {ldb : Bucket MetaKey (List UInt8)} (ho : openDB cfg ldb files = .ok db')
    (hp : persistedCursor cfg ldb = .ok pos) :
    db'.store.writeCursor = pos ∧ db'.cache = ⟨ldb, .empty⟩ ∧ db'.pending = .empty ∧
      Keeps true pos files db'.store.files ∧
      (db'.store.curFile = true → (db'.store.files db'.store.writeCursor.curFileNum).isSome) := by
  rw [openDB, newBlockStore] at ho
  cases hs : scanBlockFiles files with
  | none =>
    rw [hs] at ho
    cases ho
  | some writeCursor =>
    rw [hs, map_some] at ho
    simp only [reconcileDB, hp] at ho
    by_cases hlt : pos < writeCursor
    · rw [if_pos hlt] at ho
      split_ifs at ho
      cases ho
      exact ⟨writeCursor_handleRollback _ pos, rfl, rfl,
        keeps_handleRollback ⟨files, writeCursor, false⟩ pos true,
        open_handleRollback rfl⟩
    · rw [if_neg hlt] at ho
      split_ifs at ho with hb
      cases ho
      refine ⟨WriteCursor.eq_of_not_lt hlt hb, rfl, rfl, .refl files, fun hf => ?_⟩
      cases hf

/-- **The database is restarted.** -/
theorem Inv.restart (h : db.Inv cfg stored)
    (hcr : CrashLeaves cfg db.cache.ldb db.store.files files)
    (hop : openDB cfg db.cache.ldb files = .ok db') : db'.Inv cfg stored := by
  obtain ⟨pos, -, hl⟩ := h.persisted
  have hpo : persistedCursor cfg db.cache.ldb = .ok pos := by
    rw [persistedCursor, hl.cursor]
    exact deserializeWriteRow_serialize cfg pos
  obtain ⟨rfl, hca, hp, hk, ho⟩ := of_openDB hop hpo
  have hd : Level cfg stored db'.store.files true db'.store.writeCursor db'.cache.ldb.get := by
    rw [hca]
    exact hl.keep ((hcr.keeps hpo).trans hk)
  have hc : db'.cache.contents = db'.cache.ldb.get := by
    rw [hca]
    exact read_empty
  refine inv_of_level hp ⟨_, WriteCursor.le_refl _, hd⟩ ?_
    ⟨hd.reached.of_durable, ho⟩ (fun _ => hd.reached) fun hash hn => ?_
  · rw [hc]
    exact hd.of_durable
  · rwa [hc] at hn

end BlockDb

/-! ### The theorem -/

open Runs in
theorem BlockDb.inv_of_run {cfg : BlockStoreConfig} {events : List BlockDbEvent} {db : BlockDb}
    (hr : Run (step cfg) (fun db event => db.Possible cfg event ∧ db.Safe cfg event)
      (create cfg) events db) : db.Inv cfg (lastStored events) := by
  induction hr with
  | nil => exact inv_create cfg
  | @snoc events db db' event _ hok hs ih =>
    rw [lastStored, foldl_append]
    cases event with
    | writePending hash bytes =>
      cases hs
      exact ih.writePending hok.1 hok.2
    | commitPending needsFlush =>
      cases hs
      exact ih.commitPending hok.2
    | flush =>
      cases hs
      exact ih.flush hok.2
    | restart files => exact ih.restart hok.1 hs

open Runs in
/-- **Blocks survive crashes**, after every run of safe steps. -/
theorem blocks_durable {cfg : BlockStoreConfig} {events : List BlockDbEvent} {db : BlockDb}
    (hrun : Run (BlockDb.step cfg) (fun db event => db.Possible cfg event ∧ db.Safe cfg event)
      (BlockDb.create cfg) events db) {hash : Hash} {row : List UInt8}
    (hrow : db.cache.ldb.get (blockKey hash) = some row) :
    ∃ bytes loc, lastStored events hash = some bytes ∧ deserializeBlockLoc row = some loc ∧
      db.store.readBlock cfg loc = .ok bytes := by
  obtain ⟨pos, -, hll⟩ := (BlockDb.inv_of_run hrun).persisted
  obtain ⟨bytes, loc, hs, rfl, hl⟩ := hll.indexed hash row hrow
  exact ⟨bytes, loc, hs, deserializeBlockLoc_serialize loc, hl.readBlock_eq⟩

/-- A store whose files hold one record each. -/
def smallFiles : BlockStoreConfig where
  network := 7
  maxBlockFileSize := 20
  checksum data := UInt32.ofNat (data.foldl (fun n b => 31 * n + b.toNat) 0)

/-- Two blocks have been committed, each into a file, and a third one has been written into a third
file. -/
def threeFiles : BlockDb :=
  (((BlockDb.create smallFiles).writePendingAndCommit smallFiles [(1, [1])] true
    ).writePendingAndCommit smallFiles [(2, [2])] true).writePending smallFiles 3 [3]

open Runs BlockDb in
theorem blocks_durable_threeFiles : ∃ db row, Run (BlockDb.step smallFiles)
      (fun db event => db.Possible smallFiles event ∧ db.Safe smallFiles event) (create smallFiles)
      [.writePending 1 [1], .commitPending true, .writePending 2 [2], .commitPending true,
        .writePending 3 [3],
        .restart (update threeFiles.store.files 2 (some .empty))] db ∧
      db.cache.ldb.get (blockKey 1) = some row ∧
      ∃ bytes loc, lastStored
          [.writePending 1 [1], .commitPending true, .writePending 2 [2], .commitPending true,
            .writePending 3 [3],
            .restart (update threeFiles.store.files 2 (some .empty))] 1 = some bytes ∧
        deserializeBlockLoc row = some loc ∧ db.store.readBlock smallFiles loc = .ok bytes := by
  have hfi : ((threeFiles.store.files 2).any fun f => decide (f.synced = 0)) = true := by
    decide +kernel
  obtain ⟨f, hf, hsy⟩ := (Option.any_eq_true ..).1 hfi
  have hs := FilesSurvive.cut hf (survives_empty (of_decide_eq_true hsy))
  have ho : ((openDB smallFiles threeFiles.cache.ldb
      (update threeFiles.store.files 2 (some .empty))).toOption.any fun db =>
        (db.cache.ldb.get (blockKey 1)).isSome) = true := by
    decide +kernel
  obtain ⟨db, hdb, hso⟩ := (Option.any_eq_true ..).1 ho
  obtain ⟨row, hr⟩ := isSome_iff_exists.1 hso
  refine ⟨db, row, ?run, hr, blocks_durable ?run hr⟩
  refine .cons ⟨possible_writePending ?_, ?_, fun _ => ?_⟩ rfl (.cons ⟨trivial, fun _ => ?_⟩ rfl
    (.cons ⟨possible_writePending ?_, ?_, fun _ => ?_⟩ rfl
    (.cons ⟨trivial, fun _ => ?_⟩ rfl
    (.cons ⟨possible_writePending ?_, ?_, fun _ => ?_⟩ rfl
    (.cons ⟨.stop hs, trivial⟩ (Checked.toOption_eq_some.1 hdb) .nil)))))
  all_goals decide +kernel

/-- Two blocks have been committed in one transaction, in two files. -/
def twoFiles : BlockDb :=
  (BlockDb.create smallFiles).writePendingAndCommit smallFiles [(1, [1]), (2, [2])] true

open Runs BlockDb in
/-- **A block is lost**: the first file is closed before it is synced. -/
theorem blocks_lost : ∃ db row loc,
    Run (step smallFiles) (fun db event => db.Possible smallFiles event) (create smallFiles)
      [.writePending 1 [1], .writePending 2 [2], .commitPending true,
        .restart (update twoFiles.store.files 0 (some .empty))] db ∧
      db.cache.ldb.get (blockKey 1) = some row ∧ deserializeBlockLoc row = some loc ∧
      db.store.readBlock smallFiles loc = .error .readAt := by
  have hfi : ((twoFiles.store.files 0).any fun f => decide (f.synced = 0)) = true := by
    decide +kernel
  obtain ⟨f, hf, hsy⟩ := (Option.any_eq_true ..).1 hfi
  have hs := FilesSurvive.cut hf (survives_empty (of_decide_eq_true hsy))
  have ho : ((openDB smallFiles twoFiles.cache.ldb
      (update twoFiles.store.files 0 (some .empty))).toOption.any fun db =>
        (db.cache.ldb.get (blockKey 1)).any fun row => (deserializeBlockLoc row).any fun loc =>
          decide (db.store.readBlock smallFiles loc = .error .readAt)) = true := by
    decide +kernel
  obtain ⟨db, hdb, hr⟩ := (Option.any_eq_true ..).1 ho
  obtain ⟨row, hro, hr⟩ := (Option.any_eq_true ..).1 hr
  obtain ⟨loc, hl, hr⟩ := (Option.any_eq_true ..).1 hr
  refine ⟨db, row, loc, ?_, hro, hl, of_decide_eq_true hr⟩
  refine .cons (possible_writePending ?_) rfl (.cons (possible_writePending ?_) rfl
    (.cons trivial rfl (.cons (.stop hs) (Checked.toOption_eq_some.1 hdb) .nil)))
  all_goals decide +kernel

end DrcNode
