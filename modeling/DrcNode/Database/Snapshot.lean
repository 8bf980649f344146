import DrcNode.Database.Cache

/-!
# Snapshots while a transaction is committed

Read-only transactions begin without the write lock. A snapshot is taken in two steps: leveldb is
asked for one of its own, and then the cached keys are read under the cache lock. A flush writes the
cached keys to leveldb and clears them afterwards. A reader that looks at leveldb before the first
and at the cache after the second finds the cached keys in neither.

## Main results

* `snapshot_atomic_iff`.

Source: `Snapshot`, `flush` and `commitTx` in `database/ffldb/dbcache.go`. A step is a call of
leveldb or a part under the cache lock; the loops between them work on the variables of the writer.
-/

namespace DrcNode

open Function Layer

variable {κ ν : Type} [LinearOrder κ]

/-! ### The steps of a commit -/

/-- How far the writer is in `commitTx`, with its variables. -/
inductive CommitPoint (κ ν : Type) [LinearOrder κ]
  | readCache
  | writeCache (cached : Layer κ ν)
  | clearCache
  | writeTx
  | swapCache (cached : Layer κ ν)
  | done

/-- One step of `commitTx`. -/
def CommitPoint.step (needsFlush : Bool) (pending : Layer κ ν) :
    DbCache κ ν × CommitPoint κ ν → DbCache κ ν × CommitPoint κ ν
  | (cache, .readCache) =>
      if needsFlush then
        if cache.cached.keys.entries = [] ∧ cache.cached.removed.entries = [] then (cache, .writeTx)
        else (cache, .writeCache cache.cached)
      else (cache, .swapCache (pending.mergeInto cache.cached))
  | (cache, .writeCache cached) => ({ cache with ldb := cached.writeTo cache.ldb }, .clearCache)
  | (cache, .clearCache) => ({ cache with cached := .empty }, .writeTx)
  | (cache, .writeTx) => ({ cache with ldb := pending.writeTo cache.ldb }, .done)
  | (cache, .swapCache cached) => ({ cache with cached }, .done)
  | (cache, .done) => (cache, .done)

section Commit

variable {cache : DbCache κ ν} {needsFlush : Bool} {pending : Layer κ ν}

/-- The cache and the writer after the given number of steps. -/
def commitAfter (cache : DbCache κ ν) (needsFlush : Bool) (pending : Layer κ ν) (n : Nat) :
    DbCache κ ν × CommitPoint κ ν :=
  (CommitPoint.step needsFlush pending)^[n] (cache, .readCache)

theorem iterate_done (n : Nat) :
    (CommitPoint.step needsFlush pending)^[n] (cache, .done) = (cache, .done) :=
  iterate_fixed rfl n

theorem commitAfter_cache (n : Nat) : (commitAfter cache false pending n).1 = {
      ldb := cache.ldb
      cached := if n < 2 then cache.cached else pending.mergeInto cache.cached } := by
  match n with
  | 0 => rfl
  | 1 => rfl
  | n + 2 =>
    exact congrArg Prod.fst (iterate_done n)

theorem commitAfter_flush_nil
    (he : cache.cached.keys.entries = [] ∧ cache.cached.removed.entries = []) (n : Nat) :
    (commitAfter cache true pending n).1 =
      { ldb := if n < 2 then cache.ldb else pending.writeTo cache.ldb
        cached := cache.cached } := by
  have hr : CommitPoint.step true pending (cache, .readCache) = (cache, .writeTx) := if_pos he
  match n with
  | 0 => rfl
  | n + 1 =>
    rw [commitAfter, iterate_succ_apply, hr]
    match n with
    | 0 => rfl
    | n + 1 =>
      exact congrArg Prod.fst (iterate_done n)

/-- The four steps of a commit with a flush. -/
theorem commitAfter_flush
    (hne : ¬(cache.cached.keys.entries = [] ∧ cache.cached.removed.entries = [])) (n : Nat) :
    (commitAfter cache true pending n).1 =
      { ldb := if n < 2 then cache.ldb else if n < 4 then cache.cached.writeTo cache.ldb
          else pending.writeTo (cache.cached.writeTo cache.ldb)
        cached := if n < 3 then cache.cached else .empty } := by
  have hr : CommitPoint.step true pending (cache, .readCache) =
      (cache, .writeCache cache.cached) := if_neg hne
  match n with
  | 0 => rfl
  | n + 1 =>
    rw [commitAfter, iterate_succ_apply, hr]
    match n with
    | 0 => rfl
    | 1 => rfl
    | 2 => rfl
    | n + 3 =>
      exact congrArg Prod.fst (iterate_done n)

end Commit

/-! ### A reader and a writer -/

/-- How far a reader is in `Snapshot`. -/
inductive SnapshotPoint (κ ν : Type) [LinearOrder κ]
  | start
  | opened (dbSnapshot : Bucket κ ν)
  | done (snapshot : DbCacheSnapshot κ ν)

/-- One step of `Snapshot`. -/
def SnapshotPoint.step (cache : DbCache κ ν) : SnapshotPoint κ ν → SnapshotPoint κ ν
  | .start => .opened cache.ldb
  | .opened dbSnapshot => .done ⟨dbSnapshot, cache.cached⟩
  | .done snapshot => .done snapshot

/-- Whose turn it is. -/
inductive Actor
  | reader
  | writer
  deriving DecidableEq, Repr

/-- A reader and a writer on one cache. -/
structure Interleaved (κ ν : Type) [LinearOrder κ] where
  shared : DbCache κ ν × CommitPoint κ ν
  reader : SnapshotPoint κ ν

namespace Interleaved

/-- One turn. -/
def step (needsFlush : Bool) (pending : Layer κ ν) (state : Interleaved κ ν) :
    Actor → Interleaved κ ν
  | .reader => { state with reader := state.reader.step state.shared.1 }
  | .writer => { state with shared := CommitPoint.step needsFlush pending state.shared }

/-- The turns of a schedule. -/
def run (needsFlush : Bool) (pending : Layer κ ν) (schedule : List Actor)
    (state : Interleaved κ ν) : Interleaved κ ν :=
  schedule.foldl (step needsFlush pending) state

end Interleaved

/-- A reader begins a snapshot and a writer a commit. -/
def takeSnapshot (cache : DbCache κ ν) (needsFlush : Bool) (pending : Layer κ ν)
    (schedule : List Actor) : SnapshotPoint κ ν :=
  (Interleaved.run needsFlush pending schedule ⟨(cache, .readCache), .start⟩).reader

/-- The turns of the writer before the next turn of the reader. -/
def writerTurns : List Actor → Nat
  | [] => 0
  | .writer :: schedule => writerTurns schedule + 1
  | .reader :: _ => 0

/-- The schedule after the next turn of the reader. -/
def afterReader : List Actor → List Actor
  | [] => []
  | .writer :: schedule => afterReader schedule
  | .reader :: schedule => schedule

section Reader

variable {needsFlush : Bool} {pending : Layer κ ν} {snapshot : DbCacheSnapshot κ ν}
  {schedule : List Actor} {shared : DbCache κ ν × CommitPoint κ ν}

theorem done_of_run (schedule : List Actor) (shared : DbCache κ ν × CommitPoint κ ν) :
    (Interleaved.run needsFlush pending schedule ⟨shared, .done snapshot⟩).reader =
      .done snapshot := by
  induction schedule generalizing shared with
  | nil => rfl
  | cons actor schedule ih =>
    cases actor with
    | reader => exact ih shared
    | writer => exact ih _

theorem opened_of_run {dbSnapshot : Bucket κ ν}
    (h : (Interleaved.run needsFlush pending schedule ⟨shared, .opened dbSnapshot⟩).reader =
      .done snapshot) :
    snapshot = ⟨dbSnapshot,
      ((CommitPoint.step needsFlush pending)^[writerTurns schedule] shared).1.cached⟩ := by
  induction schedule generalizing shared with
  | nil => cases h
  | cons actor schedule ih =>
    cases actor with
    | reader =>
      have hd := (done_of_run schedule shared).symm.trans h
      cases hd
      rfl
    | writer =>
      exact ih h

theorem start_of_run
    (h : (Interleaved.run needsFlush pending schedule ⟨shared, .start⟩).reader = .done snapshot) :
    snapshot = ⟨((CommitPoint.step needsFlush pending)^[writerTurns schedule] shared).1.ldb,
      ((CommitPoint.step needsFlush pending)^[writerTurns schedule +
        writerTurns (afterReader schedule)] shared).1.cached⟩ := by
  induction schedule generalizing shared with
  | nil => cases h
  | cons actor schedule ih =>
    cases actor with
    | reader =>
      rw [writerTurns, Nat.zero_add]
      exact opened_of_run h
    | writer =>
      rw [writerTurns, afterReader, Nat.add_right_comm]
      exact ih h

/-- **What a reader gets**: leveldb as it is at its first turn, and the cache as it is at its
second. -/
theorem snapshot_eq {cache : DbCache κ ν}
    (h : takeSnapshot cache needsFlush pending schedule = .done snapshot) :
    snapshot = ⟨(commitAfter cache needsFlush pending (writerTurns schedule)).1.ldb,
      (commitAfter cache needsFlush pending
        (writerTurns schedule + writerTurns (afterReader schedule))).1.cached⟩ :=
  start_of_run h

end Reader

/-! ### Which snapshots are atomic -/

/-- The reader looks at leveldb before the cached keys are written to it, and at the cache after
they have been cleared. -/
def FlushBetween (schedule : List Actor) : Prop :=
  writerTurns schedule < 2 ∧ 3 ≤ writerTurns schedule + writerTurns (afterReader schedule)

section Atomic

variable {cache : DbCache κ ν} {pending : Layer κ ν} {i j : Nat}

/-- What is read through a snapshot whose two steps are made after `i` and after `j` steps of a
commit with a flush. -/
theorem read_flush_cases
    (hne : ¬(cache.cached.keys.entries = [] ∧ cache.cached.removed.entries = [])) (hij : i ≤ j) :
    (i < 2 ∧ 3 ≤ j ∧ (commitAfter cache true pending j).1.cached.read
        (commitAfter cache true pending i).1.ldb.get = cache.ldb.get) ∨
      ¬(i < 2 ∧ 3 ≤ j) ∧ ((commitAfter cache true pending j).1.cached.read
          (commitAfter cache true pending i).1.ldb.get = cache.contents ∨
        (commitAfter cache true pending j).1.cached.read
          (commitAfter cache true pending i).1.ldb.get = pending.read cache.contents) := by
  rw [commitAfter_flush hne, commitAfter_flush hne]
  dsimp only
  by_cases hi : i < 2
  · rw [if_pos hi]
    by_cases hj : j < 3
    · rw [if_pos hj]
      exact .inr ⟨by omega, .inl rfl⟩
    · rw [if_neg hj]
      exact .inl ⟨hi, by omega, read_empty⟩
  · refine .inr ⟨by omega, ?_⟩
    rw [if_neg hi]
    by_cases hi' : i < 4
    · -- leveldb has the cached keys, so that it does not matter whether the cache has them too
      rw [if_pos hi', get_writeTo]
      split_ifs
      · exact .inl (read_read _)
      · exact .inl read_empty
    · rw [if_neg hi', if_neg (by omega), get_writeTo, get_writeTo]
      exact .inr read_empty

end Atomic

/-- **Which snapshots are atomic**: all, unless the flush falls between the two steps and leveldb
alone has neither of the contents. -/
theorem snapshot_atomic_iff (cache : DbCache κ ν) (needsFlush : Bool) (pending : Layer κ ν)
    (schedule : List Actor) (snapshot : DbCacheSnapshot κ ν)
    (h : takeSnapshot cache needsFlush pending schedule = .done snapshot) :
    (snapshot.get = cache.contents ∨ snapshot.get = (cache.commitTx needsFlush pending).contents) ↔
    (needsFlush = true → FlushBetween schedule → cache.ldb.get = cache.contents ∨
      cache.ldb.get = (cache.commitTx needsFlush pending).contents) := by
  obtain rfl := snapshot_eq h
  rw [DbCache.contents_commitTx]
  unfold DbCacheSnapshot.get FlushBetween
  cases needsFlush with
  | false =>
    -- leveldb stays as it is, and the cache is replaced in one step
    refine iff_of_true ?_ fun hf => by cases hf
    rw [commitAfter_cache, commitAfter_cache]
    dsimp only
    split_ifs
    · exact .inl rfl
    · exact .inr (read_mergeInto pending cache.cached)
  | true =>
    by_cases he : cache.cached.keys.entries = [] ∧ cache.cached.removed.entries = []
    · have hc : cache.ldb.get = cache.contents :=
        (read_of_nil he.1 he.2).symm
      refine iff_of_true ?_ fun _ _ => .inl hc
      rw [commitAfter_flush_nil he, commitAfter_flush_nil he]
      dsimp only
      rw [read_of_nil he.1 he.2]
      split_ifs
      · exact .inl hc
      · exact .inr (by rw [get_writeTo, hc])
    · rcases @read_flush_cases κ ν _ cache pending (writerTurns schedule)
        (writerTurns schedule + writerTurns (afterReader schedule)) he (by omega) with
        ⟨hi, hj, hr⟩ | ⟨hn, hr⟩
      · rw [hr]
        exact ⟨fun h _ _ => h, fun h => h rfl ⟨hi, hj⟩⟩
      · exact iff_of_true hr fun _ hb => absurd hb hn

section Sample

/-- A cache with one key, over an empty leveldb. -/
def oneKeyCache : DbCache Nat Nat := ⟨.empty, Layer.empty.put 1 10⟩

/-- The reader looks at leveldb, the writer flushes the cache, and the reader looks at the cache. -/
def tornSchedule : List Actor := [.reader, .writer, .writer, .writer, .reader]

/-- A snapshot in which a key of the cache is missing, although it is in the database before the
commit and after it. -/
theorem snapshot_torn : ∃ snapshot,
    takeSnapshot oneKeyCache true (Layer.empty.put 2 20) tornSchedule = .done snapshot ∧
    snapshot.get 1 = none ∧ oneKeyCache.contents 1 = some 10 ∧
    (oneKeyCache.commitTx true (Layer.empty.put 2 20)).contents 1 = some 10 :=
  ⟨_, rfl, by decide, by decide, by decide⟩

/-- The reader takes both steps before the flush. -/
theorem snapshot_atomic_early : ∃ snapshot,
    takeSnapshot oneKeyCache true (Layer.empty.put 2 20) [.reader, .writer, .reader] =
      .done snapshot ∧
    (snapshot.get = oneKeyCache.contents ∨
      snapshot.get = (oneKeyCache.commitTx true (Layer.empty.put 2 20)).contents) :=
  ⟨_, rfl, (snapshot_atomic_iff oneKeyCache true (Layer.empty.put 2 20) [.reader, .writer, .reader]
    _ rfl).2 fun _ hb => absurd hb.2 (by decide)⟩

end Sample

end DrcNode
