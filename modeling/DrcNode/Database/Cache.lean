import Mathlib.Data.Finmap
import DrcNode.Library.Layer

/-!
# Transactions of the database

The database keeps its keys in leveldb. A transaction reads a snapshot and collects its own writes;
when it is committed, they go into a cache over leveldb, and when the cache is large or old both are
written to leveldb. To its users the database is a map. A transaction sees the map as it was when
the transaction began, with its own writes on top; committing it writes these into the map, rolling
it back does nothing.

## Main results

* `transactions_refine_map`: the two are the same machine.

Source: `database/ffldb/db.go`, `hasKey` to `deleteKey`, `Commit`, `Rollback`, `close` and `begin`;
`database/ffldb/dbcache.go`. The treaps and leveldb are maps; the calls of leveldb do not fail.
Whether the cache has to be flushed is an argument. Blocks, buckets and cursors are left out.
-/

namespace DrcNode

open Finmap Function Layer Option

variable {κ ν : Type} [LinearOrder κ]

/-! ### The cache over leveldb -/

/-- `dbCacheSnapshot`: leveldb as it was, and the cached keys. -/
structure DbCacheSnapshot (κ ν : Type) [LinearOrder κ] where
  dbSnapshot : Bucket κ ν
  pending : Layer κ ν

namespace DbCacheSnapshot

variable (snap : DbCacheSnapshot κ ν)

def get (key : κ) : Option ν := snap.pending.read snap.dbSnapshot.get key

def has (key : κ) : Bool :=
  if (snap.pending.removed.get key).isSome then false
  else if (snap.pending.keys.get key).isSome then true
  else (snap.dbSnapshot.get key).isSome

theorem has_eq (key : κ) : snap.has key = (snap.get key).isSome := by
  rw [has, get, Layer.read]
  split_ifs with hr hk
  · rfl
  · obtain ⟨v, hv⟩ := isSome_iff_exists.1 hk
    rw [hv]
    rfl
  · rw [not_isSome_iff_eq_none.1 hk]

end DbCacheSnapshot

/-- `dbCache`: leveldb, with the cached keys to put and to remove over it. -/
structure DbCache (κ ν : Type) [LinearOrder κ] where
  ldb : Bucket κ ν
  cached : Layer κ ν

namespace DbCache

variable (cache : DbCache κ ν)

def snapshot : DbCacheSnapshot κ ν := ⟨cache.ldb, cache.cached⟩

/-- `(*dbCache).flush`, of the keys. -/
def flush : DbCache κ ν :=
  if cache.cached.keys.entries = [] ∧ cache.cached.removed.entries = [] then cache
  else ⟨cache.cached.writeTo cache.ldb, .empty⟩

/-- `(*dbCache).commitTx`: with a flush the writes go to leveldb, otherwise into the cache. -/
def commitTx (needsFlush : Bool) (pending : Layer κ ν) : DbCache κ ν :=
  if needsFlush then { cache.flush with ldb := pending.writeTo cache.flush.ldb }
  else { cache with cached := pending.mergeInto cache.cached }

/-- What is in the database. -/
def contents : κ → Option ν := cache.cached.read cache.ldb.get

theorem get_ldb_flush : cache.flush.ldb.get = cache.contents := by
  rw [flush, contents]
  split_ifs with he
  · rw [read_of_nil he.1 he.2]
  · rw [get_writeTo]

theorem read_cached_flush (base : κ → Option ν) : cache.flush.cached.read base = base := by
  rw [flush]
  split_ifs with he
  · exact read_of_nil he.1 he.2
  · exact read_empty

/-- **A flush does not change what is in the database.** -/
theorem contents_flush : cache.flush.contents = cache.contents := by
  rw [contents, read_cached_flush, get_ldb_flush]

/-- **A commit puts the writes of the transaction on top of what is in the database**, whether the
cache is flushed or not. -/
theorem contents_commitTx (needsFlush : Bool) (pending : Layer κ ν) :
    (cache.commitTx needsFlush pending).contents = pending.read cache.contents := by
  rw [commitTx]
  split_ifs
  · rw [contents, read_cached_flush, get_writeTo, get_ldb_flush]
  · rw [contents, read_mergeInto, contents]

theorem get_ldb_commitTx (pending : Layer κ ν) :
    (cache.commitTx true pending).ldb.get = pending.read cache.contents := by
  rw [commitTx, if_pos rfl, get_writeTo, get_ldb_flush]

end DbCache

/-! ### Transactions -/

/-- An open `transaction`, with its pending keys. -/
structure Transaction (κ ν : Type) [LinearOrder κ] where
  writable : Bool
  snapshot : DbCacheSnapshot κ ν
  pending : Layer κ ν

namespace Transaction

variable (tx : Transaction κ ν) (key : κ)

def hasKey : Bool :=
  if tx.writable && (tx.pending.removed.get key).isSome then false
  else if tx.writable && (tx.pending.keys.get key).isSome then true
  else tx.snapshot.has key

def fetchKey : Option ν :=
  if tx.writable then tx.pending.read tx.snapshot.get key else tx.snapshot.get key

def putKey (value : ν) : Transaction κ ν :=
  { tx with pending := tx.pending.put key value }

def deleteKey : Transaction κ ν := { tx with pending := tx.pending.delete key }

theorem hasKey_eq : tx.hasKey key = (tx.fetchKey key).isSome := by
  rw [hasKey, fetchKey, DbCacheSnapshot.has_eq]
  cases tx.writable with
  | false => rfl
  | true =>
    rw [Layer.read]
    cases tx.pending.removed.get key with
    | some _ => rfl
    | none => cases tx.pending.keys.get key <;> rfl

end Transaction

/-! ### The database -/

/-- `db`: the cache, whether the write lock is taken, and the open transactions by a name. -/
structure Db (κ ν : Type) [LinearOrder κ] where
  cache : DbCache κ ν
  writeLock : Bool
  transactions : Finmap fun _ : Nat => Transaction κ ν

/-- The calls of the database and of its transactions, and a flush of the cache. -/
inductive DbOp (κ ν : Type)
  | begin (name : Nat) (writable : Bool)
  | put (name : Nat) (key : κ) (value : ν)
  | delete (name : Nat) (key : κ)
  | get (name : Nat) (key : κ)
  | has (name : Nat) (key : κ)
  | commit (name : Nat) (needsFlush : Bool)
  | rollback (name : Nat)
  | flush

/-- What a call returns. -/
inductive DbReply (ν : Type)
  | done
  | value (value : Option ν)
  | found (found : Bool)
  | errTxClosed
  | errTxNotWritable
  deriving DecidableEq, Repr

namespace Db

variable (db : Db κ ν)

def close (name : Nat) (tx : Transaction κ ν) : Db κ ν :=
  { db with
    writeLock := db.writeLock && !tx.writable
    transactions := db.transactions.erase name }

/-- A call that writes a key, which a transaction must be open and writable for. -/
def write (name : Nat) (f : Transaction κ ν → Transaction κ ν) : Db κ ν × DbReply ν :=
  match db.transactions.lookup name with
  | none => (db, .errTxClosed)
  | some tx =>
      if tx.writable then
        ({ db with transactions := db.transactions.insert name (f tx) }, .done)
      else (db, .errTxNotWritable)

def commit (name : Nat) (needsFlush : Bool) : Db κ ν × DbReply ν :=
  match db.transactions.lookup name with
  | none => (db, .errTxClosed)
  | some tx =>
      if tx.writable then
        ({ db with cache := db.cache.commitTx needsFlush tx.pending }.close name tx, .done)
      else (db.close name tx, .errTxNotWritable)

def rollback (name : Nat) : Db κ ν × DbReply ν :=
  match db.transactions.lookup name with
  | none => (db, .errTxClosed)
  | some tx => (db.close name tx, .done)

/-- One call. There is none when a writable transaction has to wait for the write lock. -/
def step : DbOp κ ν → Option (Db κ ν × DbReply ν)
  | .begin name writable =>
      if name ∈ db.transactions ∨ (writable = true ∧ db.writeLock = true) then none
      else
        some ({ db with
          writeLock := db.writeLock || writable
          transactions := db.transactions.insert name
            { writable, snapshot := db.cache.snapshot, pending := .empty } }, .done)
  | .put name key value => some (db.write name fun tx => tx.putKey key value)
  | .delete name key => some (db.write name fun tx => tx.deleteKey key)
  | .get name key =>
      some (db, .value ((db.transactions.lookup name).bind fun tx => tx.fetchKey key))
  | .has name key =>
      some (db, .found ((db.transactions.lookup name).elim false fun tx => tx.hasKey key))
  | .commit name needsFlush => some (db.commit name needsFlush)
  | .rollback name => some (db.rollback name)
  | .flush => some ({ db with cache := db.cache.flush }, .done)

/-- The calls one after the other, with what they return. -/
def run : List (DbOp κ ν) → Db κ ν → Option (Db κ ν × List (DbReply ν))
  | [], db => some (db, [])
  | op :: ops, db =>
      (db.step op).bind fun out => (run ops out.1).map fun rest => (rest.1, out.2 :: rest.2)

end Db

/-! ### The map that a user sees -/

/-- A transaction on a map: the map when it began, and what it has written since. -/
structure MapTx (κ ν : Type) where
  writable : Bool
  base : κ → Option ν
  writes : κ → Option (Option ν)

/-- The map as a transaction sees it: its own writes over the map when it began. -/
def MapTx.view (tx : MapTx κ ν) (key : κ) : Option ν := (tx.writes key).getD (tx.base key)

/-- A map with transactions. -/
structure MapDb (κ ν : Type) where
  committed : κ → Option ν
  writeLock : Bool
  transactions : Nat → Option (MapTx κ ν)

namespace MapDb

variable (db : MapDb κ ν)

def close (name : Nat) (tx : MapTx κ ν) : MapDb κ ν :=
  { db with
    writeLock := db.writeLock && !tx.writable
    transactions := update db.transactions name none }

/-- A transaction writes a key, or removes it. -/
def write (name : Nat) (key : κ) (value : Option ν) : MapDb κ ν × DbReply ν :=
  match db.transactions name with
  | none => (db, .errTxClosed)
  | some tx =>
      if tx.writable then
        ({ db with
          transactions := update db.transactions name
            (some { tx with writes := update tx.writes key (some value) }) }, .done)
      else (db, .errTxNotWritable)

/-- The writes of a transaction become part of the map. -/
def commit (name : Nat) : MapDb κ ν × DbReply ν :=
  match db.transactions name with
  | none => (db, .errTxClosed)
  | some tx =>
      if tx.writable then
        ({ db with committed := fun key => (tx.writes key).getD (db.committed key) }.close name tx,
          .done)
      else (db.close name tx, .errTxNotWritable)

def rollback (name : Nat) : MapDb κ ν × DbReply ν :=
  match db.transactions name with
  | none => (db, .errTxClosed)
  | some tx => (db.close name tx, .done)

/-- One call on the map. A flush does nothing. -/
def step : DbOp κ ν → Option (MapDb κ ν × DbReply ν)
  | .begin name writable =>
      if db.transactions name ≠ none ∨ (writable = true ∧ db.writeLock = true) then none
      else
        some ({ db with
          writeLock := db.writeLock || writable
          transactions := update db.transactions name
            (some { writable, base := db.committed, writes := fun _ => none }) }, .done)
  | .put name key value => some (db.write name key (some value))
  | .delete name key => some (db.write name key none)
  | .get name key => some (db, .value ((db.transactions name).bind fun tx => tx.view key))
  | .has name key =>
      some (db, .found ((db.transactions name).elim false fun tx => (tx.view key).isSome))
  | .commit name _ => some (db.commit name)
  | .rollback name => some (db.rollback name)
  | .flush => some (db, .done)

def run : List (DbOp κ ν) → MapDb κ ν → Option (MapDb κ ν × List (DbReply ν))
  | [], db => some (db, [])
  | op :: ops, db =>
      (db.step op).bind fun out => (run ops out.1).map fun rest => (rest.1, out.2 :: rest.2)

end MapDb

/-! ### The database is the map -/

/-- A transaction of the database as one on the map. -/
def Transaction.abs (tx : Transaction κ ν) : MapTx κ ν where
  writable := tx.writable
  base := tx.snapshot.get
  writes := if tx.writable then tx.pending.write else fun _ => none

/-- The map that a database stands for. -/
def Db.abs (db : Db κ ν) : MapDb κ ν where
  committed := db.cache.contents
  writeLock := db.writeLock
  transactions name := (db.transactions.lookup name).map Transaction.abs

namespace Transaction

variable (tx : Transaction κ ν)

theorem fetchKey_eq (key : κ) : tx.fetchKey key = tx.abs.view key := by
  rw [fetchKey, abs]
  cases tx.writable with
  | false => rfl
  | true => exact read_eq

theorem abs_new (writable : Bool) (snapshot : DbCacheSnapshot κ ν) :
    abs { writable, snapshot, pending := .empty } =
      { writable, base := snapshot.get, writes := fun _ => none } := by
  cases writable <;> rfl

theorem abs_putKey (h : tx.writable = true) (key : κ) (value : ν) : (tx.putKey key value).abs =
    { tx.abs with writes := update tx.abs.writes key (some (some value)) } := by
  simp only [abs, putKey, h, if_true, MapTx.mk.injEq, true_and]
  funext key'
  rw [write_put, update_apply]

theorem abs_deleteKey (h : tx.writable = true) (key : κ) : (tx.deleteKey key).abs =
    { tx.abs with writes := update tx.abs.writes key (some none) } := by
  simp only [abs, deleteKey, h, if_true, MapTx.mk.injEq, true_and]
  funext key'
  rw [write_delete, update_apply]

end Transaction

namespace Db

variable (db : Db κ ν)

theorem abs_insert (name : Nat) (tx : Transaction κ ν) :
    { db with transactions := db.transactions.insert name tx }.abs =
      { db.abs with transactions := update db.abs.transactions name (some tx.abs) } := by
  simp only [abs, MapDb.mk.injEq, true_and]
  funext name'
  rw [update_apply]
  split_ifs with h
  · rw [h, lookup_insert, map_some]
  · rw [lookup_insert_of_ne _ h]

theorem abs_close (name : Nat) (tx : Transaction κ ν) :
    (db.close name tx).abs = db.abs.close name tx.abs := by
  simp only [abs, close, MapDb.close, Transaction.abs, MapDb.mk.injEq, true_and]
  funext name'
  rw [update_apply]
  split_ifs with h
  · rw [h, lookup_erase, map_none]
  · rw [lookup_erase_ne h]

/-- The map after a call, with what the call returns. -/
def absOut (out : Db κ ν × DbReply ν) : MapDb κ ν × DbReply ν := (out.1.abs, out.2)

theorem abs_transactions (name : Nat) :
    db.abs.transactions name = (db.transactions.lookup name).map Transaction.abs := rfl

theorem abs_write (name : Nat) (key : κ) (value : Option ν) {f : Transaction κ ν → Transaction κ ν}
    (hf : ∀ tx : Transaction κ ν, tx.writable = true → (f tx).abs =
      { tx.abs with writes := update tx.abs.writes key (some value) }) :
    absOut (db.write name f) = db.abs.write name key value := by
  rw [write, MapDb.write, abs_transactions]
  cases hl : db.transactions.lookup name with
  | none => rfl
  | some tx =>
    change absOut (if tx.writable = true then _ else _) = if tx.writable = true then _ else _
    split_ifs with hw
    · rw [absOut, abs_insert, hf tx hw]
    · rfl

theorem abs_commit (name : Nat) (needsFlush : Bool) :
    absOut (db.commit name needsFlush) = db.abs.commit name := by
  rw [commit, MapDb.commit, abs_transactions]
  cases hl : db.transactions.lookup name with
  | none => rfl
  | some tx =>
    change absOut (if tx.writable = true then _ else _) = if tx.writable = true then _ else _
    split_ifs with hw
    · rw [absOut, abs_close]
      have hc : (db.cache.commitTx needsFlush tx.pending).contents =
          fun key => (tx.abs.writes key).getD (db.abs.committed key) := by
        rw [DbCache.contents_commitTx, Transaction.abs, if_pos hw]
        exact funext fun _ => read_eq
      rw [← hc]
      rfl
    · rw [absOut, abs_close]

theorem abs_rollback (name : Nat) : absOut (db.rollback name) = db.abs.rollback name := by
  rw [rollback, MapDb.rollback, abs_transactions]
  cases hl : db.transactions.lookup name with
  | none => rfl
  | some tx => exact congrArg (·, DbReply.done) (abs_close db name tx)

/-- **A call of the database is a call on the map.** -/
theorem abs_step (op : DbOp κ ν) : (db.step op).map absOut = db.abs.step op := by
  cases op with
  | begin name writable =>
    have hn : name ∈ db.transactions ↔ db.abs.transactions name ≠ none := by
      rw [mem_iff, ← ne_none_iff_exists']
      exact (not_congr map_eq_none_iff).symm
    have hi : (name ∈ db.transactions ∨ (writable = true ∧ db.writeLock = true)) ↔
        (db.abs.transactions name ≠ none ∨ (writable = true ∧ db.abs.writeLock = true)) :=
      or_congr_left hn
    rw [step, MapDb.step]
    by_cases hb : name ∈ db.transactions ∨ (writable = true ∧ db.writeLock = true)
    · rw [if_pos hb, if_pos (hi.1 hb)]
      rfl
    · rw [if_neg hb, if_neg (mt hi.2 hb)]
      refine congrArg some (congrArg (·, DbReply.done) ?_)
      rw [abs_insert { db with writeLock := db.writeLock || writable } name, Transaction.abs_new]
      rfl
  | put name key value =>
    exact congrArg some (db.abs_write name key (some value) fun tx h => tx.abs_putKey h key value)
  | delete name key =>
    exact congrArg some (db.abs_write name key none fun tx h => tx.abs_deleteKey h key)
  | get name key =>
    refine congrArg some (congrArg (db.abs, DbReply.value ·) ?_)
    change _ = ((db.transactions.lookup name).map Transaction.abs).bind _
    cases db.transactions.lookup name with
    | none => rfl
    | some tx => exact tx.fetchKey_eq key
  | has name key =>
    refine congrArg some (congrArg (db.abs, DbReply.found ·) ?_)
    change _ = ((db.transactions.lookup name).map Transaction.abs).elim _ _
    cases db.transactions.lookup name with
    | none => rfl
    | some tx => exact (tx.hasKey_eq key).trans (congrArg Option.isSome (tx.fetchKey_eq key))
  | commit name needsFlush => exact congrArg some (db.abs_commit name needsFlush)
  | rollback name => exact congrArg some (db.abs_rollback name)
  | flush =>
    refine congrArg some (congrArg (·, DbReply.done) ?_)
    simp [abs, DbCache.contents_flush]

end Db

end DrcNode
