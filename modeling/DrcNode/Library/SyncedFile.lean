import Mathlib.Data.List.Basic
import Mathlib.Data.List.TakeDrop
import Mathlib.Order.MinMax

/-!
# Files of which a prefix is on disk

A file is written through a buffer, and only what has been synced is sure to be on disk. Here a file
is its contents together with the length of a prefix that is on disk. When the machine stops, that
prefix stays, and the rest may be cut anywhere or be anything (`Survives`).
-/

/-- The contents of a file, of which a prefix is on disk. -/
structure SyncedFile (α : Type*) where
  data : List α
  synced : Nat
  synced_le : synced ≤ data.length

namespace SyncedFile

open List Nat

variable {α : Type*} {f f' : SyncedFile α} {fill : α} {off n m : Nat} {d d' : List α}
  (durable : Bool)

/-- A new file. -/
def empty : SyncedFile α := ⟨[], 0, le_rfl⟩

/-- The contents, filled up to a length. -/
def padded (fill : α) (f : SyncedFile α) (n : Nat) : List α :=
  f.data ++ List.replicate (n - f.data.length) fill

theorem le_length_padded (fill : α) (f : SyncedFile α) (n : Nat) :
    n ≤ (f.padded fill n).length := by
  rw [padded, length_append, length_replicate]
  omega

theorem padded_eq (h : n ≤ f.data.length) : f.padded fill n = f.data := by
  rw [padded, Nat.sub_eq_zero_of_le h, replicate_zero, append_nil]

/-- Write at an offset. What is on disk of the file after the offset is no longer known. -/
def writeAt (fill : α) (f : SyncedFile α) (off : Nat) (d : List α) : SyncedFile α where
  data := (f.padded fill off).take off ++ (d ++ (f.padded fill off).drop (off + d.length))
  synced := min f.synced off
  synced_le := by
    have := le_length_padded fill f off
    rw [length_append, length_take]
    omega

/-- Write the file to disk. -/
def sync (f : SyncedFile α) : SyncedFile α := ⟨f.data, f.data.length, le_rfl⟩

/-- Cut the file to a length, or fill it up to it. -/
def truncate (fill : α) (f : SyncedFile α) (n : Nat) : SyncedFile α where
  data := (f.padded fill n).take n
  synced := min f.synced n
  synced_le := by
    have := le_length_padded fill f n
    rw [length_take]
    omega

/-- How much of the file there is: on disk, or at all. -/
def extent (f : SyncedFile α) : Nat := if durable then f.synced else f.data.length

/-- The bytes `d` stand at the offset. -/
def Holds (f : SyncedFile α) (off : Nat) (d : List α) : Prop := d <+: f.data.drop off

/-- What may be left of a file when the machine has stopped. -/
structure Survives (f f' : SyncedFile α) : Prop where
  synced_le : f.synced ≤ f'.synced
  length_le : f'.data.length ≤ f.data.length
  take_eq : f'.data.take f.synced = f.data.take f.synced

theorem extent_le_length (f : SyncedFile α) : f.extent durable ≤ f.data.length := by
  rw [extent]
  split_ifs
  · exact f.synced_le
  · exact le_rfl

theorem Survives.refl (f : SyncedFile α) : f.Survives f := ⟨le_rfl, le_rfl, rfl⟩

theorem survives_empty (h : f.synced = 0) : f.Survives empty :=
  ⟨h.le, zero_le _, by rw [h, take_zero, take_zero]⟩

/-! ### What stands in a file -/

theorem Holds.take_eq (h : f.Holds off d) : (f.data.drop off).take d.length = d :=
  (prefix_iff_eq_take.1 h).symm

/-- **What stands before an offset is kept when the contents before it are.** -/
theorem Holds.of_take_eq (h : f.Holds off d) (hm : off + d.length ≤ m)
    (heq : f'.data.take m = f.data.take m) : f'.Holds off d := by
  have hs : ∀ l : List α, (l.drop off).take d.length = ((l.take m).drop off).take d.length := by
    intro l
    rw [drop_take, take_take, min_eq_left (by omega)]
  refine prefix_iff_eq_take.2 ?_
  rw [hs, heq, ← hs, h.take_eq]

/-! ### Writes -/

theorem data_writeAt (ho : off ≤ f.data.length) :
    (f.writeAt fill off d).data = f.data.take off ++ (d ++ f.data.drop (off + d.length)) := by
  simp [writeAt, padded_eq ho]

theorem take_padded (h : m ≤ f.data.length) : (f.padded fill n).take m = f.data.take m :=
  take_append_of_le_length h

theorem take_writeAt (h : m ≤ off) (hm : m ≤ f.data.length) :
    (f.writeAt fill off d).data.take m = f.data.take m := by
  have hl := le_length_padded fill f off
  rw [writeAt, take_append_of_le_length, take_take, min_eq_left h, take_padded hm]
  rw [length_take]
  omega

theorem take_truncate (h : m ≤ n) (hm : m ≤ f.data.length) :
    (f.truncate fill n).data.take m = f.data.take m := by
  rw [truncate, take_take, min_eq_left h, take_padded hm]

theorem length_truncate : (f.truncate fill n).data.length = n := by
  rw [truncate, length_take, min_eq_left (le_length_padded fill f n)]

theorem holds_writeAt : (f.writeAt fill off d).Holds off d := by
  have hl := le_length_padded fill f off
  rw [Holds, writeAt, drop_left' (by rw [length_take]; omega)]
  exact prefix_append d _

theorem le_length_writeAt : off + d.length ≤ (f.writeAt fill off d).data.length := by
  have hl := le_length_padded fill f off
  rw [writeAt, length_append, length_append, length_take]
  omega

theorem min_le_extent_writeAt :
    min (f.extent durable) off ≤ (f.writeAt fill off d).extent durable := by
  cases durable with
  | true => exact le_rfl
  | false => exact (min_le_right _ _).trans ((le_add_right _ _).trans le_length_writeAt)

theorem min_le_extent_truncate : min (f.extent durable) n ≤ (f.truncate fill n).extent durable := by
  cases durable with
  | true => exact le_rfl
  | false => exact (min_le_right _ _).trans length_truncate.ge

theorem extent_le_extent_sync : f.extent durable ≤ f.sync.extent durable := by
  cases durable with
  | true => exact f.synced_le
  | false => exact le_rfl

theorem ext_data (hd : f.data = f'.data) (hs : f.synced = f'.synced) : f = f' := by
  cases f
  cases f'
  cases hd
  cases hs
  rfl

/-- **Two writes, one after the other, are one.** -/
theorem writeAt_writeAt (ho : off ≤ f.data.length) :
    (f.writeAt fill off d).writeAt fill (off + d.length) d' = f.writeAt fill off (d ++ d') := by
  have ht : (f.data.take off).length = off := by
    rw [length_take]
    omega
  have hl : (f.data.take off ++ d).length = off + d.length := by
    rw [length_append, ht]
  refine ext_data ?_ ?_
  · rw [data_writeAt le_length_writeAt, data_writeAt ho, data_writeAt ho,
      ← append_assoc (f.data.take off) d, take_left' hl, ← drop_drop,
      drop_left' hl, drop_drop, length_append, append_assoc,
      append_assoc, Nat.add_assoc]
  · simp only [writeAt]
    omega

end SyncedFile
