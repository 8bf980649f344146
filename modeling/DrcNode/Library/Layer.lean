import DrcNode.Library.Bucket

/-!
# Layers of writes over a map

A layer holds writes that have not reached the map under it: the keys that are to be put, with their
values, and the keys that are to be removed. Reading through a layer asks the removed keys first,
then the keys put, and then the map. Layers lie on top of each other, and a layer moves down by
being written into the map or merged into the layer below. None of this changes what is read.
-/

/-- Writes over a map: the keys to put and the keys to remove. -/
structure Layer (κ ν : Type*) [LinearOrder κ] where
  keys : Bucket κ ν
  removed : Bucket κ Unit

namespace Layer

open Bucket

variable {κ ν : Type*} [LinearOrder κ] {layer below : Layer κ ν} {base : κ → Option ν} {k k' : κ}
  {v : ν}

/-- The layer without writes. -/
def empty : Layer κ ν := ⟨.empty, .empty⟩

/-- Put a key. It is no longer removed. -/
def put (layer : Layer κ ν) (k : κ) (v : ν) : Layer κ ν :=
  ⟨layer.keys.put k v, layer.removed.erase k⟩

section

variable (layer : Layer κ ν)

/-- Remove a key. It is no longer put. -/
def delete (k : κ) : Layer κ ν :=
  ⟨layer.keys.erase k, layer.removed.put k ()⟩

/-- What the layer says about a key: nothing, that it is removed, or the value that is put. -/
def write (k : κ) : Option (Option ν) :=
  if (layer.removed.get k).isSome then some none else (layer.keys.get k).map some

/-- Read a key through the layer. -/
def read (base : κ → Option ν) (k : κ) : Option ν :=
  if (layer.removed.get k).isSome then none
  else
    match layer.keys.get k with
    | some v => some v
    | none => base k

/-- Write the layer into a map: the keys to put first, then the keys to remove. -/
def writeTo (bucket : Bucket κ ν) : Bucket κ ν :=
  layer.removed.entries.foldl (fun bucket e => bucket.erase e.1)
    (layer.keys.entries.foldl (fun bucket e => bucket.put e.1 e.2) bucket)

end

/-- Merge the layer into the one below it, in the same order. -/
def mergeInto (layer below : Layer κ ν) : Layer κ ν :=
  layer.removed.entries.foldl (fun below e => below.delete e.1)
    (layer.keys.entries.foldl (fun below e => below.put e.1 e.2) below)

/-- **Reading through a layer**: what it says about the key, or else what the map says. -/
theorem read_eq : layer.read base k = (layer.write k).getD (base k) := by
  rw [read, write]
  split_ifs
  · rfl
  · cases layer.keys.get k <;> rfl

@[simp] theorem read_empty : (empty : Layer κ ν).read base = base := rfl

theorem read_of_nil (hk : layer.keys.entries = []) (hr : layer.removed.entries = []) :
    layer.read base = base := by
  funext k
  have hg : layer.keys.get k = none := by rw [Bucket.get, hk]; rfl
  have hg' : layer.removed.get k = none := by rw [Bucket.get, hr]; rfl
  rw [read, hg, hg']
  rfl

theorem write_put :
    (layer.put k v).write k' = if k' = k then some (some v) else layer.write k' := by
  simp only [write, put, get_put, get_erase]
  by_cases h : k' = k
  · simp [h]
  · simp [h]

theorem write_delete :
    (layer.delete k).write k' = if k' = k then some none else layer.write k' := by
  simp only [write, delete, get_put, get_erase]
  by_cases h : k' = k
  · simp [h]
  · simp [h]

theorem read_put :
    (layer.put k v).read base k' = if k' = k then some v else layer.read base k' := by
  rw [read_eq, write_put, read_eq]
  split_ifs <;> rfl

theorem read_delete :
    (layer.delete k).read base k' = if k' = k then none else layer.read base k' := by
  rw [read_eq, write_delete, read_eq]
  split_ifs <;> rfl

/-- A loop that puts the keys of the layer and one that then removes its removed keys read together
as the layer. -/
theorem read_loops {σ : Type*} {putStep : σ → κ × ν → σ} {removeStep : σ → κ × Unit → σ}
    (view : σ → κ → Option ν)
    (hp : ∀ s e k, view (putStep s e) k = if k = e.1 then some e.2 else view s k)
    (hr : ∀ s e k, view (removeStep s e) k = if k = e.1 then none else view s k)
    (layer : Layer κ ν) (s : σ) (k : κ) :
    view (layer.removed.entries.foldl removeStep (layer.keys.entries.foldl putStep s)) k =
      layer.read (view s) k := by
  rw [read_foldl (fun _ => none) hr, read_foldl some hp, read]
  cases layer.removed.get k with
  | some _ => rfl
  | none => cases layer.keys.get k <;> rfl

/-- **Writing a layer into the map under it does not change what is read.** -/
theorem get_writeTo (layer : Layer κ ν) (bucket : Bucket κ ν) :
    (layer.writeTo bucket).get = layer.read bucket.get :=
  funext fun k => read_loops Bucket.get (fun _ _ _ => get_put)
    (fun _ _ _ => get_erase) layer bucket k

/-- **Merging a layer into the one below it does not change what is read.** -/
theorem read_mergeInto (layer below : Layer κ ν) :
    (layer.mergeInto below).read base = layer.read (below.read base) :=
  funext fun k => read_loops (fun below => below.read base) (fun _ _ _ => read_put)
    (fun _ _ _ => read_delete) layer below k

theorem read_read (layer : Layer κ ν) : layer.read (layer.read base) = layer.read base := by
  funext k
  rw [read_eq, read_eq]
  cases layer.write k <;> rfl

end Layer
