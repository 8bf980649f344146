import DrcNode.Go

/-!
# Dropping an index

An index is dropped in several transactions: the drop is marked, the keys of its buckets are deleted
in portions, the buckets are removed, then the tables of block IDs, and at the end the tip of the
index together with the mark. A start that finds the mark drops the index again.

`dropIndex` collects the names of the buckets first, each made by `append` from that of the bucket
around it. An index has at most three levels of buckets here (those of the source have two): below
the third one, `append` writes into an array that is shared, and names are overwritten.

## Main results

* `maybeFinishDrops_iff`.

Source: `maybeFinishDrops` and `dropIndex` in `blockchain/indexers/manager.go`,
`dropBlockIDIndex` in `blockchain/indexers/txindex.go`.
-/

namespace DrcNode

open List

variable {κ β : Type}

/-- The keys of a bucket and the buckets in it, the last one first. -/
structure BucketLevel (κ β : Type) where
  keys : List κ
  subBuckets : List β

/-- The bucket of an index, with at most three levels. -/
abbrev IndexBucket (κ : Type) := BucketLevel κ (BucketLevel κ (BucketLevel κ Empty))

/-- What the database has of an index between two transactions. -/
structure IndexStore (κ : Type) where
  tip : Bool
  dropKey : Bool
  bucket : Option (IndexBucket κ)
  /-- The tables of block IDs, which only the transaction index has. -/
  blockIDs : Bool

/-- How a drop fails. -/
inductive DropFault
  | panic (p : Panic)
  | bucketNotFound

/-- The number of keys that one transaction may delete. -/
def maxDeletions : Nat := 2000000

/-- The keys that are left after each transaction; one that deletes as many as it may is followed by
another. -/
def deleteKeys (keys : List κ) : List (List κ) :=
  keys.drop maxDeletions ::
    if maxDeletions ≤ keys.length then deleteKeys (keys.drop maxDeletions) else []
termination_by keys.length
decreasing_by
  rw [maxDeletions] at *
  rw [length_drop]
  omega

/-- Buckets after each transaction that removes one of them, with how one of them is removed. -/
def dropSubBuckets (drop : β → List (Option β)) : List β → List (List β)
  | [] => []
  | subBucket :: subBuckets =>
      (drop subBucket).map (fun left => left.toList ++ subBuckets) ++ dropSubBuckets drop subBuckets

/-- A bucket after each transaction that empties and removes it and what is in it, deepest first. -/
def dropLevel (drop : β → List (Option β)) (bucket : BucketLevel κ β) :
    List (Option (BucketLevel κ β)) :=
  (dropSubBuckets drop bucket.subBuckets).map (fun left => some ⟨bucket.keys, left⟩) ++
    (deleteKeys bucket.keys).map (fun left => some ⟨left, []⟩) ++ [none]

/-- The bucket of an index after each transaction that takes something from it. -/
def dropBucket : IndexBucket κ → List (Option (IndexBucket κ)) :=
  dropLevel (dropLevel (dropLevel Empty.elim))

/-- `dropBlockIDIndex`: the two tables must be there. -/
def dropBlockIDIndex (s : IndexStore κ) : Except DropFault (IndexStore κ) :=
  if s.blockIDs then .ok { s with blockIDs := false } else .error .bucketNotFound

/-- The last transaction. -/
def IndexStore.finish (s : IndexStore κ) : IndexStore κ := { s with tip := false, dropKey := false }

/-- `dropIndex`: the database after each of its transactions. The bucket of the index is looked up
and used without a test. -/
def dropIndex (isTxIndex : Bool) (s : IndexStore κ) : Except DropFault (List (IndexStore κ)) :=
  if s.tip then
    let marked := { s with dropKey := true }
    let emptied := { marked with bucket := none }
    match s.bucket with
    | none => .error (.panic .nilPointer)
    | some bucket => do
        let states := marked :: (dropBucket bucket).map fun bucket => { marked with bucket }
        if isTxIndex then
          let s ← dropBlockIDIndex emptied
          pure (states ++ [s, s.finish])
        else pure (states ++ [emptied.finish])
  else .ok []

/-- `maybeFinishDrops` for one index. -/
def maybeFinishDrops (isTxIndex : Bool) (s : IndexStore κ) : Except DropFault (IndexStore κ) :=
  if s.dropKey then (·.getLast?.getD s) <$> dropIndex isTxIndex s else .ok s

/-- **A drop that finds the bucket finishes**, and until then the tip and the mark are there. -/
theorem exists_dropIndex (isTxIndex dropKey : Bool) (bucket : IndexBucket κ) :
    ∃ states, dropIndex isTxIndex ⟨true, dropKey, some bucket, isTxIndex⟩ = .ok states ∧
      states.getLast? = some ⟨false, false, none, false⟩ ∧
      ∀ s ∈ states, s = ⟨false, false, none, false⟩ ∨
        s.tip = true ∧ s.dropKey = true ∧ (s.bucket ≠ none → s.blockIDs = isTxIndex) := by
  cases isTxIndex with
  | true =>
    refine ⟨_, rfl, by rw [getLast?_append]; rfl, fun s hs => ?_⟩
    rw [mem_append, mem_cons, mem_map, mem_cons, mem_singleton] at hs
    obtain (rfl | ⟨_, -, rfl⟩) | rfl | rfl := hs
    · exact .inr ⟨rfl, rfl, fun _ => rfl⟩
    · exact .inr ⟨rfl, rfl, fun _ => rfl⟩
    · exact .inr ⟨rfl, rfl, fun hn => absurd rfl hn⟩
    · exact .inl rfl
  | false =>
    refine ⟨_, rfl, by rw [getLast?_append]; rfl, fun s hs => ?_⟩
    rw [mem_append, mem_cons, mem_map, mem_singleton] at hs
    obtain (rfl | ⟨_, -, rfl⟩) | rfl := hs
    · exact .inr ⟨rfl, rfl, fun _ => rfl⟩
    · exact .inr ⟨rfl, rfl, fun _ => rfl⟩
    · exact .inl rfl

/-- **A drop that was interrupted is finished on the next start** exactly if it was marked and the
bucket is still there, or everything was done. -/
theorem maybeFinishDrops_iff (isTxIndex : Bool) (bucket : IndexBucket κ) :
    ∃ states, dropIndex isTxIndex ⟨true, false, some bucket, isTxIndex⟩ = .ok states ∧
      ∀ s ∈ ⟨true, false, some bucket, isTxIndex⟩ :: states,
        (maybeFinishDrops isTxIndex s = .ok ⟨false, false, none, false⟩ ↔
          s.dropKey = true ∧ s.bucket ≠ none ∨ s.tip = false) := by
  obtain ⟨states, hd, -, hs⟩ := exists_dropIndex isTxIndex false bucket
  refine ⟨states, hd, forall_mem_cons.2 ⟨?_, fun s hm => ?_⟩⟩
  · simp [maybeFinishDrops]
  · obtain rfl | ⟨ht, hk, hi⟩ := hs s hm
    · simp [maybeFinishDrops]
    · obtain ⟨tip, dropKey, bucket', blockIDs⟩ := s
      obtain rfl : tip = true := ht
      obtain rfl : dropKey = true := hk
      cases bucket' with
      | none => simp [maybeFinishDrops, dropIndex]
      | some bucket' =>
        obtain rfl : blockIDs = isTxIndex := hi (by simp)
        obtain ⟨states', hd', hl, -⟩ := exists_dropIndex blockIDs true bucket'
        simp [maybeFinishDrops, hd', hl]

/-- After the bucket of the transaction index is gone, every start panics. -/
theorem not_maybeFinishDrops : ∃ states,
    dropIndex true (⟨true, false, some ⟨[0], []⟩, true⟩ : IndexStore Nat) = .ok states ∧
      ⟨true, true, none, true⟩ ∈ states ∧
      maybeFinishDrops true (⟨true, true, none, true⟩ : IndexStore Nat) =
        .error (.panic .nilPointer) :=
  ⟨_, rfl, by simp [dropBucket, dropLevel], rfl⟩

end DrcNode
