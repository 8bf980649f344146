import DrcNode.Chain.View

/-!
# Committing a view

After a view has been written to the database, `commit` is to drop the entries that are spent and to
mark the others as unmodified, so that they are not written again. The source toggles the flag
instead of clearing it.

## Main results

* `commit_iff`.

Source: `commit` in `blockchain/utxoviewpoint.go`.
-/

namespace DrcNode

open Finmap

namespace UtxoViewpoint

variable {view view' : UtxoViewpoint} {outpoint : OutPoint} {entry : UtxoEntry}

/-- What the loop of `commit` makes of an entry: it is deleted, or its flag is toggled. -/
def commitEntry : Option UtxoEntry → Option (Option UtxoEntry)
  | none => none
  | some entry =>
      if entry.isModified && entry.isSpent then none
      else some (some { entry with isModified := !entry.isModified })

def commit (view : UtxoViewpoint) : UtxoViewpoint :=
  { view with entries := KeyLoop.alterAll (fun _ entry => entry.bind commitEntry) view.entries }

theorem lookup_entries_commit :
    view.commit.entries.lookup outpoint = commitEntry (view.lookupEntry outpoint) := by
  rw [commit, KeyLoop.lookup_alterAll, lookupEntry]
  split_ifs with hm
  · obtain ⟨entry, he⟩ := mem_iff.1 hm
    rw [he]
    rfl
  · rw [lookup_eq_none.2 hm]
    rfl

/-- **What a commit is for.** The unspent entries remain, none of them marked as modified, and
writing the view again changes nothing. -/
structure CommitsTo (view view' : UtxoViewpoint) : Prop where
  lookup_eq : ∀ outpoint, view'.entries.lookup outpoint =
    (view.lookupEntry outpoint).bind fun entry =>
      if entry.isSpent then none else some (some entry.clean)
  unmodified : ∀ outpoint entry, view'.lookupEntry outpoint = some entry → entry.isModified = false
  put_eq : ∀ utxoSet : UtxoSet, utxoSet.putUtxoView view' = utxoSet

theorem putUtxoView_of_unmodified
    (h : ∀ outpoint entry, view.lookupEntry outpoint = some entry → entry.isModified = false)
    (utxoSet : UtxoSet) : utxoSet.putUtxoView view = utxoSet := by
  refine ext_lookup fun outpoint => ?_
  rw [UtxoSet.lookup_putUtxoView]
  cases he : view.lookupEntry outpoint with
  | none => rfl
  | some entry => simp [UtxoSet.putEntry, h outpoint entry he]

/-- **A commit does what it is for exactly when every entry of the view has been modified.** -/
theorem commit_iff (view : UtxoViewpoint) : CommitsTo view view.commit ↔
    ∀ outpoint entry, view.lookupEntry outpoint = some entry → entry.isModified = true := by
  constructor
  · intro h outpoint entry he
    by_contra hm
    have hl := @lookup_entries_commit view outpoint
    rw [he, commitEntry, Bool.eq_false_of_not_eq_true hm] at hl
    have hf := h.unmodified outpoint { entry with isModified := true } (by
      rw [lookupEntry, hl]
      rfl)
    cases hf
  · intro h
    have hl : ∀ outpoint, view.commit.entries.lookup outpoint =
        (view.lookupEntry outpoint).bind fun entry =>
          if entry.isSpent then none else some (some entry.clean) := by
      intro outpoint
      rw [lookup_entries_commit]
      cases he : view.lookupEntry outpoint with
      | none => rfl
      | some entry =>
        simp [commitEntry, h outpoint entry he, UtxoEntry.clean]
    have hu : ∀ outpoint entry, view.commit.lookupEntry outpoint = some entry →
        entry.isModified = false := by
      intro outpoint entry he
      rw [lookupEntry, hl] at he
      cases ho : view.lookupEntry outpoint with
      | none =>
        rw [ho] at he
        cases he
      | some old =>
        rw [ho, Option.bind_some] at he
        split_ifs at he
        · cases he
        · obtain rfl : old.clean = entry := Option.some.inj he
          rfl
    exact ⟨hl, hu, putUtxoView_of_unmodified hu⟩

/-- A view that holds one output, read from the database and not touched. -/
def readOnly : UtxoViewpoint :=
  (UtxoViewpoint.new 0).fetchUtxosMain
    (singleton ⟨1, 0⟩ { amount := 5, pkScript := [], blockHeight := 1, isCoinBase := false })
    [⟨1, 0⟩]

/-- After a commit of that view the output is marked as modified. -/
theorem commit_readOnly_modified : ¬CommitsTo readOnly readOnly.commit ∧
    (readOnly.lookupEntry ⟨1, 0⟩).map UtxoEntry.isModified = some false ∧
      (readOnly.commit.lookupEntry ⟨1, 0⟩).map UtxoEntry.isModified = some true := by
  have hr : readOnly.lookupEntry ⟨1, 0⟩ =
      some { amount := 5, pkScript := [], blockHeight := 1, isCoinBase := false } := by
    exact lookup_singleton_eq
  have hc : readOnly.commit.lookupEntry ⟨1, 0⟩ =
      some { amount := 5, pkScript := [], blockHeight := 1, isCoinBase := false,
             isModified := true } := by
    rfl
  refine ⟨fun h => ?_, ?_, ?_⟩
  · have := h.unmodified _ _ hc
    cases this
  · rw [hr]
    rfl
  · rw [hc]
    rfl

end UtxoViewpoint

end DrcNode
