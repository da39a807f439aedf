import Klomang.StateManager.Simulation

/-! Managers that differ in what their trees have cached only behave alike. Asking for a root
fills caches, so whoever asks for it between two transactions changes nothing else. -/
namespace Klomang

section Alike
variable [Blake3] [Bandersnatch] {S : Type}

/-- Two managers are the same but for what their trees have cached. -/
structure Alike (left right : StateManager S) : Prop where
  contents : VerkleTree.SameContents left.tree right.tree
  rest : right = { left with tree := right.tree }

/-- Two calls end alike: the same outcome, managers alike, and the same of everything else. -/
structure EndAlike {Result Else : Type} (left right : Result × StateManager S × Else) : Prop where
  outcome : left.1 = right.1
  managers : Alike left.2.1 right.2.1
  others : left.2.2 = right.2.2

variable {left right : StateManager S}

theorem Alike.refl (manager : StateManager S) : Alike manager manager := ⟨.refl _, rfl⟩

theorem Alike.trans {third : StateManager S} (alike : Alike left right) (further : Alike right third) :
    Alike left third :=
  ⟨alike.contents.trans further.contents, by rw [further.rest, alike.rest]⟩

/-- Transactions see nothing of the caches. -/
theorem alike_simulates : Simulation (Alike (S := S)) where
  contents _ _ alike := alike.contents
  replace _ _ _ _ alike same := ⟨same, by rw [alike.rest]⟩
  charge _ _ _ alike := ⟨alike.contents, by rw [alike.rest]⟩
  spend _ _ _ _ alike := ⟨alike.contents, by rw [alike.rest]; rfl⟩
  create _ _ _ _ _ alike := ⟨alike.contents, by rw [alike.rest]; rfl⟩

variable [Storage S]

/-- Asking for the root leaves the manager as it was, caches apart. -/
theorem alike_get_root_hash (manager : StateManager S) : Alike manager manager.getRootHash.2 := by
  have same := VerkleTree.same_contents_get_root manager.tree
  unfold StateManager.getRootHash
  rcases rooted : manager.tree.getRoot with ⟨outcome, tree⟩
  rw [rooted] at same
  cases outcome <;> exact ⟨same, rfl⟩

theorem StateManager.apply_transactions_alike [Wasmer] (txs : List Transaction) (alike : Alike left right) (utxo : UtxoSet) :
    EndAlike (applyTransactions txs left utxo) (applyTransactions txs right utxo) := by
  have ends := apply_transactions_related alike_simulates txs alike utxo
  exact ⟨ends.outcome, ends.managers, ends.others⟩

end Alike
end Klomang
