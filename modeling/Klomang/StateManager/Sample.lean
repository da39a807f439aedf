import Klomang.Sample
import Klomang.StateManager.Calls

/-! A fresh manager and small blocks for the concrete runs. -/
namespace Klomang.Sample

/-- The empty tree over memory. -/
def emptyTree : VerkleTree MemoryStorage := .fresh ∅

/-- A manager over the empty tree. -/
def manager : StateManager MemoryStorage := .started emptyTree

theorem manager_built : VerkleTree.Built emptyTree := .new ∅ (VerkleTree.new_ok _)

theorem manager_made : StateManager.new emptyTree = .ok manager :=
  StateManager.new_ok (VerkleTree.fresh_coherent _)

/-- A genesis block that carries some transactions. -/
def blockOf (transactions : List Transaction) : BlockNode :=
  ⟨⟨.replicate 1, ∅, 0, 1, 0, .replicate 0, none, none⟩, ∅, none, ∅, ∅, 0, transactions⟩

/-- A coinbase transaction. -/
def reward (value : UInt64) : Transaction := .new [] [⟨value, .replicate 9⟩]

/-- A transaction that spends one output and creates another. -/
def spend (outpoint : OutPoint) (value : UInt64) : Transaction :=
  .new [⟨outpoint.1, outpoint.2, [], List.replicate 32 5, .all⟩] [⟨value, .replicate 9⟩]

theorem reward_played : (manager.books .new).ledger (blockOf [reward 5]).moves =
    some ⟨Finmap.insert ((reward 5).id, 0) ⟨5, .replicate 9⟩ ∅, 5⟩ := rfl

/-- A first block with a coinbase is applied. -/
theorem reward_applied :
    ∃ later left, manager.applyBlock (blockOf [reward 5]) .new = (.ok (), later, left) := by
  have coherent : manager.tree.Coherent := (StateManager.started_sound manager_built.coherent).coherent
  have noBurn : StateManager.NoBurn (blockOf [reward 5]).moves :=
    (StateManager.burn_update_none _).mp (by decide +kernel)
  have plain : ∀ tx ∈ (blockOf [reward 5]).transactions, tx.Plain := by decide
  obtain ⟨later, ran⟩ := StateManager.apply_block_accepts plain coherent (by decide) rfl reward_played noBurn (by decide)
  exact ⟨later, _, ran⟩

end Klomang.Sample
