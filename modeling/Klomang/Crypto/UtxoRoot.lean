import Klomang.Crypto.VerkleAttestation
import Mathlib.Data.List.Permutation

/-! The root of the unspent outputs. The key of an output is derived from its public key hash and its position in
its transaction, so two outputs can have one key; of these the one that is iterated last stays. -/
namespace Klomang.Crypto

open Klomang.VerkleTree (provenValue rootAt storageProof storageRoot Collisionless accepted_bound)
open Klomang.Crypto.VerkleTree (hexEncode pathStr utxoKey entries fresh new_ok)

section Paths
variable {outpoint other : OutPoint} {output also : TxOutput}

/-- The text of a path tells the public key hash and the position, and nothing else. -/
theorem path_str_eq_iff :
    pathStr outpoint output = pathStr other also ↔ output.pubkeyHash = also.pubkeyHash ∧ outpoint.2 = other.2 := by
  constructor
  · intro same
    have spelled := congrArg String.toList same
    simp only [pathStr, hexEncode, String.toList_append, List.append_assoc] at spelled
    have widths : output.pubkeyHash.toHex.toList.length = also.pubkeyHash.toHex.toList.length := by
      rw [Hash.length_to_hex, Hash.length_to_hex]
    obtain ⟨address, rest⟩ := List.append_inj spelled widths
    have position : (toString outpoint.2.toNat).toList = (toString other.2.toNat).toList :=
      List.append_cancel_right (List.append_cancel_left rest)
    have digits : Nat.toDigits 10 outpoint.2.toNat = Nat.toDigits 10 other.2.toNat :=
      Nat.toList_repr.symm.trans (position.trans Nat.toList_repr)
    have numbers := congrArg (fun digits => Nat.ofDigitChars 10 digits 0) digits
    simp only [Nat.ofDigitChars_ten_toDigits] at numbers
    exact ⟨Hash.to_hex_injective (String.toList_injective address), UInt32.toNat_inj.mp numbers⟩
  · rintro ⟨address, position⟩
    rw [pathStr, pathStr, address, position]

end Paths

section Entries
variable {utxoSet : UtxoSet}

theorem mem_entries {order : Enumeration OutPoint} {outpoint : OutPoint} {output : TxOutput} :
    (outpoint, output) ∈ entries order utxoSet ↔ utxoSet.utxos.lookup outpoint = some output := by
  rw [entries, List.mem_filterMap]
  constructor
  · rintro ⟨listed, _, found⟩
    obtain ⟨held, there, same⟩ := Option.map_eq_some_iff.mp found
    obtain ⟨rfl, rfl⟩ := Prod.mk.inj same
    exact there
  · intro found
    refine ⟨outpoint, (order.mem _ _).mpr (Finmap.mem_keys.mpr ?_), ?_⟩
    · exact Finmap.lookup_isSome.mp (Option.isSome_iff_exists.mpr ⟨output, found⟩)
    · rw [found, Option.map_some]

theorem entries_perm (order other : Enumeration OutPoint) (utxoSet : UtxoSet) :
    (entries order utxoSet).Perm (entries other utxoSet) := (order.perm other _).filterMap _

/-- Any held output comes last in some iteration. -/
theorem exists_last_entry {outpoint : OutPoint} {output : TxOutput}
    (held : utxoSet.utxos.lookup outpoint = some output) :
    ∃ order before, entries order utxoSet = before ++ [(outpoint, output)] := by
  obtain ⟨order, last⟩ := Enumeration.exists_last outpoint
  have there : outpoint ∈ utxoSet.utxos.keys :=
    Finmap.mem_keys.mpr (Finmap.lookup_isSome.mp (Option.isSome_iff_exists.mpr ⟨output, held⟩))
  obtain ⟨before, listed⟩ := last _ there
  have ended : entries order utxoSet = _ := congrArg (List.filterMap fun outpoint =>
    (utxoSet.utxos.lookup outpoint).map fun txOutput => (outpoint, txOutput)) listed
  rw [List.filterMap_append, List.filterMap_cons, held] at ended
  exact ⟨order, _, ended⟩

end Entries

section Lookup
variable {α β : Type} [BEq α] [LawfulBEq α] {left right : List (α × β)}

/-- In a list with one value for each key, a value is found wherever it stands. -/
theorem lookup_eq_some_iff_mem (functional : ∀ entry ∈ left, ∀ other ∈ left, entry.1 = other.1 → entry.2 = other.2)
    {key : α} {value : β} : left.lookup key = some value ↔ (key, value) ∈ left := by
  constructor
  · intro found
    obtain ⟨before, after, split, _⟩ := List.lookup_eq_some_iff.mp found
    rw [split]
    exact List.mem_append_right _ List.mem_cons_self
  · intro member
    cases found : left.lookup key with
    | none =>
      have missing := List.lookup_eq_none_iff.mp found (key, value) member
      simp at missing
    | some other =>
      obtain ⟨before, after, split, _⟩ := List.lookup_eq_some_iff.mp found
      have there : (key, other) ∈ left := by
        rw [split]
        exact List.mem_append_right _ List.mem_cons_self
      exact congrArg some (functional _ there _ member rfl)

theorem lookup_perm (functional : ∀ entry ∈ left, ∀ other ∈ left, entry.1 = other.1 → entry.2 = other.2)
    (perm : left.Perm right) (key : α) : left.lookup key = right.lookup key := by
  refine Option.ext fun value => ?_
  have moved : ∀ entry ∈ right, ∀ other ∈ right, entry.1 = other.1 → entry.2 = other.2 :=
    fun entry member other there => functional entry (perm.mem_iff.mpr member) other (perm.mem_iff.mpr there)
  rw [lookup_eq_some_iff_mem functional, lookup_eq_some_iff_mem moved, perm.mem_iff]

end Lookup

section Populating
variable [Blake3]

/-- What is written for an unspent output. -/
def utxoWrite (entry : OutPoint × TxOutput) : Bytes32 × List UInt8 :=
  (utxoKey entry.1 entry.2, Bytes.leBytes 8 entry.2.value.toNat)

/-- What a cleared tree holds after unspent outputs have been inserted. -/
def populated (items : List (OutPoint × TxOutput)) : Standing :=
  items.foldl (fun standing entry =>
    standing.insert (utxoKey entry.1 entry.2) (Bytes.leBytes 8 entry.2.value.toNat)) ⟨fun _ => none, ∅⟩

theorem populated_snoc (items : List (OutPoint × TxOutput)) (last : OutPoint × TxOutput) :
    populated (items ++ [last]) =
      (populated items).insert (utxoKey last.1 last.2) (Bytes.leBytes 8 last.2.value.toNat) := by
  rw [populated, List.foldl_append]
  rfl

theorem populated_unpruned (items : List (OutPoint × TxOutput)) : (populated items).pruned = ∅ := by
  induction items using List.reverseRecOn with
  | nil => rfl
  | append_singleton items last ih =>
    rw [populated_snoc, Standing.insert, ih]
    rfl

/-- Of two outputs with one key the one that is inserted last is held. -/
theorem populated_lists (items : List (OutPoint × TxOutput)) :
    Lists (populated items).contents (items.map utxoWrite).reverse := by
  induction items using List.reverseRecOn with
  | nil => exact lists_nothing fun _ => rfl
  | append_singleton items last ih =>
    have short : (Bytes.leBytes 8 last.2.value.toNat).length < 2 ^ 32 := by
      rw [Bytes.length_leBytes]
      decide
    rw [populated_snoc, List.map_append, List.reverse_append]
    exact ih.insert (populated_unpruned items) (utxoKey last.1 last.2) short

theorem populated_rooted (items : List (OutPoint × TxOutput)) : (populated items).Rooted := by
  cases items using List.reverseRecOn with
  | nil => exact .inr fun _ => rfl
  | append_singleton items last =>
    rw [populated_snoc]
    exact Standing.Rooted.insert _ _ _

theorem populated_last (before : List (OutPoint × TxOutput)) (last : OutPoint × TxOutput) :
    provenValue (populated (before ++ [last])).contents (utxoKey last.1 last.2) =
      some (Bytes.leBytes 8 last.2.value.toNat) := by
  rw [(populated_lists _).proven, List.map_append, List.reverse_append]
  exact List.lookup_cons_self

variable [Bandersnatch] {S T : Type} [Storage S] [Storage T]

theorem calculate_verkle_root_eq {tree : VerkleTree S} (reached : Reached tree) (order : Enumeration OutPoint)
    (utxoSet : UtxoSet) :
    (tree.calculateVerkleRoot order utxoSet).1 = .ok (storageRoot (populated (entries order utxoSet)).contents) := by
  obtain ⟨standing, follows⟩ := reached.follows
  exact (follows.cleared.insert_all _ _ _).get_root.1

omit [Storage S] [Storage T] in
/-- Under one root the outputs that were inserted last have one value if they have one key. -/
theorem populated_last_bound {before earlier : List (OutPoint × TxOutput)} (last final : OutPoint × TxOutput)
    (key : utxoKey final.1 final.2 = utxoKey last.1 last.2)
    (collisionless : Collisionless (storageProof (populated (before ++ [last])).contents (utxoKey last.1 last.2) none)
      (storageProof (populated (earlier ++ [final])).contents (utxoKey last.1 last.2) none))
    (root : storageRoot (populated (before ++ [last])).contents = storageRoot (populated (earlier ++ [final])).contents) :
    last.2.value = final.2.value := by
  have same : provenValue (populated (before ++ [last])).contents (utxoKey last.1 last.2) =
      provenValue (populated (earlier ++ [final])).contents (utxoKey last.1 last.2) :=
    accepted_bound ((populated_rooted _).accepted _) ((populated_rooted _).accepted _) root rfl collisionless
  rw [populated_last, ← key, populated_last] at same
  exact Bytes.beBytes_u64_injective (congrArg List.reverse (Option.some.inj same))

/-- The root of the unspent outputs depends on the order of the iteration unless all outputs to one public key
hash at one position have one value. -/
theorem iterated_roots_agree_iff {left : VerkleTree S} {right : VerkleTree T} (leftReached : Reached left)
    (rightReached : Reached right) (utxoSet : UtxoSet)
    (hashes : Set.InjOn Hash.new {text | ∃ outpoint output, utxoSet.utxos.lookup outpoint = some output ∧
      text = (pathStr outpoint output).toUTF8.toList})
    (collisionless : ∀ order other outpoint output, utxoSet.utxos.lookup outpoint = some output →
      Collisionless (storageProof (populated (entries order utxoSet)).contents (utxoKey outpoint output) none)
        (storageProof (populated (entries other utxoSet)).contents (utxoKey outpoint output) none)) :
    (∀ order other, ∃ root, (left.calculateVerkleRoot order utxoSet).1 = .ok root ∧
        (right.calculateVerkleRoot other utxoSet).1 = .ok root) ↔
      ∀ outpoint output other also, utxoSet.utxos.lookup outpoint = some output →
        utxoSet.utxos.lookup other = some also → output.pubkeyHash = also.pubkeyHash → outpoint.2 = other.2 →
          output.value = also.value := by
  constructor
  · intro agree outpoint output other also held beside address position
    obtain ⟨order, before, last⟩ := exists_last_entry held
    obtain ⟨reorder, earlier, final⟩ := exists_last_entry beside
    have key : utxoKey other also = utxoKey outpoint output := by
      rw [utxoKey, utxoKey, path_str_eq_iff.mpr ⟨address.symm, position.symm⟩]
    obtain ⟨root, leftRoot, rightRoot⟩ := agree order reorder
    rw [calculate_verkle_root_eq leftReached, last] at leftRoot
    rw [calculate_verkle_root_eq rightReached, final] at rightRoot
    have apart := collisionless order reorder outpoint output held
    rw [last, final] at apart
    exact populated_last_bound (outpoint, output) (other, also) key apart
      ((Except.ok.inj leftRoot).trans (Except.ok.inj rightRoot).symm)
  · intro determined order other
    refine ⟨_, calculate_verkle_root_eq leftReached order utxoSet, ?_⟩
    rw [calculate_verkle_root_eq rightReached, ← (populated_rooted (entries order utxoSet)).root,
      ← (populated_rooted (entries other utxoSet)).root]
    refine congrArg Except.ok (root_of_proven fun key => ?_)
    rw [(populated_lists _).proven, (populated_lists _).proven]
    refine lookup_perm ?_ ?_ key
    · intro entry member beside there sameKey
      obtain ⟨⟨outpoint, output⟩, listed, rfl⟩ := List.mem_map.mp (List.mem_reverse.mp member)
      obtain ⟨⟨another, also⟩, listedToo, rfl⟩ := List.mem_map.mp (List.mem_reverse.mp there)
      have held := mem_entries.mp listed
      have heldToo := mem_entries.mp listedToo
      have bytes := hashes ⟨outpoint, output, held, rfl⟩ ⟨another, also, heldToo, rfl⟩ sameKey
      have texts : pathStr outpoint output = pathStr another also :=
        Bytes.utf8_injective bytes
      obtain ⟨address, position⟩ := path_str_eq_iff.mp texts
      have value := determined outpoint output another also held heldToo address position
      exact congrArg (fun value : UInt64 => Bytes.leBytes 8 value.toNat) value
    · exact (List.reverse_perm _).trans (((entries_perm other order utxoSet).map utxoWrite).trans
        (List.reverse_perm _).symm)

end Populating

section Shared
open Weighing
open scoped Weighing

/-- An address. -/
def address : Hash := .replicate 0

/-- Two outputs to one address, each the first of its transaction. -/
def shared : UtxoSet :=
  ⟨Finmap.insert (.replicate 1, 0) ⟨255, address⟩ (Finmap.insert (.replicate 2, 0) ⟨511, address⟩ ∅)⟩

theorem shared_lookup (outpoint : OutPoint) :
    shared.utxos.lookup outpoint =
      if outpoint = (.replicate 1, 0) then some ⟨255, address⟩
      else if outpoint = (.replicate 2, 0) then some ⟨511, address⟩ else none := by
  rw [shared, FiniteMap.lookup_insert_ite, FiniteMap.lookup_insert_ite, Finmap.lookup_empty]

theorem shared_held {outpoint : OutPoint} {output : TxOutput} (held : shared.utxos.lookup outpoint = some output) :
    output.pubkeyHash = address ∧ outpoint.2 = 0 ∧ (output.value = 255 ∨ output.value = 511) := by
  rw [shared_lookup] at held
  split at held
  · rename_i same
    cases held
    exact ⟨rfl, congrArg Prod.snd same, .inl rfl⟩
  · split at held
    · rename_i same
      cases held
      exact ⟨rfl, congrArg Prod.snd same, .inr rfl⟩
    · cases held

/-- Both have one key. -/
theorem shared_key {outpoint : OutPoint} {output : TxOutput} (held : shared.utxos.lookup outpoint = some output) :
    utxoKey outpoint output = .replicate 48 := by
  obtain ⟨paid, position, _⟩ := shared_held held
  rw [utxoKey, pathStr, paid, position]
  exact Bytes32.ext (by decide +kernel)

/-- Either of them can come last. -/
theorem shared_entries (order : Enumeration OutPoint) :
    entries order shared = [((.replicate 1, 0), ⟨255, address⟩), ((.replicate 2, 0), ⟨511, address⟩)] ∨
      entries order shared = [((.replicate 2, 0), ⟨511, address⟩), ((.replicate 1, 0), ⟨255, address⟩)] := by
  have keys : (order.list shared.utxos.keys).Perm [(.replicate 1, 0), (.replicate 2, 0)] := by
    refine order.perm_of_members (by decide) fun outpoint => ?_
    rw [shared, FiniteMap.keys_insert, FiniteMap.keys_insert]
    simp
  have one : shared.utxos.lookup (.replicate 1, 0) = some ⟨255, address⟩ := shared_lookup _
  have two : shared.utxos.lookup (.replicate 2, 0) = some ⟨511, address⟩ :=
    (shared_lookup _).trans (if_neg (by decide))
  rw [entries]
  rcases List.perm_pair.mp keys with listed | listed
  · left
    rw [listed, List.filterMap_cons, one, List.filterMap_cons, two]
    rfl
  · right
    rw [listed, List.filterMap_cons, two, List.filterMap_cons, one]
    rfl

/-- The tree holds the value of the last. -/
theorem shared_holds {order : Enumeration OutPoint} (before : List (OutPoint × TxOutput)) {last : OutPoint × TxOutput}
    (listed : entries order shared = before ++ [last]) :
    Holds (populated (before ++ [last])).contents [(.replicate 48, Bytes.leBytes 8 last.2.value.toNat)] := by
  have keyed : ∀ entry ∈ before ++ [last], utxoKey entry.1 entry.2 = .replicate 48 :=
    fun entry member => shared_key (mem_entries.mp (listed ▸ member))
  have there : last ∈ entries order shared := by simp [listed]
  have plain : 255 ∉ (Bytes32.replicate 48).bytes := by decide
  refine holds_lookup (by simp) (List.forall_mem_singleton.mpr plain) ?_ (by simp) fun key => ?_
  · rcases (shared_held (mem_entries.mp there)).2.2 with same | same
    · rw [same]
      decide +kernel
    · rw [same]
      decide +kernel
  · rw [List.lookup_cons, List.lookup_nil]
    by_cases same : key = .replicate 48
    · rw [same, beq_self_eq_true, ← keyed last (by simp), populated_last]
    · rw [beq_eq_false_iff_ne.mpr same, (populated_lists _).proven, List.lookup_eq_none_iff]
      intro write member
      obtain ⟨entry, there, rfl⟩ := List.mem_map.mp (List.mem_reverse.mp member)
      rw [utxoWrite, keyed entry there]
      exact bne_iff_ne.mpr same

/-- Nothing collides in the proofs of the two orders. -/
theorem shared_collisionless (order other : Enumeration OutPoint) (outpoint : OutPoint) (output : TxOutput)
    (held : shared.utxos.lookup outpoint = some output) :
    Collisionless (storageProof (populated (entries order shared)).contents (utxoKey outpoint output) none)
      (storageProof (populated (entries other shared)).contents (utxoKey outpoint output) none) := by
  rw [shared_key held]
  rcases shared_entries order with left | left
  · have large := shared_holds [_] left
    rcases shared_entries other with right | right
    · rw [left, right]
      exact large.collisionless large _ (.inl rfl)
    · have small := shared_holds [_] right
      rw [left, right]
      refine large.collisionless small _ (.inr fun node below on also => ?_)
      exact numbers_apart (by decide +kernel) node below on also
  · have small := shared_holds [_] left
    rcases shared_entries other with right | right
    · have large := shared_holds [_] right
      rw [left, right]
      refine small.collisionless large _ (.inr fun node below on also => ?_)
      exact numbers_apart (by decide +kernel) node below on also
    · rw [left, right]
      exact small.collisionless small _ (.inl rfl)

theorem shared_hashes : Set.InjOn Hash.new {text | ∃ outpoint output, shared.utxos.lookup outpoint = some output ∧
    text = (pathStr outpoint output).toUTF8.toList} := by
  rintro _ ⟨outpoint, output, held, rfl⟩ _ ⟨other, also, beside, rfl⟩ _
  obtain ⟨paid, position, _⟩ := shared_held held
  obtain ⟨paidToo, positionToo, _⟩ := shared_held beside
  rw [path_str_eq_iff.mpr ⟨paid.trans paidToo.symm, position.trans positionToo.symm⟩]

theorem reached_fresh : Reached (fresh (∅ : MemoryStorage)) := ⟨∅, _, [], new_ok _, rfl⟩

/-- Two orders of one set have two roots. -/
theorem iterated_roots_differ :
    (Set.InjOn Hash.new {text | ∃ outpoint output, shared.utxos.lookup outpoint = some output ∧
      text = (pathStr outpoint output).toUTF8.toList}) ∧
    (∀ order other outpoint output, shared.utxos.lookup outpoint = some output →
      Collisionless (storageProof (populated (entries order shared)).contents (utxoKey outpoint output) none)
        (storageProof (populated (entries other shared)).contents (utxoKey outpoint output) none)) ∧
    ∃ start, VerkleTree.new (∅ : MemoryStorage) = .ok start ∧ ∃ order other root also,
      (start.calculateVerkleRoot order shared).1 = .ok root ∧
        (start.calculateVerkleRoot other shared).1 = .ok also ∧ root ≠ also := by
  refine ⟨shared_hashes, shared_collisionless, _, new_ok _, ?_⟩
  have one : shared.utxos.lookup (.replicate 1, 0) = some ⟨255, address⟩ := shared_lookup _
  have two : shared.utxos.lookup (.replicate 2, 0) = some ⟨511, address⟩ :=
    (shared_lookup _).trans (if_neg (by decide))
  obtain ⟨order, before, last⟩ := exists_last_entry one
  obtain ⟨other, earlier, final⟩ := exists_last_entry two
  refine ⟨order, other, _, _, calculate_verkle_root_eq reached_fresh order shared,
    calculate_verkle_root_eq reached_fresh other shared, fun same => ?_⟩
  have apart := shared_collisionless order other _ _ one
  rw [last, final] at same apart
  have values : (255 : UInt64) = 511 :=
    populated_last_bound ((.replicate 1, 0), ⟨255, address⟩) ((.replicate 2, 0), ⟨511, address⟩)
      ((shared_key two).trans (shared_key one).symm) apart same
  exact absurd values (by decide)

/-- What decides about them. -/
theorem shared_decided :
    (∀ order other, ∃ root, ((fresh (∅ : MemoryStorage)).calculateVerkleRoot order shared).1 = .ok root ∧
        ((fresh (∅ : MemoryStorage)).calculateVerkleRoot other shared).1 = .ok root) ↔
      ∀ outpoint output other also, shared.utxos.lookup outpoint = some output →
        shared.utxos.lookup other = some also → output.pubkeyHash = also.pubkeyHash → outpoint.2 = other.2 →
          output.value = also.value :=
  iterated_roots_agree_iff reached_fresh reached_fresh shared shared_hashes shared_collisionless

end Shared
end Klomang.Crypto
