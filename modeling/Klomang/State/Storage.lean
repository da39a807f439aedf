import Klomang.Lib.FiniteMap

/-! `core/state/storage.rs`: the key-value store under the state tree. -/
namespace Klomang

/-- The `Storage` trait: a write changes what is read under its own key only. -/
class Storage (S : Type) where
  get : S → List UInt8 → Option (List UInt8)
  put : S → List UInt8 → List UInt8 → S
  delete : S → List UInt8 → S
  clear : S → S
  get_put : ∀ storage key value other,
    get (put storage key value) other = if other = key then some value else get storage other
  get_delete : ∀ storage key other,
    get (delete storage key) other = if other = key then none else get storage other
  get_clear : ∀ storage other, get (clear storage) other = none

/-- `MemoryStorage`: a hash map. -/
abbrev MemoryStorage := FiniteMap (List UInt8) (List UInt8)

instance : Storage MemoryStorage where
  get storage key := storage.lookup key
  put storage key value := storage.insert key value
  delete storage key := storage.erase key
  clear _ := ∅
  get_put storage key value other := FiniteMap.lookup_insert_ite storage key other value
  get_delete := FiniteMap.lookup_erase_ite
  get_clear _ _ := Finmap.lookup_empty _

end Klomang
