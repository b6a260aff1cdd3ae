import AppendStore.Proofs.Disk.Directory

/-!
# The bytes behind the names

What is written to one byte store of a disk shows in that store and in no other
(`Disk.store_setStore`, `Disk.store_setStore_of_ne`), and in no name. A new file leaves the
other stores as they are (`Disk.Grown.store_old`).
-/

namespace AppendStore

namespace Disk

variable {d : Disk} {r r' : StoreRef} {b : ByteStore}

theorem store_setStore (h : r.index < d.stores.size) : (d.setStore r b).store r = b := by
  rw [store, setStore, Array.getD_eq_getD_getElem?, Array.getElem?_setIfInBounds_self_of_lt h]
  rfl

theorem store_setStore_of_ne (h : r ≠ r') : (d.setStore r b).store r' = d.store r' := by
  have hindex : r.index ≠ r'.index := by
    intro heq
    cases r
    cases r'
    exact h (congrArg StoreRef.mk heq)
  rw [store, setStore, store, Array.getD_eq_getD_getElem?, Array.getD_eq_getD_getElem?,
    Array.getElem?_setIfInBounds_ne hindex]

theorem setStore_store (d : Disk) (r : StoreRef) : d.setStore r (d.store r) = d := by
  have hstores : d.stores.setIfInBounds r.index (d.store r) = d.stores := by
    apply Array.ext_getElem?
    intro i
    rw [Array.getElem?_setIfInBounds]
    by_cases hi : r.index = i
    · subst hi
      rw [if_pos rfl]
      by_cases hlt : r.index < d.stores.size
      · rw [if_pos hlt, store, Array.getD_eq_getD_getElem?, Array.getElem?_eq_getElem hlt]
        rfl
      · rw [if_neg hlt, Array.getElem?_eq_none (Nat.le_of_not_lt hlt)]
    · rw [if_neg hi]
  rw [setStore, hstores]

theorem Leads.setStore {dir : Path} {trail : List DirectoryRef} (h : d.Leads dir trail)
    (r : StoreRef) (b : ByteStore) : (d.setStore r b).Leads dir trail :=
  have hextends : d.Extends (d.setStore r b) := .of_directories rfl
  hextends.leads h

namespace Grown

variable {d' : Disk} {parent : DirectoryRef} {name : String} {s : ByteStore}

theorem lt_size (h : d.Grown parent name s d') : d.stores.size < d'.stores.size := by
  rw [h.stores_eq, Array.size_push]
  exact Nat.lt_succ_self _

theorem store_new (h : d.Grown parent name s d') : d'.store ⟨d.stores.size⟩ = s := by
  rw [store, h.stores_eq, Array.getD_eq_getD_getElem?, Array.getElem?_push_size]
  rfl

theorem store_old (h : d.Grown parent name s d') (hr : r.index < d.stores.size) :
    d'.store r = d.store r := by
  rw [store, store, h.stores_eq, Array.getD_eq_getD_getElem?, Array.getD_eq_getD_getElem?,
    Array.getElem?_push_lt hr, Array.getElem?_eq_getElem hr]

end Grown

end Disk

end AppendStore
