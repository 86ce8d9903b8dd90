/-
# What is asked of a storage

Nothing is known about a storage but what is asked of it here, in terms of its contents: the
bytes under each key. A storage is a map when it does as it is told and never fails. It is
local when it may refuse any call, changes nothing when it does, and otherwise changes only
the key of the call. It is readable when in addition reading gives what is there.

The storage in memory is a map. Guarding some of its keys makes it refuse writes to them, and
then it is still local and readable.
-/

import Mathlib.Logic.Function.Basic
import ParallelLoop.Buffer.Storage

namespace ParallelLoop

/-- What is found among the entries of all keys but one. -/
theorem lookup_filter_key {α : Type} (entries : List (String × α)) (key other : String) :
    (entries.filter fun entry => entry.1 != key).lookup other =
      if other = key then none else entries.lookup other := by
  induction entries with
  | nil => simp
  | cons entry entries ih =>
    obtain ⟨name, value⟩ := entry
    by_cases removed : name = key
    · rw [List.filter_cons_of_neg (by simp [removed]), ih, List.lookup_cons, removed]
      by_cases same : other = key
      · rw [if_pos same, if_pos same]
      · rw [if_neg same, if_neg same, beq_eq_false_iff_ne.mpr same]
    · rw [List.filter_cons_of_pos (by simp [removed]), List.lookup_cons, List.lookup_cons, ih]
      by_cases same : other = name
      · have kept : other ≠ key := same ▸ removed
        rw [beq_iff_eq.mpr same, if_neg kept, if_neg kept]
      · rw [beq_eq_false_iff_ne.mpr same]

namespace BlockStorage

variable {σ : Type} [BlockStorage σ] {contents : σ → String → Option Bytes}

/-- The storage behaves as the map of its contents and never fails. -/
structure IsMap (contents : σ → String → Option Bytes) : Prop where
  write_spec : ∀ storage key bytes, ∃ after,
    write storage key bytes = (.ok (), after) ∧
      contents after = Function.update (contents storage) key (some bytes)
  read_found : ∀ storage key bytes, contents storage key = some bytes → ∃ after,
    read storage key = (.ok bytes, after) ∧ contents after = contents storage
  read_missing : ∀ storage key, contents storage key = none → ∃ fault after,
    read storage key = (.error fault, after) ∧ fault.kindName = "NotFound" ∧
      contents after = contents storage
  delete_spec : ∀ storage key, ∃ found after,
    delete storage key = (.ok found, after) ∧
      contents after = Function.update (contents storage) key none

/-- A call that is refused changes nothing, and one that is accepted changes only its own key.
Which calls are refused is left open. -/
structure IsLocal (contents : σ → String → Option Bytes) : Prop where
  write_accepted : ∀ {storage after key bytes}, write storage key bytes = (.ok (), after) →
    contents after = Function.update (contents storage) key (some bytes)
  write_refused : ∀ {storage after key bytes fault},
    write storage key bytes = (.error fault, after) → contents after = contents storage
  read_accepted : ∀ {storage after key bytes}, read storage key = (.ok bytes, after) →
    ∀ other, other ≠ key → contents after other = contents storage other
  read_refused : ∀ {storage after key fault}, read storage key = (.error fault, after) →
    contents after = contents storage
  delete_accepted : ∀ {storage after key found}, delete storage key = (.ok found, after) →
    ∀ other, other ≠ key → contents after other = contents storage other
  delete_refused : ∀ {storage after key fault}, delete storage key = (.error fault, after) →
    contents after = contents storage

namespace IsLocal

variable (isLocal : IsLocal contents) {storage after : σ} {key other : String}
include isLocal

theorem write_other {bytes : Bytes} {outcome : Except StorageFault Unit}
    (called : write storage key bytes = (outcome, after)) (apart : other ≠ key) :
    contents after other = contents storage other := by
  cases outcome with
  | ok done => rw [isLocal.write_accepted called, Function.update_of_ne apart]
  | error fault => rw [isLocal.write_refused called]

theorem read_other {outcome : Except StorageFault Bytes}
    (called : read storage key = (outcome, after)) (apart : other ≠ key) :
    contents after other = contents storage other := by
  cases outcome with
  | ok bytes => exact isLocal.read_accepted called other apart
  | error fault => rw [isLocal.read_refused called]

theorem delete_other {outcome : Except StorageFault Bool}
    (called : delete storage key = (outcome, after)) (apart : other ≠ key) :
    contents after other = contents storage other := by
  cases outcome with
  | ok found => exact isLocal.delete_accepted called other apart
  | error fault => rw [isLocal.delete_refused called]

end IsLocal

/-- Reading, at least, is not refused: it gives what is there, or the fault that goes with a key
under which there is nothing, which is not the one of bytes that are no block. -/
structure IsReadable (contents : σ → String → Option Bytes) (absent : String → StorageFault) :
    Prop extends IsLocal contents where
  read_eq : ∀ storage key, (read storage key).1 =
    match contents storage key with
    | some bytes => .ok bytes
    | none => .error (absent key)
  absent_ne : ∀ key, absent key ≠ .undecodable

namespace IsMap

variable (isMap : IsMap contents) {storage after : σ} {key : String}
include isMap

/-! The calls of a map, told from what they came to. -/

theorem not_write_error {bytes : Bytes} {fault : StorageFault} :
    write storage key bytes ≠ (.error fault, after) := by
  intro called
  obtain ⟨written, done, -⟩ := isMap.write_spec storage key bytes
  rw [called] at done
  cases done

theorem write_accepted {bytes : Bytes} (called : write storage key bytes = (.ok (), after)) :
    contents after = Function.update (contents storage) key (some bytes) := by
  obtain ⟨written, done, stored⟩ := isMap.write_spec storage key bytes
  rw [called] at done
  cases done
  exact stored

theorem read_accepted {bytes : Bytes} (called : read storage key = (.ok bytes, after)) :
    contents storage key = some bytes ∧ contents after = contents storage := by
  cases found : contents storage key with
  | some held =>
    obtain ⟨given, done, same⟩ := isMap.read_found storage key held found
    rw [called] at done
    cases done
    exact ⟨rfl, same⟩
  | none =>
    obtain ⟨fault, given, done, -⟩ := isMap.read_missing storage key found
    rw [called] at done
    cases done

theorem read_refused {fault : StorageFault} (called : read storage key = (.error fault, after)) :
    contents storage key = none ∧ fault.kindName = "NotFound" ∧
      contents after = contents storage := by
  cases found : contents storage key with
  | some held =>
    obtain ⟨given, done, -⟩ := isMap.read_found storage key held found
    rw [called] at done
    cases done
  | none =>
    obtain ⟨told, given, done, notFound, same⟩ := isMap.read_missing storage key found
    rw [called] at done
    cases done
    exact ⟨rfl, notFound, same⟩

theorem not_delete_error {fault : StorageFault} : delete storage key ≠ (.error fault, after) := by
  intro called
  obtain ⟨found, removed, done, -⟩ := isMap.delete_spec storage key
  rw [called] at done
  cases done

theorem delete_accepted {found : Bool} (called : delete storage key = (.ok found, after)) :
    contents after = Function.update (contents storage) key none := by
  obtain ⟨held, removed, done, stored⟩ := isMap.delete_spec storage key
  rw [called] at done
  cases done
  exact stored

/-- A map never refuses anything but to read what is not there. -/
theorem isLocal : IsLocal contents where
  write_accepted called := isMap.write_accepted called
  write_refused called := absurd called isMap.not_write_error
  read_accepted called other _ := by rw [(isMap.read_accepted called).2]
  read_refused called := (isMap.read_refused called).2.2
  delete_accepted called other apart := by
    rw [isMap.delete_accepted called, Function.update_of_ne apart]
  delete_refused called := absurd called isMap.not_delete_error

end IsMap

/-- Guarding keys adds refusals only. -/
theorem IsReadable.guarded {absent : String → StorageFault} (readable : IsReadable contents absent) :
    IsReadable (fun guarded : GuardedStorage σ => contents guarded.storage) absent where
  write_accepted {guarded after key bytes} called := by
    dsimp only [write] at called
    split at called
    next => cases called
    next =>
      obtain ⟨accepted, rfl⟩ := Prod.mk.inj called
      exact readable.write_accepted (Prod.ext accepted rfl)
  write_refused {guarded after key bytes fault} called := by
    dsimp only [write] at called
    split at called
    next =>
      obtain ⟨-, rfl⟩ := Prod.mk.inj called
      rfl
    next =>
      obtain ⟨refused, rfl⟩ := Prod.mk.inj called
      exact readable.write_refused (Prod.ext refused rfl)
  read_accepted {guarded after key bytes} called := by
    obtain ⟨accepted, rfl⟩ := Prod.mk.inj called
    exact readable.read_accepted (Prod.ext accepted rfl)
  read_refused {guarded after key fault} called := by
    obtain ⟨refused, rfl⟩ := Prod.mk.inj called
    exact readable.read_refused (Prod.ext refused rfl)
  delete_accepted {guarded after key found} called := by
    obtain ⟨accepted, rfl⟩ := Prod.mk.inj called
    exact readable.delete_accepted (Prod.ext accepted rfl)
  delete_refused {guarded after key fault} called := by
    obtain ⟨refused, rfl⟩ := Prod.mk.inj called
    exact readable.delete_refused (Prod.ext refused rfl)
  read_eq guarded key := readable.read_eq guarded.storage key
  absent_ne := readable.absent_ne

end BlockStorage

namespace MemoryStorage

theorem get?_cons (name key : String) (bytes : Bytes) (entries : List (String × Bytes)) :
    get? { entries := (name, bytes) :: entries } key =
      if key = name then some bytes else get? { entries } key := by
  unfold get?
  by_cases same : key = name
  · rw [same, List.lookup_cons_self, if_pos rfl]
  · rw [List.lookup_cons, beq_eq_false_iff_ne.mpr same, if_neg same]

theorem get?_erase (storage : MemoryStorage) (key other : String) :
    (storage.erase key).get? other = if other = key then none else storage.get? other :=
  lookup_filter_key storage.entries key other

theorem get?_insert (storage : MemoryStorage) (key other : String) (bytes : Bytes) :
    (storage.insert key bytes).get? other =
      if other = key then some bytes else storage.get? other := by
  unfold insert
  rw [get?_cons]
  split
  next => rfl
  next different => exact (storage.get?_erase key other).trans (if_neg different)

/-- Storage in memory is a map. -/
theorem isMap : BlockStorage.IsMap get? where
  write_spec storage key bytes := by
    refine ⟨storage.insert key bytes, rfl, ?_⟩
    funext other
    rw [get?_insert, Function.update_apply]
  read_found storage key bytes found := by
    refine ⟨storage, ?_, rfl⟩
    simp only [BlockStorage.read, found]
  read_missing storage key missing := by
    refine ⟨.missing, storage, ?_, rfl, rfl⟩
    simp only [BlockStorage.read, missing]
  delete_spec storage key := by
    refine ⟨_, storage.erase key, rfl, ?_⟩
    funext other
    rw [get?_erase, Function.update_apply]

theorem isReadable : BlockStorage.IsReadable get? fun _ => .missing where
  toIsLocal := isMap.isLocal
  read_eq storage key := by
    cases found : storage.get? key <;> simp only [BlockStorage.read, found]
  absent_ne _ := by decide

end MemoryStorage

end ParallelLoop
