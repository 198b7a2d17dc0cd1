import Atlas.ControlPlane.Gateway
import Mathlib.Logic.Function.Basic

/-!
# Storages with a table: `memory_system/storage/interface.py`

What the engines may rely on: a storage keeps its records under their ids, in a table.

* `Keyed` : `retrieve` reads the entry of an id or nothing, `store` may put the record under its id, `delete` may take
  the entry of an id out; each of them may raise instead, done or not done;
* `Upserted`, `Removed` : what a call makes of the table;
* `Answering` : a lookup that gets through returns the entry.
-/

namespace Atlas.ControlPlane
open Raising

/-- The records of a storage by their ids. -/
abbrev Table (α : Type) := String → Option (MemoryRecord α)

variable {α τ : Type}

namespace Table

/-- The record has been put under its id, or nothing has been done. -/
def Upserted (record : MemoryRecord α) (table table' : Table α) : Prop :=
  table' = table ∨ table' = Function.update table record.memoryId (some record)

/-- The entry has been taken out, or nothing has been done. -/
def Removed (memoryId : String) (table table' : Table α) : Prop :=
  table' = table ∨ table' = Function.update table memoryId none

end Table

/-- A storage with a table. -/
structure Keyed (storage : Storage α τ) (table : τ → Table α) : Prop where
  store : ∀ record s, wp (storage.store record) (fun _ s' => Table.Upserted record (table s) (table s'))
    (fun _ s' => Table.Upserted record (table s) (table s')) s
  retrieve : ∀ memoryId s, wp (storage.retrieve memoryId)
    (fun found s' => table s' = table s ∧ ∀ record, found = some record → table s memoryId = some record)
    (fun _ s' => table s' = table s) s
  delete : ∀ memoryId s, wp (storage.delete memoryId) (fun _ s' => Table.Removed memoryId (table s) (table s'))
    (fun _ s' => Table.Removed memoryId (table s) (table s')) s

/-- A storage that returns the entry of an id where it `answers`. -/
def Answering (storage : Storage α τ) (table : τ → Table α) (answers : String → τ → Prop) : Prop :=
  ∀ memoryId s, answers memoryId s →
    wp (storage.retrieve memoryId) (fun found _ => found = table s memoryId) (fun _ _ => False) s

end Atlas.ControlPlane
