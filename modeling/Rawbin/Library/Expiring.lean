import Mathlib.Logic.Function.Basic
import Mathlib.Order.Lattice

/-!
# Key-value stores whose entries expire

An entry may carry the instant from which on it no longer exists. Expired entries are not
removed; a read at or after the deadline does not see them. The type of a value may depend on
its key.
-/

/-- A value and the instant, if any, at which it disappears. -/
structure Entry (T ν : Type) where
  value : ν
  deadline : Option T

/-- A store from keys to entries, over instants `T`. -/
def Expiring (T κ : Type) (ν : κ → Type) := (k : κ) → Option (Entry T (ν k))

namespace Expiring

variable {T κ : Type} {ν : κ → Type}

def empty : Expiring T κ ν := fun _ => none

instance : Inhabited (Expiring T κ ν) := ⟨empty⟩

section
variable [LinearOrder T]

/-- The entry visible at `now`. -/
def entry (s : Expiring T κ ν) (now : T) (k : κ) : Option (Entry T (ν k)) :=
  (s k).filter fun e => e.deadline.all fun d => decide (now < d)

def get (s : Expiring T κ ν) (now : T) (k : κ) : Option (ν k) := (s.entry now k).map Entry.value

end

variable [DecidableEq κ]

/-- Store a value, with or without a deadline, over whatever the key held. -/
def set (s : Expiring T κ ν) (k : κ) (v : ν k) (deadline : Option T) : Expiring T κ ν :=
  Function.update s k (some ⟨v, deadline⟩)

/-- Delete several keys at once. -/
def delAll (s : Expiring T κ ν) (ks : List κ) : Expiring T κ ν :=
  fun k => if k ∈ ks then none else s k

/-- Another entry, or none, under a key. -/
def put (s : Expiring T κ ν) (k : κ) (e : Option (Entry T (ν k))) : Expiring T κ ν :=
  Function.update s k e

variable {s : Expiring T κ ν} {k k' : κ}

theorem put_self (s : Expiring T κ ν) (k : κ) (e : Option (Entry T (ν k))) : s.put k e k = e :=
  Function.update_self ..

theorem put_ne {e : Option (Entry T (ν k))} (h : k' ≠ k) : s.put k e k' = s k' :=
  Function.update_of_ne h ..

theorem put_eq_self (s : Expiring T κ ν) (k : κ) : s.put k (s k) = s := Function.update_eq_self ..

@[simp] theorem set_self : s.set k v d k = some ⟨v, d⟩ := Function.update_self ..

@[simp] theorem set_ne (h : k' ≠ k) : s.set k v d k' = s k' := Function.update_of_ne h ..

theorem delAll_of_mem {ks : List κ} (h : k ∈ ks) : s.delAll ks k = none := if_pos h

theorem delAll_of_notMem {ks : List κ} (h : k ∉ ks) : s.delAll ks k = s k := if_neg h

variable [LinearOrder T] {now now' : T}

omit [DecidableEq κ]

theorem entry_eq_some_iff : s.entry now k = some e ↔ s k = some e ∧ ∀ d ∈ e.deadline, now < d := by
  simp [entry, Option.filter_eq_some_iff, Option.all_eq_true]

theorem get_of_entry (h : s.entry now k = some e) : s.get now k = some e.value := by
  rw [get, h]; rfl

theorem get_eq_some_iff :
    s.get now k = some v ↔ ∃ e, s k = some e ∧ e.value = v ∧ ∀ d ∈ e.deadline, now < d := by
  simp only [get, Option.map_eq_some_iff, entry_eq_some_iff]
  exact ⟨fun ⟨e, ⟨h, hd⟩, hv⟩ => ⟨e, h, hv, hd⟩, fun ⟨e, h, hv, hd⟩ => ⟨e, ⟨h, hd⟩, hv⟩⟩

theorem get_congr {s' : Expiring T κ ν} (h : s k = s' k) : s.get now k = s'.get now k := by
  rw [get, get, entry, entry, h]

theorem get_of_none (h : s k = none) : s.get now k = none := by
  rw [get, entry, h]; rfl

/-- What is visible at an instant was visible before, if nothing was stored since. -/
theorem get_of_le (hle : now ≤ now') (h : s.get now' k = some v) : s.get now k = some v := by
  obtain ⟨e, he, hv, hd⟩ := get_eq_some_iff.mp h
  exact get_eq_some_iff.mpr ⟨e, he, hv, fun d hm => lt_of_le_of_lt hle (hd d hm)⟩

end Expiring
