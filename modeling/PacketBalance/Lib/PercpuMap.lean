import Mathlib.Logic.Function.Basic
/-!
# Per-CPU hash maps

A hash map whose keys are shared between CPUs while every CPU has its own copy of
the value.  Storing under an absent key creates the key for all CPUs at once and
gives the others a blank copy; storing under a present key touches one copy only.
-/

/-- For each key in the map, one value per CPU. -/
structure PercpuMap (κ ν : Type) where
  copies : κ → Option (Nat → ν)

namespace PercpuMap

variable {κ ν : Type}

def empty : PercpuMap κ ν := ⟨fun _ => none⟩

def lookup (m : PercpuMap κ ν) (cpu : Nat) (k : κ) : Option ν :=
  (m.copies k).map fun copy => copy cpu

variable [DecidableEq κ]

/-- Store `v` from `cpu`; a key that was absent is created with `blank` copies. -/
def update (m : PercpuMap κ ν) (blank : ν) (cpu : Nat) (k : κ) (v : ν) : PercpuMap κ ν :=
  ⟨Function.update m.copies k
    (some (Function.update ((m.copies k).getD fun _ => blank) cpu v))⟩

def evict (m : PercpuMap κ ν) (k : κ) : PercpuMap κ ν :=
  ⟨Function.update m.copies k none⟩

variable (m : PercpuMap κ ν) (blank v : ν) (cpu : Nat) (k : κ)

theorem lookup_update (c : Nat) (k' : κ) :
    (m.update blank cpu k v).lookup c k' =
      if k' = k then some (if c = cpu then v else (m.lookup c k).getD blank)
      else m.lookup c k' := by
  by_cases hk : k' = k
  · subst hk
    by_cases hc : c = cpu
    · simp [lookup, update, hc]
    · cases hcopy : m.copies k' <;> simp [lookup, update, hc, hcopy]
  · simp [lookup, update, hk]

@[simp] theorem lookup_update_self : (m.update blank cpu k v).lookup cpu k = some v := by
  simp [lookup, update]

theorem lookup_update_of_ne_key {c : Nat} {k' : κ} (h : k' ≠ k) :
    (m.update blank cpu k v).lookup c k' = m.lookup c k' := by
  simp [lookup, update, h]

theorem lookup_update_of_ne_cpu {c : Nat} (h : c ≠ cpu) {w : ν} (hw : m.lookup c k = some w) :
    (m.update blank cpu k v).lookup c k = some w := by
  obtain ⟨copy, hcopy, rfl⟩ := Option.map_eq_some_iff.mp hw
  simp [lookup, update, hcopy, h]

theorem lookup_evict (c : Nat) (k' : κ) :
    (m.evict k).lookup c k' = if k' = k then none else m.lookup c k' := by
  by_cases hk : k' = k <;> simp [lookup, evict, hk]

theorem lookup_evict_of_ne {c : Nat} {k' : κ} (h : k' ≠ k) :
    (m.evict k).lookup c k' = m.lookup c k' := by
  simp [lookup, evict, h]

end PercpuMap
