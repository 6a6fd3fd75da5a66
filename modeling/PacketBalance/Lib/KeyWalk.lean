import Mathlib.Data.List.Basic
import Mathlib.Tactic.Common
/-!
# Walking a map key by key

A reader walks a map by asking for the key behind the one it holds.  Others may change the map
between two calls, and a map that no longer has the key starts again with its first one, so
that only a bound on the turns ends the walk.  On a map that stays as it is, a walk with enough
turns meets every key once, in the order of the map.
-/

/-- A map as its reader sees it, with the state that is behind it. -/
structure KeyedMap (κ ν W : Type) where
  /-- The key behind a key, or the first one. -/
  next : Option κ → W → Option κ × W
  read : κ → W → Option ν × W

namespace KeyedMap

variable {κ ν W β : Type}

/-- At most `n` turns of a walk that goes on while `go` and there is a next key. -/
def walk (T : KeyedMap κ ν W) (go : β → Bool) (visit : κ → β → W → β × W) :
    Nat → Option κ → β → W → β × W
  | 0, _, b, w => (b, w)
  | n + 1, prev, b, w =>
      if go b then
        match T.next prev w with
        | (none, w) => (b, w)
        | (some k, w) => walk T go visit n (some k) (visit k b w).1 (visit k b w).2
      else (b, w)

section Walk

variable {T : KeyedMap κ ν W} {go : β → Bool} {visit : κ → β → W → β × W}

theorem walk_induct {P : β → W → Prop} (hnext : ∀ prev b w, P b w → P b (T.next prev w).2)
    (hvisit : ∀ k b w, go b = true → P b w → P (visit k b w).1 (visit k b w).2) (n : Nat)
    (prev : Option κ) {b : β} {w : W} (h : P b w) :
    P (walk T go visit n prev b w).1 (walk T go visit n prev b w).2 := by
  induction n generalizing prev b w with
  | zero => exact h
  | succ n ih =>
      rw [walk]
      split
      · rename_i hgo
        have hw := hnext prev b w h
        split
        · rename_i w' heq
          rwa [heq] at hw
        · rename_i k w' heq
          rw [heq] at hw
          exact ih _ (hvisit k b w' hgo hw)
      · exact h

end Walk

/-! ## Counting the calls -/

/-- The same map, with a count of the calls of `next` that gave a key. -/
def counted (T : KeyedMap κ ν W) : KeyedMap κ ν (W × Nat) where
  next prev w :=
    ((T.next prev w.1).1, (T.next prev w.1).2,
      if (T.next prev w.1).1.isSome then w.2 + 1 else w.2)
  read k w := ((T.read k w.1).1, (T.read k w.1).2, w.2)

theorem walk_counted {T : KeyedMap κ ν W} {go : β → Bool} {visit : κ → β → W → β × W}
    {visit' : κ → β → W × Nat → β × (W × Nat)}
    (hvisit : ∀ k b w c, (visit' k b (w, c)).1 = (visit k b w).1 ∧
      (visit' k b (w, c)).2.1 = (visit k b w).2) (n : Nat) (prev : Option κ) (b : β) (w : W)
    (c : Nat) :
    (walk T.counted go visit' n prev b (w, c)).1 = (walk T go visit n prev b w).1 := by
  induction n generalizing prev b w c with
  | zero => rfl
  | succ n ih =>
      rw [walk, walk]
      split
      · have hnext : T.counted.next prev (w, c) = ((T.next prev w).1, (T.next prev w).2,
            if (T.next prev w).1.isSome then c + 1 else c) := rfl
        rw [hnext]
        obtain ⟨_ | k, w'⟩ := T.next prev w
        · rfl
        · obtain ⟨hfst, hsnd⟩ := hvisit k b w' (c + 1)
          simp only [Option.isSome_some, if_true]
          rw [← hfst, ← hsnd]
          exact ih _ _ _ _
      · rfl

theorem count_walk_le {T : KeyedMap κ ν W} {go : β → Bool}
    {visit : κ → β → W × Nat → β × (W × Nat)} (hvisit : ∀ k b w, (visit k b w).2.2 = w.2)
    (n : Nat) (prev : Option κ) (b : β) (w : W × Nat) :
    (walk T.counted go visit n prev b w).2.2 ≤ w.2 + n := by
  induction n generalizing prev b w with
  | zero => exact Nat.le_refl _
  | succ n ih =>
      rw [walk]
      split
      · have hnext : T.counted.next prev w = ((T.next prev w.1).1, (T.next prev w.1).2,
            if (T.next prev w.1).1.isSome then w.2 + 1 else w.2) := rfl
        rw [hnext]
        cases (T.next prev w.1).1 with
        | none => simp
        | some k =>
            simp only [Option.isSome_some, if_true]
            have hrest := ih (some k) (visit k b ((T.next prev w.1).2, w.2 + 1)).1
              (visit k b ((T.next prev w.1).2, w.2 + 1)).2
            rw [hvisit] at hrest
            omega
      · exact Nat.le_add_right _ _

/-! ## A map that does not change -/

variable [DecidableEq κ]

/-- The key behind a key in an enumeration; a key that is not in it is followed by the first. -/
def following (keys : List κ) : Option κ → Option κ
  | none => keys.head?
  | some k =>
      match keys.dropWhile (· ≠ k) with
      | [] => keys.head?
      | _ :: rest => rest.head?

/-- A map with fixed contents, which enumerates its keys in a fixed order. -/
def fixed (contents : κ → Option ν) (keys : List κ) : KeyedMap κ ν Unit where
  next prev _ := (following keys prev, ())
  read k _ := (contents k, ())

theorem following_getLast? {done todo : List κ} (h : (done ++ todo).Nodup) :
    following (done ++ todo) done.getLast? = todo.head? := by
  rcases List.eq_nil_or_concat done with rfl | ⟨front, k, rfl⟩
  · rfl
  · rw [List.concat_eq_append] at h ⊢
    rw [List.append_assoc] at h ⊢
    have hfront : ∀ x ∈ front, decide (x ≠ k) = true := by
      intro x hx
      have hne := List.nodup_append.mp h |>.2.2 x hx k (by simp)
      simpa using hne
    have hlast : (front ++ [k]).getLast? = some k := List.getLast?_concat
    rw [hlast, following, List.dropWhile_append_of_pos hfront]
    simp

omit [DecidableEq κ] in
theorem foldl_of_not_go {go : β → Bool} {f : β → κ → β} {b : β} (h : go b = false)
    (keys : List κ) : keys.foldl (fun b k => if go b then f b k else b) b = b := by
  induction keys with
  | nil => rfl
  | cons k keys ih => simpa [h] using ih

/-- With enough turns the walk visits the keys in order, until it does not want to go on. -/
theorem walk_fixed {contents : κ → Option ν} {keys done todo : List κ} {go : β → Bool}
    {visit : κ → β → Unit → β × Unit} (hkeys : keys = done ++ todo) (hnodup : keys.Nodup) {n : Nat}
    (hn : todo.length ≤ n) (b : β) :
    (walk (fixed contents keys) go visit n done.getLast? b ()).1 =
      todo.foldl (fun b k => if go b then (visit k b ()).1 else b) b := by
  induction todo generalizing done n b with
  | nil =>
      cases n with
      | zero => rfl
      | succ n =>
          have hnext : following keys done.getLast? = none := by
            subst hkeys
            exact following_getLast? hnodup
          rw [walk]
          split <;> simp [fixed, hnext]
  | cons k todo ih =>
      cases n with
      | zero => simp at hn
      | succ n =>
          have hnext : following keys done.getLast? = some k := by
            subst hkeys
            exact following_getLast? hnodup
          rw [walk, List.foldl_cons]
          by_cases hgo : go b = true
          · have hkeys' : keys = (done ++ [k]) ++ todo := by simpa using hkeys
            have hrest := ih hkeys' (by simpa using hn) (visit k b ()).1
            rw [List.getLast?_concat] at hrest
            simp only [hgo, if_true, fixed, hnext]
            exact hrest
          · rw [Bool.not_eq_true] at hgo
            simp only [hgo, Bool.false_eq_true, if_false, foldl_of_not_go hgo]

end KeyedMap
