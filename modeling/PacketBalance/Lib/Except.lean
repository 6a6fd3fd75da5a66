import Mathlib.Data.List.Forall2
/-!
# Fallible computations

When a chain of steps, a traversal or a translated error returns a value.
-/

namespace Except

variable {ε ε' α β : Type}

theorem bind_eq_ok_iff {x : Except ε α} {f : α → Except ε β} {b : β} :
    x >>= f = .ok b ↔ ∃ a, x = .ok a ∧ f a = .ok b := by
  cases x with
  | error e => simp [bind, Except.bind]
  | ok a => simp [bind, Except.bind]

theorem bind_eq_error_iff {x : Except ε α} {f : α → Except ε β} {e : ε} :
    x >>= f = .error e ↔ x = .error e ∨ ∃ a, x = .ok a ∧ f a = .error e := by
  cases x with
  | error e' => simp [bind, Except.bind]
  | ok a => simp [bind, Except.bind]

theorem mapError_eq_ok_iff {x : Except ε α} {f : ε → ε'} {a : α} :
    x.mapError f = .ok a ↔ x = .ok a := by
  cases x <;> simp [Except.mapError]

theorem forM_eq_ok_iff {xs : List α} {f : α → Except ε Unit} :
    forM xs f = .ok () ↔ ∀ x ∈ xs, f x = .ok () := by
  induction xs with
  | nil => simp [pure, Except.pure]
  | cons x xs ih =>
      rw [List.forM_cons, bind_eq_ok_iff, List.forall_mem_cons, ← ih]
      exact ⟨fun ⟨_, hx, hxs⟩ => ⟨hx, hxs⟩, fun ⟨hx, hxs⟩ => ⟨(), hx, hxs⟩⟩

theorem exists_of_forM_eq_error {xs : List α} {f : α → Except ε Unit} {e : ε}
    (h : forM xs f = .error e) : ∃ x ∈ xs, f x = .error e := by
  induction xs with
  | nil => cases h
  | cons x xs ih =>
      rw [List.forM_cons, bind_eq_error_iff] at h
      obtain hx | ⟨_, -, hxs⟩ := h
      · exact ⟨x, List.mem_cons_self, hx⟩
      · obtain ⟨x', hmem, hx'⟩ := ih hxs
        exact ⟨x', List.mem_cons_of_mem x hmem, hx'⟩

theorem exists_of_mapM_eq_error {xs : List α} {f : α → Except ε β} {e : ε}
    (h : xs.mapM f = .error e) : ∃ x ∈ xs, f x = .error e := by
  induction xs with
  | nil => cases h
  | cons x xs ih =>
      rw [List.mapM_cons, bind_eq_error_iff] at h
      obtain hx | ⟨_, -, hxs⟩ := h
      · exact ⟨x, List.mem_cons_self, hx⟩
      · obtain hxs | ⟨_, -, hpure⟩ := bind_eq_error_iff.mp hxs
        · obtain ⟨x', hmem, hx'⟩ := ih hxs
          exact ⟨x', List.mem_cons_of_mem x hmem, hx'⟩
        · cases hpure

theorem mapM_eq_ok_iff {xs : List α} {f : α → Except ε β} {ys : List β} :
    xs.mapM f = .ok ys ↔ List.Forall₂ (fun x y => f x = .ok y) xs ys := by
  induction xs generalizing ys with
  | nil => simp [pure, Except.pure, eq_comm]
  | cons x xs ih =>
      simp only [List.mapM_cons, bind_eq_ok_iff, ih, List.forall₂_cons_left_iff, pure, Except.pure,
        ok.injEq]
      constructor
      · rintro ⟨y, hy, ys', hys, rfl⟩
        exact ⟨y, ys', hy, hys, rfl⟩
      · rintro ⟨y, ys', hy, hys, rfl⟩
        exact ⟨y, hy, ys', hys, rfl⟩

theorem exists_of_mapM {xs : List α} {f : α → Except ε β} {ys : List β} (h : xs.mapM f = .ok ys)
    {y : β} (hy : y ∈ ys) : ∃ x ∈ xs, f x = .ok y := by
  rw [mapM_eq_ok_iff] at h
  induction h with
  | nil => cases hy
  | cons hx _ ih =>
      rcases List.mem_cons.mp hy with rfl | hy
      · exact ⟨_, List.mem_cons_self, hx⟩
      · obtain ⟨x, hmem, hok⟩ := ih hy
        exact ⟨x, List.mem_cons_of_mem _ hmem, hok⟩

theorem ok_of_mapM {xs : List α} {f : α → Except ε β} {ys : List β} (h : xs.mapM f = .ok ys)
    {x : α} (hx : x ∈ xs) : ∃ y, f x = .ok y := by
  rw [mapM_eq_ok_iff] at h
  induction h with
  | nil => cases hx
  | cons hy _ ih =>
      rcases List.mem_cons.mp hx with rfl | hx
      · exact ⟨_, hy⟩
      · exact ih hx

theorem ok_of_mapM_zipIdx {xs : List α} {f : α × Nat → Except ε β} {ys : List β}
    (h : xs.zipIdx.mapM f = .ok ys) {x : α} (hx : x ∈ xs) : ∃ i y, f (x, i) = .ok y := by
  obtain ⟨i, hi⟩ := List.mem_iff_getElem?.mp hx
  exact ⟨i, ok_of_mapM h (List.mem_zipIdx_iff_getElem?.mpr hi)⟩

theorem mapM_zipIdx_map {f : β × Nat → Except ε α} {g : α → β} {ys : List α}
    (h : ∀ y ∈ ys, ∀ i, f (g y, i) = .ok y) (k : Nat) :
    ((ys.map g).zipIdx k).mapM f = .ok ys := by
  rw [mapM_eq_ok_iff, List.zipIdx_map, List.forall₂_map_left_iff]
  induction ys generalizing k with
  | nil => exact .nil
  | cons y ys ih =>
      rw [List.zipIdx_cons]
      exact .cons (h y List.mem_cons_self k)
        (ih (fun y' hy' => h y' (List.mem_cons_of_mem y hy')) (k + 1))

end Except
