import Mathlib.Algebra.Order.Group.Nat
import Mathlib.Data.List.Basic
/-!
# Taking turns

A round is a list of turns; rounds follow each other without end, and `laps` is the
beginning of that sequence.  A fold over turns that may fail goes through when every turn
keeps an invariant of the turns taken so far.
-/

namespace Turns

variable {α β σ : Type*}

/-! ## Rounds after each other -/

/-- The first `n` turns when the round `xs` is repeated. -/
def laps (xs : List α) (n : Nat) : List α :=
  (List.replicate (n / xs.length) xs).flatten ++ xs.take (n % xs.length)

theorem laps_of_le {xs : List α} {n : Nat} (h : n ≤ xs.length) : laps xs n = xs.take n := by
  unfold laps
  rcases Nat.lt_or_eq_of_le h with hlt | rfl
  · rw [Nat.div_eq_of_lt hlt, Nat.mod_eq_of_lt hlt]
    rfl
  · cases xs with
    | nil => simp
    | cons x xs => simp

theorem laps_length_add {xs : List α} (hne : xs ≠ []) (n : Nat) :
    laps xs (xs.length + n) = xs ++ laps xs n := by
  have hpos : 0 < xs.length := List.length_pos_of_ne_nil hne
  unfold laps
  rw [Nat.add_mod_left, Nat.add_div_left n hpos, List.replicate_succ, List.flatten_cons,
    List.append_assoc]

theorem length_laps {xs : List α} (hne : xs ≠ []) (n : Nat) : (laps xs n).length = n := by
  have hpos : 0 < xs.length := List.length_pos_of_ne_nil hne
  have hlt : n % xs.length < xs.length := Nat.mod_lt n hpos
  have hdiv : n / xs.length * xs.length + n % xs.length = n := Nat.div_add_mod' n xs.length
  unfold laps
  simp only [List.length_append, List.length_flatten, List.map_replicate, List.sum_replicate_nat,
    List.length_take]
  omega

theorem mem_of_mem_laps {xs : List α} {n : Nat} {x : α} (h : x ∈ laps xs n) : x ∈ xs := by
  unfold laps at h
  rcases List.mem_append.mp h with h | h
  · obtain ⟨ys, hys, hx⟩ := List.mem_flatten.mp h
    exact List.eq_of_mem_replicate hys ▸ hx
  · exact List.mem_of_mem_take h

theorem laps_map (f : α → β) (xs : List α) (n : Nat) :
    (laps xs n).map f = laps (xs.map f) n := by
  simp [laps, List.map_flatten, List.map_take]

theorem countP_laps (p : α → Bool) (xs : List α) (n : Nat) :
    (laps xs n).countP p =
      n / xs.length * xs.countP p + (xs.take (n % xs.length)).countP p := by
  unfold laps
  rw [List.countP_append, List.countP_flatten, List.map_replicate, List.sum_replicate_nat]

theorem count_laps [BEq α] (x : α) (xs : List α) (n : Nat) :
    (laps xs n).count x = n / xs.length * xs.count x + (xs.take (n % xs.length)).count x :=
  countP_laps (· == x) xs n

theorem getElem?_laps {xs : List α} (hne : xs ≠ []) {n k : Nat} (hk : k < n) :
    (laps xs n)[k]? = xs[k % xs.length]? := by
  have hpos : 0 < xs.length := List.length_pos_of_ne_nil hne
  induction n using Nat.strong_induction_on generalizing k with
  | h n ih =>
      by_cases hn : n ≤ xs.length
      · rw [laps_of_le hn, List.getElem?_take_of_lt hk, Nat.mod_eq_of_lt (by omega)]
      · obtain ⟨m, rfl⟩ := Nat.exists_eq_add_of_le (Nat.le_of_not_le hn)
        rw [laps_length_add hne]
        by_cases hfirst : k < xs.length
        · rw [List.getElem?_append_left hfirst, Nat.mod_eq_of_lt hfirst]
        · rw [List.getElem?_append_right (by omega), ih m (by omega) (by omega),
            ← Nat.mod_eq_sub_mod (by omega)]

theorem laps_mul_length {xs : List α} (hne : xs ≠ []) (w : Nat) :
    laps xs (w * xs.length) = (List.replicate w xs).flatten := by
  have hpos : 0 < xs.length := List.length_pos_of_ne_nil hne
  unfold laps
  rw [Nat.mul_div_cancel w hpos, Nat.mul_mod_left, List.take_zero, List.append_nil]

theorem laps_eq_take (xs : List α) (n : Nat) :
    laps xs n = (List.replicate n xs).flatten.take n := by
  by_cases hne : xs = []
  · subst hne
    simp [laps]
  have hle : n ≤ n * xs.length := Nat.le_mul_of_pos_right n (List.length_pos_of_ne_nil hne)
  rw [← laps_mul_length hne]
  apply List.ext_getElem?
  intro k
  by_cases hk : k < n
  · rw [List.getElem?_take_of_lt hk, getElem?_laps hne hk, getElem?_laps hne (by omega)]
  · rw [List.getElem?_eq_none (by rw [length_laps hne]; omega),
      List.getElem?_eq_none (by rw [List.length_take]; omega)]

theorem laps_flatten_replicate (xs : List α) {w : Nat} (hw : 0 < w) (n : Nat) :
    laps (List.replicate w xs).flatten n = laps xs n := by
  by_cases hne : xs = []
  · subst hne
    simp [laps]
  have hpos : 0 < xs.length := List.length_pos_of_ne_nil hne
  have hlength : (List.replicate w xs).flatten.length = w * xs.length := by simp
  have hne' : (List.replicate w xs).flatten ≠ [] := by
    apply List.ne_nil_of_length_pos
    rw [hlength]
    exact Nat.mul_pos hw hpos
  apply List.ext_getElem?
  intro k
  by_cases hk : k < n
  · have hlt : k % (w * xs.length) < w * xs.length := Nat.mod_lt _ (Nat.mul_pos hw hpos)
    rw [getElem?_laps hne' hk, getElem?_laps hne hk, hlength, ← laps_mul_length hne,
      getElem?_laps hne hlt, Nat.mod_mul_left_mod]
  · rw [List.getElem?_eq_none (by rw [length_laps hne']; omega),
      List.getElem?_eq_none (by rw [length_laps hne]; omega)]

/-! ## Folding turns that may fail -/

/-- Every turn goes through and keeps the invariant, so the whole fold does. -/
theorem foldlM_invariant {f : σ → α → Option σ} {I : List α → σ → Prop} {xs : List α} {s : σ}
    (hinit : I [] s)
    (hturn : ∀ past x rest s, xs = past ++ x :: rest → I past s →
      ∃ s', f s x = some s' ∧ I (past ++ [x]) s') :
    ∃ s', xs.foldlM f s = some s' ∧ I xs s' := by
  suffices h : ∀ past rest s, xs = past ++ rest → I past s →
      ∃ s', rest.foldlM f s = some s' ∧ I xs s' from h [] xs s rfl hinit
  intro past rest
  induction rest generalizing past with
  | nil =>
      intro s hxs hI
      rw [List.append_nil] at hxs
      exact ⟨s, rfl, hxs ▸ hI⟩
  | cons x rest ih =>
      intro s hxs hI
      obtain ⟨s₁, hf, hI₁⟩ := hturn past x rest s hxs hI
      obtain ⟨s', hfold, hI'⟩ := ih (past ++ [x]) s₁ (by simp [hxs]) hI₁
      exact ⟨s', by rw [List.foldlM_cons, hf]; exact hfold, hI'⟩

end Turns
