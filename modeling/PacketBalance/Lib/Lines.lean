import Mathlib.Data.List.Basic
import Mathlib.Tactic.Common
/-!
# Lines of a stream

A stream is cut at a separator into terminated lines, and a tail behind the last of them.  A
reader that gets the stream in pieces and keeps the tail of what it has seen finds the same
lines, however the stream is cut into pieces; what it has to keep is never longer than the
line it is part of.
-/

namespace Lines

variable {α : Type} [DecidableEq α]

theorem idxOf?_eq_some_iff {l : List α} {c : α} {i : Nat} :
    l.idxOf? c = some i ↔ ∃ a b, l = a ++ c :: b ∧ c ∉ a ∧ a.length = i := by
  rw [List.idxOf?_eq_some_iff]
  constructor
  · rintro ⟨hi, hc, hbefore⟩
    refine ⟨l.take i, l.drop (i + 1), ?_, ?_, by simp; omega⟩
    · rw [← hc, List.getElem_cons_drop hi, List.take_append_drop]
    · intro hmem
      obtain ⟨j, hj, hcj⟩ := List.mem_iff_getElem.mp hmem
      rw [List.getElem_take] at hcj
      exact hbefore j (by simp at hj; omega) hcj
  · rintro ⟨a, b, rfl, hnot, rfl⟩
    refine ⟨by simp, by simp, fun j hj heq => hnot ?_⟩
    rw [List.getElem_append_left hj] at heq
    exact heq ▸ List.getElem_mem hj

variable (sep : α)

/-- Put text in front of the first line, or of the tail if there is no line. -/
def extend (l : List α) : List (List α) × List α → List (List α) × List α
  | ([], t) => ([], l ++ t)
  | (l' :: ls, t) => ((l ++ l') :: ls, t)

def split : List α → List (List α) × List α
  | [] => ([], [])
  | c :: s => if c = sep then ([] :: (split s).1, (split s).2) else extend [c] (split s)

def lines (s : List α) : List (List α) := (split sep s).1

def tail (s : List α) : List α := (split sep s).2

/-! ## One line -/

section Line

variable {sep} {l : List α}

omit [DecidableEq α] in
theorem extend_nil (x : List (List α) × List α) : extend [] x = x := by
  obtain ⟨_ | ⟨l, ls⟩, t⟩ := x <;> rfl

omit [DecidableEq α] in
theorem extend_cons (c : α) (l : List α) (x : List (List α) × List α) :
    extend (c :: l) x = extend [c] (extend l x) := by
  obtain ⟨_ | ⟨l', ls⟩, t⟩ := x <;> rfl

theorem split_append_of_notMem (h : sep ∉ l) (s : List α) :
    split sep (l ++ s) = extend l (split sep s) := by
  induction l with
  | nil => exact (extend_nil _).symm
  | cons c l ih =>
      have hc : c ≠ sep := fun heq => h (heq ▸ List.mem_cons_self)
      rw [List.cons_append, split, if_neg hc, ih fun hmem => h (List.mem_cons_of_mem _ hmem)]
      exact (extend_cons c l _).symm

theorem split_of_notMem (h : sep ∉ l) : split sep l = ([], l) := by
  have hsplit := split_append_of_notMem h []
  rwa [List.append_nil, split, extend, List.append_nil] at hsplit

theorem split_line (h : sep ∉ l) (s : List α) :
    split sep (l ++ sep :: s) = (l :: lines sep s, tail sep s) := by
  rw [split_append_of_notMem h, split, if_pos rfl, extend, List.append_nil]
  rfl

theorem lines_line (h : sep ∉ l) (s : List α) :
    lines sep (l ++ sep :: s) = l :: lines sep s := by
  rw [lines, split_line h]

theorem tail_line (h : sep ∉ l) (s : List α) : tail sep (l ++ sep :: s) = tail sep s := by
  rw [tail, split_line h]

end Line

/-! ## Pieces -/

/-- The lines of a stream that comes in two pieces: those of the first one, and those of the
second one behind what the first one left unfinished. -/
theorem split_append (s s' : List α) :
    split sep (s ++ s') =
      (lines sep s ++ lines sep (tail sep s ++ s'), tail sep (tail sep s ++ s')) := by
  induction s with
  | nil => rfl
  | cons c s ih =>
      rw [List.cons_append, split, ih]
      by_cases hc : c = sep
      · simp only [if_pos hc, lines, tail, split]
        rfl
      · -- without a line in `s`, the character stands in front of what `s` left unfinished
        simp only [if_neg hc, lines, tail, split]
        obtain ⟨_ | ⟨l, ls⟩, t⟩ := split sep s
        · simp [extend, split, hc]
        · rfl

theorem lines_append (s s' : List α) :
    lines sep (s ++ s') = lines sep s ++ lines sep (tail sep s ++ s') := by
  rw [lines, split_append]

theorem tail_append (s s' : List α) : tail sep (s ++ s') = tail sep (tail sep s ++ s') := by
  rw [tail, split_append]

theorem notMem_tail (s : List α) : sep ∉ tail sep s := by
  induction s with
  | nil => simp [tail, split]
  | cons c s ih =>
      rw [tail, split]
      rw [tail] at ih
      by_cases hc : c = sep
      · rwa [if_pos hc]
      · rw [if_neg hc]
        generalize split sep s = x at ih
        obtain ⟨_ | ⟨l, ls⟩, t⟩ := x
        · simpa [extend, Ne.symm hc] using ih
        · exact ih

/-- No line and no tail is longer than `n`. -/
structure Short (n : Nat) (s : List α) : Prop where
  lines : ∀ l ∈ lines sep s, l.length ≤ n
  tail : (tail sep s).length ≤ n

theorem Short.of_append {n : Nat} {s s' : List α} (h : Short sep n (s ++ s')) :
    Short sep n (Lines.tail sep s ++ s') where
  lines l hl := h.lines l (by rw [lines_append]; exact List.mem_append_right _ hl)
  tail := tail_append sep s s' ▸ h.tail

theorem Short.length_tail_le {n : Nat} {s s' : List α} (h : Short sep n (s ++ s')) :
    (Lines.tail sep s).length ≤ n := by
  obtain ⟨hlines, htail⟩ := h.of_append
  rw [Lines.lines, split_append_of_notMem (notMem_tail sep s)] at hlines
  rw [Lines.tail, split_append_of_notMem (notMem_tail sep s)] at htail
  generalize split sep s' = x at hlines htail
  obtain ⟨_ | ⟨l, ls⟩, t⟩ := x
  · rw [extend, List.length_append] at htail
    omega
  · have hl := hlines _ List.mem_cons_self
    rw [List.length_append] at hl
    omega

end Lines
