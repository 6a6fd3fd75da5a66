import Mathlib.Data.List.Infix
import Mathlib.Data.Nat.Find
/-!
# Streaks in a history

A history is a list of outcomes, the oldest first.  `streak x` counts how often it ends in
`x`.  A condition that `fall` outcomes `x` in a row set and `rise` outcomes `y` in a row
clear can be told from the whole history (`SetSince`) or kept up to date outcome by
outcome, from the streaks alone.
-/

namespace Streak

variable {α : Type*} [DecidableEq α]

/-! ## The streak at the end -/

def streak (x : α) (l : List α) : Nat := l.foldl (fun n y => if y = x then n + 1 else 0) 0

@[simp] theorem streak_nil (x : α) : streak x [] = 0 := rfl

@[simp] theorem streak_concat (x y : α) (l : List α) :
    streak x (l ++ [y]) = if y = x then streak x l + 1 else 0 := by
  simp [streak]

omit [DecidableEq α] in
theorem concat_suffix_concat {x y : α} {l l' : List α} :
    l ++ [x] <:+ l' ++ [y] ↔ x = y ∧ l <:+ l' := by
  rw [← List.reverse_prefix, List.reverse_concat, List.reverse_concat, List.cons_prefix_cons,
    List.reverse_prefix]

/-- The history ends in `n` outcomes `x` exactly when the streak is that long. -/
theorem replicate_suffix_iff {x : α} {l : List α} {n : Nat} :
    List.replicate n x <:+ l ↔ n ≤ streak x l := by
  induction l using List.reverseRecOn generalizing n with
  | nil => simp
  | append_singleton l y ih =>
      cases n with
      | zero => simp
      | succ n =>
          rw [List.replicate_succ', concat_suffix_concat, ih, streak_concat]
          split_ifs with hy
          · simp [hy]
          · simp [Ne.symm hy]

/-! ## Set by one streak, cleared by another -/

/-- `fall` outcomes `x` in a row have occurred, and after the last time `post` followed. -/
def LastRun (fall : Nat) (x : α) (l post : List α) : Prop :=
  (∃ pre, l = pre ++ List.replicate fall x ++ post) ∧
    ∀ pre' post', l = pre' ++ List.replicate fall x ++ post' → post.length ≤ post'.length

/-- `fall` outcomes `x` in a row have occurred, and since the last time no `rise` outcomes
`y` in a row. -/
def SetSince (rise fall : Nat) (x y : α) (l : List α) : Prop :=
  ∃ post, LastRun fall x l post ∧ ¬List.replicate rise y <:+: post

omit [DecidableEq α] in
theorem setSince_iff {rise fall : Nat} {x y : α} {l : List α} :
    SetSince rise fall x y l ↔
      ∃ post, List.replicate fall x ++ post <:+ l ∧ ¬List.replicate rise y <:+: post := by
  constructor
  · rintro ⟨post, ⟨⟨pre, hl⟩, -⟩, hclear⟩
    exact ⟨post, ⟨pre, by rw [hl, List.append_assoc]⟩, hclear⟩
  · rintro ⟨post, ⟨pre, hl⟩, hclear⟩
    classical
    have hex : ∃ n pre post, l = pre ++ List.replicate fall x ++ post ∧ post.length = n :=
      ⟨_, pre, post, by rw [← hl, List.append_assoc], rfl⟩
    obtain ⟨pre₀, post₀, hl₀, hlength⟩ := Nat.find_spec hex
    have hlast : LastRun fall x l post₀ := by
      refine ⟨⟨pre₀, hl₀⟩, fun pre' post' hl' => ?_⟩
      rw [hlength]
      exact Nat.find_min' hex ⟨pre', post', hl', rfl⟩
    refine ⟨post₀, hlast, fun hwithin => hclear (hwithin.trans ?_)⟩
    -- the last one is followed by less than any other
    have hle := hlast.2 pre post (by rw [← hl, List.append_assoc])
    have htail : post₀ <:+ l := ⟨pre₀ ++ List.replicate fall x, hl₀.symm⟩
    have htail' : post <:+ l := ⟨pre ++ List.replicate fall x, by rw [List.append_assoc, hl]⟩
    exact (List.suffix_of_suffix_length_le htail htail' hle).isInfix

section Step

variable {rise fall : Nat} {x y : α} {l : List α}

omit [DecidableEq α] in
theorem not_setSince_nil (hfall : 0 < fall) : ¬SetSince rise fall x y [] := by
  rw [setSince_iff]
  rintro ⟨post, hpost, -⟩
  have hlength := hpost.length_le
  rw [List.length_append, List.length_replicate, List.length_nil] at hlength
  omega

theorem setSince_concat_set (hrise : 0 < rise) (hxy : x ≠ y) :
    SetSince rise fall x y (l ++ [x]) ↔ SetSince rise fall x y l ∨ fall ≤ streak x l + 1 := by
  have hstreak : streak x (l ++ [x]) = streak x l + 1 := by simp
  rw [setSince_iff, setSince_iff, ← hstreak, ← replicate_suffix_iff]
  constructor
  · rintro ⟨post, hpost, hclear⟩
    rcases List.eq_nil_or_concat post with rfl | ⟨post, z, rfl⟩
    · rw [List.append_nil] at hpost
      exact .inr hpost
    · rw [List.concat_eq_append] at hpost hclear
      rw [← List.append_assoc, concat_suffix_concat] at hpost
      refine .inl ⟨post, hpost.2, fun hwithin => hclear (hwithin.trans ?_)⟩
      exact (List.prefix_append post [z]).isInfix
  · rintro (⟨post, hpost, hclear⟩ | hrun)
    · refine ⟨post ++ [x], ?_, fun hwithin => ?_⟩
      · rw [← List.append_assoc, concat_suffix_concat]
        exact ⟨rfl, hpost⟩
      · rcases List.infix_concat_iff.mp hwithin with htail | hwithin
        · rw [replicate_suffix_iff, streak_concat, if_neg hxy] at htail
          omega
        · exact hclear hwithin
    · refine ⟨[], by rwa [List.append_nil], fun hwithin => ?_⟩
      have hlength := hwithin.length_le
      rw [List.length_replicate, List.length_nil] at hlength
      omega

theorem setSince_concat_clear (hfall : 0 < fall) (hxy : x ≠ y) :
    SetSince rise fall x y (l ++ [y]) ↔ SetSince rise fall x y l ∧ streak y l + 1 < rise := by
  have hstreak : streak y (l ++ [y]) = streak y l + 1 := by simp
  rw [setSince_iff, setSince_iff, ← hstreak, ← Nat.not_le, ← replicate_suffix_iff]
  constructor
  · rintro ⟨post, hpost, hclear⟩
    rcases List.eq_nil_or_concat post with rfl | ⟨post, z, rfl⟩
    · rw [List.append_nil, replicate_suffix_iff, streak_concat, if_neg (Ne.symm hxy)] at hpost
      omega
    · rw [List.concat_eq_append] at hpost hclear
      have hpost' := hpost
      rw [← List.append_assoc, concat_suffix_concat] at hpost'
      obtain ⟨rfl, hold⟩ := hpost'
      refine ⟨⟨post, hold, fun hwithin => hclear (hwithin.trans ?_)⟩, fun hrun => ?_⟩
      · exact (List.prefix_append post [z]).isInfix
      · -- the `z`s at the end are too few to reach back to the last `x`
        by_cases hlength : rise ≤ (post ++ [z]).length
        · have htail : post ++ [z] <:+ l ++ [z] := (List.suffix_append _ _).trans hpost
          exact hclear (List.suffix_of_suffix_length_le hrun htail
            (by rwa [List.length_replicate])).isInfix
        · have hlast : x :: (post ++ [z]) <:+ l ++ [z] := by
            obtain ⟨k, rfl⟩ := Nat.exists_eq_add_of_le' hfall
            rw [List.replicate_succ', List.append_assoc] at hpost
            exact (List.suffix_append _ _).trans hpost
          have hmem := (List.suffix_of_suffix_length_le hlast hrun
            (by rw [List.length_replicate, List.length_cons]; omega)).subset List.mem_cons_self
          exact hxy (List.eq_of_mem_replicate hmem)
  · rintro ⟨⟨post, hpost, hclear⟩, hshort⟩
    have htail : List.replicate fall x ++ (post ++ [y]) <:+ l ++ [y] := by
      rw [← List.append_assoc, concat_suffix_concat]
      exact ⟨rfl, hpost⟩
    refine ⟨post ++ [y], htail, fun hwithin => ?_⟩
    rcases List.infix_concat_iff.mp hwithin with hrun | hwithin
    · exact hshort (hrun.trans ((List.suffix_append _ _).trans htail))
    · exact hclear hwithin

end Step

end Streak
