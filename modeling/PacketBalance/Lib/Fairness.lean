import Mathlib.Order.WellFounded
import Mathlib.Tactic.Common
/-!
# Fair runs

An endless run of a system whose steps are labelled.  Some of the labels are the system's own;
the others stand for its surroundings.  If its own steps lower a rank that no other step raises,
and the system gets to take steps as long as it has not reached its goal, then it reaches it.
-/

namespace Fairness

variable {κ τ α : Type}

structure Run (Step : κ → τ → τ → Prop) where
  state : Nat → τ
  label : Nat → κ
  step : ∀ n, Step (label n) (state n) (state (n + 1))

namespace Run

variable {Step : κ → τ → τ → Prop} (r : Run Step)

def stay {k : κ} {s : τ} (h : Step k s s) : Run Step := ⟨fun _ => s, fun _ => k, fun _ => h⟩

def after (r : Run Step) {k : κ} {s : τ} (h : Step k s (r.state 0)) : Run Step where
  state n := n.casesOn s r.state
  label n := n.casesOn k r.label
  step
    | 0 => h
    | n + 1 => r.step n

/-- The system gets to take a step of its own whenever it is `ready` for one. -/
def Fair (own : κ → Prop) (ready : τ → Prop) : Prop :=
  ∀ n, ready (r.state n) → ∃ m ≥ n, own (r.label m)

theorem Fair.after {r : Run Step} {own : κ → Prop} {ready : τ → Prop} (hr : r.Fair own ready)
    {k : κ} {s : τ} (h : Step k s (r.state 0)) (hown : own k) : (r.after h).Fair own ready := by
  intro n hready
  cases n with
  | zero => exact ⟨0, Nat.le_refl 0, hown⟩
  | succ n =>
      obtain ⟨m, hm, hlabel⟩ := hr n hready
      exact ⟨m + 1, Nat.succ_le_succ hm, hlabel⟩

theorem always {I : τ → Prop} (hinit : I (r.state 0))
    (hkeep : ∀ k s s', I s → Step k s s' → I s') (n : Nat) : I (r.state n) := by
  induction n with
  | zero => exact hinit
  | succ n ih => exact hkeep _ _ _ ih (r.step n)

variable [Preorder α] {own : κ → Prop} {rank : τ → α}

theorem rank_le (hle : ∀ n, rank (r.state (n + 1)) ≤ rank (r.state n)) {n m : Nat} (h : n ≤ m) :
    rank (r.state m) ≤ rank (r.state n) := by
  induction m, h using Nat.le_induction with
  | base => exact le_rfl
  | succ m _ ih => exact (hle m).trans ih

/-- A rank that never grows is not lowered again and again. -/
theorem exists_quiet [WellFoundedLT α] (hle : ∀ n, rank (r.state (n + 1)) ≤ rank (r.state n))
    (hlt : ∀ n, own (r.label n) → rank (r.state (n + 1)) < rank (r.state n)) :
    ∃ n, ∀ m ≥ n, ¬ own (r.label m) := by
  -- from a moment of least rank on, no step lowers it
  obtain ⟨_, ⟨n, rfl⟩, hmin⟩ := WellFounded.has_min (wellFounded_lt (α := α))
    (Set.range fun n => rank (r.state n)) ⟨_, 0, rfl⟩
  refine ⟨n, fun m hm hown => hmin (rank (r.state (m + 1))) ⟨m + 1, rfl⟩ ?_⟩
  exact (hlt m hown).trans_le (r.rank_le hle hm)

/-- A run that keeps taking steps of its own short of the goal reaches it. -/
theorem eventually [WellFoundedLT α] (I goal : τ → Prop) (own : κ → Prop) (rank : τ → α)
    (hinit : I (r.state 0))
    (hkeep : ∀ k s s', I s → Step k s s' → I s')
    (hlt : ∀ k s s', I s → Step k s s' → own k → ¬ goal s → rank s' < rank s)
    (hle : ∀ k s s', I s → Step k s s' → ¬ own k → rank s' ≤ rank s)
    (hfair : ∀ n, ¬ goal (r.state n) → ∃ m ≥ n, own (r.label m)) :
    ∃ n, goal (r.state n) := by
  by_contra hnever
  rw [not_exists] at hnever
  have hI := r.always hinit hkeep
  have hdown : ∀ n, own (r.label n) → rank (r.state (n + 1)) < rank (r.state n) :=
    fun n hown => hlt _ _ _ (hI n) (r.step n) hown (hnever n)
  have hnot : ∀ n, rank (r.state (n + 1)) ≤ rank (r.state n) := by
    intro n
    by_cases hown : own (r.label n)
    · exact (hdown n hown).le
    · exact hle _ _ _ (hI n) (r.step n) hown
  obtain ⟨n, hquiet⟩ := r.exists_quiet hnot hdown
  obtain ⟨m, hm, hown⟩ := hfair n (hnever n)
  exact hquiet m hm hown

end Run

/-- Where a system can always take a step of its own, short of its goal, a fair run starts
everywhere. -/
theorem exists_fair [Preorder α] [WellFoundedLT α] {Step : κ → τ → τ → Prop}
    (I goal ready : τ → Prop) (own : κ → Prop) (rank : τ → α)
    (hkeep : ∀ k s s', I s → Step k s s' → I s')
    (hlt : ∀ k s s', I s → Step k s s' → own k → rank s' < rank s)
    (hgo : ∀ s, I s → ¬ goal s → ∃ k s', Step k s s' ∧ own k)
    (hstay : ∀ s, ∃ k, Step k s s) (hquiet : ∀ s, I s → goal s → ¬ ready s) {s : τ} (hs : I s) :
    ∃ r : Run Step, r.state 0 = s ∧ r.Fair own ready := by
  induction hrank : rank s using WellFoundedLT.induction generalizing s with
  | ind a ih =>
      by_cases hgoal : goal s
      · obtain ⟨k, hk⟩ := hstay s
        exact ⟨.stay hk, rfl, fun n hready => absurd hready (hquiet s hs hgoal)⟩
      · obtain ⟨k, s', hstep, hown⟩ := hgo s hs hgoal
        obtain ⟨r, rfl, hfair⟩ :=
          ih _ (hrank ▸ hlt k s s' hs hstep hown) (hkeep k s s' hs hstep) rfl
        exact ⟨r.after hstep, rfl, hfair.after hstep hown⟩

end Fairness
