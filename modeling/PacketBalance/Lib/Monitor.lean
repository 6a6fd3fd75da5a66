import PacketBalance.Lib.Prog
/-!
# Monitors

A guarantee along a log speaks about one write and the store it is made in.  Where it depends on
what was written before, a monitor keeps a note of that.  `M.wp m Q` says that `M` accepts every
write of `m`, and that a normal end satisfies `Q`, which may look at the note; nothing is said
about an error end.
-/

namespace WriteLog

/-- How the note changes with a write, and which writes are accepted. -/
structure Monitor (δ ω κ : Type) where
  note : κ → ω → κ
  ok : κ → δ → ω → Prop

namespace Monitor

variable {δ ω κ σ τ ε α β ι : Type} (M : Monitor δ ω κ)

def after (k : κ) (log : List ω) : κ := log.foldl M.note k

@[simp] theorem after_nil (k : κ) : M.after k [] = k := rfl

theorem after_append (k : κ) (l l' : List ω) :
    M.after k (l ++ l') = M.after (M.after k l) l' := by
  simp [after, List.foldl_append]

variable [Durable δ ω]

def Accepts : κ → δ → List ω → Prop
  | _, _, [] => True
  | k, d, w :: ws => M.ok k d w ∧ Accepts (M.note k w) (Durable.write d w) ws

variable {M}

theorem accepts_append {k : κ} {d : δ} {l l' : List ω} :
    M.Accepts k d (l ++ l') ↔ M.Accepts k d l ∧ M.Accepts (M.after k l) (replay d l) l' := by
  induction l generalizing k d with
  | nil => simp [Accepts]
  | cons w ws ih => simp [Accepts, ih, and_assoc, after]

variable (M)

/-- `M` accepts every write, and a normal end satisfies `Q`. -/
def wp (m : Prog δ ω σ ε α) (Q : α → κ → δ → σ → Prop) (k : κ) (d : δ) (s : σ) : Prop :=
  M.Accepts k d (m d s).log ∧
    ∀ a, (m d s).res = .ok a → Q a (M.after k (m d s).log) (replay d (m d s).log) (m d s).mem

variable {M} {Q Q' : α → κ → δ → σ → Prop} {k : κ} {d : δ} {s : σ}

@[simp] theorem wp_pure (a : α) : M.wp (pure a : Prog δ ω σ ε α) Q k d s ↔ Q a k d s := by
  simp [wp, pure, Accepts]

@[simp] theorem wp_throw (e : ε) : M.wp (throw e : Prog δ ω σ ε α) Q k d s := by
  simp [wp, throw, throwThe, MonadExceptOf.throw, Accepts]

@[simp] theorem wp_get {Q : σ → κ → δ → σ → Prop} :
    M.wp (get : Prog δ ω σ ε σ) Q k d s ↔ Q s k d s := by
  simp [wp, get, getThe, MonadStateOf.get, Accepts]

@[simp] theorem wp_modify (f : σ → σ) {Q : PUnit → κ → δ → σ → Prop} :
    M.wp (modify f : Prog δ ω σ ε PUnit) Q k d s ↔ Q () k d (f s) :=
  ⟨fun h => h.2 () rfl, fun h => ⟨trivial, fun _ _ => h⟩⟩

@[simp] theorem wp_durable {Q : δ → κ → δ → σ → Prop} :
    M.wp (Prog.durable : Prog δ ω σ ε δ) Q k d s ↔ Q d k d s := by
  simp [wp, Prog.durable, Accepts]

@[simp] theorem wp_emit (w : ω) {Q : Unit → κ → δ → σ → Prop} :
    M.wp (Prog.emit w : Prog δ ω σ ε Unit) Q k d s ↔
      M.ok k d w ∧ Q () (M.note k w) (Durable.write d w) s :=
  ⟨fun h => ⟨h.1.1, h.2 () rfl⟩, fun h => ⟨⟨h.1, trivial⟩, fun _ _ => h.2⟩⟩

@[simp] theorem wp_bind (m : Prog δ ω σ ε β) (f : β → Prog δ ω σ ε α) :
    M.wp (m >>= f) Q k d s ↔ M.wp m (fun b k' d' s' => M.wp (f b) Q k' d' s') k d s := by
  simp only [wp, bind]
  cases hres : (m d s).res with
  | error e => simp
  | ok b => simp [accepts_append, after_append, replay_append, and_assoc]

@[simp] theorem wp_zoom (part : σ → τ) (put : τ → σ → σ) (m : Prog δ ω τ ε α) :
    M.wp (Prog.zoom part put m) Q k d s ↔
      M.wp m (fun a k' d' t => Q a k' d' (put t s)) k d (part s) := Iff.rfl

theorem wp_ite {c : Prop} [Decidable c] (m m' : Prog δ ω σ ε α) :
    M.wp (if c then m else m') Q k d s ↔
      (c → M.wp m Q k d s) ∧ (¬c → M.wp m' Q k d s) := by
  by_cases hc : c <;> simp [hc]

theorem wp_when {c : Bool} (m : Prog δ ω σ ε Unit) {Q : Unit → κ → δ → σ → Prop} :
    M.wp (Prog.when c m) Q k d s ↔ (c → M.wp m Q k d s) ∧ (c = false → Q () k d s) := by
  cases c <;> simp [Prog.when]

theorem wp_mono {m : Prog δ ω σ ε α} (h : M.wp m Q k d s)
    (hQ : ∀ a k d s, Q a k d s → Q' a k d s) : M.wp m Q' k d s :=
  ⟨h.1, fun a hres => hQ _ _ _ _ (h.2 a hres)⟩

/-- What a specification says of a normal end may be used. -/
theorem wp_and {m : Prog δ ω σ ε α} {G : δ → ω → Prop} {P : α → δ → σ → Prop}
    {E : ε → δ → σ → Prop} (h : M.wp m Q k d s) (hm : WriteLog.wp m G P E d s) :
    M.wp m (fun a k d s => Q a k d s ∧ P a d s) k d s :=
  ⟨h.1, fun a hres => ⟨h.2 a hres, hm.of_ok hres⟩⟩

/-- A loop whose body keeps an invariant. -/
theorem wp_each {f : ι → Prog δ ω σ ε Unit} {I : κ → δ → σ → Prop} {xs : List ι} (hI : I k d s)
    (hf : ∀ x ∈ xs, ∀ k d s, I k d s → M.wp (f x) (fun _ => I) k d s) :
    M.wp (Prog.each xs f) (fun _ => I) k d s := by
  induction xs generalizing k d s with
  | nil => simpa [Prog.each] using hI
  | cons x xs ih =>
    rw [Prog.each, wp_bind]
    refine wp_mono (hf x List.mem_cons_self k d s hI) fun _ k' d' s' hI' => ?_
    exact ih hI' fun y hy => hf y (List.mem_cons_of_mem x hy)

theorem wp_fold {f : β → ι → Prog δ ω σ ε β} {I : κ → δ → σ → Prop} {xs : List ι} {b : β}
    (hI : I k d s)
    (hf : ∀ x ∈ xs, ∀ b k d s, I k d s → M.wp (f b x) (fun _ => I) k d s) :
    M.wp (Prog.fold xs b f) (fun _ => I) k d s := by
  induction xs generalizing b k d s with
  | nil => simpa [Prog.fold] using hI
  | cons x xs ih =>
    rw [Prog.fold, wp_bind]
    refine wp_mono (hf x List.mem_cons_self b k d s hI) fun b' k' d' s' hI' => ?_
    exact ih hI' fun y hy => hf y (List.mem_cons_of_mem x hy)

end Monitor

end WriteLog
