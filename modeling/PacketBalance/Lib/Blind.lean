import PacketBalance.Lib.Prog
/-!
# Programs that do not see a part of the store

Stores that are related by `R` look the same to the program: it makes the same writes on
them and ends alike.  So whatever is proved of its run on one of them is true of the writes
it makes on the other.
-/

namespace WriteLog

variable {δ ω σ τ ε α β ι : Type} [Durable δ ω]

/-- Related stores stay related under every write. -/
class Stable (R : δ → δ → Prop) : Prop where
  write : ∀ {d d' : δ}, R d d' → ∀ w : ω, R (Durable.write d w) (Durable.write d' w)

/-- What the program does is the same on related stores. -/
class Blind (R : δ → δ → Prop) (m : Prog δ ω σ ε α) : Prop where
  same : ∀ {d d' : δ}, R d d' → ∀ s, m d s = m d' s

variable {R : δ → δ → Prop}

theorem Stable.replay [Stable R] {d d' : δ} (h : R d d') (log : List ω) :
    R (replay d log) (replay d' log) := by
  induction log generalizing d d' with
  | nil => exact h
  | cons w ws ih => exact ih (Stable.write h w)

namespace Blind

instance (a : α) : Blind R (pure a : Prog δ ω σ ε α) := ⟨fun _ _ => rfl⟩

instance (e : ε) : Blind R (throw e : Prog δ ω σ ε α) := ⟨fun _ _ => rfl⟩

instance : Blind R (get : Prog δ ω σ ε σ) := ⟨fun _ _ => rfl⟩

instance (f : σ → σ) : Blind R (modify f : Prog δ ω σ ε PUnit) := ⟨fun _ _ => rfl⟩

instance (w : ω) : Blind R (Prog.emit w : Prog δ ω σ ε Unit) := ⟨fun _ _ => rfl⟩

instance bind [Stable R] (m : Prog δ ω σ ε β) (f : β → Prog δ ω σ ε α) [Blind R m]
    [∀ b, Blind R (f b)] : Blind R (m >>= f) := by
  refine ⟨fun {d d'} h s => ?_⟩
  simp only [Bind.bind, same (R := R) (m := m) h s]
  cases (m d' s).res with
  | error e => rfl
  | ok b => simp only [same (R := R) (m := f b) (Stable.replay h (m d' s).log)]

theorem seq [Stable R] {m : Prog δ ω σ ε β} {f : β → Prog δ ω σ ε α} [Blind R m]
    (h : ∀ b, Blind R (f b)) : Blind R (m >>= f) :=
  bind m f

/-- A program may read the store if it makes nothing of the difference. -/
theorem durable {f : δ → Prog δ ω σ ε α} [∀ d, Blind R (f d)]
    (h : ∀ {d d' : δ}, R d d' → f d = f d') : Blind R (Prog.durable >>= f) := by
  have hread : ∀ d s, (Prog.durable >>= f) d s = f d d s := fun _ _ => rfl
  refine ⟨fun {d d'} hR s => ?_⟩
  rw [hread, hread, h hR]
  exact same hR s

instance ite (c : Prop) [Decidable c] (m m' : Prog δ ω σ ε α) [Blind R m] [Blind R m'] :
    Blind R (if c then m else m') := by
  split <;> infer_instance

instance when (c : Bool) (m : Prog δ ω σ ε Unit) [Blind R m] : Blind R (Prog.when c m) := by
  cases c
  · exact inferInstanceAs (Blind R (pure ()))
  · exact inferInstanceAs (Blind R m)

instance each [Stable R] (xs : List ι) (f : ι → Prog δ ω σ ε Unit) [∀ x, Blind R (f x)] :
    Blind R (Prog.each xs f) := by
  induction xs with
  | nil => exact inferInstanceAs (Blind R (pure ()))
  | cons x xs ih => exact inferInstanceAs (Blind R (f x >>= fun _ => Prog.each xs f))

instance fold [Stable R] (xs : List ι) (b : β) (f : β → ι → Prog δ ω σ ε β)
    [∀ b x, Blind R (f b x)] : Blind R (Prog.fold xs b f) := by
  induction xs generalizing b with
  | nil => exact inferInstanceAs (Blind R (pure b))
  | cons x xs ih => exact inferInstanceAs (Blind R (f b x >>= fun b' => Prog.fold xs b' f))

instance zoom (part : σ → τ) (put : τ → σ → σ) (m : Prog δ ω τ ε α) [Blind R m] :
    Blind R (Prog.zoom part put m) := by
  refine ⟨fun h s => ?_⟩
  simp only [Prog.zoom, same (R := R) (m := m) h (part s)]

end Blind

end WriteLog
