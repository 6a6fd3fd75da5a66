import Mathlib.Data.List.Basic
import Mathlib.Tactic.Common
/-!
# Programs over a durable store and a volatile memory

A program reads a durable store, changes it by single writes, keeps a volatile
memory of its own and may stop with an error.  An error undoes nothing: the
writes made and the memory reached so far stay.  Running a program yields the
list of its writes, so the points at which an outside observer can see the
store, or at which the program can be killed, are the prefixes of that list.

`wp m G Q E` is the weakest precondition of `m`: every write is made in a store
where the guarantee `G` allows it, a normal end satisfies `Q` and an error end
satisfies `E`.
-/

namespace WriteLog

/-- A store that is changed by single writes. -/
class Durable (δ : Type) (ω : outParam Type) where
  write : δ → ω → δ

/-- The store after a list of writes. -/
def replay {δ ω : Type} [Durable δ ω] (d : δ) (log : List ω) : δ :=
  log.foldl Durable.write d

/-- What a run leaves behind: its writes in order, its memory, its result. -/
structure Outcome (ω σ ε α : Type) where
  log : List ω
  mem : σ
  res : Except ε α

/-- A program over the durable store `δ` and the memory `σ`. -/
def Prog (δ ω σ ε α : Type) : Type := δ → σ → Outcome ω σ ε α

section Programs

variable {δ ω σ τ ε α β ι : Type} [Durable δ ω]

@[simp] theorem replay_nil (d : δ) : replay d ([] : List ω) = d := rfl

@[simp] theorem replay_cons (d : δ) (w : ω) (ws : List ω) :
    replay d (w :: ws) = replay (Durable.write d w) ws := rfl

theorem replay_append (d : δ) (l l' : List ω) :
    replay d (l ++ l') = replay (replay d l) l' := by
  simp [replay, List.foldl_append]

namespace Prog

instance : Monad (Prog δ ω σ ε) where
  pure a := fun _ s => ⟨[], s, .ok a⟩
  bind m f := fun d s =>
    match (m d s).res with
    | .error e => ⟨(m d s).log, (m d s).mem, .error e⟩
    | .ok a =>
        let next := f a (replay d (m d s).log) (m d s).mem
        ⟨(m d s).log ++ next.log, next.mem, next.res⟩

instance : MonadStateOf σ (Prog δ ω σ ε) where
  get := fun _ s => ⟨[], s, .ok s⟩
  set s' := fun _ _ => ⟨[], s', .ok ()⟩
  modifyGet f := fun _ s => ⟨[], (f s).2, .ok (f s).1⟩

instance : MonadExceptOf ε (Prog δ ω σ ε) where
  throw e := fun _ s => ⟨[], s, .error e⟩
  tryCatch m h := fun d s =>
    match (m d s).res with
    | .ok a => ⟨(m d s).log, (m d s).mem, .ok a⟩
    | .error e =>
        let next := h e (replay d (m d s).log) (m d s).mem
        ⟨(m d s).log ++ next.log, next.mem, next.res⟩

def emit (w : ω) : Prog δ ω σ ε Unit := fun _ s => ⟨[w], s, .ok ()⟩

def durable : Prog δ ω σ ε δ := fun d s => ⟨[], s, .ok d⟩

/-- Run the body on each element in order; an error stops the loop. -/
def each : List ι → (ι → Prog δ ω σ ε Unit) → Prog δ ω σ ε Unit
  | [], _ => pure ()
  | i :: is, f => do
      f i
      each is f

/-- Run the body on each element in order, handing a value along. -/
def fold : List ι → β → (β → ι → Prog δ ω σ ε β) → Prog δ ω σ ε β
  | [], b, _ => pure b
  | i :: is, b, f => do
      let b' ← f b i
      fold is b' f

def when (c : Bool) (m : Prog δ ω σ ε Unit) : Prog δ ω σ ε Unit :=
  if c then m else pure ()

/-- Run a program whose memory is a part of the memory at hand. -/
def zoom (part : σ → τ) (put : τ → σ → σ) (m : Prog δ ω τ ε α) : Prog δ ω σ ε α :=
  fun d s => ⟨(m d (part s)).log, put (m d (part s)).mem s, (m d (part s)).res⟩

end Prog

/-! ## Guarantees along a log -/

def Guarded (G : δ → ω → Prop) : δ → List ω → Prop
  | _, [] => True
  | d, w :: ws => G d w ∧ Guarded G (Durable.write d w) ws

theorem guarded_append {G : δ → ω → Prop} {d : δ} {l l' : List ω} :
    Guarded G d (l ++ l') ↔ Guarded G d l ∧ Guarded G (replay d l) l' := by
  induction l generalizing d with
  | nil => simp [Guarded]
  | cons w ws ih => simp [Guarded, ih, and_assoc]

theorem Guarded.mono {G G' : δ → ω → Prop} (hG : ∀ d w, G d w → G' d w)
    {d : δ} {l : List ω} (h : Guarded G d l) : Guarded G' d l := by
  induction l generalizing d with
  | nil => trivial
  | cons w ws ih => exact ⟨hG d w h.1, ih h.2⟩

/-- A condition that every write re-establishes holds at every kill point. -/
theorem Guarded.at_cut {C : δ → Prop} {d : δ} {l p : List ω}
    (h : Guarded (fun d w => C (Durable.write d w)) d l) (hd : C d)
    (hp : p <+: l) : C (replay d p) := by
  induction p generalizing d l with
  | nil => exact hd
  | cons w ws ih =>
      obtain ⟨rest, rfl⟩ := hp
      exact ih h.2 h.1 ⟨rest, rfl⟩

/-- A condition that every write keeps holds at every kill point. -/
theorem Guarded.keeps {C : δ → Prop} {d : δ} {l : List ω}
    (h : Guarded (fun d w => C d → C (Durable.write d w)) d l) (hd : C d) :
    Guarded (fun d w => C (Durable.write d w)) d l := by
  induction l generalizing d with
  | nil => trivial
  | cons w ws ih => exact ⟨h.1 hd, ih h.2 (h.1 hd)⟩

theorem Guarded.of_mem {P : ω → Prop} {d : δ} {l : List ω} (h : Guarded (fun _ w => P w) d l) :
    ∀ w ∈ l, P w := by
  induction l generalizing d with
  | nil => simp
  | cons w ws ih => simpa using ⟨h.1, ih h.2⟩

/-! ## Paths -/

/-- A path through states, one step for each element of the list. -/
def Path {τ : Type} (R : ι → τ → τ → Prop) : List ι → τ → τ → Prop
  | [], s, s' => s' = s
  | x :: xs, s, s' => ∃ s₁, R x s s₁ ∧ Path R xs s₁ s'

section Paths

variable {τ : Type} {R : ι → τ → τ → Prop} {xs ys : List ι} {s s' : τ}

theorem path_append :
    Path R (xs ++ ys) s s' ↔ ∃ s₁, Path R xs s s₁ ∧ Path R ys s₁ s' := by
  induction xs generalizing s with
  | nil => simp [Path]
  | cons x xs ih =>
      simp only [List.cons_append, Path, ih]
      constructor
      · rintro ⟨s₁, hx, s₂, hxs, hys⟩
        exact ⟨s₂, ⟨s₁, hx, hxs⟩, hys⟩
      · rintro ⟨s₂, ⟨s₁, hx, hxs⟩, hys⟩
        exact ⟨s₁, hx, s₂, hxs, hys⟩

theorem Path.snoc {s₁ : τ} {x : ι} (h : Path R xs s s₁) (hx : R x s₁ s') :
    Path R (xs ++ [x]) s s' :=
  path_append.mpr ⟨s₁, h, s', hx, rfl⟩

/-- What every step keeps holds at the end of a path. -/
theorem Path.invariant {I : List ι → τ → Prop} (h : Path R xs s s') (hinit : I [] s)
    (hstep : ∀ done x rest, xs = done ++ x :: rest → ∀ s s', I done s → R x s s' →
      I (done ++ [x]) s') : I xs s' := by
  suffices hgen : ∀ rest done, xs = done ++ rest → ∀ s, I done s → Path R rest s s' →
      I xs s' from hgen xs [] rfl s hinit h
  intro rest
  induction rest with
  | nil =>
      rintro done hxs s hI rfl
      simpa [hxs] using hI
  | cons x rest ih =>
      rintro done hxs s hI ⟨s₁, hx, hrest⟩
      exact ih (done ++ [x]) (by simp [hxs]) s₁ (hstep done x rest hxs s s₁ hI hx) hrest

theorem Path.imp {R' : ι → τ → τ → Prop} (h : Path R xs s s')
    (himp : ∀ x s s', R x s s' → R' x s s') : Path R' xs s s' :=
  h.invariant (I := fun done s₁ => Path R' done s s₁) rfl
    fun _ x _ _ s₁ s₂ hdone hx => hdone.snoc (himp x s₁ s₂ hx)

end Paths

/-! ## The weakest precondition -/

/-- `m` makes only writes allowed by `G`, a normal end satisfies `Q`, an error
end satisfies `E`. -/
def wp (m : Prog δ ω σ ε α) (G : δ → ω → Prop) (Q : α → δ → σ → Prop)
    (E : ε → δ → σ → Prop) (d : δ) (s : σ) : Prop :=
  Guarded G d (m d s).log ∧
    match (m d s).res with
    | .ok a => Q a (replay d (m d s).log) (m d s).mem
    | .error e => E e (replay d (m d s).log) (m d s).mem

section Rules

variable {G G' : δ → ω → Prop} {Q Q' : α → δ → σ → Prop}
variable {E E' : ε → δ → σ → Prop} {d : δ} {s : σ}

@[simp] theorem wp_pure (a : α) :
    wp (pure a : Prog δ ω σ ε α) G Q E d s ↔ Q a d s := by
  simp [wp, pure, Guarded]

@[simp] theorem wp_throw (e : ε) :
    wp (throw e : Prog δ ω σ ε α) G Q E d s ↔ E e d s := by
  simp [wp, throw, throwThe, MonadExceptOf.throw, Guarded]

@[simp] theorem wp_get {Q : σ → δ → σ → Prop} :
    wp (get : Prog δ ω σ ε σ) G Q E d s ↔ Q s d s := by
  simp [wp, get, getThe, MonadStateOf.get, Guarded]

@[simp] theorem wp_modify (f : σ → σ) {Q : PUnit → δ → σ → Prop} :
    wp (modify f : Prog δ ω σ ε PUnit) G Q E d s ↔ Q () d (f s) := by
  simp [wp, modify, modifyGet, MonadStateOf.modifyGet, Guarded]

@[simp] theorem wp_durable {Q : δ → δ → σ → Prop} :
    wp (Prog.durable : Prog δ ω σ ε δ) G Q E d s ↔ Q d d s := by
  simp [wp, Prog.durable, Guarded]

@[simp] theorem wp_emit (w : ω) {Q : Unit → δ → σ → Prop} :
    wp (Prog.emit w : Prog δ ω σ ε Unit) G Q E d s ↔
      G d w ∧ Q () (Durable.write d w) s := by
  simp [wp, Prog.emit, Guarded]

@[simp] theorem wp_bind (m : Prog δ ω σ ε β) (f : β → Prog δ ω σ ε α) :
    wp (m >>= f) G Q E d s ↔
      wp m G (fun b d' s' => wp (f b) G Q E d' s') E d s := by
  simp only [wp, bind]
  cases hres : (m d s).res with
  | error e => simp
  | ok b => simp [guarded_append, replay_append, and_assoc]

@[simp] theorem wp_zoom (part : σ → τ) (put : τ → σ → σ) (m : Prog δ ω τ ε α) :
    wp (Prog.zoom part put m) G Q E d s ↔
      wp m G (fun a d' t => Q a d' (put t s)) (fun e d' t => E e d' (put t s)) d
        (part s) := Iff.rfl

theorem wp_ite {c : Prop} [Decidable c] (m m' : Prog δ ω σ ε α) :
    wp (if c then m else m') G Q E d s ↔
      (c → wp m G Q E d s) ∧ (¬c → wp m' G Q E d s) := by
  by_cases hc : c <;> simp [hc]

theorem wp_when {c : Bool} (m : Prog δ ω σ ε Unit) {Q : Unit → δ → σ → Prop} :
    wp (Prog.when c m) G Q E d s ↔ (c → wp m G Q E d s) ∧ (c = false → Q () d s) := by
  cases c <;> simp [Prog.when]

/-- The rule of consequence. -/
theorem wp_mono {m : Prog δ ω σ ε α} (h : wp m G Q E d s)
    (hG : ∀ d w, G d w → G' d w) (hQ : ∀ a d s, Q a d s → Q' a d s)
    (hE : ∀ e d s, E e d s → E' e d s) : wp m G' Q' E' d s := by
  refine ⟨h.1.mono hG, ?_⟩
  have hend := h.2
  cases hres : (m d s).res with
  | ok a =>
      simp only [hres] at hend ⊢
      exact hQ _ _ _ hend
  | error e =>
      simp only [hres] at hend ⊢
      exact hE _ _ _ hend

theorem wp_true (m : Prog δ ω σ ε α) :
    wp m (fun _ _ => True) (fun _ _ _ => True) (fun _ _ _ => True) d s := by
  have hlog : ∀ (l : List ω) (d : δ), Guarded (fun _ _ => True) d l := by
    intro l
    induction l with
    | nil => exact fun _ => trivial
    | cons w ws ih => exact fun d => ⟨trivial, ih _⟩
  refine ⟨hlog _ _, ?_⟩
  split <;> trivial

theorem wp_imp {m : Prog δ ω σ ε α} (h : wp m G Q E d s)
    (hQ : ∀ a d s, Q a d s → Q' a d s) : wp m G Q' E d s :=
  wp_mono h (fun _ _ hw => hw) hQ (fun _ _ _ he => he)

theorem wp.returns {m : Prog δ ω σ ε α} (h : wp m G Q E d s)
    (hQ : ∀ a d s, Q a d s → Q' a d s) :
    wp m (fun _ _ => True) Q' (fun _ _ _ => True) d s :=
  wp_mono h (fun _ _ _ => trivial) hQ fun _ _ _ _ => trivial

/-- A program is deterministic, so two specifications of it hold together. -/
theorem wp_and {m : Prog δ ω σ ε α} (h : wp m G Q E d s) (h' : wp m G' Q' E' d s) :
    wp m (fun d w => G d w ∧ G' d w) (fun a d s => Q a d s ∧ Q' a d s)
      (fun e d s => E e d s ∧ E' e d s) d s := by
  have hlog : ∀ (l : List ω) (d : δ), Guarded G d l → Guarded G' d l →
      Guarded (fun d w => G d w ∧ G' d w) d l := by
    intro l
    induction l with
    | nil => intro _ _ _; trivial
    | cons w ws ih => intro d h₁ h₂; exact ⟨⟨h₁.1, h₂.1⟩, ih _ h₁.2 h₂.2⟩
  refine ⟨hlog _ _ h.1 h'.1, ?_⟩
  have hend := h.2
  have hend' := h'.2
  cases hres : (m d s).res with
  | ok a =>
      simp only [hres] at hend hend' ⊢
      exact ⟨hend, hend'⟩
  | error e =>
      simp only [hres] at hend hend' ⊢
      exact ⟨hend, hend'⟩

/-- A condition on the store that every write re-establishes holds at the end too. -/
theorem wp_and_store {m : Prog δ ω σ ε α} {C : δ → Prop}
    (h : wp m (fun d w => C (Durable.write d w)) Q E d s) (hd : C d) :
    wp m (fun _ _ => True) (fun a d s => Q a d s ∧ C d) (fun e d s => E e d s ∧ C d) d s := by
  have hC := h.1.at_cut hd List.prefix_rfl
  refine ⟨h.1.mono fun _ _ _ => trivial, ?_⟩
  have hend := h.2
  cases hres : (m d s).res with
  | ok a =>
      simp only [hres] at hend ⊢
      exact ⟨hend, hC⟩
  | error e =>
      simp only [hres] at hend ⊢
      exact ⟨hend, hC⟩

/-- A loop keeps an invariant indexed by the elements done so far. -/
theorem wp_each {f : ι → Prog δ ω σ ε Unit} {I : List ι → δ → σ → Prop}
    (xs : List ι) (hinit : I [] d s)
    (hstep : ∀ done x rest, xs = done ++ x :: rest → ∀ d s, I done d s →
      wp (f x) G (fun _ d' s' => I (done ++ [x]) d' s') E d s) :
    wp (Prog.each xs f) G (fun _ d' s' => I xs d' s') E d s := by
  suffices hgen : ∀ rest done, xs = done ++ rest → ∀ d s, I done d s →
      wp (Prog.each rest f) G (fun _ d' s' => I xs d' s') E d s from
    hgen xs [] rfl d s hinit
  intro rest
  induction rest with
  | nil =>
      intro done hxs d s hI
      simpa [Prog.each, hxs] using hI
  | cons x rest ih =>
      intro done hxs d s hI
      simp only [Prog.each, wp_bind]
      refine wp_imp (hstep done x rest hxs d s hI) ?_
      intro _ d' s' hI'
      exact ih (done ++ [x]) (by simp [hxs]) d' s' hI'

/-- A loop goes along a path of its body's relation; what is known of a write or of
an error is known of the body at the state the path has reached. -/
theorem wp_each_path {f : ι → Prog δ ω σ ε Unit} {R : ι → δ × σ → δ × σ → Prop}
    {P : ι → δ × σ → δ → ω → Prop} {F : ι → δ × σ → ε → δ → σ → Prop} (xs : List ι)
    (hstep : ∀ done x rest, xs = done ++ x :: rest → ∀ d₁ s₁,
      Path R done (d, s) (d₁, s₁) → wp (f x) (P x (d₁, s₁))
        (fun _ d' s' => R x (d₁, s₁) (d', s')) (F x (d₁, s₁)) d₁ s₁) :
    wp (Prog.each xs f)
      (fun d' w => ∃ done x rest z, xs = done ++ x :: rest ∧ Path R done (d, s) z ∧
        P x z d' w)
      (fun _ d' s' => Path R xs (d, s) (d', s'))
      (fun e d' s' => ∃ done x rest z, xs = done ++ x :: rest ∧ Path R done (d, s) z ∧
        F x z e d' s') d s := by
  refine wp_each (I := fun done d' s' => Path R done (d, s) (d', s')) xs rfl ?_
  intro done x rest hxs d₁ s₁ hpath
  refine wp_mono (hstep done x rest hxs d₁ s₁ hpath) ?_ ?_ ?_
  · exact fun d' w hw => ⟨done, x, rest, _, hxs, hpath, hw⟩
  · exact fun _ d' s' hR => hpath.snoc hR
  · exact fun e d' s' hF => ⟨done, x, rest, _, hxs, hpath, hF⟩

/-- A fold keeps an invariant indexed by the elements done so far. -/
theorem wp_fold {f : β → ι → Prog δ ω σ ε β} {I : List ι → β → δ → σ → Prop}
    {E : ε → δ → σ → Prop} (xs : List ι) {b : β} (hinit : I [] b d s)
    (hstep : ∀ done x rest, xs = done ++ x :: rest → ∀ b d s, I done b d s →
      wp (f b x) G (fun b' d' s' => I (done ++ [x]) b' d' s') E d s) :
    wp (Prog.fold xs b f) G (fun b' d' s' => I xs b' d' s') E d s := by
  suffices hgen : ∀ rest done, xs = done ++ rest → ∀ b d s, I done b d s →
      wp (Prog.fold rest b f) G (fun b' d' s' => I xs b' d' s') E d s from
    hgen xs [] rfl b d s hinit
  intro rest
  induction rest with
  | nil =>
      intro done hxs b d s hI
      simpa [Prog.fold, hxs] using hI
  | cons x rest ih =>
      intro done hxs b d s hI
      simp only [Prog.fold, wp_bind]
      refine wp_imp (hstep done x rest hxs b d s hI) ?_
      intro b' d' s' hI'
      exact ih (done ++ [x]) (by simp [hxs]) b' d' s' hI'

end Rules

theorem wp.of_ok {m : Prog δ ω σ ε α} {G : δ → ω → Prop} {Q : α → δ → σ → Prop}
    {E : ε → δ → σ → Prop} {d : δ} {s : σ} {a : α} (h : wp m G Q E d s)
    (hres : (m d s).res = .ok a) : Q a (replay d (m d s).log) (m d s).mem := by
  have hend := h.2
  simpa only [hres] using hend

theorem wp.of_error {m : Prog δ ω σ ε α} {G : δ → ω → Prop} {Q : α → δ → σ → Prop}
    {E : ε → δ → σ → Prop} {d : δ} {s : σ} {e : ε} (h : wp m G Q E d s)
    (hres : (m d s).res = .error e) : E e (replay d (m d s).log) (m d s).mem := by
  have hend := h.2
  simpa only [hres] using hend

theorem wp.at_end {m : Prog δ ω σ ε α} {G : δ → ω → Prop} {I : δ → σ → Prop} {d : δ} {s : σ}
    (h : wp m G (fun _ => I) (fun _ => I) d s) : I (replay d (m d s).log) (m d s).mem := by
  have hend := h.2
  cases hres : (m d s).res with
  | ok a => simpa only [hres] using hend
  | error e => simpa only [hres] using hend

/-! ## Preserved conditions -/

/-- `m` keeps a condition on store and memory, whether it returns or throws. -/
def Preserves (I : δ → σ → Prop) (m : Prog δ ω σ ε α) : Prop :=
  ∀ d s, I d s → wp m (fun _ _ => True) (fun _ => I) (fun _ => I) d s

namespace Preserves

variable {I : δ → σ → Prop}

theorem at_end {m : Prog δ ω σ ε α} (h : Preserves I m) {d : δ} {s : σ} (hI : I d s) :
    I (replay d (m d s).log) (m d s).mem :=
  (h d s hI).at_end

theorem to_wp {m : Prog δ ω σ ε α} (h : Preserves I m) {d : δ} {s : σ} (hI : I d s)
    {Q : α → δ → σ → Prop} (hQ : ∀ a d s, I d s → Q a d s) :
    wp m (fun _ _ => True) Q (fun _ _ _ => True) d s :=
  (h d s hI).returns hQ

theorem of_pure (a : α) : Preserves I (pure a : Prog δ ω σ ε α) :=
  fun _ _ hI => (wp_pure a).mpr hI

theorem of_throw (e : ε) : Preserves I (throw e : Prog δ ω σ ε α) :=
  fun _ _ hI => (wp_throw e).mpr hI

theorem of_get : Preserves I (get : Prog δ ω σ ε σ) :=
  fun _ _ hI => wp_get.mpr hI

theorem of_durable : Preserves I (Prog.durable : Prog δ ω σ ε δ) :=
  fun _ _ hI => wp_durable.mpr hI

theorem of_modify {f : σ → σ} (h : ∀ d s, I d s → I d (f s)) :
    Preserves I (modify f : Prog δ ω σ ε PUnit) :=
  fun d s hI => (wp_modify f).mpr (h d s hI)

theorem of_emit {w : ω} (h : ∀ d s, I d s → I (Durable.write d w) s) :
    Preserves I (Prog.emit w : Prog δ ω σ ε Unit) :=
  fun d s hI => (wp_emit w).mpr ⟨trivial, h d s hI⟩

theorem bind {m : Prog δ ω σ ε β} {f : β → Prog δ ω σ ε α} (hm : Preserves I m)
    (hf : ∀ b, Preserves I (f b)) : Preserves I (m >>= f) :=
  fun d s hI => (wp_bind m f).mpr (wp_imp (hm d s hI) fun b d' s' hI' => hf b d' s' hI')

theorem ite {c : Prop} [Decidable c] {m m' : Prog δ ω σ ε α} (hm : c → Preserves I m)
    (hm' : ¬c → Preserves I m') : Preserves I (if c then m else m') :=
  fun d s hI => (wp_ite m m').mpr ⟨fun hc => hm hc d s hI, fun hc => hm' hc d s hI⟩

theorem when {c : Bool} {m : Prog δ ω σ ε Unit} (hm : Preserves I m) :
    Preserves I (Prog.when c m) :=
  fun d s hI => (wp_when m).mpr ⟨fun _ => hm d s hI, fun _ => hI⟩

theorem imp {P : Prop} {m : Prog δ ω σ ε α} (hm : Preserves I m) :
    Preserves (fun d s => P → I d s) m := by
  intro d s hI
  by_cases hP : P
  · simpa only [hP, forall_const] using hm d s (hI hP)
  · simpa only [hP, false_imp_iff] using wp_true m

theorem each {f : ι → Prog δ ω σ ε Unit} {xs : List ι} (h : ∀ x ∈ xs, Preserves I (f x)) :
    Preserves I (Prog.each xs f) :=
  fun _ _ hI => wp_each (I := fun _ => I) xs hI fun done x rest hxs d s hI =>
    h x (by simp [hxs]) d s hI

theorem fold {f : β → ι → Prog δ ω σ ε β} {xs : List ι} {b : β}
    (h : ∀ x ∈ xs, ∀ b, Preserves I (f b x)) : Preserves I (Prog.fold xs b f) :=
  fun _ _ hI => wp_fold (I := fun _ _ => I) xs hI fun done x rest hxs b d s hI =>
    h x (by simp [hxs]) b d s hI

/-- A program on a part of the memory that the condition does not look at. -/
theorem zoom {I : σ → Prop} {part : σ → τ} {put : τ → σ → σ} (h : ∀ t s, I s → I (put t s))
    (m : Prog δ ω τ ε α) : Preserves (fun _ => I) (Prog.zoom part put m) := by
  intro d s hI
  exact (wp_zoom part put m).mpr
    (wp_mono (wp_true m) (fun _ _ _ => trivial) (fun _ _ t _ => h t s hI) fun _ _ t _ => h t s hI)

end Preserves

/-! ## The parts of a run that ended normally -/

theorem Prog.bind_of_ok {m : Prog δ ω σ ε β} {d : δ} {s : σ} {b : β}
    (h : (m d s).res = .ok b) (f : β → Prog δ ω σ ε α) :
    (m >>= f) d s =
      ⟨(m d s).log ++ (f b (replay d (m d s).log) (m d s).mem).log,
        (f b (replay d (m d s).log) (m d s).mem).mem,
        (f b (replay d (m d s).log) (m d s).mem).res⟩ := by
  simp [bind, h]

theorem Prog.ok_of_bind {m : Prog δ ω σ ε β} {f : β → Prog δ ω σ ε α} {d : δ} {s : σ} {a : α}
    (h : ((m >>= f) d s).res = .ok a) : ∃ b, (m d s).res = .ok b := by
  cases hres : (m d s).res with
  | error e => simp [bind, hres] at h
  | ok b => exact ⟨b, rfl⟩

theorem Prog.ok_each_append {f : ι → Prog δ ω σ ε Unit} {xs ys : List ι} {d : δ} {s : σ}
    (h : (Prog.each (xs ++ ys) f d s).res = .ok ()) :
    (Prog.each xs f d s).res = .ok () ∧
      (Prog.each xs f d s).log <+: (Prog.each (xs ++ ys) f d s).log := by
  induction xs generalizing d s with
  | nil => exact ⟨rfl, List.nil_prefix⟩
  | cons x xs ih =>
      simp only [List.cons_append, Prog.each] at h ⊢
      obtain ⟨_, hx⟩ := Prog.ok_of_bind h
      rw [Prog.bind_of_ok hx] at h
      rw [Prog.bind_of_ok hx, Prog.bind_of_ok hx]
      obtain ⟨hxs, hpre⟩ := ih h
      exact ⟨hxs, (List.prefix_append_right_inj _).mpr hpre⟩

end Programs

end WriteLog
