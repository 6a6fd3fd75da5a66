import PacketBalance.Lib.Text
/-!
# The standard library's number readers

`std::stoul` and `std::stoi` in base 10, as the C++ standard takes them from `strtoul` and
`strtol`: white space in front is skipped, a sign may follow, the number is the longest run of
digits from there, and what stands behind it is left alone.  A caller that wants nothing but
digits has to say so; `strict_iff` names the texts on which it then goes wrong.
-/

namespace Strto

open Text

def isSpace (c : Char) : Bool := c = ' ' || (9 ≤ c.toNat && c.toNat ≤ 13)

/-- An optional sign: whether it is a minus, and what follows it. -/
def sign : List Char → Bool × List Char
  | [] => (false, [])
  | c :: s =>
      if c = '-' then (true, s) else if c = '+' then (false, s) else (false, c :: s)

/-- What is read of a text, and what is left behind it. -/
structure Numeral where
  negative : Bool
  digits : List Char
  rest : List Char
deriving DecidableEq, Repr

def subject (s : List Char) : Option Numeral :=
  let (negative, s) := sign (s.dropWhile isSpace)
  if s.takeWhile Char.isDigit = [] then none
  else some ⟨negative, s.takeWhile Char.isDigit, s.dropWhile Char.isDigit⟩

inductive Failure where
  | invalidArgument
  | outOfRange
deriving DecidableEq, Repr

/-- A minus negates in the return type, which is `unsigned long` here. -/
def Numeral.unsigned (u : Numeral) : UInt64 :=
  if u.negative then - UInt64.ofNat (value u.digits) else UInt64.ofNat (value u.digits)

def Numeral.signed (u : Numeral) : Int :=
  if u.negative then - (value u.digits : Int) else value u.digits

def stoul (s : List Char) : Except Failure (UInt64 × Nat) :=
  match subject s with
  | none => .error .invalidArgument
  | some u =>
      if value u.digits < 2 ^ 64 then .ok (u.unsigned, s.length - u.rest.length)
      else .error .outOfRange

def stoi (s : List Char) : Except Failure (Int × Nat) :=
  match subject s with
  | none => .error .invalidArgument
  | some u =>
      if -2 ^ 31 ≤ u.signed ∧ u.signed < 2 ^ 31 then .ok (u.signed, s.length - u.rest.length)
      else .error .outOfRange

/-! ## The texts that are read -/

inductive IsSign : List Char → Bool → Prop
  | none : IsSign [] false
  | plus : IsSign ['+'] false
  | minus : IsSign ['-'] true

/-- White space, a sign, digits, and a rest that does not go on with a digit. -/
def Reads (s : List Char) (u : Numeral) : Prop :=
  ∃ space sgn, s = space ++ (sgn ++ (u.digits ++ u.rest)) ∧ (∀ c ∈ space, isSpace c = true) ∧
    IsSign sgn u.negative ∧ IsDecimal u.digits ∧ ∀ c ∈ u.rest.head?, c.isDigit = false

variable {s : List Char} {u w : Numeral}

theorem exists_sign (s : List Char) : ∃ sgn, IsSign sgn (sign s).1 ∧ s = sgn ++ (sign s).2 := by
  cases s with
  | nil => exact ⟨[], .none, rfl⟩
  | cons c s =>
      rw [sign]
      split
      · rename_i hc
        exact ⟨['-'], .minus, by rw [hc]; rfl⟩
      · split
        · rename_i hc
          exact ⟨['+'], .plus, by rw [hc]; rfl⟩
        · exact ⟨[], .none, rfl⟩

theorem sign_append {sgn t : List Char} {negative : Bool} (hsgn : IsSign sgn negative)
    (ht : ∃ c ∈ t.head?, c.isDigit = true) : sign (sgn ++ t) = (negative, t) := by
  cases hsgn with
  | none =>
      obtain ⟨c, hc, hdigit⟩ := ht
      obtain ⟨t, rfl⟩ := List.head?_eq_some_iff.mp hc
      have hminus : c ≠ '-' := by rintro rfl; exact absurd hdigit (by decide)
      have hplus : c ≠ '+' := by rintro rfl; exact absurd hdigit (by decide)
      rw [List.nil_append, sign, if_neg hminus, if_neg hplus]
  | plus => rfl
  | minus => rfl

theorem isSpace_eq_false_of_isDigit {c : Char} (h : c.isDigit = true) : isSpace c = false := by
  have hrange := Char.isDigit_iff_toNat.mp h
  simp only [Char.reduceToNat] at hrange
  have hblank : c ≠ ' ' := by rintro rfl; exact absurd h (by decide)
  simp only [isSpace, hblank, decide_false, Bool.false_or, Bool.and_eq_false_iff,
    decide_eq_false_iff_not]
  omega

theorem head?_sign_append {sgn t : List Char} {negative : Bool} (hsgn : IsSign sgn negative)
    (ht : ∃ c ∈ t.head?, c.isDigit = true) : ∀ c ∈ (sgn ++ t).head?, isSpace c = false := by
  cases hsgn with
  | none =>
      obtain ⟨d, hd, hdigit⟩ := ht
      intro c hc
      rw [List.nil_append, Option.mem_def.mp hd] at hc
      obtain rfl := Option.some.inj hc
      exact isSpace_eq_false_of_isDigit hdigit
  | plus => simp; decide
  | minus => simp; decide

theorem subject_eq_some_iff : subject s = some u ↔ Reads s u := by
  constructor
  · intro h
    simp only [subject] at h
    split at h
    · cases h
    · rename_i hne
      obtain ⟨sgn, hsgn, htext⟩ := exists_sign (s.dropWhile isSpace)
      obtain ⟨hs, hspace, -⟩ := takeWhile_dropWhile_iff (l := s) (p := isSpace).mp ⟨rfl, rfl⟩
      obtain ⟨hrun, hdigits, hrest⟩ := takeWhile_dropWhile_iff
        (l := (sign (s.dropWhile isSpace)).2) (p := Char.isDigit).mp ⟨rfl, rfl⟩
      obtain rfl := Option.some.inj h
      refine ⟨s.takeWhile isSpace, sgn, ?_, hspace, hsgn, ⟨hne, hdigits⟩, hrest⟩
      rw [← hrun, ← htext, ← hs]
  · rintro ⟨space, sgn, hs, hspace, hsgn, hdec, hrest⟩
    have hhead : ∃ c ∈ (u.digits ++ u.rest).head?, c.isDigit = true := by
      obtain ⟨c, l, hl⟩ := List.exists_cons_of_ne_nil hdec.ne_nil
      exact ⟨c, by simp [hl], hdec.digits c (by simp [hl])⟩
    have hdrop : s.dropWhile isSpace = sgn ++ (u.digits ++ u.rest) :=
      (takeWhile_dropWhile_iff.mpr ⟨hs, hspace, head?_sign_append hsgn hhead⟩).2
    obtain ⟨htake, hleft⟩ :=
      takeWhile_dropWhile_iff (p := Char.isDigit).mpr ⟨rfl, hdec.digits, hrest⟩
    simp only [subject, hdrop, sign_append hsgn hhead, htake, hleft]
    rw [if_neg hdec.ne_nil]

theorem Reads.unique (hu : Reads s u) (hw : Reads s w) : u = w :=
  Option.some.inj ((subject_eq_some_iff.mpr hu).symm.trans (subject_eq_some_iff.mpr hw))

theorem Reads.length_sub_eq_iff (h : Reads s u) :
    s.length - u.rest.length = s.length ↔ u.rest = [] := by
  obtain ⟨space, sgn, rfl, -⟩ := h
  simp only [List.length_append, ← List.length_eq_zero_iff]
  omega

theorem ite_eq_ok_iff {ε α : Type} {p : Prop} [Decidable p] {a r : α} {e : ε} :
    (if p then Except.ok a else .error e) = .ok r ↔ p ∧ r = a := by
  by_cases hp : p
  · simp [hp, eq_comm]
  · simp [hp]

theorem stoul_eq_ok_iff {r : UInt64 × Nat} : stoul s = .ok r ↔
    ∃ u, Reads s u ∧ value u.digits < 2 ^ 64 ∧ r = (u.unsigned, s.length - u.rest.length) := by
  simp only [← subject_eq_some_iff, stoul]
  cases subject s with
  | none => simp
  | some u => simp only [ite_eq_ok_iff, Option.some.injEq, exists_eq_left']

theorem stoi_eq_ok_iff {r : Int × Nat} : stoi s = .ok r ↔
    ∃ u, Reads s u ∧ (-2 ^ 31 ≤ u.signed ∧ u.signed < 2 ^ 31) ∧
      r = (u.signed, s.length - u.rest.length) := by
  simp only [← subject_eq_some_iff, stoi]
  cases subject s with
  | none => simp
  | some u => simp only [ite_eq_ok_iff, Option.some.injEq, exists_eq_left']

/-! ## Nothing but digits -/

def bare (s : List Char) : Numeral := ⟨false, s, []⟩

theorem reads_bare_iff : Reads s (bare s) ↔ IsDecimal s := by
  constructor
  · rintro ⟨-, -, -, -, -, hdec, -⟩
    exact hdec
  · intro hdec
    exact ⟨[], [], by simp [bare], by simp, .none, hdec, by simp [bare]⟩

theorem toNat_unsigned_bare (h : value s < 2 ^ 64) : (bare s).unsigned.toNat = value s := by
  rw [Numeral.unsigned, bare, if_neg Bool.false_ne_true, UInt64.toNat_ofNat_of_lt' h]

theorem signed_bare (s : List Char) : (bare s).signed = value s := rfl

/-- The text is read as a number that is accepted, but it has more to it than the digits. -/
def Dressed {β : Type} (accepts : Numeral → β → Prop) (s : List Char) : Prop :=
  ∃ u n, Reads s u ∧ u ≠ bare s ∧ accepts u n

/-- A caller of the reader takes digits and nothing else exactly on the texts that are not
dressed numbers. -/
theorem strict_iff {β : Type} {accepts : Numeral → β → Prop} {returns written : β → Prop}
    (hreturns : ∀ n, returns n ↔ ∃ u, Reads s u ∧ accepts u n)
    (hbare : ∀ n, accepts (bare s) n ↔ written n) :
    (∀ n, returns n ↔ IsDecimal s ∧ written n) ↔ ¬ Dressed accepts s := by
  constructor
  · rintro hstrict ⟨u, n, hreads, hne, haccepts⟩
    have hdec := ((hstrict n).mp ((hreturns n).mpr ⟨u, hreads, haccepts⟩)).1
    exact hne (hreads.unique (reads_bare_iff.mpr hdec))
  · intro hnot n
    rw [hreturns, ← hbare, ← reads_bare_iff]
    constructor
    · rintro ⟨u, hreads, haccepts⟩
      by_cases hu : u = bare s
      · exact hu ▸ ⟨hreads, haccepts⟩
      · exact absurd ⟨u, n, hreads, hu, haccepts⟩ hnot
    · rintro ⟨hreads, haccepts⟩
      exact ⟨bare s, hreads, haccepts⟩

end Strto
