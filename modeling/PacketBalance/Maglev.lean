import PacketBalance.Hash
import Mathlib.Data.List.Sort
/-!
# Ring construction

`src/core/maglev.cpp`.  A ring is a list of real ids, `pbRealNone` where no
backend owns the slot.
-/

namespace PacketBalance

structure Backend where
  realId : Nat
  addr : UInt32
  weight : Nat
deriving DecidableEq, Repr

inductive HashMode where
  | maglev
  | modulo
deriving DecidableEq, Repr

/-- How `build_ring` can fail to return: the exception it throws, or a fill
whose loops never end. -/
inductive RingError where
  | invalidArgument (text : String)
  | diverges
deriving DecidableEq, Repr

/-! ## Active backends -/

/-- `std::adjacent_find` on the sorted backends, by address. -/
def adjacentFind : List Backend → Option UInt32
  | x :: y :: rest =>
      if x.addr = y.addr then some x.addr else adjacentFind (y :: rest)
  | _ => none

/-- Backends with weight > 0, sorted by address; two of one address are an
error. -/
def activeSorted (backends : List Backend) : Except RingError (List Backend) :=
  let out := (backends.filter (0 < ·.weight)).insertionSort (·.addr ≤ ·.addr)
  match adjacentFind out with
  | some addr =>
      .error (.invalidArgument
        ("build_ring: duplicate backend address " ++ ipv4ToString addr))
  | none => .ok out

/-! ## Maglev -/

def backendOffset (M : Nat) (b : Backend) : Nat :=
  (pbBackendHashOffset b.addr).toNat % M

def backendSkip (M : Nat) (b : Backend) : Nat :=
  if 1 < M then (pbBackendHashSkip b.addr).toNat % (M - 1) + 1 else 1

/-- The table being filled, each backend's next position, the slots claimed. -/
structure Fill where
  entry : List Nat
  next : List Nat
  filled : Nat
deriving DecidableEq, Repr

/-- Walk a permutation from slot `c` to the first unclaimed slot.  The loop of
the source has no bound; `fuel` is the number of slots it may look at. -/
def probe (M : Nat) (entry : List Nat) (skip : Nat) : Nat → Nat → Option Nat
  | 0, _ => none
  | fuel + 1, c =>
      if entry.getD c pbRealNone = pbRealNone then some c
      else probe M entry skip fuel ((c + skip) % M)

/-- Backend `turn.1`, the one of index `turn.2`, claims its next slot. -/
def takeTurn (M : Nat) (st : Fill) (turn : Backend × Nat) : Option Fill :=
  let skip := backendSkip M turn.1
  (probe M st.entry skip M (st.next.getD turn.2 0)).map fun c =>
    { entry := st.entry.set c turn.1.realId
      next := st.next.set turn.2 ((c + skip) % M)
      filled := st.filled + 1 }

/-- The turns of one round: on pass `t` every backend of weight above `t`. -/
def roundTurns (sorted : List Backend) : List (Backend × Nat) :=
  let wMax := (sorted.map Backend.weight).foldl max 0
  (List.range wMax).flatMap fun pass => sorted.zipIdx.filter (pass < ·.1.weight)

def fillRound (M : Nat) : List (Backend × Nat) → Fill → Option Fill
  | [], st => some st
  | turn :: turns, st => do
      let st' ← takeTurn M st turn
      if st'.filled = M then some st' else fillRound M turns st'

/-- `while (true)`: round after round until the table is full. -/
def fillRounds (M : Nat) (turns : List (Backend × Nat)) : Nat → Fill → Option Fill
  | 0, _ => none
  | fuel + 1, st => do
      let st' ← fillRound M turns st
      if st'.filled = M then some st' else fillRounds M turns fuel st'

/-- `none` when the fill has not ended after `M` rounds. -/
def buildMaglev (sorted : List Backend) (M : Nat) : Option (List Nat) :=
  if sorted = [] ∨ M = 0 then some (List.replicate M pbRealNone)
  else
    (fillRounds M (roundTurns sorted) M
      { entry := List.replicate M pbRealNone
        next := sorted.map (backendOffset M)
        filled := 0 }).map Fill.entry

/-! ## Modulo -/

/-- Slot `i` is `list[i mod L]`, each backend standing `weight` times in the
list. -/
def buildModulo (sorted : List Backend) (M : Nat) : List Nat :=
  let list := sorted.flatMap fun b => List.replicate b.weight b.realId
  if list = [] then List.replicate M pbRealNone
  else (List.range M).map fun i => list.getD (i % list.length) pbRealNone

/-! ## The ring -/

def buildRing (backends : List Backend) (mode : HashMode) (ringSize : Nat) :
    Except RingError (List Nat) :=
  match activeSorted backends with
  | .error e => .error e
  | .ok sorted =>
      match mode with
      | .maglev =>
          match buildMaglev sorted ringSize with
          | some ring => .ok ring
          | none => .error .diverges
      | .modulo => .ok (buildModulo sorted ringSize)

end PacketBalance
