import PacketBalance.Maps
import Mathlib.Data.List.Basic
/-!
# Reading a ring back

`read_ring` of `src/daemon/ring_map.cpp`.  An inner map is never written again once it is
installed, so its slots do not change while they are read; but the kernel may need several
calls of `bpf_map_lookup_batch` for them.  What those calls return is input.
-/

namespace PacketBalance

/-- How a call of `bpf_map_lookup_batch` ends: with more to come, at the end of the map, or
with another error. -/
inductive BatchEnd where
  | more
  | noEntry
  | failed (err : String)
deriving DecidableEq, Repr

/-- The keys and values one call has copied, and how it ended. -/
structure Batch where
  entries : List (Nat × Nat)
  ending : BatchEnd
deriving DecidableEq, Repr

/-- How the loop of `read_ring` stands after some calls. -/
inductive RingRead where
  | reading (got : List (Nat × Nat))
  | read (got : List (Nat × Nat))
  | threw (text : String)
deriving DecidableEq, Repr

def readBatches (got : List (Nat × Nat)) : List Batch → RingRead
  | [] => if got.length < pbRingSize then .reading got else .read got
  | b :: batches =>
      if got.length < pbRingSize then
        match b.ending with
        | .noEntry => .read (got ++ b.entries)
        | .failed err => .threw ("read ring map: " ++ err)
        | .more => readBatches (got ++ b.entries) batches
      else .read got

def placeSlots (got : List (Nat × Nat)) : List Nat :=
  got.foldl (fun ring e => if e.1 < pbRingSize then ring.set e.1 e.2 else ring)
    (List.replicate pbRingSize pbRealNone)

/-- What `read_ring` meets: the id of the VIP's inner map, if there is one; the error of opening
it, if any; and the calls that read it. -/
structure RingCalls where
  innerId : Option Nat
  openError : Option String
  batches : List Batch

/-- `read_ring`; `none` while the calls have not come to an end. -/
def readRing (calls : RingCalls) : Option (Except String (List Nat)) :=
  match calls.innerId with
  | none => some (.ok [])
  | some id =>
      match calls.openError with
      | some err => some (.error ("open ring map id " ++ toString id ++ ": " ++ err))
      | none =>
          match readBatches [] calls.batches with
          | .reading _ => none
          | .read got => some (.ok (placeSlots got))
          | .threw text => some (.error text)

/-! ## A ring that is read in pieces -/

/-- The calls that read the array `slots` from an index on: pieces of any length, until the last
slot is copied or the kernel says that there are no more. -/
inductive Batches (slots : List Nat) : Nat → List Batch → Prop
  | full : Batches slots slots.length []
  | last (i : Nat) (h : i ≤ slots.length) :
      Batches slots i [⟨(slots.zipIdx.drop i).map Prod.swap, .noEntry⟩]
  | more (i n : Nat) (rest : List Batch) (hle : i + n ≤ slots.length)
      (h : Batches slots (i + n) rest) :
      Batches slots i (⟨((slots.zipIdx.drop i).take n).map Prod.swap, .more⟩ :: rest)

/-- However the calls divide the ring, all of it is read. -/
theorem Batches.read {slots : List Nat} {i : Nat} {batches : List Batch}
    (h : Batches slots i batches) (hlen : slots.length = pbRingSize) :
    readBatches ((slots.zipIdx.take i).map Prod.swap) batches =
      .read (slots.zipIdx.map Prod.swap) := by
  induction h with
  | full =>
      rw [List.take_of_length_le (by simp), readBatches, if_neg (by simp [hlen])]
  | last i hend =>
      rw [readBatches]
      split_ifs with hmore
      · rw [← List.map_append, List.take_append_drop]
      · -- nothing is left to be copied
        rw [List.take_of_length_le]
        simp only [List.length_map, List.length_take, List.length_zipIdx] at hmore ⊢
        omega
  | more i n rest hle _ ih =>
      rw [readBatches]
      split_ifs with hmore
      · rw [← List.map_append, ← List.take_add]
        exact ih
      · rw [List.take_of_length_le]
        simp only [List.length_map, List.length_take, List.length_zipIdx] at hmore ⊢
        omega

theorem foldl_place (slots : List Nat) :
    ∀ before old : List Nat, old.length = slots.length →
      before.length + slots.length ≤ pbRingSize →
      ((slots.zipIdx before.length).map Prod.swap).foldl
        (fun ring e => if e.1 < pbRingSize then ring.set e.1 e.2 else ring) (before ++ old) =
        before ++ slots := by
  induction slots with
  | nil =>
      intro before old hold _
      rw [List.length_eq_zero_iff.mp hold]
      rfl
  | cons id slots ih =>
      intro before old hold hfits
      cases old with
      | nil => cases hold
      | cons o old =>
          have hlt : before.length < pbRingSize := by
            rw [List.length_cons] at hfits
            omega
          have hnext := ih (before ++ [id]) old (Nat.succ.inj hold) (by
            rw [List.length_append, List.length_singleton]
            rw [List.length_cons] at hfits
            omega)
          rw [List.length_append, List.length_singleton, List.append_assoc, List.append_assoc]
            at hnext
          simpa [List.zipIdx_cons, hlt] using hnext

theorem placeSlots_zipIdx {slots : List Nat} (hlen : slots.length = pbRingSize) :
    placeSlots (slots.zipIdx.map Prod.swap) = slots := by
  have hplace := foldl_place slots [] (List.replicate pbRingSize pbRealNone)
    (by rw [List.length_replicate, hlen]) (by rw [List.length_nil, hlen, Nat.zero_add])
  simpa [placeSlots] using hplace

theorem readRing_eq {slots : List Nat} {calls : RingCalls} {id : Nat}
    (hlen : slots.length = pbRingSize) (hid : calls.innerId = some id)
    (hopen : calls.openError = none) (hbatches : Batches slots 0 calls.batches) :
    readRing calls = some (.ok slots) := by
  have hread := hbatches.read hlen
  rw [List.take_zero, List.map_nil] at hread
  simp only [readRing, hid, hopen, hread, placeSlots_zipIdx hlen]

end PacketBalance
