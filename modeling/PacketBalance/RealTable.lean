import PacketBalance.Maps
/-!
# The real table

`src/daemon/real_table.cpp`: which `real_id` means which address, how many VIPs
use it and which MAC it is reached by.  The table owns the `reals` and `neigh`
arrays.  Log lines are left out.
-/

namespace PacketBalance

open WriteLog

/-- What the control plane can throw.  `undefined` stands for reading through an
empty `std::optional`, an invalid iterator, or a ring fill that never ends. -/
inductive LbError where
  | api (text : String)
  | runtime (text : String)
  | invalidArgument (text : String)
  | logic (text : String)
  | undefined
deriving DecidableEq, Repr

/-- One `real_id`; address 0 marks a free one. -/
structure Slot where
  addr : UInt32 := 0
  refs : Nat := 0
  mac : Option Mac := none
deriving DecidableEq, Repr

structure RealTable where
  slots : Nat → Slot := fun _ => {}
  byAddr : Std.ExtTreeMap UInt32 Nat := ∅
  cursor : Nat := 1

abbrev TableM := Prog CtlMaps MapWrite RealTable LbError

namespace RealTable

def setSlot (t : RealTable) (id : Nat) (s : Slot) : RealTable :=
  { t with slots := Function.update t.slots id s }

/-! ## Reading -/

def idOf (t : RealTable) (addr : UInt32) : Option Nat := t.byAddr[addr]?

def addrOf (t : RealTable) (realId : Nat) : Option UInt32 :=
  if realId = 0 ∨ pbMaxReals ≤ realId ∨ (t.slots realId).addr = 0 then none
  else some (t.slots realId).addr

/-- In the order of `by_addr_`. -/
def addrs (t : RealTable) : List UInt32 := t.byAddr.keys

def macOf (t : RealTable) (addr : UInt32) : Option Mac :=
  match t.idOf addr with
  | some id => (t.slots id).mac
  | none => none

/-! ## Writing a slot -/

def writeNeigh (env : Env) (id : Nat) (mac : Mac) : TableM Unit :=
  match env.fault (.neighWrite id mac) with
  | some err => throw (.runtime ("write neigh[" ++ toString id ++ "]: " ++ err))
  | none => Prog.emit (.neighWrite id mac)

def writeReal (env : Env) (id : Nat) (addr : UInt32) : TableM Unit :=
  match env.fault (.realWrite id addr) with
  | some err => throw (.runtime ("write reals[" ++ toString id ++ "]: " ++ err))
  | none => Prog.emit (.realWrite id addr)

/-- `neigh` before `reals` when a slot is filled, the other way round when it is
freed. -/
def writeSlot (env : Env) (id : Nat) : TableM Unit := do
  let s := (← get).slots id
  let mac := s.mac.getD Mac.zero
  if s.addr ≠ 0 then
    writeNeigh env id mac
    writeReal env id s.addr
  else
    writeReal env id s.addr
    writeNeigh env id mac

/-! ## Adopting and dropping -/

/-- One iteration of the loop of `adopt`; `highest` is the last id in use. -/
def adoptOne (d : CtlMaps) (acc : RealTable × Nat) (id : Nat) : RealTable × Nat :=
  let (t, highest) := acc
  if d.reals id = 0 then (t, highest)
  else
    let s := t.slots id
    let mac := if (d.neigh id).isZero then s.mac else some (d.neigh id)
    let t := t.setSlot id { s with addr := d.reals id, mac }
    ({ t with byAddr := t.byAddr.insert (d.reals id) id }, id)

def ids : List Nat := List.range' 1 (pbMaxReals - 1)

/-- Read what a previous daemon left in the pinned maps. -/
def adopt : TableM Unit := do
  let d ← Prog.durable
  modify fun t =>
    let (t, highest) := ids.foldl (adoptOne d) (t, 0)
    { t with cursor := if highest + 1 < pbMaxReals then highest + 1 else 1 }

def dropUnreferenced (env : Env) : TableM Unit :=
  Prog.each ids fun id => do
    let s := (← get).slots id
    if s.addr = 0 ∨ 0 < s.refs then pure ()
    else
      modify fun t => { t.setSlot id {} with byAddr := t.byAddr.erase s.addr }
      writeSlot env id

/-! ## Allocation -/

def nextCursor (cursor : Nat) : Nat :=
  if cursor + 1 < pbMaxReals then cursor + 1 else 1

/-- The allocation loop: at most `n` slots are looked at, the cursor moves past
each of them. -/
def findFree (slots : Nat → Slot) : Nat → Nat → Option Nat × Nat
  | 0, cursor => (none, cursor)
  | n + 1, cursor =>
      if (slots cursor).addr ≠ 0 then findFree slots n (nextCursor cursor)
      else (some cursor, nextCursor cursor)

def tooManyReals : LbError :=
  .runtime ("too many reals (max " ++ toString (pbMaxReals - 1) ++ ")")

def acquire (env : Env) (addr : UInt32) : TableM Nat :=
  if addr = 0 then throw (.invalidArgument "real address 0.0.0.0 marks a free slot")
  else do
    let t ← get
    match t.byAddr[addr]? with
    | some id =>
        let s := t.slots id
        modify fun t => t.setSlot id { s with refs := s.refs + 1 }
        pure id
    | none =>
        let (found, cursor) := findFree t.slots (pbMaxReals - 1) t.cursor
        modify fun t => { t with cursor }
        match found with
        | none => throw tooManyReals
        | some id =>
            modify fun t =>
              { t.setSlot id { addr, refs := 1, mac := none } with
                byAddr := t.byAddr.insert addr id }
            Prog.emit (.realStatsReset id)
            writeSlot env id
            pure id

def release (env : Env) (addr : UInt32) : TableM Unit := do
  let t ← get
  match t.byAddr[addr]? with
  | none => pure ()
  | some id =>
      let s := t.slots id
      if 1 < s.refs then
        modify fun t => t.setSlot id { s with refs := s.refs - 1 }
      else do
        modify fun t => { t.setSlot id {} with byAddr := t.byAddr.erase addr }
        writeSlot env id

/-- True if the MAC changed, the first one included. -/
def setMac (env : Env) (addr : UInt32) (mac : Mac) : TableM Bool := do
  let t ← get
  match t.idOf addr with
  | none => pure false
  | some id =>
      let s := t.slots id
      if s.mac = some mac then pure false
      else do
        modify fun t => t.setSlot id { s with mac := some mac }
        writeSlot env id
        pure true

end RealTable

end PacketBalance
