import PacketBalance.Abi
import PacketBalance.Lib.ByteOrder
import PacketBalance.Lib.Text
/-!
# Addresses and VIPs as text

`include/packetbalance/vipspec.h`.  A `std::string` is a `String`, whose characters have room
for every byte.  What is copied between a word and its bytes depends on the host's byte
order; on a little-endian host the functions that write are those of `Abi`.  The parsers
accept exactly the grammar that stands below them, and read back what is written.
-/

namespace PacketBalance

open Text

/-! ## Reading and writing -/

/-- The inner loop of `parse_ipv4`, with `count` digits of value `v` behind it.  `none` stands
for the exception. -/
def octetLoop (v count : Nat) : List Char → Option (Nat × List Char)
  | [] => some (v, [])
  | c :: s =>
      if c.isDigit then
        let v := v * 10 + digit c
        if v > 255 ∨ count ≥ 3 then none else octetLoop v (count + 1) s
      else some (v, c :: s)

def octet : List Char → Option (Nat × List Char)
  | [] => none
  | c :: s => if c.isDigit then octetLoop 0 0 (c :: s) else none

def dot : List Char → Option (List Char)
  | [] => none
  | c :: s => if c = '.' then some s else none

/-- What follows an octet: a dot, unless it is the last one. -/
def octetEnd (n : Nat) (s : List Char) : Option (List Char) := if n = 0 then some s else dot s

/-- The loop over the octets, of which `n` are still to come. -/
def octets : Nat → List Char → Option (List UInt8 × List Char)
  | 0, s => some ([], s)
  | n + 1, s => do
      let (v, s) ← octet s
      let s ← octetEnd n s
      let (be, s) ← octets n s
      some (UInt8.ofNat v :: be, s)

def parseIpv4 (o : ByteOrder) (s : String) : Except String UInt32 :=
  match octets 4 s.toList with
  | some (be, []) => .ok (o.word32 be)
  | _ => .error ("bad IPv4 address: " ++ s)

def portLoop (v : Nat) : List Char → Option Nat
  | [] => some v
  | c :: s => if c.isDigit then portLoop (v * 10 + digit c) s else none

def parsePort (s : String) : Except String UInt16 :=
  if s.toList = [] ∨ s.toList.length > 5 then .error ("bad port: " ++ s)
  else
    match portLoop 0 s.toList with
    | none => .error ("bad port: " ++ s)
    | some v =>
        if v < 1 ∨ v > 65535 then .error ("bad port: " ++ s) else .ok (UInt16.ofNat v)

def ipv4ToStringOn (o : ByteOrder) (addrBe : UInt32) : String :=
  ".".intercalate ((o.bytes32 addrBe).map fun b => toString b.toNat)

def portToBe (o : ByteOrder) (hostPort : UInt16) : UInt16 :=
  o.word16 [(hostPort >>> 8).toUInt8, hostPort.toUInt8]

def portFromBeOn (o : ByteOrder) (portBe : UInt16) : Nat :=
  let b := o.bytes16 portBe
  (b.getD 0 0).toNat * 256 + (b.getD 1 0).toNat

def VipSpec.parse (o : ByteOrder) (s : String) : Except String VipSpec :=
  let text := s.toList
  match rfind ':' text, rfind '/' text with
  | some colon, some slash =>
      if slash < colon then .error ("bad VIP, want ADDR:PORT/PROTO: " ++ s)
      else do
        let addrBe ← parseIpv4 o (String.ofList (text.take colon))
        let port ← parsePort (String.ofList ((text.drop (colon + 1)).take (slash - colon - 1)))
        let proto := text.drop (slash + 1)
        if proto = "tcp".toList then .ok ⟨addrBe, portToBe o port, 6⟩
        else if proto = "udp".toList then .ok ⟨addrBe, portToBe o port, 17⟩
        else .error ("bad proto in VIP (tcp|udp): " ++ s)
  | _, _ => .error ("bad VIP, want ADDR:PORT/PROTO: " ++ s)

def VipSpec.strOn (o : ByteOrder) (v : VipSpec) : String :=
  ipv4ToStringOn o v.addrBe ++ ":" ++ toString (portFromBeOn o v.portBe) ++
    (if v.proto = 6 then "/tcp" else if v.proto = 17 then "/udp" else "/?")

theorem ipv4ToStringOn_little (addrBe : UInt32) :
    ipv4ToStringOn .little addrBe = ipv4ToString addrBe := rfl

theorem VipSpec.strOn_little (v : VipSpec) : v.strOn .little = v.str := rfl

/-! ## The grammar -/

/-- A run of 1 to 3 digits of value at most 255. -/
structure IsOctet (s : List Char) : Prop extends IsDecimal s where
  length_le : s.length ≤ 3
  value_le : value s ≤ 255

instance (s : List Char) : Decidable (IsOctet s) :=
  decidable_of_iff (IsDecimal s ∧ s.length ≤ 3 ∧ value s ≤ 255)
    ⟨fun h => ⟨h.1, h.2.1, h.2.2⟩, fun h => ⟨h.toIsDecimal, h.length_le, h.value_le⟩⟩

/-- Four octets with dots between them; `be` holds their values. -/
def DottedQuad (s : List Char) (be : List UInt8) : Prop :=
  ∃ runs : List (List Char), runs.length = 4 ∧ (∀ run ∈ runs, IsOctet run) ∧
    s = ['.'].intercalate runs ∧ be.map UInt8.toNat = runs.map value

/-- A port: 1 to 5 digits of value 1 to 65535. -/
structure IsPort (s : List Char) (port : Nat) : Prop extends IsDecimal s where
  length_le : s.length ≤ 5
  value_eq : value s = port
  pos : 1 ≤ port
  le : port ≤ 65535

inductive IsProto : List Char → UInt8 → Prop
  | tcp : IsProto "tcp".toList 6
  | udp : IsProto "udp".toList 17

/-- `ADDR:PORT/PROTO`, and the specification it stands for. -/
structure IsVip (o : ByteOrder) (s addr port proto : List Char) (v : VipSpec) : Prop where
  text : s = addr ++ ':' :: (port ++ '/' :: proto)
  addr : DottedQuad addr (o.bytes32 v.addrBe)
  port : IsPort port (portFromBeOn o v.portBe)
  proto : IsProto proto v.proto

/-! ## Addresses -/

section Addresses

variable {s rest : List Char} {v w count n : Nat}

theorem octetLoop_eq (s : List Char) (hv : v ≤ 255) (hcount : count ≤ 3) :
    octetLoop v count s =
      if count + (s.takeWhile Char.isDigit).length ≤ 3 ∧
          10 ^ (s.takeWhile Char.isDigit).length * v + value (s.takeWhile Char.isDigit) ≤ 255
      then some (10 ^ (s.takeWhile Char.isDigit).length * v + value (s.takeWhile Char.isDigit),
        s.dropWhile Char.isDigit)
      else none := by
  induction s generalizing v count with
  | nil => simp [octetLoop, hv, hcount]
  | cons c s ih =>
      rw [octetLoop]
      by_cases hc : c.isDigit = true
      · simp only [hc, if_true, List.takeWhile_cons, List.dropWhile_cons, List.length_cons,
          add_value_cons]
        by_cases hstop : v * 10 + digit c > 255 ∨ count ≥ 3
        · rw [if_pos hstop, if_neg]
          rintro ⟨hlen, hle⟩
          have hgrow := Nat.le_mul_of_pos_left (v * 10 + digit c)
            (Nat.pow_pos (n := (s.takeWhile Char.isDigit).length) (by decide : 0 < 10))
          omega
        · rw [if_neg hstop, ih (by omega) (by omega), Nat.add_right_comm, Nat.add_assoc]
      · simp [hc, hv, hcount]

theorem octet_eq (s : List Char) :
    octet s = if IsOctet (s.takeWhile Char.isDigit)
      then some (value (s.takeWhile Char.isDigit), s.dropWhile Char.isDigit) else none := by
  cases s with
  | nil => rw [octet, if_neg fun h => h.ne_nil rfl]
  | cons c s =>
      rw [octet]
      by_cases hc : c.isDigit = true
      · rw [if_pos hc, octetLoop_eq _ (by decide) (by decide)]
        have hrun : IsDecimal ((c :: s).takeWhile Char.isDigit) :=
          ⟨by simp [hc], fun _ => List.mem_takeWhile_imp⟩
        simp only [Nat.zero_add, Nat.mul_zero]
        refine if_congr ?_ rfl rfl
        exact ⟨fun h => ⟨hrun, h.1, h.2⟩, fun h => ⟨h.length_le, h.value_le⟩⟩
      · rw [if_neg hc, if_neg]
        intro h
        exact h.ne_nil (by simp [hc])

theorem octet_eq_some_iff : octet s = some (v, rest) ↔
    ∃ run, s = run ++ rest ∧ IsOctet run ∧ v = value run ∧ ∀ c ∈ rest.head?, c.isDigit = false := by
  rw [octet_eq, Option.ite_none_right_eq_some]
  constructor
  · rintro ⟨hoctet, heq⟩
    obtain ⟨rfl, rfl⟩ := Prod.mk.inj (Option.some.inj heq)
    obtain ⟨hs, -, hrest⟩ := takeWhile_dropWhile_iff.mp ⟨rfl, rfl⟩
    exact ⟨_, hs, hoctet, rfl, hrest⟩
  · rintro ⟨run, hs, hoctet, rfl, hrest⟩
    obtain ⟨hrun, htail⟩ := takeWhile_dropWhile_iff.mpr ⟨hs, hoctet.digits, hrest⟩
    rw [hrun, htail]
    exact ⟨hoctet, rfl⟩

theorem octetEnd_eq_some_iff {s' : List Char} :
    octetEnd n s = some s' ↔ s = (if n = 0 then [] else ['.']) ++ s' := by
  by_cases hn : n = 0
  · simp [octetEnd, hn]
  · cases s with
    | nil => simp [octetEnd, dot, hn]
    | cons c s => simp [octetEnd, dot, hn]

theorem intercalate_dot_cons (run : List Char) (runs : List (List Char)) :
    ['.'].intercalate (run :: runs) =
      run ++ ((if runs.length = 0 then [] else ['.']) ++ ['.'].intercalate runs) := by
  cases runs with
  | nil => simp
  | cons r runs => simp [List.intercalate_cons_cons]

theorem DottedQuad.notMem {be : List UInt8} {c : Char} (h : DottedQuad s be) (hdot : c ≠ '.')
    (hdigit : c.isDigit = false) : c ∉ s := by
  obtain ⟨runs, -, hruns, rfl, -⟩ := h
  induction runs with
  | nil => simp
  | cons run runs ih =>
      obtain ⟨hrun, hruns⟩ := List.forall_mem_cons.mp hruns
      rw [intercalate_dot_cons, List.mem_append, List.mem_append, not_or, not_or]
      refine ⟨hrun.notMem hdigit, ?_, ih hruns⟩
      split <;> simp [hdot]

theorem toNat_ofNat_value {run : List Char} (h : IsOctet run) :
    (UInt8.ofNat (value run)).toNat = value run :=
  Nat.mod_eq_of_lt (Nat.lt_succ_of_le h.value_le)

theorem octets_eq_some_iff {be : List UInt8} :
    octets n s = some (be, rest) ↔
      ∃ runs : List (List Char), runs.length = n ∧ (∀ run ∈ runs, IsOctet run) ∧
        s = ['.'].intercalate runs ++ rest ∧ be.map UInt8.toNat = runs.map value ∧
        (n ≠ 0 → ∀ c ∈ rest.head?, c.isDigit = false) := by
  induction n generalizing s be with
  | zero =>
      simp only [octets, Option.some.injEq, Prod.mk.injEq]
      constructor
      · rintro ⟨rfl, rfl⟩
        exact ⟨[], by simp⟩
      · rintro ⟨runs, hlen, -, hs, hbe, -⟩
        obtain rfl := List.length_eq_zero_iff.mp hlen
        obtain rfl := List.map_eq_nil_iff.mp hbe
        simpa using hs
  | succ n ih =>
      simp only [octets, Option.bind_eq_bind, Option.bind_eq_some_iff, Prod.exists,
        octet_eq_some_iff, octetEnd_eq_some_iff, Option.some.injEq, Prod.mk.injEq]
      constructor
      · rintro ⟨_, _, ⟨run, rfl, hrun, rfl, hstop⟩, _, rfl, be', rest', hrec, rfl, rfl⟩
        obtain ⟨runs, rfl, hruns, rfl, hbe, hrest⟩ := ih.mp hrec
        refine ⟨run :: runs, rfl, List.forall_mem_cons.mpr ⟨hrun, hruns⟩, ?_,
          by simp [toNat_ofNat_value hrun, hbe], fun _ => ?_⟩
        · rw [intercalate_dot_cons, List.append_assoc, List.append_assoc]
        · cases runs with
          | nil => simpa using hstop
          | cons r runs => exact hrest (by simp)
      · rintro ⟨runs, hlen, hruns, rfl, hbe, hrest⟩
        obtain ⟨run, runs, rfl⟩ := List.exists_cons_of_length_eq_add_one hlen
        obtain ⟨b, be, rfl⟩ : ∃ b be', be = b :: be' := by
          cases be with
          | nil => simp at hbe
          | cons b be => exact ⟨b, be, rfl⟩
        obtain rfl : runs.length = n := by simpa using hlen
        obtain ⟨hrun, hruns⟩ := List.forall_mem_cons.mp hruns
        obtain ⟨hb, hbe⟩ : b.toNat = value run ∧ be.map UInt8.toNat = runs.map value := by
          simpa using hbe
        refine ⟨value run, _, ⟨run, ?_, hrun, rfl, ?_⟩, ['.'].intercalate runs ++ rest, rfl, be,
          rest, ih.mpr ⟨runs, rfl, hruns, rfl, hbe, fun _ => hrest (by simp)⟩, ?_, rfl⟩
        · rw [intercalate_dot_cons, List.append_assoc, List.append_assoc]
        · cases runs with
          | nil => simpa using hrest (by simp)
          | cons r runs => simp
        · rw [← hb, UInt8.ofNat_toNat]

/-- `parse_ipv4` accepts a dotted quad, and the word it returns has its bytes in memory. -/
theorem parseIpv4_eq_ok_iff {o : ByteOrder} {s : String} {addr : UInt32} :
    parseIpv4 o s = .ok addr ↔ DottedQuad s.toList (o.bytes32 addr) := by
  have hquad : ∀ {be : List UInt8}, octets 4 s.toList = some (be, []) ↔ DottedQuad s.toList be := by
    intro be
    rw [octets_eq_some_iff]
    simp [DottedQuad]
  have hlen : ∀ {be : List UInt8}, DottedQuad s.toList be → be.length = 4 := by
    rintro be ⟨runs, hruns, -, -, hbe⟩
    simpa [hruns] using congrArg List.length hbe
  rw [parseIpv4]
  constructor
  · intro h
    split at h
    · rename_i be hbe
      have hword : o.word32 be = addr := by simpa using h
      rw [← hword, o.bytes32_word32 (hlen (hquad.mp hbe))]
      exact hquad.mp hbe
    · cases h
  · intro h
    rw [hquad.mpr h]
    simp [o.word32_bytes32]

theorem toList_ipv4ToStringOn (o : ByteOrder) (addr : UInt32) :
    (ipv4ToStringOn o addr).toList =
      ['.'].intercalate ((o.bytes32 addr).map fun b => Nat.toDigits 10 b.toNat) := by
  rw [ipv4ToStringOn, String.toList_intercalate, List.map_map]
  congr 1
  refine List.map_congr_left fun b _ => ?_
  simp

theorem dottedQuad_ipv4ToStringOn (o : ByteOrder) (addr : UInt32) :
    DottedQuad (ipv4ToStringOn o addr).toList (o.bytes32 addr) := by
  refine ⟨_, by simp, ?_, toList_ipv4ToStringOn o addr, ?_⟩
  · intro run hrun
    obtain ⟨b, -, rfl⟩ := List.mem_map.mp hrun
    have hb := b.toNat_lt
    exact ⟨isDecimal_toDigits _, Nat.toDigits_length 10 _ 3 (by decide) (by omega),
      by rw [value_toDigits]; omega⟩
  · rw [List.map_map]
    exact List.map_congr_left fun b _ => (value_toDigits _).symm

theorem parseIpv4_ipv4ToString (addr : UInt32) :
    parseIpv4 .little (ipv4ToString addr) = .ok addr :=
  parseIpv4_eq_ok_iff.mpr (dottedQuad_ipv4ToStringOn .little addr)

end Addresses

/-! ## Ports -/

section Ports

variable {o : ByteOrder}

theorem portLoop_eq (v : Nat) (s : List Char) :
    portLoop v s =
      if s.all Char.isDigit then some (10 ^ s.length * v + value s) else none := by
  induction s generalizing v with
  | nil => simp [portLoop]
  | cons c s ih =>
      rw [portLoop]
      by_cases hc : c.isDigit = true
      · simp only [hc, if_true, ih, List.all_cons, Bool.true_and, List.length_cons,
          add_value_cons]
      · simp [hc]

theorem parsePort_eq_ok_iff {s : String} {port : UInt16} :
    parsePort s = .ok port ↔ IsPort s.toList port.toNat := by
  have hport := port.toNat_lt
  simp only [parsePort, portLoop_eq, Nat.mul_zero, Nat.zero_add]
  constructor
  · intro h
    split at h
    · cases h
    · rename_i hsize
      rw [not_or] at hsize
      split at h
      · cases h
      · rename_i v hv
        rw [Option.ite_none_right_eq_some, Option.some.injEq, List.all_eq_true] at hv
        obtain ⟨hdigits, rfl⟩ := hv
        split at h
        · cases h
        · rename_i hrange
          obtain rfl : UInt16.ofNat (value s.toList) = port := by simpa using h
          have hnat : (UInt16.ofNat (value s.toList)).toNat = value s.toList :=
            Nat.mod_eq_of_lt (by omega)
          exact ⟨⟨hsize.1, hdigits⟩, by omega, hnat.symm, by omega, by omega⟩
  · intro h
    have hvalue := h.value_eq
    have hpos := h.pos
    have hlen := h.length_le
    rw [if_neg (not_or.mpr ⟨h.ne_nil, by omega⟩), if_pos (List.all_eq_true.mpr h.digits)]
    simp only [hvalue]
    rw [if_neg (by omega), UInt16.ofNat_toNat]

theorem portToBe_eq_iff {port portBe : UInt16} :
    portToBe o port = portBe ↔ port.toNat = portFromBeOn o portBe := by
  have hport := port.toNat_lt
  have hbytes : ∀ hi lo : UInt8, hi.toNat * 256 + lo.toNat = port.toNat ↔
      [(port >>> 8).toUInt8, port.toUInt8] = [hi, lo] := by
    intro hi lo
    have hhi := hi.toNat_lt
    have hlo := lo.toNat_lt
    simp only [List.cons.injEq, and_true, ← UInt8.toNat_inj, UInt16.toNat_toUInt8,
      UInt16.toNat_shiftRight, UInt16.reduceToNat, Nat.shiftRight_eq_div_pow, Nat.reduceMod,
      Nat.reducePow]
    omega
  obtain ⟨hi, lo, hb⟩ : ∃ hi lo, o.bytes16 portBe = [hi, lo] := by
    have hlen := o.length_bytes16 portBe
    match o.bytes16 portBe, hlen with
    | [hi, lo], _ => exact ⟨hi, lo, rfl⟩
  rw [portFromBeOn, hb, eq_comm (a := port.toNat)]
  simp only [List.getD_cons_zero, List.getD_cons_succ]
  rw [hbytes, ← hb, portToBe]
  constructor
  · rintro rfl
    rw [o.bytes16_word16 rfl]
  · intro heq
    rw [heq, o.word16_bytes16]

theorem isPort_toDigits {port : Nat} (hpos : 1 ≤ port) (hle : port ≤ 65535) :
    IsPort (Nat.toDigits 10 port) port :=
  ⟨isDecimal_toDigits port, Nat.toDigits_length 10 _ 5 (by decide) (by omega), value_toDigits port,
    hpos, hle⟩

end Ports

/-! ## VIPs -/

section Vips

variable {o : ByteOrder} {v : VipSpec}

theorem IsProto.notMem {proto : List Char} {p : UInt8} (h : IsProto proto p) :
    ':' ∉ proto ∧ '/' ∉ proto := by
  cases h <;> decide

theorem IsVip.rfind_eq {s addr port proto : List Char} (h : IsVip o s addr port proto v) :
    rfind ':' s = some addr.length ∧ rfind '/' s = some (addr.length + 1 + port.length) := by
  obtain ⟨hcolon, hslash⟩ := h.proto.notMem
  have hport : ':' ∉ port := h.port.notMem (by decide)
  constructor
  · exact rfind_eq_some_iff.mpr ⟨addr, _, h.text, by simp [hport, hcolon], rfl⟩
  · exact rfind_eq_some_iff.mpr ⟨addr ++ ':' :: port, proto, by simp [h.text], hslash,
      by simp; omega⟩

theorem substr_parts (addr port proto : List Char) (colon slash : Char) :
    (addr ++ colon :: (port ++ slash :: proto)).take addr.length = addr ∧
    ((addr ++ colon :: (port ++ slash :: proto)).drop (addr.length + 1)).take
      (addr.length + 1 + port.length - addr.length - 1) = port ∧
    (addr ++ colon :: (port ++ slash :: proto)).drop (addr.length + 1 + port.length + 1) =
      proto := by
  have hrest : (addr ++ colon :: (port ++ slash :: proto)).drop (addr.length + 1) =
      port ++ slash :: proto := by simp
  have hlen : addr.length + 1 + port.length - addr.length - 1 = port.length := by omega
  refine ⟨by simp, by rw [hrest, hlen, List.take_left], ?_⟩
  rw [Nat.add_assoc, ← List.drop_drop, hrest]
  simp

theorem VipSpec.parse_of_isVip {s : String} {addr port proto : List Char}
    (h : IsVip o s.toList addr port proto v) : VipSpec.parse o s = .ok v := by
  obtain ⟨hcolon, hslash⟩ := h.rfind_eq
  obtain ⟨htake, hmid, hdrop⟩ := substr_parts addr port proto ':' '/'
  have haddr : parseIpv4 o (String.ofList addr) = .ok v.addrBe :=
    parseIpv4_eq_ok_iff.mpr (by simpa using h.addr)
  obtain ⟨p, hp⟩ : ∃ p : UInt16, p.toNat = portFromBeOn o v.portBe :=
    ⟨UInt16.ofNat _, Nat.mod_eq_of_lt (Nat.lt_succ_of_le h.port.le)⟩
  have hport : parsePort (String.ofList port) = .ok p :=
    parsePort_eq_ok_iff.mpr (by simpa [hp] using h.port)
  have hbe : portToBe o p = v.portBe := portToBe_eq_iff.mpr hp
  simp only [VipSpec.parse, hcolon, hslash]
  rw [if_neg (by omega), h.text, htake, hmid, hdrop, haddr, hport]
  obtain ⟨addrBe, portBe, proto'⟩ := v
  cases h.proto with
  | tcp => simpa [bind, Except.bind] using hbe
  | udp => simpa [bind, Except.bind] using hbe

theorem exists_port {addr tail front proto : List Char}
    (h : addr ++ ':' :: tail = front ++ '/' :: proto) (hle : addr.length ≤ front.length) :
    ∃ port, tail = port ++ '/' :: proto ∧ front = addr ++ ':' :: port := by
  rcases List.append_eq_append_iff.mp h with ⟨t, rfl, ht⟩ | ⟨t, rfl, ht⟩
  · cases t with
    | nil => simp at ht
    | cons c port =>
        obtain ⟨rfl, rfl⟩ : ':' = c ∧ tail = port ++ '/' :: proto := by simpa using ht
        exact ⟨port, rfl, rfl⟩
  · obtain rfl : t = [] := by
      rw [List.length_append] at hle
      exact List.length_eq_zero_iff.mp (by omega)
    simp at ht

theorem VipSpec.isVip_of_parse {s : String} (h : VipSpec.parse o s = .ok v) :
    ∃ addr port proto, IsVip o s.toList addr port proto v := by
  simp only [VipSpec.parse] at h
  split at h
  · rename_i colon slash hcolon hslash
    split at h
    · cases h
    · rename_i hle
      obtain ⟨addr, tail, htext, -, rfl⟩ := rfind_eq_some_iff.mp hcolon
      obtain ⟨front, proto, htext', -, rfl⟩ := rfind_eq_some_iff.mp hslash
      obtain ⟨port, rfl, rfl⟩ := exists_port (htext.symm.trans htext') (Nat.not_lt.mp hle)
      obtain ⟨htake, hmid, hdrop⟩ := substr_parts addr port proto ':' '/'
      have hlen : (addr ++ ':' :: port).length = addr.length + 1 + port.length := by
        simp; omega
      rw [htext, hlen, htake, hmid, hdrop] at h
      cases haddr : parseIpv4 o (String.ofList addr) with
      | error text => simp [haddr, bind, Except.bind] at h
      | ok addrBe =>
          cases hport : parsePort (String.ofList port) with
          | error text => simp [haddr, hport, bind, Except.bind] at h
          | ok p =>
              simp only [haddr, hport, bind, Except.bind] at h
              have haddr' := parseIpv4_eq_ok_iff.mp haddr
              have hport' := parsePort_eq_ok_iff.mp hport
              rw [String.toList_ofList] at haddr' hport'
              rw [portToBe_eq_iff.mp (rfl : portToBe o p = _)] at hport'
              refine ⟨addr, port, proto, ?_⟩
              split_ifs at h with htcp hudp
              · obtain rfl := Except.ok.inj h
                exact ⟨htext, haddr', hport', htcp ▸ .tcp⟩
              · obtain rfl := Except.ok.inj h
                exact ⟨htext, haddr', hport', hudp ▸ .udp⟩
  · cases h

/-- The specifications that have a text: a port, and one of the two protocols. -/
structure VipSpec.Writable (o : ByteOrder) (v : VipSpec) : Prop where
  pos : 1 ≤ portFromBeOn o v.portBe
  le : portFromBeOn o v.portBe ≤ 65535
  proto : v.proto = 6 ∨ v.proto = 17

theorem IsVip.writable {s addr port proto : List Char} (h : IsVip o s addr port proto v) :
    v.Writable o := by
  refine ⟨h.port.pos, h.port.le, ?_⟩
  have hproto := h.proto
  generalize v.proto = p at hproto ⊢
  cases hproto <;> simp

/-- A specification is what its own text stands for. -/
theorem VipSpec.Writable.isVip_strOn (h : v.Writable o) :
    ∃ addr port proto, IsVip o (v.strOn o).toList addr port proto v := by
  refine ⟨(ipv4ToStringOn o v.addrBe).toList, Nat.toDigits 10 (portFromBeOn o v.portBe),
    if v.proto = 6 then "tcp".toList else "udp".toList, ?_, dottedQuad_ipv4ToStringOn o v.addrBe,
    isPort_toDigits h.pos h.le, ?_⟩
  · rcases h.proto with hp | hp
    · simp [VipSpec.strOn, hp]
    · simp [VipSpec.strOn, hp]
  · rcases h.proto with hp | hp
    · simpa [hp] using IsProto.tcp
    · simpa [hp] using IsProto.udp

theorem VipSpec.Writable.parse_strOn (h : v.Writable o) :
    VipSpec.parse o (v.strOn o) = .ok v := by
  obtain ⟨addr, port, proto, hvip⟩ := h.isVip_strOn
  exact VipSpec.parse_of_isVip hvip

/-- `VipSpec::parse` accepts exactly `ADDR:PORT/PROTO`; it reads back what `str` writes, which
is therefore another text for each specification that has one. -/
theorem vip_text_format (o : ByteOrder) :
    (∀ (s : String) (v : VipSpec), VipSpec.parse o s = .ok v ↔
      ∃ addr port proto, IsVip o s.toList addr port proto v) ∧
    (∀ v : VipSpec, v.Writable o → VipSpec.parse o (v.strOn o) = .ok v) ∧
    (∀ v w : VipSpec, v.Writable o → w.Writable o → v.strOn o = w.strOn o → v = w) ∧
    ∀ (s : String) (v : VipSpec), VipSpec.parse o s = .ok v →
      VipSpec.parse o (v.strOn o) = .ok v := by
  refine ⟨fun s v => ⟨VipSpec.isVip_of_parse, ?_⟩, fun v => VipSpec.Writable.parse_strOn, ?_, ?_⟩
  · rintro ⟨addr, port, proto, h⟩
    exact VipSpec.parse_of_isVip h
  · intro v w hv hw heq
    have hparse := hv.parse_strOn
    rw [heq, hw.parse_strOn] at hparse
    exact (Except.ok.inj hparse).symm
  · intro s v hparse
    obtain ⟨addr, port, proto, h⟩ := VipSpec.isVip_of_parse hparse
    exact h.writable.parse_strOn

theorem vip_text_format_sample :
    VipSpec.parse .big "198.51.100.1:080/tcp" = .ok ⟨0xc6336401, 80, 6⟩ ∧
    VipSpec.parse .big ((⟨0xc6336401, 80, 6⟩ : VipSpec).strOn .big) =
      .ok ⟨0xc6336401, 80, 6⟩ := by
  have hparse : VipSpec.parse .big "198.51.100.1:080/tcp" = .ok ⟨0xc6336401, 80, 6⟩ := by
    decide +kernel
  exact ⟨hparse, (vip_text_format .big).2.2.2 _ _ hparse⟩

end Vips

end PacketBalance
