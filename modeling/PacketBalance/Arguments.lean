import PacketBalance.Lib.Strto
import PacketBalance.VipSpec
/-!
# Numbers on the command line

Three callers of the library's number readers: `--conntrack-size` (`src/daemon/options.cpp`),
`number` of `pbctl` (`src/pbctl/main.cpp`) and the port of `metrics.listen`
(`src/daemon/metrics_server.cpp`).  None of them looks at what stands in front of the digits,
and only `number` at what stands behind them.
-/

namespace PacketBalance

open Text Strto

/-! ## The callers -/

/-- `what` of the exceptions that `std::stoul` throws. -/
def stoulWhat (_ : Failure) : String := "stoul"

/-- The option's case of `parse_options`; an error is the text given to `usage_error`. -/
def conntrackSizeOption (arg : String) : Except String UInt32 :=
  match stoul arg.toList with
  | .error e => .error ("bad value '" ++ arg ++ "': " ++ stoulWhat e)
  | .ok (n, _) =>
      if n = 0 ∨ n > (1 : UInt64) <<< 27 then
        .error ("bad value '" ++ arg ++ "': " ++ "out of range")
      else .ok n.toUInt32

def number (s what : String) : Except String UInt64 :=
  match stoul s.toList with
  | .error _ => .error ("bad " ++ what ++ ": " ++ s)
  | .ok (n, used) => if used ≠ s.toList.length then .error ("bad " ++ what ++ ": " ++ s) else .ok n

/-- The port of `MetricsServer::start`; `none` stands for the exception. -/
def metricsPort (s : List Char) : Option UInt16 :=
  match stoi s with
  | .error _ => none
  | .ok (port, _) =>
      if port < 1 ∨ port > 65535 then none else some (UInt16.ofNat port.toNat)

/-- The address and the port that `MetricsServer::start` binds to, in network order. -/
def metricsListen (o : ByteOrder) (listen : String) : Except String (UInt32 × UInt16) :=
  let text := listen.toList
  match rfind ':' text with
  | none => .error ("metrics.listen must be ADDR:PORT: " ++ listen)
  | some colon =>
      match parseIpv4 o (String.ofList (text.take colon)), metricsPort (text.drop (colon + 1)) with
      | .ok addr, some port => .ok (addr, portToBe o port)
      | _, _ => .error ("bad metrics.listen: " ++ listen)

/-! ## What they accept -/

structure TakesSize (u : Numeral) (n : UInt32) : Prop where
  fits : value u.digits < 2 ^ 64
  eq : u.unsigned.toNat = n.toNat
  pos : 1 ≤ n.toNat
  le : n.toNat ≤ 2 ^ 27

/-- `number` takes what is read for `n`: nothing is left behind it. -/
structure TakesNumber (u : Numeral) (n : UInt64) : Prop where
  fits : value u.digits < 2 ^ 64
  all : u.rest = []
  eq : u.unsigned = n

structure TakesPort (u : Numeral) (port : UInt16) : Prop where
  eq : u.signed = port.toNat
  pos : 1 ≤ port.toNat

theorem conntrackSizeOption_eq_ok_iff {s : String} {n : UInt32} :
    conntrackSizeOption s = .ok n ↔ ∃ u, Reads s.toList u ∧ TakesSize u n := by
  have hmax : ((1 : UInt64) <<< 27).toNat = 2 ^ 27 := by decide
  rw [conntrackSizeOption]
  constructor
  · intro h
    split at h
    · cases h
    · rename_i m used hstoul
      obtain ⟨u, hreads, hfits, heq⟩ := stoul_eq_ok_iff.mp hstoul
      obtain ⟨rfl, -⟩ := Prod.mk.inj heq
      split at h
      · cases h
      · rename_i hrange
        rw [not_or, gt_iff_lt, UInt64.lt_iff_toNat_lt, hmax, ← UInt64.toNat_inj] at hrange
        obtain ⟨hzero, hle⟩ := hrange
        have hn : u.unsigned.toNat = n.toNat := by
          rw [← Except.ok.inj h, UInt64.toNat_toUInt32, Nat.mod_eq_of_lt (by omega)]
        exact ⟨u, hreads, hfits, hn, by rw [UInt64.toNat_zero] at hzero; omega, by omega⟩
  · rintro ⟨u, hreads, htakes⟩
    have hpos := htakes.pos
    have hle := htakes.le
    rw [stoul_eq_ok_iff.mpr ⟨u, hreads, htakes.fits, rfl⟩]
    simp only []
    rw [if_neg]
    · rw [Except.ok.injEq, ← UInt32.toNat_inj, UInt64.toNat_toUInt32, htakes.eq,
        Nat.mod_eq_of_lt n.toNat_lt]
    · rw [not_or, gt_iff_lt, UInt64.lt_iff_toNat_lt, hmax, ← UInt64.toNat_inj, htakes.eq,
        UInt64.toNat_zero]
      omega

theorem number_eq_ok_iff {s what : String} {n : UInt64} :
    number s what = .ok n ↔ ∃ u, Reads s.toList u ∧ TakesNumber u n := by
  rw [number]
  constructor
  · intro h
    split at h
    · cases h
    · rename_i m used hstoul
      obtain ⟨u, hreads, hfits, heq⟩ := stoul_eq_ok_iff.mp hstoul
      obtain ⟨rfl, rfl⟩ := Prod.mk.inj heq
      split at h
      · cases h
      · rename_i hused
        exact ⟨u, hreads, hfits, hreads.length_sub_eq_iff.mp (not_not.mp hused), Except.ok.inj h⟩
  · rintro ⟨u, hreads, hfits, hall, rfl⟩
    rw [stoul_eq_ok_iff.mpr ⟨u, hreads, hfits, rfl⟩]
    simp only []
    rw [if_neg (not_not.mpr (hreads.length_sub_eq_iff.mpr hall))]

theorem metricsPort_eq_some_iff {s : List Char} {port : UInt16} :
    metricsPort s = some port ↔ ∃ u, Reads s u ∧ TakesPort u port := by
  have hport := port.toNat_lt
  rw [metricsPort]
  constructor
  · intro h
    split at h
    · cases h
    · rename_i p used hstoi
      obtain ⟨u, hreads, -, heq⟩ := stoi_eq_ok_iff.mp hstoi
      obtain ⟨rfl, -⟩ := Prod.mk.inj heq
      split at h
      · cases h
      · rename_i hrange
        obtain rfl := Option.some.inj h
        have hnat : (UInt16.ofNat u.signed.toNat).toNat = u.signed.toNat :=
          Nat.mod_eq_of_lt (by omega)
        exact ⟨u, hreads, by omega, by omega⟩
  · rintro ⟨u, hreads, heq, hpos⟩
    rw [stoi_eq_ok_iff.mpr ⟨u, hreads, by omega, rfl⟩]
    simp only []
    rw [if_neg (by omega), heq, Int.toNat_natCast, UInt16.ofNat_toNat]

theorem metricsListen_eq_ok_iff_of_split {o : ByteOrder} {listen : String} {addrBe : UInt32}
    {portBe : UInt16} {addr text : List Char} (htext : listen.toList = addr ++ ':' :: text)
    (hnot : ':' ∉ text) :
    metricsListen o listen = .ok (addrBe, portBe) ↔ DottedQuad addr (o.bytes32 addrBe) ∧
      ∃ port, metricsPort text = some port ∧ portToBe o port = portBe := by
  have hcolon : rfind ':' listen.toList = some addr.length :=
    rfind_eq_some_iff.mpr ⟨addr, text, htext, hnot, rfl⟩
  have htake : listen.toList.take addr.length = addr := by simp [htext]
  have hdrop : listen.toList.drop (addr.length + 1) = text := by simp [htext]
  have haddr := @parseIpv4_eq_ok_iff o (String.ofList addr) addrBe
  rw [String.toList_ofList] at haddr
  simp only [metricsListen, hcolon, htake, hdrop, ← haddr]
  cases parseIpv4 o (String.ofList addr) with
  | error e => simp
  | ok a =>
      cases metricsPort text with
      | none => simp
      | some port => simp

/-- The port's text is what follows the last colon. -/
theorem metricsListen_eq_ok_iff {o : ByteOrder} {listen : String} {addrBe : UInt32}
    {portBe : UInt16} : metricsListen o listen = .ok (addrBe, portBe) ↔
      ∃ addr text port, listen.toList = addr ++ ':' :: text ∧ ':' ∉ text ∧
        DottedQuad addr (o.bytes32 addrBe) ∧ metricsPort text = some port ∧
        portToBe o port = portBe := by
  constructor
  · intro h
    cases hcolon : rfind ':' listen.toList with
    | none => simp [metricsListen, hcolon] at h
    | some colon =>
        obtain ⟨addr, text, htext, hnot, -⟩ := rfind_eq_some_iff.mp hcolon
        obtain ⟨haddr, port, hport⟩ := (metricsListen_eq_ok_iff_of_split htext hnot).mp h
        exact ⟨addr, text, port, htext, hnot, haddr, hport⟩
  · rintro ⟨addr, text, port, htext, hnot, haddr, hport⟩
    exact (metricsListen_eq_ok_iff_of_split htext hnot).mpr ⟨haddr, port, hport⟩

/-! ## Digits and nothing else -/

section Strict

variable {s : List Char}

theorem takesSize_bare_iff {n : UInt32} :
    TakesSize (bare s) n ↔ value s = n.toNat ∧ 1 ≤ n.toNat ∧ n.toNat ≤ 2 ^ 27 := by
  constructor
  · intro h
    exact ⟨(toNat_unsigned_bare h.fits).symm.trans h.eq, h.pos, h.le⟩
  · rintro ⟨heq, hpos, hle⟩
    have hfits : value s < 2 ^ 64 := by omega
    exact ⟨hfits, (toNat_unsigned_bare hfits).trans heq, hpos, hle⟩

theorem takesNumber_bare_iff {n : UInt64} : TakesNumber (bare s) n ↔ value s = n.toNat := by
  constructor
  · rintro ⟨hfits, -, rfl⟩
    exact (toNat_unsigned_bare hfits).symm
  · intro heq
    have hfits : value s < 2 ^ 64 := heq ▸ n.toNat_lt
    exact ⟨hfits, rfl, UInt64.toNat_inj.mp ((toNat_unsigned_bare hfits).trans heq)⟩

theorem takesPort_bare_iff {port : UInt16} :
    TakesPort (bare s) port ↔ value s = port.toNat ∧ 1 ≤ port.toNat ∧ port.toNat ≤ 65535 := by
  have hport := port.toNat_lt
  constructor
  · rintro ⟨heq, hpos⟩
    rw [signed_bare] at heq
    exact ⟨by omega, hpos, by omega⟩
  · rintro ⟨heq, hpos, -⟩
    exact ⟨by rw [signed_bare, heq], hpos⟩

end Strict

/-- Each of the three callers is strict about a text exactly if the text is not a number it
accepts with something around the digits: white space or a sign in front, or, except for
`number`, anything behind. -/
theorem numeric_arguments_strict_iff (s : String) :
    ((∀ n : UInt32, conntrackSizeOption s = .ok n ↔
        IsDecimal s.toList ∧ value s.toList = n.toNat ∧ 1 ≤ n.toNat ∧ n.toNat ≤ 2 ^ 27) ↔
      ¬ Dressed TakesSize s.toList) ∧
    (∀ what : String, (∀ n : UInt64, number s what = .ok n ↔
        IsDecimal s.toList ∧ value s.toList = n.toNat) ↔
      ¬ Dressed TakesNumber s.toList) ∧
    ((∀ port : UInt16, metricsPort s.toList = some port ↔
        IsDecimal s.toList ∧ value s.toList = port.toNat ∧ 1 ≤ port.toNat ∧
          port.toNat ≤ 65535) ↔
      ¬ Dressed TakesPort s.toList) :=
  ⟨strict_iff (fun _ => conntrackSizeOption_eq_ok_iff) fun _ => takesSize_bare_iff,
    fun _ => strict_iff (fun _ => number_eq_ok_iff) fun _ => takesNumber_bare_iff,
    strict_iff (fun _ => metricsPort_eq_some_iff) fun _ => takesPort_bare_iff⟩

/-- A suffix is dropped, and a minus makes the largest number of a small one. -/
theorem dressed_numbers_accepted :
    (conntrackSizeOption "1M" = .ok 1 ∧ ¬ IsDecimal "1M".toList) ∧
    (number "-1" "limit" = .ok 18446744073709551615 ∧ ¬ IsDecimal "-1".toList) ∧
    (metricsPort "80abc".toList = some 80 ∧ ¬ IsDecimal "80abc".toList) := by
  decide +kernel

end PacketBalance
