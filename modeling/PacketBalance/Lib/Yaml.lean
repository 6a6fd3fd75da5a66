import Mathlib.Tactic.Common
import PacketBalance.Lib.Text
/-!
# YAML documents as trees

What a YAML library hands out: nodes, conversions of nodes to values, and the lookup of a key in
a mapping.  The conversions are a parameter; a `Spelling` says that every value can be written.
-/

inductive Yaml where
  | null
  | scalar (text : String)
  | seq (items : List Yaml)
  | map (entries : List (Yaml × Yaml))

namespace Yaml

/-- The conversions of a library, each of which may fail. -/
structure Conversions where
  string : Yaml → Option String
  bool : Yaml → Option Bool
  int : Yaml → Option Int32
  longLong : Yaml → Option Int64
  uint32 : Yaml → Option UInt32

/-- The value of the first entry of a mapping under a key. -/
def find? (conv : Conversions) (key : String) : Yaml → Option Yaml
  | .map entries => (entries.find? fun e => conv.string e.1 = some key).map Prod.snd
  | _ => none

/-- A way to write strings, truth values and numbers. -/
structure Spelling (conv : Conversions) where
  text : String → Yaml
  bool : Bool → Yaml
  nat : Nat → Yaml
  text_ne_null : ∀ s, text s ≠ .null
  string_text : ∀ s, conv.string (text s) = some s
  bool_bool : ∀ b, conv.bool (bool b) = some b
  int_nat : ∀ n, n < 2 ^ 31 → conv.int (nat n) = some (Int32.ofNat n)
  longLong_nat : ∀ n, n < 2 ^ 63 → conv.longLong (nat n) = some (Int64.ofNat n)
  uint32_nat : ∀ n, n < 2 ^ 32 → conv.uint32 (nat n) = some (UInt32.ofNat n)

namespace Spelling

variable {conv : Conversions} (sp : Spelling conv)

def mapping (fields : List (String × Yaml)) : Yaml :=
  .map (fields.map fun f => (sp.text f.1, f.2))

@[simp] theorem find?_mapping (fields : List (String × Yaml)) (key : String) :
    (sp.mapping fields).find? conv key = fields.lookup key := by
  induction fields with
  | nil => rfl
  | cons f fields ih =>
      obtain ⟨k, v⟩ := f
      simp only [mapping, find?, List.map_cons, List.find?_cons, sp.string_text,
        Option.some.injEq, List.lookup_cons] at ih ⊢
      by_cases hk : k = key
      · simp [hk]
      · have hne : (key == k) = false := beq_eq_false_iff_ne.mpr (Ne.symm hk)
        simpa [hk, hne] using ih

end Spelling

/-! ## Plain scalars -/

open Text

/-- A scalar of decimal digits whose value is below a bound. -/
def decimal (bound : Nat) : Yaml → Option Nat
  | .scalar text =>
      if IsDecimal text.toList ∧ value text.toList < bound then some (value text.toList) else none
  | _ => none

theorem decimal_scalar {bound n : Nat} (h : n < bound) :
    decimal bound (.scalar (toString n)) = some n := by
  simp [decimal, isDecimal_toDigits, h]

/-- Texts as they stand, `true` and `false`, and decimals without a sign. -/
def plain : Conversions where
  string
    | .scalar text => some text
    | _ => none
  bool
    | .scalar text =>
        if text = "true" then some true else if text = "false" then some false else none
    | _ => none
  int v := (decimal (2 ^ 31) v).map Int32.ofNat
  longLong v := (decimal (2 ^ 63) v).map Int64.ofNat
  uint32 v := (decimal (2 ^ 32) v).map UInt32.ofNat

def plainSpelling : Spelling plain where
  text := .scalar
  bool b := .scalar (if b then "true" else "false")
  nat n := .scalar (toString n)
  text_ne_null _ := Yaml.noConfusion
  string_text _ := rfl
  bool_bool b := by cases b <;> rfl
  int_nat n h := congrArg (Option.map Int32.ofNat) (decimal_scalar h)
  longLong_nat n h := congrArg (Option.map Int64.ofNat) (decimal_scalar h)
  uint32_nat n h := congrArg (Option.map UInt32.ofNat) (decimal_scalar h)

end Yaml
