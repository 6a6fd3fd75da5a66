import Mathlib.Tactic.Common
/-!
# JSON values

A value as a program holds it: an object is kept sorted by its keys, each of which stands in
it once.  Integers are those of 64 bits, signed or unsigned; other numbers are kept as text.
-/

inductive Json where
  | null
  | bool (b : Bool)
  | int (n : Int)
  | float (text : String)
  | str (s : String)
  | arr (items : List Json)
  | obj (fields : List (String × Json))

namespace Json

/-- The member of an object, if the value is an object and has it. -/
def find? (key : String) : Json → Option Json
  | .obj fields => fields.lookup key
  | _ => none

def put (fields : List (String × Json)) (key : String) (value : Json) : List (String × Json) :=
  match fields with
  | [] => [(key, value)]
  | (k, v) :: rest =>
      if key = k then (key, value) :: rest
      else if key < k then (key, value) :: (k, v) :: rest
      else (k, v) :: put rest key value

/-- The object with the given members; a later one replaces an earlier one of the same name. -/
def object (fields : List (String × Json)) : Json :=
  .obj (fields.foldl (fun m f => put m f.1 f.2) [])

def isObject : Json → Bool
  | .obj _ => true
  | _ => false

/-- The value of an integer as `int64_t`. -/
def int64 (n : Int) : Int := n.bmod 0x10000000000000000

theorem lookup_cons {β : Type} (k name : String) (v : β) (fields : List (String × β)) :
    ((k, v) :: fields).lookup name = if name = k then some v else fields.lookup name := by
  rw [List.lookup_cons]
  by_cases hk : name = k
  · simp [hk]
  · simp only [beq_eq_false_iff_ne.mpr hk, if_neg hk]

theorem lookup_put (fields : List (String × Json)) (key name : String) (value : Json) :
    (put fields key value).lookup name = if name = key then some value else fields.lookup name := by
  induction fields with
  | nil => simp [put, lookup_cons]
  | cons f rest ih =>
      obtain ⟨k, v⟩ := f
      rw [put]
      by_cases heq : key = k
      · rw [if_pos heq, lookup_cons, lookup_cons, heq]
        split_ifs <;> rfl
      · rw [if_neg heq]
        split
        · rw [lookup_cons]
        · rw [lookup_cons, lookup_cons, ih]
          by_cases hk : name = k
          · have hne : name ≠ key := fun h => heq (h.symm.trans hk)
            rw [if_pos hk, if_neg hne, if_pos hk]
          · rw [if_neg hk, if_neg hk]

theorem lookup_foldl_put {ι : Type} (name : ι → String) (value : ι → Json) (l : List ι)
    (hinj : (l.map name).Nodup) (fields : List (String × Json)) (key : String) (v : Json) :
    (l.foldl (fun m i => put m (name i) (value i)) fields).lookup key = some v ↔
      (∃ i ∈ l, name i = key ∧ value i = v) ∨
        (key ∉ l.map name ∧ fields.lookup key = some v) := by
  induction l generalizing fields with
  | nil => simp
  | cons i l ih =>
      obtain ⟨hnot, hnodup⟩ := List.nodup_cons.mp hinj
      rw [List.foldl_cons, ih hnodup, lookup_put]
      by_cases hkey : key = name i
      · subst hkey
        have hlater : ∀ j ∈ l, name j ≠ name i := fun j hj heq =>
          hnot (heq ▸ List.mem_map_of_mem hj)
        simp only [if_true, hnot, not_false_eq_true, true_and, List.mem_cons,
          List.map_cons, not_true_eq_false, false_and, or_false, Option.some.injEq]
        constructor
        · rintro (⟨j, hj, hname, -⟩ | hv)
          · exact absurd hname (hlater j hj)
          · exact ⟨i, .inl rfl, rfl, hv⟩
        · rintro ⟨j, rfl | hj, hname, hv⟩
          · exact .inr hv
          · exact absurd hname (hlater j hj)
      · simp only [List.mem_cons, List.map_cons, hkey, false_or]
        constructor
        · rintro (⟨j, hj, hname, hv⟩ | h)
          · exact .inl ⟨j, .inr hj, hname, hv⟩
          · exact .inr h
        · rintro (⟨j, rfl | hj, hname, hv⟩ | h)
          · exact absurd hname.symm hkey
          · exact .inl ⟨j, hj, hname, hv⟩
          · exact .inr h

theorem find?_object (fields : List (String × Json)) (name : String) :
    (object fields).find? name = fields.reverse.lookup name := by
  suffices h : ∀ m : List (String × Json),
      (fields.foldl (fun m f => put m f.1 f.2) m).lookup name =
        (fields.reverse.lookup name).or (m.lookup name) by
    simpa [object, find?] using h []
  induction fields with
  | nil => simp
  | cons f rest ih =>
      intro m
      rw [List.foldl_cons, ih, lookup_put, List.reverse_cons, List.lookup_append, lookup_cons]
      by_cases hname : name = f.1 <;> simp [hname]

@[simp] theorem isObject_object (fields : List (String × Json)) :
    (object fields).isObject = true := rfl

end Json
