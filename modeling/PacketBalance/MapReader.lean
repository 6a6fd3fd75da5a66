import PacketBalance.Abi
import PacketBalance.Lib.KeyWalk
import PacketBalance.Lib.PercpuMap
import Mathlib.Data.List.Nodup
import Mathlib.Data.List.ProdSigma
/-!
# Reading the connection table

`MapReader::flows` and `MapReader::conntrack_entries` of `src/daemon/map_reader.cpp`.  The table
is the kernel's: each call of `bpf_map_get_next_key` and `bpf_map_lookup_elem` may find it
changed by the data plane.
-/

namespace PacketBalance

structure FlowRow where
  key : Flow
  value : CtValue
  cpu : Nat
deriving DecidableEq, Repr

structure MapReader where
  ncpus : Nat
  ctMaxEntries : Nat

/-- The connection table; a lookup gives one copy for every CPU. -/
abbrev Conntrack (W : Type) := KeyedMap Flow (Nat → CtValue) W

abbrev FlowFilter := Option (Flow → CtValue → Bool)

/-- The copy is one that some CPU has written, and the filter lets it pass. -/
def FlowFilter.keeps (keep : FlowFilter) (r : FlowRow) : Bool :=
  r.value.lastSeenNs ≠ 0 && keep.all fun f => f r.key r.value

namespace MapReader

/-- The inner loop of `flows`, over the CPUs. -/
def cpuLoop (keep : FlowFilter) (limit : Nat) (key : Flow) (values : Nat → CtValue) :
    List Nat → List FlowRow → List FlowRow
  | [], rows => rows
  | cpu :: cpus, rows =>
      if rows.length < limit then
        if (values cpu).lastSeenNs = 0 then cpuLoop keep limit key values cpus rows
        else if keep.any fun f => !f key (values cpu) then cpuLoop keep limit key values cpus rows
        else cpuLoop keep limit key values cpus (rows ++ [⟨key, values cpu, cpu⟩])
      else rows

variable {W : Type}

/-- The body of the outer loop; a key that cannot be looked up has been evicted. -/
def visitKey (r : MapReader) (T : Conntrack W) (keep : FlowFilter) (limit : Nat) (key : Flow)
    (rows : List FlowRow) (w : W) : List FlowRow × W :=
  match T.read key w with
  | (none, w) => (rows, w)
  | (some values, w) => (cpuLoop keep limit key values (List.range r.ncpus) rows, w)

def flows (r : MapReader) (T : Conntrack W) (keep : FlowFilter) (limit : Nat) (w : W) :
    List FlowRow × W :=
  T.walk (fun rows => rows.length < limit) (r.visitKey T keep limit) (r.ctMaxEntries + 1) none [] w

/-- The loop's `n` counts its turns, and `n <= ct_max_entries_` bounds them. -/
def conntrackEntries (r : MapReader) (T : Conntrack W) (w : W) : Nat × W :=
  T.walk (fun _ => true) (fun _ n w => (n + 1, w)) (r.ctMaxEntries + 1) none 0 w

/-! ## A table that does not change -/

/-- The keys of a table, in the order in which the kernel enumerates them. -/
structure Enumerates (m : PercpuMap Flow CtValue) (keys : List Flow) : Prop where
  nodup : keys.Nodup
  mem_iff : ∀ k, k ∈ keys ↔ (m.copies k).isSome

def copiesOf (r : MapReader) (m : PercpuMap Flow CtValue) (key : Flow) : List FlowRow :=
  match m.copies key with
  | none => []
  | some values => (List.range r.ncpus).map fun cpu => ⟨key, values cpu, cpu⟩

theorem cpuLoop_eq (keep : FlowFilter) (limit : Nat) (key : Flow) (values : Nat → CtValue)
    (cpus : List Nat) (rows : List FlowRow) :
    cpuLoop keep limit key values cpus rows =
      rows ++ ((cpus.map fun cpu => ⟨key, values cpu, cpu⟩).filter keep.keeps).take
        (limit - rows.length) := by
  induction cpus generalizing rows with
  | nil => simp [cpuLoop]
  | cons cpu cpus ih =>
      rw [cpuLoop, List.map_cons, List.filter_cons]
      by_cases hroom : rows.length < limit
      · rw [if_pos hroom]
        by_cases hzero : (values cpu).lastSeenNs = 0
        · simp [hzero, FlowFilter.keeps, ih]
        · by_cases hskip : (keep.any fun f => !f key (values cpu)) = true
          · have hdrop : keep.keeps ⟨key, values cpu, cpu⟩ = false := by
              cases keep <;> simp_all [FlowFilter.keeps]
            rw [if_neg hzero, if_pos hskip, hdrop, ih]
            rfl
          · have hkeep : keep.keeps ⟨key, values cpu, cpu⟩ = true := by
              cases keep <;> simp_all [FlowFilter.keeps]
            have hlimit : limit - rows.length = limit - (rows.length + 1) + 1 := by omega
            rw [if_neg hzero, if_neg hskip, hkeep, ih, hlimit]
            simp
      · have hlimit : limit - rows.length = 0 := by omega
        simp [hroom, hlimit]

theorem length_cpuLoop_le {limit : Nat} {rows : List FlowRow} (h : rows.length ≤ limit)
    (keep : FlowFilter) (key : Flow) (values : Nat → CtValue) (cpus : List Nat) :
    (cpuLoop keep limit key values cpus rows).length ≤ limit := by
  rw [cpuLoop_eq, List.length_append, List.length_take]
  omega

/-- One key after the other, each with as many of its copies as the limit leaves room for. -/
theorem foldl_visitKey (r : MapReader) (m : PercpuMap Flow CtValue) (keep : FlowFilter)
    (limit : Nat) (order keys : List Flow) (rows : List FlowRow) :
    keys.foldl (fun rows key => if rows.length < limit then
        (r.visitKey (.fixed m.copies order) keep limit key rows ()).1 else rows) rows =
      rows ++ ((keys.flatMap (r.copiesOf m)).filter keep.keeps).take (limit - rows.length) := by
  induction keys generalizing rows with
  | nil => simp
  | cons key keys ih =>
      have hvisit : (if rows.length < limit then
          (r.visitKey (.fixed m.copies order) keep limit key rows ()).1 else rows) =
          rows ++ ((r.copiesOf m key).filter keep.keeps).take (limit - rows.length) := by
        split
        · simp only [visitKey, KeyedMap.fixed, copiesOf]
          cases m.copies key with
          | none => simp
          | some values => exact cpuLoop_eq ..
        · have hlimit : limit - rows.length = 0 := by omega
          simp [hlimit]
      have hroom : limit - (rows ++ ((r.copiesOf m key).filter keep.keeps).take
          (limit - rows.length)).length =
          limit - rows.length - ((r.copiesOf m key).filter keep.keeps).length := by
        rw [List.length_append, List.length_take]
        omega
      rw [List.foldl_cons, hvisit, ih, hroom, List.flatMap_cons, List.filter_append,
        List.take_append, List.append_assoc]

theorem flows_fixed {m : PercpuMap Flow CtValue} {keys : List Flow} {r : MapReader}
    (hkeys : Enumerates m keys) (hmax : keys.length ≤ r.ctMaxEntries) (keep : FlowFilter)
    (limit : Nat) :
    (r.flows (.fixed m.copies keys) keep limit ()).1 =
      ((keys.flatMap (r.copiesOf m)).filter keep.keeps).take limit := by
  have hfold := foldl_visitKey r m keep limit keys keys []
  rw [List.nil_append, List.length_nil, Nat.sub_zero] at hfold
  rw [← hfold]
  refine (KeyedMap.walk_fixed (List.nil_append keys).symm hkeys.nodup
    (Nat.le_succ_of_le hmax) []).trans ?_
  simp only [decide_eq_true_eq]

theorem conntrackEntries_fixed {m : PercpuMap Flow CtValue} {keys : List Flow} {r : MapReader}
    (hkeys : Enumerates m keys) (hmax : keys.length ≤ r.ctMaxEntries) :
    (r.conntrackEntries (.fixed m.copies keys) ()).1 = keys.length := by
  refine (KeyedMap.walk_fixed (List.nil_append keys).symm hkeys.nodup
    (Nat.le_succ_of_le hmax) 0).trans ?_
  simp

theorem nodup_copies (m : PercpuMap Flow CtValue) {keys : List Flow} (r : MapReader)
    (hkeys : keys.Nodup) :
    ((keys.flatMap (r.copiesOf m)).map fun row => (row.key, row.cpu)).Nodup := by
  have hsub : ((keys.flatMap (r.copiesOf m)).map fun row => (row.key, row.cpu)).Sublist
      (keys ×ˢ List.range r.ncpus) := by
    induction keys with
    | nil => simp
    | cons key keys ih =>
        rw [List.flatMap_cons, List.map_append, List.product_cons]
        refine List.Sublist.append ?_ (ih hkeys.of_cons)
        rw [copiesOf]
        cases m.copies key with
        | none => simp
        | some values => simp [Function.comp_def]
  exact (hkeys.product List.nodup_range).sublist hsub

/-! ## A table that changes -/

section Changing

variable (r : MapReader) (T : Conntrack W) (keep : FlowFilter) (limit : Nat)

theorem length_flows_le (w : W) : (r.flows T keep limit w).1.length ≤ limit := by
  refine KeyedMap.walk_induct (P := fun (rows : List FlowRow) _ => rows.length ≤ limit)
    (fun _ _ _ h => h) ?_ _ _ (Nat.zero_le _)
  intro key rows w _ hrows
  rw [visitKey]
  split
  · exact hrows
  · exact length_cpuLoop_le hrows ..

/-- A reader of the counting table sees what a reader of the table sees. -/
theorem flows_counted (w : W) (n : Nat) :
    (r.flows T.counted keep limit (w, n)).1 = (r.flows T keep limit w).1 := by
  refine KeyedMap.walk_counted (fun key rows w n => ?_) _ _ _ _ _
  simp only [visitKey, KeyedMap.counted]
  obtain ⟨_ | values, w'⟩ := T.read key w
  · exact ⟨rfl, rfl⟩
  · exact ⟨rfl, rfl⟩

theorem conntrackEntries_counted (w : W) (n : Nat) :
    (r.conntrackEntries T.counted (w, n)).1 = (r.conntrackEntries T w).1 :=
  KeyedMap.walk_counted (fun _ _ _ _ => ⟨rfl, rfl⟩) _ _ _ _ _

theorem count_flows_le (w : W) :
    (r.flows T.counted keep limit (w, 0)).2.2 ≤ r.ctMaxEntries + 1 := by
  have hcount : ∀ key rows w', (r.visitKey T.counted keep limit key rows w').2.2 = w'.2 := by
    intro key rows w'
    simp only [visitKey, KeyedMap.counted]
    cases (T.read key w'.1).1 <;> rfl
  rw [← Nat.zero_add (r.ctMaxEntries + 1)]
  exact KeyedMap.count_walk_le hcount (r.ctMaxEntries + 1) none [] (w, 0)

theorem count_conntrackEntries_le (w : W) :
    (r.conntrackEntries T.counted (w, 0)).2.2 ≤ r.ctMaxEntries + 1 := by
  rw [← Nat.zero_add (r.ctMaxEntries + 1)]
  exact KeyedMap.count_walk_le (fun _ _ _ => rfl) (r.ctMaxEntries + 1) none 0 (w, 0)

end Changing

/-- On a table of at most `ct_max_entries_` keys that does not change, `flows` returns the first
`limit` copies that some CPU has written and the filter keeps, in the order of the table, and
`conntrack_entries` the number of keys.  Whatever the table does meanwhile, neither takes more
than `ct_max_entries_ + 1` keys from it, and `flows` keeps to the limit. -/
theorem flow_walk (r : MapReader) (keep : FlowFilter) (limit : Nat) :
    (∀ (m : PercpuMap Flow CtValue) (keys : List Flow), Enumerates m keys →
      keys.length ≤ r.ctMaxEntries →
      (r.flows (.fixed m.copies keys) keep limit ()).1 =
        ((keys.flatMap (r.copiesOf m)).filter keep.keeps).take limit ∧
      ((r.flows (.fixed m.copies keys) keep limit ()).1.map fun row => (row.key, row.cpu)).Nodup ∧
      (r.conntrackEntries (.fixed m.copies keys) ()).1 = keys.length) ∧
    ∀ (W : Type) (T : Conntrack W) (w : W),
      (r.flows T.counted keep limit (w, 0)).2.2 ≤ r.ctMaxEntries + 1 ∧
      (r.conntrackEntries T.counted (w, 0)).2.2 ≤ r.ctMaxEntries + 1 ∧
      (r.flows T keep limit w).1.length ≤ limit := by
  refine ⟨fun m keys hkeys hmax => ?_, fun W T w => ?_⟩
  · have hrows := flows_fixed hkeys hmax keep limit
    refine ⟨hrows, ?_, conntrackEntries_fixed hkeys hmax⟩
    rw [hrows]
    exact (r.nodup_copies m hkeys.nodup).sublist
      (((List.take_sublist _ _).trans (List.filter_sublist)).map _)
  · exact ⟨r.count_flows_le T keep limit w, r.count_conntrackEntries_le T w,
      r.length_flows_le T keep limit w⟩

/-- One flow that the second of two CPUs has seen. -/
theorem flow_walk_sample :
    let flow : Flow := ⟨0x0a00000a, 0x016433c6, 0x409c, 0x5000, 6⟩
    (flows ⟨2, 1⟩ (.fixed (PercpuMap.empty.update .zero 1 flow ⟨7, 0, 12345⟩).copies [flow]) none
      100 ()).1 = [⟨flow, ⟨7, 0, 12345⟩, 1⟩] := by
  intro flow
  refine ((flow_walk ⟨2, 1⟩ none 100).1 _ [flow] ⟨by simp, fun k => ?_⟩ (by simp)).1.trans ?_
  · by_cases hk : k = flow <;> simp [PercpuMap.update, PercpuMap.empty, hk]
  · decide

end MapReader

end PacketBalance
