import PacketBalance.MapReader
import PacketBalance.DataPlane.Receipts
/-!
# Reading the counters

`MapReader::counters` and `MapReader::real_counters` of `src/daemon/map_reader.cpp`: the copies
of all possible CPUs added up, modulo `2^64` as everywhere.  A slot outside the array cannot be
looked up and reads as zero.
-/

namespace PacketBalance

namespace MapReader

/-- The loop over what `lookup_percpu` returns. -/
def sumCpus (r : MapReader) (value : Nat → UInt64) : UInt64 :=
  (List.range r.ncpus).foldl (fun sum cpu => sum + value cpu) 0

def counters (r : MapReader) (dp : DpMaps) (index : Nat) (cnt : Counter) : UInt64 :=
  if index ≤ pbMaxVips then r.sumCpus fun cpu => dp.stats index cpu cnt else 0

def realCounters (r : MapReader) (dp : DpMaps) (realId : Nat) : RealStats :=
  if realId < pbMaxReals then
    ⟨r.sumCpus fun cpu => (dp.realStats realId cpu).packets,
      r.sumCpus fun cpu => (dp.realStats realId cpu).bytes⟩
  else ⟨0, 0⟩

theorem sumCpus_eq (r : MapReader) (value : Nat → UInt64) :
    r.sumCpus value = ∑ cpu ∈ Finset.range r.ncpus, value cpu := by
  rw [sumCpus]
  induction r.ncpus with
  | zero => rfl
  | succ n ih => rw [List.range_succ, List.foldl_append, ih, Finset.sum_range_succ]; rfl

theorem counters_eq_total (r : MapReader) (dp : DpMaps) {index : Nat} (h : index ≤ pbMaxVips)
    (cnt : Counter) : r.counters dp index cnt = dp.total (Finset.range r.ncpus) index cnt := by
  rw [counters, if_pos h, sumCpus_eq, DpMaps.total]

theorem realCounters_eq_totals (r : MapReader) (dp : DpMaps) {realId : Nat}
    (h : realId < pbMaxReals) :
    r.realCounters dp realId = dp.realTotals (Finset.range r.ncpus) realId := by
  rw [realCounters, if_pos h, sumCpus_eq, sumCpus_eq, DpMaps.realTotals]

end MapReader

end PacketBalance
