import Mathlib.Algebra.BigOperators.Group.List.Basic
import Mathlib.Tactic.FieldSimp
import Mathlib.Tactic.Ring
import Wca.Derived.Base

/-!
# Derived metrics of the uncore PMUs

`UncoreDerivedMetricsGenerator` makes bandwidths of the memory and of the links between sockets, the
share of the memory traffic that DRAM served and the latency of the read queue. The metrics have a
level for sockets and one for PMUs, but for the latency, which has sockets only.
-/

namespace Wca.Derived

open Py

def platformPmmBandwidthReads : MetricName := "platform_pmm_bandwidth_reads"

def platformPmmBandwidthWrites : MetricName := "platform_pmm_bandwidth_writes"

def platformCasCountReads : MetricName := "platform_cas_count_reads"

def platformCasCountWrites : MetricName := "platform_cas_count_writes"

def platformUpiRxlFlits : MetricName := "platform_upi_rxl_flits"

def platformUpiTxlFlits : MetricName := "platform_upi_txl_flits"

def platformRpqOccupancy : MetricName := "platform_rpq_occupancy"

def platformRpqInserts : MetricName := "platform_rpq_inserts"

def platformImcClockticks : MetricName := "platform_imc_clockticks"

def platformRpqReadLatencySeconds : MetricName := "platform_rpq_read_latency_seconds"

def platformPmmReadsBytesPerSecond : MetricName := "platform_pmm_reads_bytes_per_second"

def platformPmmWritesBytesPerSecond : MetricName := "platform_pmm_writes_bytes_per_second"

def platformPmmTotalBytesPerSecond : MetricName := "platform_pmm_total_bytes_per_second"

def platformDramReadsBytesPerSecond : MetricName := "platform_dram_reads_bytes_per_second"

def platformDramWritesBytesPerSecond : MetricName := "platform_dram_writes_bytes_per_second"

def platformDramTotalBytesPerSecond : MetricName := "platform_dram_total_bytes_per_second"

def platformDramHitRatio : MetricName := "platform_dram_hit_ratio"

def platformUpiBandwidthBytesPerSecond : MetricName := "platform_upi_bandwidth_bytes_per_second"

namespace Uncore

/-! ## `UncoreDerivedMetricsGenerator._derive` -/

/-- The measurements, with the metrics of one level apart. -/
structure PlatformMeasurements where
  perPmu : Measurements 2
  perSocket : Measurements 1 := ∅

/-- `rate`: each operation is 64 bytes long. -/
def rate (timeDelta value : ℚ) : Except Exc ℚ := truediv (value * 64) timeDelta

/-- The bytes per second that were read, written and both, which the blocks for DRAM and for PMM
make alike. -/
def bandwidth (prev : Measurements 2) (timeDelta : ℚ) (measurements : Measurements 2)
    (reads writes : MetricName) : Except Exc (Leveled 2 × Leveled 2 × Leveled 2) := do
  let read ← delta 2 prev measurements reads
  let write ← delta 2 prev measurements writes
  let read ← operationOnLeveledMetric (rate timeDelta) 1 read
  let write ← operationOnLeveledMetric (rate timeDelta) 1 write
  let total ← operationOnLeveledDicts add 1 read write
  pure (read, write, total)

/-- The block for DRAM, with the value that `total_dram_bps` has then. -/
def deriveDram (prev : Measurements 2) (timeDelta : ℚ) (measurements : Measurements 2) :
    Except Exc (Measurements 2 × Option (Leveled 2)) :=
  if Available prev measurements [platformCasCountReads, platformCasCountWrites] then do
    let (dramRead, dramWrite, totalDramBps) ←
      bandwidth prev timeDelta measurements platformCasCountReads platformCasCountWrites
    let measurements := measurements.set platformDramReadsBytesPerSecond dramRead
    let measurements := measurements.set platformDramWritesBytesPerSecond dramWrite
    pure (measurements.set platformDramTotalBytesPerSecond totalDramBps, some totalDramBps)
  else pure (measurements, none)

/-- The value of a local variable, if it was assigned. -/
def readLocal {α : Type} (name : String) : Option α → Except Exc α
  | some a => .ok a
  | none => .error (.UnboundLocalError name)

/-- The block for PMM. It uses `total_dram_bps`, which the block for DRAM may not have assigned. -/
def derivePmm (prev : Measurements 2) (timeDelta : ℚ) (totalDramBps : Option (Leveled 2))
    (measurements : Measurements 2) : Except Exc (Measurements 2) :=
  if Available prev measurements [platformPmmBandwidthWrites, platformPmmBandwidthReads] then do
    let (pmmRead, pmmWrite, totalPmmBps) ←
      bandwidth prev timeDelta measurements platformPmmBandwidthReads platformPmmBandwidthWrites
    let measurements := measurements.set platformPmmReadsBytesPerSecond pmmRead
    let measurements := measurements.set platformPmmWritesBytesPerSecond pmmWrite
    let measurements := measurements.set platformPmmTotalBytesPerSecond totalPmmBps
    let totalDramBps ← readLocal "total_dram_bps" totalDramBps
    let totalDramAndPmmBps ← operationOnLeveledDicts add 1 totalPmmBps totalDramBps
    let dramBps ← item measurements platformDramTotalBytesPerSecond
    let dramHit ← operationOnLeveledDicts truediv 1 dramBps totalDramAndPmmBps
    pure (measurements.set platformDramHitRatio dramHit)
  else pure measurements

/-- `rate_for_upi` -/
def rateForUpi (timeDelta value : ℚ) : Except Exc ℚ := do
  let perSecond ← truediv value timeDelta
  pure (perSecond / 9 * 64)

/-- The block for UPI. -/
def deriveUpi (prev : Measurements 2) (timeDelta : ℚ) (measurements : Measurements 2) :
    Except Exc (Measurements 2) :=
  if Available prev measurements [platformUpiRxlFlits, platformUpiTxlFlits] then do
    let rxlFlits ← delta 2 prev measurements platformUpiRxlFlits
    let txlFlits ← delta 2 prev measurements platformUpiTxlFlits
    let flits ← operationOnLeveledDicts add 1 rxlFlits txlFlits
    let bandwidth ← operationOnLeveledMetric (rateForUpi timeDelta) 1 flits
    pure (measurements.set platformUpiBandwidthBytesPerSecond bandwidth)
  else pure measurements

/-- `measurements[name][socket][channel]` -/
def itemOf (measurements : Measurements 2) (name : MetricName) (socket channel : Key) :
    Except Exc ℚ := do
  let sockets : Leveled 2 ← item measurements name
  let channels : Leveled 1 ← item sockets socket
  item channels channel

/-- What the loop over the channels adds up. -/
structure QueueSums where
  occupancy : ℚ := 0
  inserts : ℚ := 0
  clockticks : ℚ := 0

/-- One turn over the channels. -/
def addChannel (measurements : Measurements 2) (socket : Key) (sums : QueueSums) (channel : Key) :
    Except Exc QueueSums := do
  let occupancy ← itemOf measurements platformRpqOccupancy socket channel
  let inserts ← itemOf measurements platformRpqInserts socket channel
  let clockticks ← itemOf measurements platformImcClockticks socket channel
  pure ⟨sums.occupancy + occupancy, sums.inserts + inserts, sums.clockticks + clockticks⟩

/-- `rpq_read_latency` of a socket with some channels. -/
def rpqReadLatency (measurements : Measurements 2) (socket : Key) (channels : List Key) :
    Except Exc ℚ := do
  let sums ← channels.foldlM (addChannel measurements socket) {}
  let perInsert ← truediv sums.occupancy sums.inserts
  let perChannel ← truediv sums.clockticks channels.length
  truediv perInsert perChannel

/-- The block for the read queue. It takes the counters as they are now. -/
def deriveRpq (prev measurements : Measurements 2) (perSocket : Measurements 1) :
    Except Exc (Measurements 1) :=
  if Available prev measurements
      [platformRpqInserts, platformRpqOccupancy, platformImcClockticks] then do
    let occupancy : Leveled 2 ← item measurements platformRpqOccupancy
    let latency ← Dict.comprehendM occupancy fun socket (channels : Leveled 1) =>
      rpqReadLatency measurements socket (Dict.keys channels)
    pure (perSocket.set platformRpqReadLatencySeconds latency)
  else pure perSocket

/-- `UncoreDerivedMetricsGenerator._derive` -/
def derive (prev : PlatformMeasurements) (timeDelta : ℚ) (measurements : PlatformMeasurements) :
    Except Exc PlatformMeasurements := do
  let (perPmu, totalDramBps) ← deriveDram prev.perPmu timeDelta measurements.perPmu
  let perPmu ← derivePmm prev.perPmu timeDelta totalDramBps perPmu
  let perPmu ← deriveUpi prev.perPmu timeDelta perPmu
  let perSocket ← deriveRpq prev.perPmu perPmu measurements.perSocket
  pure ⟨perPmu, perSocket⟩

/-! ## What should be shown -/

/-- Bytes per second. -/
def bpsAt (c : Counter 2) (timeDelta : ℚ) (path : List Key) : Option ℚ :=
  ratioOf ((c.change path).map (· * 64)) (some timeDelta)

/-- The sum of two numbers that are there. -/
def plus (x y : Option ℚ) : Option ℚ := x.bind fun a => y.map fun b => a + b

def totalAt (reads writes : Counter 2) (timeDelta : ℚ) (path : List Key) : Option ℚ :=
  plus (bpsAt reads timeDelta path) (bpsAt writes timeDelta path)

/-- What DRAM served, of what DRAM and PMM served. -/
def hitRatioAt (dramReads dramWrites pmmReads pmmWrites : Counter 2) (timeDelta : ℚ)
    (path : List Key) : Option ℚ :=
  ratioOf (totalAt dramReads dramWrites timeDelta path)
    (plus (totalAt pmmReads pmmWrites timeDelta path) (totalAt dramReads dramWrites timeDelta path))

/-- A ninth of the flits of both ways, 64 bytes each, per second. -/
def upiAt (rxl txl : Counter 2) (timeDelta : ℚ) (path : List Key) : Option ℚ :=
  ratioOf ((plus (rxl.change path) (txl.change path)).map (· / 9 * 64)) (some timeDelta)

/-- The channels of a socket that the counter has now. -/
def channelsOf (c : Counter 2) (socket : Key) : List Key :=
  (c.now.bind fun sockets => Dict.get? sockets socket).elim [] fun channels => Dict.keys channels

/-- What a counter has now, at a channel of a socket. -/
def nowAt (c : Counter 2) (socket channel : Key) : Option ℚ :=
  c.now.bind fun sockets => leaf? 2 sockets [socket, channel]

def sumOver (c : Counter 2) (socket : Key) (channels : List Key) : ℚ :=
  (channels.map fun channel => (nowAt c socket channel).getD 0).sum

/-- Both snapshots have the counter at some channels of a socket. -/
def Both (c : Counter 2) (socket : Key) (channels : List Key) : Prop :=
  ∀ channel ∈ channels, (c.change [socket, channel]).isSome

instance (c : Counter 2) (socket : Key) (channels : List Key) :
    Decidable (Both c socket channels) :=
  inferInstanceAs (Decidable (∀ channel ∈ channels, (c.change [socket, channel]).isSome))

/-- The time an entry spent in the queue, in clockticks of a channel. -/
def rpqLatencyAt (occupancy inserts clockticks : Counter 2) (socket : Key) : Option ℚ :=
  let channels := channelsOf occupancy socket
  if Both occupancy socket channels ∧ Both inserts socket channels ∧
      Both clockticks socket channels then
    ratioOf
      (ratioOf (some (sumOver occupancy socket channels))
        (some (sumOver inserts socket channels)))
      (some (sumOver clockticks socket channels / channels.length))
  else none

/-! ## When it is -/

/-- Without time between the snapshots there is nothing to divide by it. -/
def Timed (c : Counter 2) (timeDelta : ℚ) : Prop :=
  timeDelta = 0 → ∀ path, c.change path = none

/-- The keys of both counters were there before, the first one has no other keys than the second,
and there is time between the snapshots. -/
def BandwidthMeets (reads writes : Counter 2) (timeDelta : ℚ) : Prop :=
  reads.Tracked ∧ writes.Tracked ∧ reads.Within writes ∧ Timed reads timeDelta ∧
    Timed writes timeDelta

/-- Two counters come together, unless nothing would be shown of the one that came. -/
def Together (c c' : Counter 2) (timeDelta : ℚ) : Prop :=
  (c.Exists → ¬c'.Exists → c.Idle timeDelta) ∧ (c'.Exists → ¬c.Exists → c'.Idle timeDelta)

def DramMeets (reads writes : Counter 2) (timeDelta : ℚ) : Prop :=
  (reads.Exists → writes.Exists → BandwidthMeets reads writes timeDelta) ∧
    Together reads writes timeDelta

/-- PMM comes with DRAM, which has the same keys. -/
def PmmMeets (dramReads dramWrites reads writes : Counter 2) (timeDelta : ℚ) : Prop :=
  (reads.Exists → writes.Exists → BandwidthMeets reads writes timeDelta ∧
    dramReads.Exists ∧ dramWrites.Exists ∧ reads.Within dramReads ∧ dramReads.Within reads) ∧
    Together reads writes timeDelta

def UpiMeets (rxl txl : Counter 2) (timeDelta : ℚ) : Prop :=
  rxl.Exists → txl.Exists → rxl.Tracked ∧ txl.Tracked ∧ rxl.Within txl ∧
    (timeDelta = 0 → ∀ path, plus (rxl.change path) (txl.change path) = none)

/-- The channels of every socket have all three counters in both snapshots, and what was inserted
and the clockticks do not add up to zero. -/
def RpqMeets (occupancy inserts clockticks : Counter 2) : Prop :=
  inserts.Exists → occupancy.Exists → clockticks.Exists →
    ∀ sockets, occupancy.now = some sockets → ∀ socket channels,
      Dict.get? sockets socket = some channels →
        Both occupancy socket (Dict.keys channels) ∧ Both inserts socket (Dict.keys channels) ∧
          Both clockticks socket (Dict.keys channels) ∧
          sumOver inserts socket (Dict.keys channels) ≠ 0 ∧
          sumOver clockticks socket (Dict.keys channels) ≠ 0

/-! ## DRAM -/

section Bandwidth

variable {prev measurements : Measurements 2} {timeDelta : ℚ} {reads writes : MetricName}

theorem rate_eq {q : ℚ} :
    (rate timeDelta q).toOption = ratioOf (some (q * 64)) (some timeDelta) := by
  rw [ratioOf_eq_truediv]
  rfl

/-- An operation that raises at a time of zero only returns for a metric with something in it when the
time is another one. -/
theorem metric_returns_iff_of_divisor {operation : ℚ → Except Exc ℚ}
    (hoperation : ∀ q, (∃ q', operation q = .ok q') ↔ timeDelta ≠ 0) {d : Leveled 2} :
    (∃ r, operationOnLeveledMetric operation 1 d = .ok r) ↔
      (timeDelta = 0 → ∀ path, leaf? 2 d path = none) := by
  rw [metric_returns_iff]
  constructor
  · intro h hzero path
    cases hleaf : leaf? 2 d path with
    | none => rfl
    | some q => exact absurd hzero ((hoperation q).mp (h path q hleaf))
  · intro h path q hleaf
    refine (hoperation q).mpr fun hzero => ?_
    rw [h hzero path] at hleaf
    cases hleaf

theorem rate_returns_iff {d : Leveled 2} :
    (∃ r, operationOnLeveledMetric (rate timeDelta) 1 d = .ok r) ↔
      (timeDelta = 0 → ∀ path, leaf? 2 d path = none) := by
  refine metric_returns_iff_of_divisor fun q => ⟨?_, fun hne => ⟨_, truediv_ok hne⟩⟩
  rintro ⟨q', hq⟩
  exact (truediv_ok_iff.mp hq).1

theorem leaf?_rate {c : Counter 2} {d r : Leveled 2} (hd : ∀ path, leaf? 2 d path = c.change path)
    (hr : operationOnLeveledMetric (rate timeDelta) 1 d = .ok r) (path : List Key) :
    leaf? 2 r path = bpsAt c timeDelta path := by
  rw [leaf?_metric hr, hd, bpsAt]
  cases c.change path with
  | none => rfl
  | some q => exact rate_eq

theorem leaf?_add {a b r : Leveled 2} (h : operationOnLeveledDicts add 1 a b = .ok r)
    (path : List Key) : leaf? 2 r path = plus (leaf? 2 a path) (leaf? 2 b path) := by
  rw [leaf?_operation divides_add h, plus]
  refine Option.bind_congr fun x _ => ?_
  cases leaf? 2 b path <;> rfl

/-- What a bandwidth is known by. -/
structure Bandwidth (prev measurements : Measurements 2) (timeDelta : ℚ) (reads writes : MetricName)
    (r : Leveled 2 × Leveled 2 × Leveled 2) : Prop where
  read : ∀ path, leaf? 2 r.1 path = bpsAt (counter prev measurements reads) timeDelta path
  write : ∀ path, leaf? 2 r.2.1 path = bpsAt (counter prev measurements writes) timeDelta path
  total : ∀ path, leaf? 2 r.2.2 path =
    totalAt (counter prev measurements reads) (counter prev measurements writes) timeDelta path
  keys : ∀ now, (counter prev measurements reads).now = some now →
    Covered 2 r.2.2 now ∧ Covered 2 now r.2.2

theorem bandwidth_returns_iff (h : (counter prev measurements reads).Exists)
    (h' : (counter prev measurements writes).Exists) :
    (∃ r, bandwidth prev timeDelta measurements reads writes = .ok r) ↔
      BandwidthMeets (counter prev measurements reads) (counter prev measurements writes)
        timeDelta := by
  constructor
  · intro hrun
    obtain ⟨r, hrun⟩ := hrun
    obtain ⟨read, hread, hrun⟩ := except_bind_ok_iff.mp hrun
    obtain ⟨write, hwrite, hrun⟩ := except_bind_ok_iff.mp hrun
    obtain ⟨readBps, hreadBps, hrun⟩ := except_bind_ok_iff.mp hrun
    obtain ⟨writeBps, hwriteBps, hrun⟩ := except_bind_ok_iff.mp hrun
    obtain ⟨total, htotal, -⟩ := except_bind_ok_iff.mp hrun
    have hcovered := (operation_returns_iff divides_add).mp ⟨total, htotal⟩
    have hcovered' : Covered 2 read write :=
      ((covered_metric hreadBps).2.trans hcovered).trans (covered_metric hwriteBps).1
    refine ⟨(delta_returns_iff h).mp ⟨read, hread⟩, (delta_returns_iff h').mp ⟨write, hwrite⟩,
      (covered_deltas_iff hread hwrite h h').mp hcovered', fun hzero path => ?_,
      fun hzero path => ?_⟩
    · rw [← leaf?_delta hread]
      exact rate_returns_iff.mp ⟨readBps, hreadBps⟩ hzero path
    · rw [← leaf?_delta hwrite]
      exact rate_returns_iff.mp ⟨writeBps, hwriteBps⟩ hzero path
  · intro hmeets
    obtain ⟨htracked, htracked', hwithin, htimed, htimed'⟩ := hmeets
    obtain ⟨read, hread⟩ := (delta_returns_iff h).mpr htracked
    obtain ⟨write, hwrite⟩ := (delta_returns_iff h').mpr htracked'
    obtain ⟨readBps, hreadBps⟩ := rate_returns_iff.mpr fun hzero path =>
      (leaf?_delta hread path).trans (htimed hzero path)
    obtain ⟨writeBps, hwriteBps⟩ := rate_returns_iff.mpr fun hzero path =>
      (leaf?_delta hwrite path).trans (htimed' hzero path)
    have hcovered : Covered 2 readBps writeBps :=
      ((covered_metric hreadBps).1.trans ((covered_deltas_iff hread hwrite h h').mpr hwithin)).trans
        (covered_metric hwriteBps).2
    obtain ⟨total, htotal⟩ := (operation_returns_iff divides_add).mpr hcovered
    refine ⟨(readBps, writeBps, total), ?_⟩
    rw [bandwidth, hread, except_ok_bind, hwrite, except_ok_bind, hreadBps, except_ok_bind,
      hwriteBps, except_ok_bind, htotal]
    rfl

theorem bandwidth_ok {r : Leveled 2 × Leveled 2 × Leveled 2}
    (hrun : bandwidth prev timeDelta measurements reads writes = .ok r) :
    Bandwidth prev measurements timeDelta reads writes r := by
  obtain ⟨read, hread, hrun⟩ := except_bind_ok_iff.mp hrun
  obtain ⟨write, hwrite, hrun⟩ := except_bind_ok_iff.mp hrun
  obtain ⟨readBps, hreadBps, hrun⟩ := except_bind_ok_iff.mp hrun
  obtain ⟨writeBps, hwriteBps, hrun⟩ := except_bind_ok_iff.mp hrun
  obtain ⟨total, htotal, hrun⟩ := except_bind_ok_iff.mp hrun
  cases hrun
  have hreads := leaf?_rate (leaf?_delta hread) hreadBps
  have hwrites := leaf?_rate (leaf?_delta hwrite) hwriteBps
  refine ⟨hreads, hwrites, fun path => ?_, fun now hnow => ?_⟩
  · rw [leaf?_add htotal, hreads, hwrites, totalAt]
  · obtain ⟨hdown, hup⟩ := covered_delta hread hnow
    obtain ⟨hdown', hup'⟩ := covered_metric hreadBps
    exact ⟨(covered_operation htotal).trans (hdown'.trans hdown),
      (hup.trans hup').trans (covered_of_operation (fun x y => ⟨x + y, rfl⟩) htotal)⟩

/-- The three bandwidths of a memory are shown where they should. -/
def BandwidthShown (reads writes : Counter 2) (timeDelta : ℚ)
    (readsBps writesBps totalBps : MetricName) (r : Measurements 2) : Prop :=
  (∀ path, shown r readsBps path = bpsAt reads timeDelta path) ∧
    (∀ path, shown r writesBps path = bpsAt writes timeDelta path) ∧
      ∀ path, shown r totalBps path = totalAt reads writes timeDelta path

theorem bpsAt_none_iff {c : Counter 2} :
    (∀ path, bpsAt c timeDelta path = none) ↔ c.Idle timeDelta := by
  rw [Counter.idle_iff]
  refine forall_congr' fun path => ?_
  rw [bpsAt]
  cases c.change path with
  | none => exact Iff.rfl
  | some q => by_cases hzero : timeDelta = 0 <;> simp [ratioOf, hzero]

theorem bpsAt_of_not_exists {c : Counter 2} (h : ¬c.Exists) (path : List Key) :
    bpsAt c timeDelta path = none := by
  rw [bpsAt, Counter.change_eq_none h]
  rfl

theorem plus_none_left {y : Option ℚ} : plus none y = none := rfl

theorem plus_none_right {x : Option ℚ} : plus x none = none := by
  cases x <;> rfl

theorem totalAt_of_not_exists {c c' : Counter 2} (h : ¬(c.Exists ∧ c'.Exists)) (path : List Key) :
    totalAt c c' timeDelta path = none := by
  rw [totalAt]
  by_cases hc : c.Exists
  · rw [bpsAt_of_not_exists fun hc' => h ⟨hc, hc'⟩, plus_none_right]
  · rw [bpsAt_of_not_exists hc, plus_none_left]

/-- Nothing is shown of counters that are not both available. -/
theorem bandwidthShown_self_iff {c c' : Counter 2} {readsBps writesBps totalBps : MetricName}
    (hread : measurements.get? readsBps = none) (hwrite : measurements.get? writesBps = none)
    (htotal : measurements.get? totalBps = none) (h : ¬(c.Exists ∧ c'.Exists)) :
    BandwidthShown c c' timeDelta readsBps writesBps totalBps measurements ↔
      Together c c' timeDelta := by
  constructor
  · intro hshown
    refine ⟨fun _ _ => bpsAt_none_iff.mp fun path => ?_,
      fun _ _ => bpsAt_none_iff.mp fun path => ?_⟩
    · exact (hshown.1 path).symm.trans (shown_of_none hread path)
    · exact (hshown.2.1 path).symm.trans (shown_of_none hwrite path)
  · intro htogether
    refine ⟨fun path => ?_, fun path => ?_, fun path => ?_⟩
    · rw [shown_of_none hread]
      by_cases hc : c.Exists
      · exact (bpsAt_none_iff.mpr (htogether.1 hc fun hc' => h ⟨hc, hc'⟩) path).symm
      · exact (bpsAt_of_not_exists hc path).symm
    · rw [shown_of_none hwrite]
      by_cases hc' : c'.Exists
      · exact (bpsAt_none_iff.mpr (htogether.2 hc' fun hc => h ⟨hc, hc'⟩) path).symm
      · exact (bpsAt_of_not_exists hc' path).symm
    · rw [shown_of_none htotal, totalAt_of_not_exists h]

theorem together_of_exists {c c' : Counter 2} (h : c.Exists) (h' : c'.Exists) :
    Together c c' timeDelta :=
  ⟨fun _ hnot => absurd h' hnot, fun _ hnot => absurd h hnot⟩

/-- The three bandwidths as they are assigned. -/
theorem Bandwidth.shown {r : Leveled 2 × Leveled 2 × Leveled 2}
    (h : Bandwidth prev measurements timeDelta reads writes r) (m : Measurements 2)
    {readsBps writesBps totalBps : MetricName} (hread : readsBps ≠ writesBps)
    (hread' : readsBps ≠ totalBps) (hwrite : writesBps ≠ totalBps) :
    BandwidthShown (counter prev measurements reads) (counter prev measurements writes) timeDelta
      readsBps writesBps totalBps
      (((m.set readsBps r.1).set writesBps r.2.1).set totalBps r.2.2) := by
  refine ⟨fun path => ?_, fun path => ?_, fun path => ?_⟩
  · rw [shown_congr (Dict.get?_set_of_ne hread'), shown_congr (Dict.get?_set_of_ne hread),
      shown_set_self, h.read]
  · rw [shown_congr (Dict.get?_set_of_ne hwrite), shown_set_self, h.write]
  · rw [shown_set_self, h.total]

end Bandwidth

section Dram

variable {prev measurements : Measurements 2} {timeDelta : ℚ}

theorem deriveDram_of_not_available
    (h : ¬Available prev measurements [platformCasCountReads, platformCasCountWrites]) :
    deriveDram prev timeDelta measurements = .ok (measurements, none) := by
  rw [deriveDram, if_neg h]
  rfl

theorem deriveDram_ok_iff
    (h : Available prev measurements [platformCasCountReads, platformCasCountWrites])
    {r : Measurements 2 × Option (Leveled 2)} :
    deriveDram prev timeDelta measurements = .ok r ↔ ∃ bps,
      bandwidth prev timeDelta measurements platformCasCountReads platformCasCountWrites = .ok bps ∧
        r = (((measurements.set platformDramReadsBytesPerSecond bps.1).set
          platformDramWritesBytesPerSecond bps.2.1).set platformDramTotalBytesPerSecond bps.2.2,
          some bps.2.2) := by
  rw [deriveDram, if_pos h, except_bind_ok_iff]
  refine exists_congr fun bps => and_congr_right fun _ => ?_
  exact ⟨fun hr => by cases hr; rfl, fun hr => by rw [hr]; rfl⟩

theorem dram_frame {r : Measurements 2 × Option (Leveled 2)}
    (h : deriveDram prev timeDelta measurements = .ok r) {name : MetricName}
    (hname : name ∉ [platformDramReadsBytesPerSecond, platformDramWritesBytesPerSecond,
      platformDramTotalBytesPerSecond]) : r.1.get? name = measurements.get? name := by
  simp only [List.mem_cons, List.not_mem_nil, or_false, not_or] at hname
  by_cases havailable : Available prev measurements [platformCasCountReads, platformCasCountWrites]
  · obtain ⟨bps, -, rfl⟩ := (deriveDram_ok_iff havailable).mp h
    rw [Dict.get?_set_of_ne hname.2.2, Dict.get?_set_of_ne hname.2.1, Dict.get?_set_of_ne hname.1]
  · rw [deriveDram_of_not_available havailable] at h
    cases h
    rfl

/-- The block for DRAM shows what it should just when the counters meet its condition. -/
theorem dram_iff (hread : measurements.get? platformDramReadsBytesPerSecond = none)
    (hwrite : measurements.get? platformDramWritesBytesPerSecond = none)
    (htotal : measurements.get? platformDramTotalBytesPerSecond = none) :
    (∃ r, deriveDram prev timeDelta measurements = .ok r ∧
        BandwidthShown (counter prev measurements platformCasCountReads)
          (counter prev measurements platformCasCountWrites) timeDelta
          platformDramReadsBytesPerSecond platformDramWritesBytesPerSecond
          platformDramTotalBytesPerSecond r.1) ↔
      DramMeets (counter prev measurements platformCasCountReads)
        (counter prev measurements platformCasCountWrites) timeDelta := by
  by_cases h : Available prev measurements [platformCasCountReads, platformCasCountWrites]
  · obtain ⟨hreads, hwrites⟩ := available_pair_iff.mp h
    constructor
    · intro hshown
      obtain ⟨r, hrun, -⟩ := hshown
      obtain ⟨bps, hbps, -⟩ := (deriveDram_ok_iff h).mp hrun
      exact ⟨fun _ _ => (bandwidth_returns_iff hreads hwrites).mp ⟨bps, hbps⟩,
        together_of_exists hreads hwrites⟩
    · intro hmeets
      obtain ⟨bps, hbps⟩ := (bandwidth_returns_iff hreads hwrites).mpr (hmeets.1 hreads hwrites)
      refine ⟨_, (deriveDram_ok_iff h).mpr ⟨bps, hbps, rfl⟩, ?_⟩
      exact (bandwidth_ok hbps).shown measurements (by decide) (by decide) (by decide)
  · rw [deriveDram_of_not_available h]
    rw [available_pair_iff] at h
    have hself := @bandwidthShown_self_iff measurements timeDelta
      (counter prev measurements platformCasCountReads)
      (counter prev measurements platformCasCountWrites) _ _ _ hread hwrite htotal h
    rw [DramMeets, ← hself]
    exact ⟨fun ⟨_, hr, hshown⟩ => by
      cases hr
      exact ⟨fun hreads hwrites => absurd ⟨hreads, hwrites⟩ h, hshown⟩,
      fun hmeets => ⟨_, rfl, hmeets.2⟩⟩

/-- What the block for DRAM leaves for the block for PMM. -/
theorem deriveDram_total {r : Measurements 2 × Option (Leveled 2)}
    (hr : deriveDram prev timeDelta measurements = .ok r) {total : Leveled 2}
    (htotal : r.2 = some total) :
    (counter prev measurements platformCasCountReads).Exists ∧
      (counter prev measurements platformCasCountWrites).Exists ∧
      r.1.get? platformDramTotalBytesPerSecond = some total ∧
      (∀ path, leaf? 2 total path = totalAt (counter prev measurements platformCasCountReads)
        (counter prev measurements platformCasCountWrites) timeDelta path) ∧
      ∀ now, (counter prev measurements platformCasCountReads).now = some now →
        Covered 2 total now ∧ Covered 2 now total := by
  by_cases h : Available prev measurements [platformCasCountReads, platformCasCountWrites]
  · obtain ⟨hreads, hwrites⟩ := available_pair_iff.mp h
    obtain ⟨bps, hbps, rfl⟩ := (deriveDram_ok_iff h).mp hr
    cases htotal
    have hbandwidth := bandwidth_ok hbps
    exact ⟨hreads, hwrites, Dict.get?_set_self, hbandwidth.total, hbandwidth.keys⟩
  · rw [deriveDram_of_not_available h] at hr
    cases hr
    cases htotal

/-- The block for DRAM leaves a total just when its counters are there. -/
theorem deriveDram_total_of_exists {r : Measurements 2 × Option (Leveled 2)}
    (hr : deriveDram prev timeDelta measurements = .ok r)
    (hreads : (counter prev measurements platformCasCountReads).Exists)
    (hwrites : (counter prev measurements platformCasCountWrites).Exists) :
    ∃ total, r.2 = some total := by
  obtain ⟨bps, -, rfl⟩ := (deriveDram_ok_iff (available_pair_iff.mpr ⟨hreads, hwrites⟩)).mp hr
  exact ⟨_, rfl⟩

end Dram

/-! ## PMM -/

section Pmm

variable {prev measurements : Measurements 2} {timeDelta : ℚ} {total : Option (Leveled 2)}

theorem derivePmm_of_not_available
    (h : ¬Available prev measurements [platformPmmBandwidthWrites, platformPmmBandwidthReads]) :
    derivePmm prev timeDelta total measurements = .ok measurements := by
  rw [derivePmm, if_neg h]
  rfl

/-- The measurements with the three bandwidths of PMM. -/
def withPmm (measurements : Measurements 2) (bps : Leveled 2 × Leveled 2 × Leveled 2) :
    Measurements 2 :=
  ((measurements.set platformPmmReadsBytesPerSecond bps.1).set
    platformPmmWritesBytesPerSecond bps.2.1).set platformPmmTotalBytesPerSecond bps.2.2

theorem get?_withPmm {bps : Leveled 2 × Leveled 2 × Leveled 2} {name : MetricName}
    (hname : name ∉ [platformPmmReadsBytesPerSecond, platformPmmWritesBytesPerSecond,
      platformPmmTotalBytesPerSecond]) :
    (withPmm measurements bps).get? name = measurements.get? name := by
  simp only [List.mem_cons, List.not_mem_nil, or_false, not_or] at hname
  rw [withPmm, Dict.get?_set_of_ne hname.2.2, Dict.get?_set_of_ne hname.2.1,
    Dict.get?_set_of_ne hname.1]

/-- The block for PMM returns when there is a total of DRAM with the keys of PMM. -/
theorem derivePmm_ok_iff
    (h : Available prev measurements [platformPmmBandwidthWrites, platformPmmBandwidthReads])
    {r : Measurements 2} :
    derivePmm prev timeDelta total measurements = .ok r ↔ ∃ bps dramBps both dramTotal hit,
      bandwidth prev timeDelta measurements platformPmmBandwidthReads
          platformPmmBandwidthWrites = .ok bps ∧
        total = some dramBps ∧ operationOnLeveledDicts add 1 bps.2.2 dramBps = .ok both ∧
        measurements.get? platformDramTotalBytesPerSecond = some dramTotal ∧
        operationOnLeveledDicts truediv 1 dramTotal both = .ok hit ∧
        r = (withPmm measurements bps).set platformDramHitRatio hit := by
  rw [derivePmm, if_pos h]
  constructor
  · intro hrun
    obtain ⟨bps, hbps, hrun⟩ := except_bind_ok_iff.mp hrun
    obtain ⟨dramBps, hdramBps, hrun⟩ := except_bind_ok_iff.mp hrun
    obtain ⟨both, hboth, hrun⟩ := except_bind_ok_iff.mp hrun
    obtain ⟨dramTotal, hdramTotal, hrun⟩ := except_bind_ok_iff.mp hrun
    obtain ⟨hit, hhit, hrun⟩ := except_bind_ok_iff.mp hrun
    have hsame := @get?_withPmm measurements bps platformDramTotalBytesPerSecond (by decide)
    refine ⟨bps, dramBps, both, dramTotal, hit, hbps, ?_, hboth,
      hsame.symm.trans (item_ok_iff.mp hdramTotal), hhit, ?_⟩
    · cases total with
      | none => cases hdramBps
      | some d =>
        cases hdramBps
        rfl
    · cases hrun
      rfl
  · intro hstages
    obtain ⟨bps, dramBps, both, dramTotal, hit, hbps, rfl, hboth, hdramTotal, hhit, rfl⟩ := hstages
    have hitem : item (withPmm measurements bps) platformDramTotalBytesPerSecond =
        .ok dramTotal :=
      item_ok_iff.mpr ((get?_withPmm (by decide)).trans hdramTotal)
    refine except_bind_ok_iff.mpr ⟨bps, hbps, except_bind_ok_iff.mpr ⟨dramBps, rfl, ?_⟩⟩
    refine except_bind_ok_iff.mpr ⟨both, hboth, except_bind_ok_iff.mpr ⟨dramTotal, hitem, ?_⟩⟩
    exact except_bind_ok_iff.mpr ⟨hit, hhit, rfl⟩

theorem pmm_frame {r : Measurements 2} (h : derivePmm prev timeDelta total measurements = .ok r)
    {name : MetricName} (hname : name ∉ [platformPmmReadsBytesPerSecond,
      platformPmmWritesBytesPerSecond, platformPmmTotalBytesPerSecond])
    (hhit : name ≠ platformDramHitRatio) : r.get? name = measurements.get? name := by
  by_cases havailable :
      Available prev measurements [platformPmmBandwidthWrites, platformPmmBandwidthReads]
  · obtain ⟨bps, _, _, _, _, -, -, -, -, -, rfl⟩ := (derivePmm_ok_iff havailable).mp h
    rw [Dict.get?_set_of_ne hhit, get?_withPmm hname]
  · rw [derivePmm_of_not_available havailable] at h
    cases h
    rfl

/-- The bandwidths of PMM and the share of DRAM are shown where they should. -/
def PmmShown (dramReads dramWrites reads writes : Counter 2) (timeDelta : ℚ) (r : Measurements 2) :
    Prop :=
  BandwidthShown reads writes timeDelta platformPmmReadsBytesPerSecond
      platformPmmWritesBytesPerSecond platformPmmTotalBytesPerSecond r ∧
    ∀ path, shown r platformDramHitRatio path =
      hitRatioAt dramReads dramWrites reads writes timeDelta path

/-- After the block for DRAM, the block for PMM shows what it should just when the counters meet its
condition. -/
theorem pmm_iff {r : Measurements 2 × Option (Leveled 2)}
    (hdram : deriveDram prev timeDelta measurements = .ok r)
    (hread : measurements.get? platformPmmReadsBytesPerSecond = none)
    (hwrite : measurements.get? platformPmmWritesBytesPerSecond = none)
    (htotal : measurements.get? platformPmmTotalBytesPerSecond = none)
    (hratio : measurements.get? platformDramHitRatio = none) :
    (∃ r', derivePmm prev timeDelta r.2 r.1 = .ok r' ∧
        PmmShown (counter prev measurements platformCasCountReads)
          (counter prev measurements platformCasCountWrites)
          (counter prev measurements platformPmmBandwidthReads)
          (counter prev measurements platformPmmBandwidthWrites) timeDelta r') ↔
      PmmMeets (counter prev measurements platformCasCountReads)
        (counter prev measurements platformCasCountWrites)
        (counter prev measurements platformPmmBandwidthReads)
        (counter prev measurements platformPmmBandwidthWrites) timeDelta := by
  have hreadsNow : counter prev r.1 platformPmmBandwidthReads =
      counter prev measurements platformPmmBandwidthReads := by
    rw [counter, counter, dram_frame hdram (by decide)]
  have hwritesNow : counter prev r.1 platformPmmBandwidthWrites =
      counter prev measurements platformPmmBandwidthWrites := by
    rw [counter, counter, dram_frame hdram (by decide)]
  by_cases h : Available prev r.1 [platformPmmBandwidthWrites, platformPmmBandwidthReads]
  · obtain ⟨hwrites, hreads⟩ := available_pair_iff.mp h
    have hreturns := @bandwidth_returns_iff prev r.1 timeDelta _ _ hreads hwrites
    rw [hreadsNow, hwritesNow] at hreturns
    rw [hreadsNow] at hreads
    rw [hwritesNow] at hwrites
    obtain ⟨reads, hreadsEq⟩ := Option.isSome_iff_exists.mp hreads.1
    constructor
    · intro hshown
      obtain ⟨r', hrun, -⟩ := hshown
      obtain ⟨bps, dramBps, both, dramTotal, hit, hbps, hsome, hboth, hdramTotal, hhit, -⟩ :=
        (derivePmm_ok_iff h).mp hrun
      obtain ⟨hcasReads, hcasWrites, hassigned, -, hcasKeys⟩ := deriveDram_total hdram hsome
      rw [hassigned] at hdramTotal
      cases hdramTotal
      have hkeys := (bandwidth_ok hbps).keys
      rw [hreadsNow] at hkeys
      have hpmmKeys := hkeys reads hreadsEq
      have hadd := (operation_returns_iff divides_add).mp ⟨both, hboth⟩
      have hdivide := (operation_returns_iff divides_truediv).mp ⟨hit, hhit⟩
      refine ⟨fun _ _ => ⟨hreturns.mp ⟨bps, hbps⟩, hcasReads, hcasWrites, fun a b ha hb => ?_,
        fun a b ha hb => ?_⟩, together_of_exists hreads hwrites⟩
      · rw [hreadsEq] at ha
        cases ha
        exact (hpmmKeys.2.trans hadd).trans (hcasKeys b hb).1
      · rw [hreadsEq] at hb
        cases hb
        exact (((hcasKeys a ha).2.trans hdivide).trans (covered_operation hboth)).trans hpmmKeys.1
    · intro hmeets
      obtain ⟨hbandwidth, hcasReads, hcasWrites, hwithin, hwithin'⟩ := hmeets.1 hreads hwrites
      obtain ⟨bps, hbps⟩ := hreturns.mpr hbandwidth
      obtain ⟨total, hsome⟩ := deriveDram_total_of_exists hdram hcasReads hcasWrites
      obtain ⟨-, -, hassigned, hcasTotal, hcasKeys⟩ := deriveDram_total hdram hsome
      obtain ⟨casReads, hcasEq⟩ := Option.isSome_iff_exists.mp hcasReads.1
      have hok := bandwidth_ok hbps
      have hkeys := hok.keys
      rw [hreadsNow] at hkeys
      have hpmmKeys := hkeys reads hreadsEq
      obtain ⟨both, hboth⟩ := (operation_returns_iff divides_add).mpr
        ((hpmmKeys.1.trans (hwithin reads casReads hreadsEq hcasEq)).trans
          (hcasKeys casReads hcasEq).2)
      have hcovered : Covered 2 total both :=
        (((hcasKeys casReads hcasEq).1.trans (hwithin' casReads reads hcasEq hreadsEq)).trans
          hpmmKeys.2).trans (covered_of_operation (fun x y => ⟨x + y, rfl⟩) hboth)
      obtain ⟨hit, hhit⟩ := (operation_returns_iff divides_truediv).mpr hcovered
      refine ⟨_, (derivePmm_ok_iff h).mpr
        ⟨bps, total, both, total, hit, hbps, hsome, hboth, hassigned, hhit, rfl⟩, ?_,
        fun path => ?_⟩
      · have hshown : BandwidthShown _ _ timeDelta platformPmmReadsBytesPerSecond
            platformPmmWritesBytesPerSecond platformPmmTotalBytesPerSecond (withPmm r.1 bps) :=
          hok.shown r.1 (by decide) (by decide) (by decide)
        rw [hreadsNow, hwritesNow] at hshown
        refine ⟨fun path => ?_, fun path => ?_, fun path => ?_⟩
        · rw [shown_congr (Dict.get?_set_of_ne (by decide))]
          exact hshown.1 path
        · rw [shown_congr (Dict.get?_set_of_ne (by decide))]
          exact hshown.2.1 path
        · rw [shown_congr (Dict.get?_set_of_ne (by decide))]
          exact hshown.2.2 path
      · rw [shown_set_self, leaf?_operation divides_truediv hhit, leaf?_add hboth, hok.total,
          hcasTotal, hreadsNow, hwritesNow, hitRatioAt, ratioOf_eq_truediv]
  · rw [derivePmm_of_not_available h]
    rw [available_pair_iff, hreadsNow, hwritesNow, and_comm] at h
    have hself := @bandwidthShown_self_iff r.1 timeDelta
      (counter prev measurements platformPmmBandwidthReads)
      (counter prev measurements platformPmmBandwidthWrites) _ _ _
      ((dram_frame hdram (by decide)).trans hread) ((dram_frame hdram (by decide)).trans hwrite)
      ((dram_frame hdram (by decide)).trans htotal) h
    rw [PmmMeets, ← hself]
    constructor
    · intro hshown
      obtain ⟨r', hr, hshown⟩ := hshown
      cases hr
      exact ⟨fun hreads hwrites => absurd ⟨hreads, hwrites⟩ h, hshown.1⟩
    · intro hmeets
      refine ⟨_, rfl, hmeets.2, fun path => ?_⟩
      rw [shown_of_none ((dram_frame hdram (by decide)).trans hratio), hitRatioAt,
        totalAt_of_not_exists h, plus_none_left, ratioOf_none_right]

end Pmm

/-! ## UPI -/

section Upi

variable {prev measurements : Measurements 2} {timeDelta : ℚ}

theorem upi_frame {r : Measurements 2} (h : deriveUpi prev timeDelta measurements = .ok r)
    {name : MetricName} (hname : name ≠ platformUpiBandwidthBytesPerSecond) :
    r.get? name = measurements.get? name := by
  rw [deriveUpi] at h
  split at h
  · obtain ⟨_, -, h⟩ := except_bind_ok_iff.mp h
    obtain ⟨_, -, h⟩ := except_bind_ok_iff.mp h
    obtain ⟨_, -, h⟩ := except_bind_ok_iff.mp h
    obtain ⟨_, -, h⟩ := except_bind_ok_iff.mp h
    cases h
    exact Dict.get?_set_of_ne hname
  · cases h
    rfl

theorem rateForUpi_of_ne {q : ℚ} (h : timeDelta ≠ 0) :
    rateForUpi timeDelta q = .ok (q / timeDelta / 9 * 64) := by
  rw [rateForUpi, truediv_ok h]
  rfl

theorem rateForUpi_zero {q : ℚ} : rateForUpi 0 q = .error .ZeroDivisionError := by
  rw [rateForUpi, truediv_zero]
  rfl

theorem rateForUpi_returns_iff {d : Leveled 2} :
    (∃ r, operationOnLeveledMetric (rateForUpi timeDelta) 1 d = .ok r) ↔
      (timeDelta = 0 → ∀ path, leaf? 2 d path = none) := by
  refine metric_returns_iff_of_divisor fun q => ⟨?_, fun hne => ⟨_, rateForUpi_of_ne hne⟩⟩
  rintro ⟨q', hq⟩ rfl
  rw [rateForUpi_zero] at hq
  cases hq

theorem rateForUpi_toOption {x : Option ℚ} :
    (x.bind fun q => (rateForUpi timeDelta q).toOption) =
      ratioOf (x.map (· / 9 * 64)) (some timeDelta) := by
  cases x with
  | none => rfl
  | some q =>
    by_cases hzero : timeDelta = 0
    · simp [hzero, rateForUpi_zero, ratioOf, Except.toOption]
    · simp only [Option.bind_some, rateForUpi_of_ne hzero, Except.toOption, Option.map_some,
        ratioOf, if_neg hzero]
      congr 1
      field_simp

/-- The block for UPI shows what it should just when the counters meet its condition. -/
theorem upi_iff (hnone : measurements.get? platformUpiBandwidthBytesPerSecond = none) :
    (∃ r, deriveUpi prev timeDelta measurements = .ok r ∧
        ∀ path, shown r platformUpiBandwidthBytesPerSecond path =
          upiAt (counter prev measurements platformUpiRxlFlits)
            (counter prev measurements platformUpiTxlFlits) timeDelta path) ↔
      UpiMeets (counter prev measurements platformUpiRxlFlits)
        (counter prev measurements platformUpiTxlFlits) timeDelta := by
  by_cases h : Available prev measurements [platformUpiRxlFlits, platformUpiTxlFlits]
  · obtain ⟨hrxl, htxl⟩ := available_pair_iff.mp h
    rw [deriveUpi, if_pos h]
    constructor
    · intro hshown _ _
      obtain ⟨r, hrun, -⟩ := hshown
      obtain ⟨rxl, hr, hrun⟩ := except_bind_ok_iff.mp hrun
      obtain ⟨txl, ht, hrun⟩ := except_bind_ok_iff.mp hrun
      obtain ⟨flits, hflits, hrun⟩ := except_bind_ok_iff.mp hrun
      obtain ⟨bandwidth, hbandwidth, -⟩ := except_bind_ok_iff.mp hrun
      refine ⟨(delta_returns_iff hrxl).mp ⟨rxl, hr⟩, (delta_returns_iff htxl).mp ⟨txl, ht⟩,
        (covered_deltas_iff hr ht hrxl htxl).mp
          ((operation_returns_iff divides_add).mp ⟨flits, hflits⟩), fun hzero path => ?_⟩
      rw [← leaf?_delta hr, ← leaf?_delta ht, ← leaf?_add hflits]
      exact rateForUpi_returns_iff.mp ⟨bandwidth, hbandwidth⟩ hzero path
    · intro hmeets
      obtain ⟨htracked, htracked', hwithin, htimed⟩ := hmeets hrxl htxl
      obtain ⟨rxl, txl, hr, ht⟩ := deltas_returns h htracked htracked'
      obtain ⟨flits, hflits⟩ := (operation_returns_iff divides_add).mpr
        ((covered_deltas_iff hr ht hrxl htxl).mpr hwithin)
      have hleaf : ∀ path, leaf? 2 flits path =
          plus ((counter prev measurements platformUpiRxlFlits).change path)
            ((counter prev measurements platformUpiTxlFlits).change path) := fun path => by
        rw [leaf?_add hflits, leaf?_delta hr, leaf?_delta ht]
      obtain ⟨bandwidth, hbandwidth⟩ := rateForUpi_returns_iff.mpr fun hzero path =>
        (hleaf path).trans (htimed hzero path)
      rw [hr, ht, except_ok_bind, except_ok_bind, hflits, except_ok_bind, hbandwidth,
        except_ok_bind]
      refine ⟨_, rfl, fun path => ?_⟩
      rw [shown_set_self, leaf?_metric hbandwidth, hleaf, upiAt, rateForUpi_toOption]
  · have hrun : deriveUpi prev timeDelta measurements = .ok measurements := by
      rw [deriveUpi, if_neg h]
      rfl
    rw [hrun]
    refine ⟨fun _ hrxl htxl => absurd (available_pair_iff.mpr ⟨hrxl, htxl⟩) h,
      fun _ => ⟨_, rfl, fun path => ?_⟩⟩
    rw [shown_of_none hnone, upiAt]
    obtain hrxl | htxl := over_change_none h path
    · rw [hrxl]
      rfl
    · rw [htxl, plus_none_right]
      rfl

end Upi

/-! ## The read queue -/

section Rpq

variable {prev measurements : Measurements 2}

theorem itemOf_ok_iff {name : MetricName} {socket channel : Key} {q : ℚ} :
    itemOf measurements name socket channel = .ok q ↔
      nowAt (counter prev measurements name) socket channel = some q := by
  simp only [itemOf, except_bind_ok_iff, item_ok_iff, nowAt, counter, Option.bind_eq_some_iff,
    leaf?, if_true, Option.some.injEq, exists_eq_right]

/-- What a counter has at the channels of a socket, all together. -/
theorem sumOver_cons {c : Counter 2} {socket channel : Key} {channels : List Key} {q : ℚ}
    (h : nowAt c socket channel = some q) :
    sumOver c socket (channel :: channels) = q + sumOver c socket channels := by
  simp [sumOver, h]

/-- A counter shows every channel now. -/
def ShownAt (c : Counter 2) (socket : Key) (channels : List Key) : Prop :=
  ∀ channel ∈ channels, ∃ q, nowAt c socket channel = some q

theorem shownAt_of_both {c : Counter 2} {socket : Key} {channels : List Key}
    (h : Both c socket channels) : ShownAt c socket channels := by
  intro channel hchannel
  obtain ⟨d, hd⟩ := Option.isSome_iff_exists.mp (h channel hchannel)
  obtain ⟨q, hq, -⟩ := Option.bind_eq_some_iff.mp hd
  exact ⟨q, hq⟩

/-- The loop over the channels adds up what all three counters show. -/
theorem addChannels_ok_iff {socket : Key} {channels : List Key} {sums r : QueueSums} :
    channels.foldlM (addChannel measurements socket) sums = .ok r ↔
      ShownAt (counter prev measurements platformRpqOccupancy) socket channels ∧
      ShownAt (counter prev measurements platformRpqInserts) socket channels ∧
      ShownAt (counter prev measurements platformImcClockticks) socket channels ∧
      r = ⟨sums.occupancy +
            sumOver (counter prev measurements platformRpqOccupancy) socket channels,
          sums.inserts + sumOver (counter prev measurements platformRpqInserts) socket channels,
          sums.clockticks +
            sumOver (counter prev measurements platformImcClockticks) socket channels⟩ := by
  induction channels generalizing sums with
  | nil =>
    simp only [List.foldlM_nil, ShownAt, sumOver, List.map_nil, List.sum_nil, add_zero]
    exact ⟨fun h => ⟨fun _ h' => (nomatch h'), fun _ h' => (nomatch h'), fun _ h' => (nomatch h'),
      by cases h; rfl⟩, fun h => by rw [h.2.2.2]; rfl⟩
  | cons channel channels ih =>
    rw [List.foldlM_cons, except_bind_ok_iff]
    constructor
    · intro hrun
      obtain ⟨sums', hstep, hrest⟩ := hrun
      obtain ⟨o, ho, hstep⟩ := except_bind_ok_iff.mp hstep
      obtain ⟨i, hi, hstep⟩ := except_bind_ok_iff.mp hstep
      obtain ⟨k, hk, hstep⟩ := except_bind_ok_iff.mp hstep
      cases hstep
      have ho := (@itemOf_ok_iff prev measurements _ _ _ _).mp ho
      have hi := (@itemOf_ok_iff prev measurements _ _ _ _).mp hi
      have hk := (@itemOf_ok_iff prev measurements _ _ _ _).mp hk
      obtain ⟨hos, his, hks, hr⟩ := ih.mp hrest
      refine ⟨List.forall_mem_cons.mpr ⟨⟨o, ho⟩, hos⟩, List.forall_mem_cons.mpr ⟨⟨i, hi⟩, his⟩,
        List.forall_mem_cons.mpr ⟨⟨k, hk⟩, hks⟩, ?_⟩
      rw [sumOver_cons ho, sumOver_cons hi, sumOver_cons hk, hr]
      simp only [add_assoc]
    · intro hshown
      obtain ⟨hos, his, hks, hr⟩ := hshown
      obtain ⟨⟨o, ho⟩, hos⟩ := List.forall_mem_cons.mp hos
      obtain ⟨⟨i, hi⟩, his⟩ := List.forall_mem_cons.mp his
      obtain ⟨⟨k, hk⟩, hks⟩ := List.forall_mem_cons.mp hks
      refine ⟨⟨sums.occupancy + o, sums.inserts + i, sums.clockticks + k⟩, ?_, ih.mpr
        ⟨hos, his, hks, ?_⟩⟩
      · rw [addChannel, itemOf_ok_iff.mpr ho, itemOf_ok_iff.mpr hi, itemOf_ok_iff.mpr hk]
        rfl
      · rw [hr, sumOver_cons ho, sumOver_cons hi, sumOver_cons hk]
        simp only [add_assoc]

/-- A socket has a latency where all channels are shown and neither sum is zero. -/
theorem rpqReadLatency_ok_iff {socket : Key} {channels : List Key} {q : ℚ} :
    rpqReadLatency measurements socket channels = .ok q ↔
      (ShownAt (counter prev measurements platformRpqOccupancy) socket channels ∧
        ShownAt (counter prev measurements platformRpqInserts) socket channels ∧
        ShownAt (counter prev measurements platformImcClockticks) socket channels) ∧
      sumOver (counter prev measurements platformRpqInserts) socket channels ≠ 0 ∧
      sumOver (counter prev measurements platformImcClockticks) socket channels ≠ 0 ∧
      q = sumOver (counter prev measurements platformRpqOccupancy) socket channels /
          sumOver (counter prev measurements platformRpqInserts) socket channels /
        (sumOver (counter prev measurements platformImcClockticks) socket channels /
          channels.length) := by
  constructor
  · intro hrun
    obtain ⟨sums, hsums, hrun⟩ := except_bind_ok_iff.mp hrun
    obtain ⟨perInsert, hinsert, hrun⟩ := except_bind_ok_iff.mp hrun
    obtain ⟨perChannel, hchannel, hrun⟩ := except_bind_ok_iff.mp hrun
    obtain ⟨ho, hi, hk, rfl⟩ := (@addChannels_ok_iff prev measurements _ _ _ _).mp hsums
    obtain ⟨hinserts, rfl⟩ := truediv_ok_iff.mp hinsert
    obtain ⟨-, rfl⟩ := truediv_ok_iff.mp hchannel
    obtain ⟨hratio, rfl⟩ := truediv_ok_iff.mp hrun
    simp only [zero_add] at hinserts hratio ⊢
    exact ⟨⟨ho, hi, hk⟩, hinserts, fun hzero => hratio (by rw [hzero, zero_div]), trivial⟩
  · intro hshown
    obtain ⟨⟨ho, hi, hk⟩, hinserts, hclockticks, rfl⟩ := hshown
    have hlength : (channels.length : ℚ) ≠ 0 := by
      cases channels with
      | nil => exact absurd rfl hinserts
      | cons channel channels => exact_mod_cast Nat.succ_ne_zero channels.length
    refine except_bind_ok_iff.mpr ⟨_, (@addChannels_ok_iff prev measurements _ _ _ _).mpr
      ⟨ho, hi, hk, rfl⟩, ?_⟩
    simp only [zero_add]
    rw [truediv_ok hinserts, except_ok_bind, truediv_ok hlength, except_ok_bind,
      truediv_ok (div_ne_zero hclockticks hlength)]

/-- The channels of a socket that is shown. -/
theorem channelsOf_eq {c : Counter 2} {sockets : Leveled 2} (hnow : c.now = some sockets)
    {socket : Key} {channels : Leveled 1} (h : Dict.get? sockets socket = some channels) :
    channelsOf c socket = Dict.keys channels := by
  rw [channelsOf, hnow, Option.bind_some, h]
  rfl

theorem ratioOf_some_some {a b : ℚ} (h : b ≠ 0) : ratioOf (some a) (some b) = some (a / b) := by
  simp [ratioOf, h]

/-- Without channels there is nothing to add up. -/
theorem rpqLatencyAt_nil {occupancy inserts clockticks : Counter 2} {socket : Key}
    (h : channelsOf occupancy socket = []) :
    rpqLatencyAt occupancy inserts clockticks socket = none := by
  rw [rpqLatencyAt, h]
  simp [Both, sumOver, ratioOf]

/-- The latency of a socket whose counters meet the condition. -/
theorem rpqLatencyAt_of_meets {occupancy inserts clockticks : Counter 2} {socket : Key}
    {channels : List Key} (hchannels : channelsOf occupancy socket = channels)
    (hboth : Both occupancy socket channels ∧ Both inserts socket channels ∧
      Both clockticks socket channels) (hinserts : sumOver inserts socket channels ≠ 0)
    (hclockticks : sumOver clockticks socket channels ≠ 0) :
    rpqLatencyAt occupancy inserts clockticks socket =
      some (sumOver occupancy socket channels / sumOver inserts socket channels /
        (sumOver clockticks socket channels / channels.length)) := by
  have hlength : (channels.length : ℚ) ≠ 0 := by
    cases channels with
    | nil => exact absurd rfl hinserts
    | cons channel channels => exact_mod_cast Nat.succ_ne_zero channels.length
  rw [rpqLatencyAt, hchannels, if_pos hboth, ratioOf_some_some hinserts,
    ratioOf_some_some (div_ne_zero hclockticks hlength)]

theorem both_of_rpqLatencyAt {occupancy inserts clockticks : Counter 2} {socket : Key} {q : ℚ}
    (h : rpqLatencyAt occupancy inserts clockticks socket = some q) :
    Both occupancy socket (channelsOf occupancy socket) ∧
      Both inserts socket (channelsOf occupancy socket) ∧
      Both clockticks socket (channelsOf occupancy socket) := by
  rw [rpqLatencyAt] at h
  split at h
  · assumption
  · cases h

theorem exists_of_both {c : Counter 2} {socket channel : Key} {channels : List Key}
    (h : Both c socket channels) (hchannel : channel ∈ channels) : c.Exists := by
  by_contra hnot
  have hsome := h channel hchannel
  rw [Counter.change_eq_none hnot] at hsome
  cases hsome

/-- There is no latency of counters that are not all there. -/
theorem rpqLatencyAt_of_not_exists {occupancy inserts clockticks : Counter 2}
    (h : ¬(inserts.Exists ∧ occupancy.Exists ∧ clockticks.Exists)) (socket : Key) :
    rpqLatencyAt occupancy inserts clockticks socket = none := by
  cases hchannels : channelsOf occupancy socket with
  | nil => exact rpqLatencyAt_nil hchannels
  | cons channel channels =>
    cases hlatency : rpqLatencyAt occupancy inserts clockticks socket with
    | none => rfl
    | some q =>
      obtain ⟨ho, hi, hk⟩ := both_of_rpqLatencyAt hlatency
      have hmem : channel ∈ channelsOf occupancy socket := by simp [hchannels]
      exact absurd ⟨exists_of_both hi hmem, exists_of_both ho hmem, exists_of_both hk hmem⟩ h

theorem leaf?_one {d : Leveled 1} {socket : Key} : leaf? 1 d [socket] = Dict.get? d socket := by
  simp [leaf?]

theorem rpq_frame {perSocket r : Measurements 1}
    (h : deriveRpq prev measurements perSocket = .ok r) {name : MetricName}
    (hname : name ≠ platformRpqReadLatencySeconds) : r.get? name = perSocket.get? name := by
  rw [deriveRpq] at h
  split at h
  · obtain ⟨_, -, h⟩ := except_bind_ok_iff.mp h
    obtain ⟨_, -, h⟩ := except_bind_ok_iff.mp h
    cases h
    exact Dict.get?_set_of_ne hname
  · cases h
    rfl

/-- The block for the read queue shows what it should just when the counters meet its condition. -/
theorem rpq_iff {perSocket : Measurements 1}
    (hnone : perSocket.get? platformRpqReadLatencySeconds = none) :
    (∃ r, deriveRpq prev measurements perSocket = .ok r ∧
        ∀ socket, shown r platformRpqReadLatencySeconds [socket] =
          rpqLatencyAt (counter prev measurements platformRpqOccupancy)
            (counter prev measurements platformRpqInserts)
            (counter prev measurements platformImcClockticks) socket) ↔
      RpqMeets (counter prev measurements platformRpqOccupancy)
        (counter prev measurements platformRpqInserts)
        (counter prev measurements platformImcClockticks) := by
  by_cases h : Available prev measurements
      [platformRpqInserts, platformRpqOccupancy, platformImcClockticks]
  · have hexists := available_iff.mp h
    simp only [List.forall_mem_cons, List.not_mem_nil, false_implies, implies_true, and_true]
      at hexists
    obtain ⟨hinserts, hoccupancy, hclockticks⟩ := hexists
    obtain ⟨sockets, hsockets⟩ := Option.isSome_iff_exists.mp hoccupancy.1
    have hitem : item measurements platformRpqOccupancy = .ok sockets := item_ok_iff.mpr hsockets
    rw [deriveRpq, if_pos h, hitem, except_ok_bind]
    constructor
    · intro hshown _ _ _ sockets' hsockets' socket channels hchannels
      rw [hsockets] at hsockets'
      cases hsockets'
      obtain ⟨r, hrun, hshown⟩ := hshown
      obtain ⟨latency, hlatency, hrun⟩ := except_bind_ok_iff.mp hrun
      cases hrun
      obtain ⟨q, hq⟩ :=
        Dict.comprehendM_returns_iff.mp ⟨latency, hlatency⟩ socket channels hchannels
      have hsome := hshown socket
      rw [shown_set_self, leaf?_one, Dict.get?_comprehendM hlatency, hchannels, Option.bind_some,
        hq] at hsome
      obtain ⟨ho, hi, hk⟩ := both_of_rpqLatencyAt hsome.symm
      rw [channelsOf_eq hsockets hchannels] at ho hi hk
      obtain ⟨-, hins, hclk, -⟩ := (@rpqReadLatency_ok_iff prev measurements _ _ _).mp hq
      exact ⟨ho, hi, hk, hins, hclk⟩
    · intro hmeets
      have hsocket := hmeets hinserts hoccupancy hclockticks sockets hsockets
      have hreturns : ∀ socket channels, Dict.get? sockets socket = some channels →
          rpqReadLatency measurements socket (Dict.keys channels) =
            .ok (sumOver (counter prev measurements platformRpqOccupancy) socket
                  (Dict.keys channels) /
                sumOver (counter prev measurements platformRpqInserts) socket
                  (Dict.keys channels) /
              (sumOver (counter prev measurements platformImcClockticks) socket
                  (Dict.keys channels) / (Dict.keys channels).length)) := by
        intro socket channels hchannels
        obtain ⟨ho, hi, hk, hins, hclk⟩ := hsocket socket channels hchannels
        exact (@rpqReadLatency_ok_iff prev measurements _ _ _).mpr
          ⟨⟨shownAt_of_both ho, shownAt_of_both hi, shownAt_of_both hk⟩, hins, hclk, rfl⟩
      obtain ⟨latency, hlatency⟩ := Dict.comprehendM_returns_iff.mpr
        fun socket channels hchannels => ⟨_, hreturns socket channels hchannels⟩
      have hlatency' : Dict.comprehendM sockets (fun socket (channels : Leveled 1) =>
          rpqReadLatency measurements socket (Dict.keys channels)) = .ok latency := hlatency
      rw [hlatency', except_ok_bind]
      refine ⟨_, rfl, fun socket => ?_⟩
      rw [shown_set_self, leaf?_one, Dict.get?_comprehendM hlatency']
      cases hchannels : Dict.get? sockets socket with
      | none =>
        refine (rpqLatencyAt_nil ?_).symm
        rw [channelsOf, hsockets, Option.bind_some, hchannels]
        rfl
      | some channels =>
        obtain ⟨ho, hi, hk, hins, hclk⟩ := hsocket socket channels hchannels
        rw [Option.bind_some, hreturns socket channels hchannels,
          rpqLatencyAt_of_meets (channelsOf_eq hsockets hchannels) ⟨ho, hi, hk⟩ hins hclk]
        rfl
  · have hrun : deriveRpq prev measurements perSocket = .ok perSocket := by
      rw [deriveRpq, if_neg h]
      rfl
    have hexists := mt available_iff.mpr h
    simp only [List.forall_mem_cons, List.not_mem_nil, false_implies, implies_true, and_true]
      at hexists
    rw [hrun]
    refine ⟨fun _ hi ho hk => absurd ⟨hi, ho, hk⟩ hexists, fun _ => ⟨_, rfl, fun socket => ?_⟩⟩
    rw [shown_of_none hnone, rpqLatencyAt_of_not_exists hexists]

end Rpq

/-! ## The generator -/

/-- The derived metrics that have a level for PMUs. -/
def derivedNames : List MetricName :=
  [platformDramReadsBytesPerSecond, platformDramWritesBytesPerSecond,
    platformDramTotalBytesPerSecond, platformPmmReadsBytesPerSecond,
    platformPmmWritesBytesPerSecond, platformPmmTotalBytesPerSecond, platformDramHitRatio,
    platformUpiBandwidthBytesPerSecond]

/-- What the PMUs give: no metric that is derived. -/
structure PlatformMeasurements.Raw (measurements : PlatformMeasurements) : Prop where
  perPmu : Derived.Raw derivedNames measurements.perPmu
  latency : measurements.perSocket.get? platformRpqReadLatencySeconds = none

/-- The metrics that are not derived are the same. -/
structure PlatformMeasurements.Agrees (measurements measurements' : PlatformMeasurements) :
    Prop where
  perPmu : Derived.Agrees derivedNames measurements.perPmu measurements'.perPmu
  perSocket :
    Derived.Agrees [platformRpqReadLatencySeconds] measurements.perSocket measurements'.perSocket

/-- The result has the counters as they were, and each derived metric where its counters have it in
both snapshots and what is below is not zero. -/
structure Shows (prev : PlatformMeasurements) (timeDelta : ℚ)
    (measurements r : PlatformMeasurements) : Prop where
  agrees : measurements.Agrees r
  dram : BandwidthShown (counter prev.perPmu measurements.perPmu platformCasCountReads)
    (counter prev.perPmu measurements.perPmu platformCasCountWrites) timeDelta
    platformDramReadsBytesPerSecond platformDramWritesBytesPerSecond
    platformDramTotalBytesPerSecond r.perPmu
  pmm : PmmShown (counter prev.perPmu measurements.perPmu platformCasCountReads)
    (counter prev.perPmu measurements.perPmu platformCasCountWrites)
    (counter prev.perPmu measurements.perPmu platformPmmBandwidthReads)
    (counter prev.perPmu measurements.perPmu platformPmmBandwidthWrites) timeDelta r.perPmu
  upi : ∀ path, shown r.perPmu platformUpiBandwidthBytesPerSecond path =
    upiAt (counter prev.perPmu measurements.perPmu platformUpiRxlFlits)
      (counter prev.perPmu measurements.perPmu platformUpiTxlFlits) timeDelta path
  latency : ∀ socket, shown r.perSocket platformRpqReadLatencySeconds [socket] =
    rpqLatencyAt (counter prev.perPmu measurements.perPmu platformRpqOccupancy)
      (counter prev.perPmu measurements.perPmu platformRpqInserts)
      (counter prev.perPmu measurements.perPmu platformImcClockticks) socket

/-- Two snapshots that the generator does its work on. -/
structure Meets (prev : PlatformMeasurements) (timeDelta : ℚ)
    (measurements : PlatformMeasurements) : Prop where
  dram : DramMeets (counter prev.perPmu measurements.perPmu platformCasCountReads)
    (counter prev.perPmu measurements.perPmu platformCasCountWrites) timeDelta
  pmm : PmmMeets (counter prev.perPmu measurements.perPmu platformCasCountReads)
    (counter prev.perPmu measurements.perPmu platformCasCountWrites)
    (counter prev.perPmu measurements.perPmu platformPmmBandwidthReads)
    (counter prev.perPmu measurements.perPmu platformPmmBandwidthWrites) timeDelta
  upi : UpiMeets (counter prev.perPmu measurements.perPmu platformUpiRxlFlits)
    (counter prev.perPmu measurements.perPmu platformUpiTxlFlits) timeDelta
  latency : RpqMeets (counter prev.perPmu measurements.perPmu platformRpqOccupancy)
    (counter prev.perPmu measurements.perPmu platformRpqInserts)
    (counter prev.perPmu measurements.perPmu platformImcClockticks)

section Generator

theorem agrees_dram {prev measurements : Measurements 2} {timeDelta : ℚ}
    {r : Measurements 2 × Option (Leveled 2)}
    (h : deriveDram prev timeDelta measurements = .ok r) :
    Derived.Agrees derivedNames measurements r.1 :=
  fun _ hname => dram_frame h fun hmem => hname (by
    revert hmem
    simp only [derivedNames, List.mem_cons, List.not_mem_nil, or_false]
    tauto)

theorem agrees_pmm {prev measurements r : Measurements 2} {timeDelta : ℚ}
    {total : Option (Leveled 2)} (h : derivePmm prev timeDelta total measurements = .ok r) :
    Derived.Agrees derivedNames measurements r :=
  fun _ hname => pmm_frame h (fun hmem => hname (by
    revert hmem
    simp only [derivedNames, List.mem_cons, List.not_mem_nil, or_false]
    tauto)) fun heq => hname (heq ▸ by decide)

theorem agrees_upi {prev measurements r : Measurements 2} {timeDelta : ℚ}
    (h : deriveUpi prev timeDelta measurements = .ok r) :
    Derived.Agrees derivedNames measurements r :=
  fun _ hname => upi_frame h fun heq => hname (heq ▸ by decide)

theorem agrees_rpq {prev measurements : Measurements 2} {perSocket r : Measurements 1}
    (h : deriveRpq prev measurements perSocket = .ok r) :
    Derived.Agrees [platformRpqReadLatencySeconds] perSocket r :=
  fun _ hname => rpq_frame h fun heq => hname (heq ▸ List.mem_cons_self)

variable {prev prev' measurements : PlatformMeasurements} {timeDelta : ℚ}

/-- The blocks in turn. -/
theorem derive_ok_iff {r : PlatformMeasurements} : derive prev timeDelta measurements = .ok r ↔
    ∃ dram pmm, deriveDram prev.perPmu timeDelta measurements.perPmu = .ok dram ∧
      derivePmm prev.perPmu timeDelta dram.2 dram.1 = .ok pmm ∧
      deriveUpi prev.perPmu timeDelta pmm = .ok r.perPmu ∧
      deriveRpq prev.perPmu r.perPmu measurements.perSocket = .ok r.perSocket := by
  constructor
  · intro hrun
    obtain ⟨dram, hdram, hrun⟩ := except_bind_ok_iff.mp hrun
    obtain ⟨pmm, hpmm, hrun⟩ := except_bind_ok_iff.mp hrun
    obtain ⟨upi, hupi, hrun⟩ := except_bind_ok_iff.mp hrun
    obtain ⟨rpq, hrpq, hrun⟩ := except_bind_ok_iff.mp hrun
    cases hrun
    exact ⟨dram, pmm, hdram, hpmm, hupi, hrpq⟩
  · intro hblocks
    obtain ⟨dram, pmm, hdram, hpmm, hupi, hrpq⟩ := hblocks
    refine except_bind_ok_iff.mpr ⟨dram, hdram, except_bind_ok_iff.mpr ⟨pmm, hpmm, ?_⟩⟩
    exact except_bind_ok_iff.mpr ⟨r.perPmu, hupi, except_bind_ok_iff.mpr ⟨r.perSocket, hrpq, rfl⟩⟩

/-- The later blocks leave the bandwidths of DRAM. -/
theorem bandwidthShown_congr {c c' : Counter 2} {m m' : Measurements 2}
    {readsBps writesBps totalBps : MetricName} (hread : m.get? readsBps = m'.get? readsBps)
    (hwrite : m.get? writesBps = m'.get? writesBps) (htotal : m.get? totalBps = m'.get? totalBps) :
    BandwidthShown c c' timeDelta readsBps writesBps totalBps m ↔
      BandwidthShown c c' timeDelta readsBps writesBps totalBps m' := by
  simp only [BandwidthShown, shown, hread, hwrite, htotal]

/-- After the blocks for DRAM and PMM, with the counters as they were. -/
theorem upi_iff_of_agrees {m : Measurements 2}
    (h : Derived.Agrees derivedNames measurements.perPmu m)
    (hnone : m.get? platformUpiBandwidthBytesPerSecond = none) :
    (∃ r, deriveUpi prev.perPmu timeDelta m = .ok r ∧
        ∀ path, shown r platformUpiBandwidthBytesPerSecond path =
          upiAt (counter prev.perPmu measurements.perPmu platformUpiRxlFlits)
            (counter prev.perPmu measurements.perPmu platformUpiTxlFlits) timeDelta path) ↔
      UpiMeets (counter prev.perPmu measurements.perPmu platformUpiRxlFlits)
        (counter prev.perPmu measurements.perPmu platformUpiTxlFlits) timeDelta := by
  have hiff := @upi_iff prev.perPmu m timeDelta hnone
  rwa [h.counter (by decide), h.counter (by decide)] at hiff

theorem rpq_iff_of_agrees {m : Measurements 2}
    (h : Derived.Agrees derivedNames measurements.perPmu m)
    (hnone : measurements.perSocket.get? platformRpqReadLatencySeconds = none) :
    (∃ r, deriveRpq prev.perPmu m measurements.perSocket = .ok r ∧
        ∀ socket, shown r platformRpqReadLatencySeconds [socket] =
          rpqLatencyAt (counter prev.perPmu measurements.perPmu platformRpqOccupancy)
            (counter prev.perPmu measurements.perPmu platformRpqInserts)
            (counter prev.perPmu measurements.perPmu platformImcClockticks) socket) ↔
      RpqMeets (counter prev.perPmu measurements.perPmu platformRpqOccupancy)
        (counter prev.perPmu measurements.perPmu platformRpqInserts)
        (counter prev.perPmu measurements.perPmu platformImcClockticks) := by
  have hiff := @rpq_iff prev.perPmu m measurements.perSocket hnone
  rwa [h.counter (by decide), h.counter (by decide), h.counter (by decide)] at hiff

/-- What the block for PMM shows is there after the block for UPI. -/
theorem pmm_shown_after {pmm upi : Measurements 2}
    (hupi : deriveUpi prev.perPmu timeDelta pmm = .ok upi)
    {dramReads dramWrites reads writes : Counter 2} :
    PmmShown dramReads dramWrites reads writes timeDelta upi ↔
      PmmShown dramReads dramWrites reads writes timeDelta pmm := by
  refine and_congr (bandwidthShown_congr ?_ ?_ ?_) (forall_congr' fun path => ?_)
  · exact upi_frame hupi (by decide)
  · exact upi_frame hupi (by decide)
  · exact upi_frame hupi (by decide)
  · rw [shown_congr (upi_frame hupi (by decide))]

/-- What the block for DRAM shows is there after the blocks for PMM and UPI. -/
theorem dram_shown_after {dram : Measurements 2 × Option (Leveled 2)} {pmm upi : Measurements 2}
    (hpmm : derivePmm prev.perPmu timeDelta dram.2 dram.1 = .ok pmm)
    (hupi : deriveUpi prev.perPmu timeDelta pmm = .ok upi) {reads writes : Counter 2} :
    BandwidthShown reads writes timeDelta platformDramReadsBytesPerSecond
        platformDramWritesBytesPerSecond platformDramTotalBytesPerSecond upi ↔
      BandwidthShown reads writes timeDelta platformDramReadsBytesPerSecond
        platformDramWritesBytesPerSecond platformDramTotalBytesPerSecond dram.1 := by
  apply bandwidthShown_congr
  · rw [upi_frame hupi (by decide), pmm_frame hpmm (by decide) (by decide)]
  · rw [upi_frame hupi (by decide), pmm_frame hpmm (by decide) (by decide)]
  · rw [upi_frame hupi (by decide), pmm_frame hpmm (by decide) (by decide)]

/-- The generator shows what it should just when the snapshots meet its condition. -/
theorem derive_iff (hraw : measurements.Raw) :
    (∃ r, derive prev timeDelta measurements = .ok r ∧ Shows prev timeDelta measurements r) ↔
      Meets prev timeDelta measurements := by
  have hnone : ∀ name ∈ derivedNames, measurements.perPmu.get? name = none := hraw.perPmu
  have hdramIff := @dram_iff prev.perPmu measurements.perPmu timeDelta (hnone _ (by decide))
    (hnone _ (by decide)) (hnone _ (by decide))
  have hpmmIff := fun (dram : Measurements 2 × Option (Leveled 2))
      (hdram : deriveDram prev.perPmu timeDelta measurements.perPmu = .ok dram) =>
    pmm_iff hdram (hnone _ (by decide)) (hnone _ (by decide)) (hnone _ (by decide))
      (hnone _ (by decide))
  have hupiNone : ∀ (dram : Measurements 2 × Option (Leveled 2)) (pmm : Measurements 2),
      deriveDram prev.perPmu timeDelta measurements.perPmu = .ok dram →
        derivePmm prev.perPmu timeDelta dram.2 dram.1 = .ok pmm →
          pmm.get? platformUpiBandwidthBytesPerSecond = none := by
    intro dram pmm hdram hpmm
    rw [pmm_frame hpmm (by decide) (by decide), dram_frame hdram (by decide), hnone _ (by decide)]
  constructor
  · intro h
    obtain ⟨r, hrun, hshows⟩ := h
    obtain ⟨dram, pmm, hdram, hpmm, hupi, hrpq⟩ := derive_ok_iff.mp hrun
    have hafter := (agrees_dram hdram).trans (agrees_pmm hpmm)
    exact ⟨hdramIff.mp ⟨dram, hdram, (dram_shown_after hpmm hupi).mp hshows.dram⟩,
      (hpmmIff dram hdram).mp ⟨pmm, hpmm, (pmm_shown_after hupi).mp hshows.pmm⟩,
      (upi_iff_of_agrees hafter (hupiNone dram pmm hdram hpmm)).mp ⟨r.perPmu, hupi, hshows.upi⟩,
      (rpq_iff_of_agrees (hafter.trans (agrees_upi hupi)) hraw.latency).mp
        ⟨r.perSocket, hrpq, hshows.latency⟩⟩
  · intro h
    obtain ⟨dram, hdram, hdramShown⟩ := hdramIff.mpr h.dram
    obtain ⟨pmm, hpmm, hpmmShown⟩ := (hpmmIff dram hdram).mpr h.pmm
    have hafter := (agrees_dram hdram).trans (agrees_pmm hpmm)
    obtain ⟨upi, hupi, hupiShown⟩ :=
      (upi_iff_of_agrees hafter (hupiNone dram pmm hdram hpmm)).mpr h.upi
    have hagrees := hafter.trans (agrees_upi hupi)
    obtain ⟨rpq, hrpq, hlatency⟩ := (rpq_iff_of_agrees hagrees hraw.latency).mpr h.latency
    exact ⟨⟨upi, rpq⟩, derive_ok_iff.mpr ⟨dram, pmm, hdram, hpmm, hupi, hrpq⟩,
      ⟨hagrees, agrees_rpq hrpq⟩, (dram_shown_after hpmm hupi).mpr hdramShown,
      (pmm_shown_after hupi).mpr hpmmShown, hupiShown, hlatency⟩

theorem Shows.of_agrees {r : PlatformMeasurements} (h : prev.Agrees prev')
    (hshows : Shows prev timeDelta measurements r) : Shows prev' timeDelta measurements r := by
  have hcounter : ∀ name ∉ derivedNames, counter prev'.perPmu measurements.perPmu name =
      counter prev.perPmu measurements.perPmu name :=
    fun name hname => h.perPmu.counter_before hname
  constructor
  · exact hshows.agrees
  · rw [hcounter _ (by decide), hcounter _ (by decide)]
    exact hshows.dram
  · rw [hcounter _ (by decide), hcounter _ (by decide), hcounter _ (by decide),
      hcounter _ (by decide)]
    exact hshows.pmm
  · rw [hcounter _ (by decide), hcounter _ (by decide)]
    exact hshows.upi
  · rw [hcounter _ (by decide), hcounter _ (by decide), hcounter _ (by decide)]
    exact hshows.latency

theorem Meets.of_agrees (h : prev.Agrees prev') (hmeets : Meets prev timeDelta measurements) :
    Meets prev' timeDelta measurements := by
  have hcounter : ∀ name ∉ derivedNames, counter prev'.perPmu measurements.perPmu name =
      counter prev.perPmu measurements.perPmu name :=
    fun name hname => h.perPmu.counter_before hname
  constructor
  · rw [hcounter _ (by decide), hcounter _ (by decide)]
    exact hmeets.dram
  · rw [hcounter _ (by decide), hcounter _ (by decide), hcounter _ (by decide),
      hcounter _ (by decide)]
    exact hmeets.pmm
  · rw [hcounter _ (by decide), hcounter _ (by decide)]
    exact hmeets.upi
  · rw [hcounter _ (by decide), hcounter _ (by decide), hcounter _ (by decide)]
    exact hmeets.latency

theorem PlatformMeasurements.Agrees.symm (h : prev.Agrees prev') : prev'.Agrees prev :=
  ⟨h.perPmu.symm, h.perSocket.symm⟩

theorem derives : Derives derive PlatformMeasurements.Raw PlatformMeasurements.Agrees Shows Meets
    where
  iff := fun _ _ _ _ hraw => derive_iff hraw
  agrees := fun _ _ _ _ hshows => hshows.agrees
  refl := fun _ => ⟨.refl _, .refl _⟩
  shows_congr := fun _ _ _ _ _ h => ⟨Shows.of_agrees h, Shows.of_agrees h.symm⟩
  meets_congr := fun _ _ _ _ h => ⟨Meets.of_agrees h, Meets.of_agrees h.symm⟩

end Generator

end Uncore

end Wca.Derived
