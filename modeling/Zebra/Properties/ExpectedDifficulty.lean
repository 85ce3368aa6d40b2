import Zebra.Ledger.Difficulty
import Zebra.Properties.Sample

namespace Zebra.Properties

open Lib Ledger DifficultySpec
open NetworkUpgrade (powAveragingWindow)

/-- The limit of a test network is a compact value, as the builder makes it. -/
def LimitIsCompact (net : Network) : Prop :=
  net.variant ≠ .mainnet → ∃ compact, CompactDifficulty.toExpanded compact = some net.testnetTargetDifficultyLimit

theorem LimitIsCompact.bounds {net : Network} (h : LimitIsCompact net) : 0 < powLimit net ∧ powLimit net < 2 ^ 256 := by
  rw [powLimit]
  cases hvariant : net.variant with
  | mainnet =>
    dsimp only
    decide
  | defaultTestnet | regtest | configuredTestnet =>
    obtain ⟨compact, hcompact⟩ := h (by rw [hvariant]; decide)
    exact toExpanded_bounds hcompact

/-- The code has no trouble with these headers: the sum of the targets and the scaled target fit
into 256 bits, the scaled target is not zero, and at height 17, where the code averages the 17
targets and the specification takes the limit, both have the same compact form. -/
structure Adjustable (net : Network) (headers : Headers) : Prop where
  sum_fits : SumFits headers
  fits : product net headers < 2 ^ 256
  pos : 0 < product net headers
  window : headers.length = powAveragingWindow →
    toCompact (min (powLimit net) (scaled net headers ((windowTargets headers).sum / powAveragingWindow))) =
      toCompact (min (powLimit net) (scaled net headers (powLimit net)))

/-- The thresholds of the code and of the specification agree unless the code aborts or the
candidate has height 17. -/
theorem Adjustable.toCompact_eq {net : Network} {headers : Headers} (h : Adjustable net headers) (hne : headers ≠ []) :
    toCompact (min (powLimit net) (product net headers)) =
      toCompact (threshold net headers headers.length) := by
  rw [threshold_eq hne, product]
  by_cases hheight : headers.length = powAveragingWindow
  · rw [if_pos hheight.le, averagedTarget, if_neg (by omega)]
    exact h.window hheight
  · rw [averagedTarget_eq hheight]

def steadyHeaders (n : Nat) : Headers := (List.range n).map fun i => (0x1f07ffff, 75 * i)

theorem network_limit : LimitIsCompact Sample.network := fun _ => ⟨0x2007ffff, by decide +kernel⟩

theorem steadyHeaders_valid (n : Nat) :
    ∀ b ∈ (steadyHeaders n).reverse.take powAdjustmentBlockSpan, CompactDifficulty.toExpanded b.1 ≠ none := by
  intro b hb
  obtain ⟨i, -, rfl⟩ := List.mem_map.1 (List.mem_reverse.1 (List.mem_of_mem_take hb))
  have hvalid : CompactDifficulty.toExpanded 0x1f07ffff ≠ none := by decide +kernel
  exact hvalid

end Zebra.Properties
