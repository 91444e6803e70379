import DefiBackend.Theory.Modular
import Mathlib.Data.Int.ModEq

/-! # Position mathematics of Uniswap V3

The functions of `apps/integration/src/common/utils/uniswapV3PositionMath.ts` that value the
uncollected fees of a position. `BN` is the unbounded signed integer of bn.js, whose `div`
truncates towards zero. The decimal strings that the functions take and return are given by the
numbers they denote.

A `feeGrowth` accumulator is defined modulo `2 ^ 256` and is stored as its residue. -/

namespace DefiBackend
namespace UniswapV3

abbrev BN := ℤ

def Q128 : BN := 2 ^ 128
def Q256 : BN := 2 ^ 256

structure UniswapV3Tick where
  tick : ℤ
  feeGrowthOutside0X128 : BN
  feeGrowthOutside1X128 : BN
  deriving DecidableEq, Repr

/-- `subIn256(num0, ...numbers)`: the first number less all the others, adding `2 ^ 256` back
whenever a difference is negative. -/
def subIn256 (num0 : BN) : List BN → BN
  | [] => num0
  | num1 :: numbers =>
    let difference := num0 - num1
    let total := if difference < 0 then Q256 + difference else difference
    subIn256 total numbers

structure FeeGrowthInside where
  feeGrowthInside0X128 : BN
  feeGrowthInside1X128 : BN
  deriving DecidableEq, Repr

/-- The growth below the lower tick, of one token. -/
def feeGrowthBelow (tickCurrent tick : ℤ) (feeGrowthGlobal feeGrowthOutside : BN) : BN :=
  if tickCurrent ≥ tick then feeGrowthOutside else subIn256 feeGrowthGlobal [feeGrowthOutside]

/-- The growth above the upper tick, of one token. -/
def feeGrowthAbove (tickCurrent tick : ℤ) (feeGrowthGlobal feeGrowthOutside : BN) : BN :=
  if tickCurrent < tick then feeGrowthOutside else subIn256 feeGrowthGlobal [feeGrowthOutside]

def getTicksFeeGrowthInside (tickCurrent : ℤ) (tickLower tickUpper : UniswapV3Tick)
    (feeGrowthGlobal0X128 feeGrowthGlobal1X128 : BN) : FeeGrowthInside :=
  let feeGrowthBelow0X128 :=
    feeGrowthBelow tickCurrent tickLower.tick feeGrowthGlobal0X128 tickLower.feeGrowthOutside0X128
  let feeGrowthBelow1X128 :=
    feeGrowthBelow tickCurrent tickLower.tick feeGrowthGlobal1X128 tickLower.feeGrowthOutside1X128
  let feeGrowthAbove0X128 :=
    feeGrowthAbove tickCurrent tickUpper.tick feeGrowthGlobal0X128 tickUpper.feeGrowthOutside0X128
  let feeGrowthAbove1X128 :=
    feeGrowthAbove tickCurrent tickUpper.tick feeGrowthGlobal1X128 tickUpper.feeGrowthOutside1X128
  { feeGrowthInside0X128 := subIn256 feeGrowthGlobal0X128 [feeGrowthBelow0X128, feeGrowthAbove0X128]
    feeGrowthInside1X128 :=
      subIn256 feeGrowthGlobal1X128 [feeGrowthBelow1X128, feeGrowthAbove1X128] }

def mulDiv (a b denominator : BN) : BN :=
  let product := a * b
  product.tdiv denominator

/-- The argument record of `calculateTokensOwed`. -/
structure TokensOwedArgs where
  tickCurrent : ℤ
  tickLower : UniswapV3Tick
  tickUpper : UniswapV3Tick
  feeGrowthInside0LastX128 : BN
  feeGrowthInside1LastX128 : BN
  feeGrowthGlobal0X128 : BN
  feeGrowthGlobal1X128 : BN
  liquidity : BN
  deriving DecidableEq, Repr

structure TokenAmounts where
  amount0 : BN
  amount1 : BN
  deriving DecidableEq, Repr

/-- The growth inside the position's range. -/
def TokensOwedArgs.feeGrowthInside (args : TokensOwedArgs) : FeeGrowthInside :=
  getTicksFeeGrowthInside args.tickCurrent args.tickLower args.tickUpper
    args.feeGrowthGlobal0X128 args.feeGrowthGlobal1X128

def calculateTokensOwed (args : TokensOwedArgs) : TokenAmounts :=
  let { feeGrowthInside0X128, feeGrowthInside1X128 } := args.feeGrowthInside
  let amount0 := mulDiv (feeGrowthInside0X128 - args.feeGrowthInside0LastX128) args.liquidity Q128
  let amount1 := mulDiv (feeGrowthInside1X128 - args.feeGrowthInside1LastX128) args.liquidity Q128
  { amount0 := amount0.natAbs
    amount1 := amount1.natAbs }

/-! ## The growth inside a range, modulo `2 ^ 256` -/

open Theory

/-- `subIn256` is iterated wrapping subtraction. -/
theorem subIn256_eq_foldl (num0 : BN) (numbers : List BN) :
    subIn256 num0 numbers = numbers.foldl (wrapSub Q256) num0 := by
  induction numbers generalizing num0 with
  | nil => rfl
  | cons num1 numbers ih => exact ih _

theorem subIn256_eq_emod {numbers : List BN} (h0 : InRange Q256 num0)
    (h : ∀ n ∈ numbers, InRange Q256 n) :
    subIn256 num0 numbers = (num0 - numbers.sum) % Q256 := by
  rw [subIn256_eq_foldl, foldl_wrapSub_eq_emod h0 h]

theorem subIn256_inRange {numbers : List BN} (h0 : InRange Q256 num0)
    (h : ∀ n ∈ numbers, InRange Q256 n) : InRange Q256 (subIn256 num0 numbers) := by
  rw [subIn256_eq_emod h0 h]
  exact .emod (by decide)

/-- What the accumulator of a range stands for: the global growth less the growth on either side
of the range, each side being the outside value of its tick or what the tick leaves of the global
growth, according to where the current tick is. -/
def growthInside (tickCurrent lower upper : ℤ) (growthGlobal outsideLower outsideUpper : BN) : BN :=
  (growthGlobal - (if lower ≤ tickCurrent then outsideLower else growthGlobal - outsideLower) -
    (if tickCurrent < upper then outsideUpper else growthGlobal - outsideUpper)) % Q256

theorem growthInside_inRange : InRange Q256 (growthInside c l u g o o') := .emod (by decide)

private theorem feeGrowthBelow_inRange (hg : InRange Q256 g) (ho : InRange Q256 o) :
    InRange Q256 (feeGrowthBelow c t g o) := by
  unfold feeGrowthBelow
  split
  · exact ho
  · exact subIn256_inRange hg (by simpa using ho)

private theorem feeGrowthAbove_inRange (hg : InRange Q256 g) (ho : InRange Q256 o) :
    InRange Q256 (feeGrowthAbove c t g o) := by
  unfold feeGrowthAbove
  split
  · exact ho
  · exact subIn256_inRange hg (by simpa using ho)

private theorem feeGrowthBelow_emod (hg : InRange Q256 g) (ho : InRange Q256 o) :
    feeGrowthBelow c t g o % Q256 = (if t ≤ c then o else g - o) % Q256 := by
  unfold feeGrowthBelow
  split
  · rfl
  · rw [subIn256_eq_emod hg (by simpa using ho)]; simp

private theorem feeGrowthAbove_emod (hg : InRange Q256 g) (ho : InRange Q256 o) :
    feeGrowthAbove c t g o % Q256 = (if c < t then o else g - o) % Q256 := by
  unfold feeGrowthAbove
  split
  · rfl
  · rw [subIn256_eq_emod hg (by simpa using ho)]; simp

/-- One token of `getTicksFeeGrowthInside` computes the growth inside the range. -/
theorem subIn256_below_above (hg : InRange Q256 g) (hl : InRange Q256 o) (hu : InRange Q256 o') :
    subIn256 g [feeGrowthBelow c l g o, feeGrowthAbove c u g o'] = growthInside c l u g o o' := by
  have hb := feeGrowthBelow_inRange (c := c) (t := l) hg hl
  have ha := feeGrowthAbove_inRange (c := c) (t := u) hg hu
  rw [subIn256_eq_emod hg (by simpa using ⟨hb, ha⟩), growthInside]
  simp only [List.sum_cons, List.sum_nil, add_zero, ← sub_sub]
  exact ((Int.ModEq.refl g).sub (feeGrowthBelow_emod hg hl)).sub (feeGrowthAbove_emod hg hu)

/-! ## Adjacent ranges -/

/-- The growth above a tick and the growth below it are the global growth. -/
theorem growth_above_below (c t : ℤ) (growthGlobal outside : BN) :
    (if c < t then outside else growthGlobal - outside) +
      (if t ≤ c then outside else growthGlobal - outside) = growthGlobal := by
  by_cases h : t ≤ c
  · rw [if_pos h, if_neg (not_lt.mpr h)]
    ring
  · rw [if_neg h, if_pos (not_le.mp h)]
    ring

/-- The growth inside two adjacent ranges is the growth inside both. -/
theorem growthInside_modEq_add (c l m u : ℤ) (growthGlobal outsideLower outsideMiddle outsideUpper : BN) :
    growthInside c l u growthGlobal outsideLower outsideUpper ≡
      growthInside c l m growthGlobal outsideLower outsideMiddle +
        growthInside c m u growthGlobal outsideMiddle outsideUpper [ZMOD Q256] := by
  refine ((Int.mod_modEq _ _).trans ?_).trans
    ((Int.mod_modEq _ _).add (Int.mod_modEq _ _)).symm
  have hmiddle := growth_above_below c m growthGlobal outsideMiddle
  refine congrArg (· % Q256) ?_
  linarith

/-- The outside values of a tick are residues. -/
def UniswapV3Tick.InRange (tick : UniswapV3Tick) : Prop :=
  Theory.InRange Q256 tick.feeGrowthOutside0X128 ∧ Theory.InRange Q256 tick.feeGrowthOutside1X128

theorem getTicksFeeGrowthInside_eq {lower upper : UniswapV3Tick} (hl : lower.InRange)
    (hu : upper.InRange) (h0 : InRange Q256 g0) (h1 : InRange Q256 g1) :
    getTicksFeeGrowthInside c lower upper g0 g1 =
      ⟨growthInside c lower.tick upper.tick g0 lower.feeGrowthOutside0X128 upper.feeGrowthOutside0X128,
        growthInside c lower.tick upper.tick g1 lower.feeGrowthOutside1X128
          upper.feeGrowthOutside1X128⟩ := by
  rw [getTicksFeeGrowthInside, subIn256_below_above h0 hl.1 hu.1, subIn256_below_above h1 hl.2 hu.2]

/-- The growth inside a range is a residue, and that of adjacent ranges adds up; `subIn256`
subtracts modulo `2 ^ 256`. -/
theorem feeGrowth_telescopes (tickCurrent : ℤ) (lower middle upper : UniswapV3Tick)
    (feeGrowthGlobal0X128 feeGrowthGlobal1X128 : BN)
    (hlower : lower.InRange) (hmiddle : middle.InRange) (hupper : upper.InRange)
    (h0 : InRange Q256 feeGrowthGlobal0X128) (h1 : InRange Q256 feeGrowthGlobal1X128) :
    let inside (lower upper : UniswapV3Tick) :=
      getTicksFeeGrowthInside tickCurrent lower upper feeGrowthGlobal0X128 feeGrowthGlobal1X128
    (InRange Q256 (inside lower upper).feeGrowthInside0X128 ∧
        (inside lower upper).feeGrowthInside0X128 ≡
          (inside lower middle).feeGrowthInside0X128 + (inside middle upper).feeGrowthInside0X128
            [ZMOD Q256]) ∧
      (InRange Q256 (inside lower upper).feeGrowthInside1X128 ∧
        (inside lower upper).feeGrowthInside1X128 ≡
          (inside lower middle).feeGrowthInside1X128 + (inside middle upper).feeGrowthInside1X128
            [ZMOD Q256]) ∧
      ∀ num0 numbers, InRange Q256 num0 → (∀ n ∈ numbers, InRange Q256 n) →
        subIn256 num0 numbers = (num0 - numbers.sum) % Q256 := by
  intro inside
  have hinside : ∀ l u : UniswapV3Tick, l.InRange → u.InRange → inside l u =
      ⟨growthInside tickCurrent l.tick u.tick feeGrowthGlobal0X128 l.feeGrowthOutside0X128
          u.feeGrowthOutside0X128,
        growthInside tickCurrent l.tick u.tick feeGrowthGlobal1X128 l.feeGrowthOutside1X128
          u.feeGrowthOutside1X128⟩ :=
    fun l u hl hu => getTicksFeeGrowthInside_eq hl hu h0 h1
  rw [hinside lower upper hlower hupper, hinside lower middle hlower hmiddle,
    hinside middle upper hmiddle hupper]
  exact ⟨⟨growthInside_inRange, growthInside_modEq_add ..⟩,
    ⟨growthInside_inRange, growthInside_modEq_add ..⟩, fun _ _ => subIn256_eq_emod⟩

/-- Ticks of which the middle one has been crossed since its growth wrapped. -/
theorem feeGrowth_telescopes_wrapped :
    let inside (lower upper : UniswapV3Tick) := getTicksFeeGrowthInside 10 lower upper 5 7
    InRange Q256 (inside ⟨-60, 0, 0⟩ ⟨60, 1, 1⟩).feeGrowthInside0X128 ∧
      (inside ⟨-60, 0, 0⟩ ⟨60, 1, 1⟩).feeGrowthInside0X128 ≡
        (inside ⟨-60, 0, 0⟩ ⟨0, 2 ^ 256 - 1, 9⟩).feeGrowthInside0X128 +
          (inside ⟨0, 2 ^ 256 - 1, 9⟩ ⟨60, 1, 1⟩).feeGrowthInside0X128 [ZMOD Q256] :=
  (feeGrowth_telescopes 10 ⟨-60, 0, 0⟩ ⟨0, 2 ^ 256 - 1, 9⟩ ⟨60, 1, 1⟩ 5 7 ⟨by decide, by decide⟩
    ⟨by decide, by decide⟩ ⟨by decide, by decide⟩ (by decide) (by decide)).1

end UniswapV3
end DefiBackend
