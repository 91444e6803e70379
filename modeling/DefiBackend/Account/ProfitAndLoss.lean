import DefiBackend.Common.Address
import DefiBackend.Common.BigNumber
import DefiBackend.Common.JsMap
import Mathlib.Tactic.LinearCombination

/-! # Profit and loss

`ProfitAndLossService.calculateProfitAndLoss` of `apps/account`: what the balance of an asset gains
in value between two times, less the value of what has been transferred in between.

* `profitAndLoss_eq_sum`: it is the sum of what each transfer gains, from when it takes place or the
  first time, whichever is later.
* `profitAndLoss_additive`: over two intervals with a common end, it adds up to what it is over
  both, also with transfers at the ends.

Times are numbers of seconds. Amounts are texts of decimal numbers. -/

namespace DefiBackend
namespace Account
namespace ProfitAndLoss
open JsNumber

structure AssetsEntity where
  address : Address
  decimals : ℕ

structure TransferEntity where
  fromAddress : Address
  toAddress : Address
  blockTimeStamp : ℚ
  amount : ℚ

/-- Prices by their times, `null` where one is not known. -/
abbrev HistoricalPrices := JsMap ℚ (Option JsNumber)

abbrev HistoricalPricesMap := JsMap Address HistoricalPrices

/-- The price at a time, as a factor: `undefined` is no number, and `null` counts as zero. -/
def HistoricalPrices.price (prices : HistoricalPrices) (timestamp : ℚ) : JsNumber :=
  match prices.get timestamp with
  | none => nan
  | some price => price.getD 0

def decimalsAmount (amount : ℚ) (decimals : ℕ) : JsNumber :=
  (finite amount).dividedBy (tenPow decimals)

/-- The amounts and values that have been sent and received. -/
structure Flows where
  tokenSimpleSendTotal : JsNumber
  tokenSimpleSendValueTotal : JsNumber
  tokenSimpleReceiveTotal : JsNumber
  tokenSimpleReceiveValueTotal : JsNumber

structure Figures where
  profitAndLoss : JsNumber
  averageCost : JsNumber

section
variable (asset : AssetsEntity) (setOfAddresses : List Address) (prices : HistoricalPrices)

/-- A transfer, in the balance at the start. -/
def addToBalance (tokenBalanceStart : JsNumber) (transfer : TransferEntity) : JsNumber :=
  let amount := decimalsAmount transfer.amount asset.decimals
  let sent := if transfer.fromAddress ∈ setOfAddresses then tokenBalanceStart - amount
    else tokenBalanceStart
  if transfer.toAddress ∈ setOfAddresses then sent + amount else sent

def addSend (flows : Flows) (transfer : TransferEntity) : Flows :=
  let amount := decimalsAmount transfer.amount asset.decimals
  if transfer.fromAddress ∈ setOfAddresses then
    { flows with
      tokenSimpleSendTotal := flows.tokenSimpleSendTotal + amount
      tokenSimpleSendValueTotal :=
        flows.tokenSimpleSendValueTotal + amount * prices.price transfer.blockTimeStamp }
  else flows

def addReceive (flows : Flows) (transfer : TransferEntity) : Flows :=
  let amount := decimalsAmount transfer.amount asset.decimals
  if transfer.toAddress ∈ setOfAddresses then
    { flows with
      tokenSimpleReceiveTotal := flows.tokenSimpleReceiveTotal + amount
      tokenSimpleReceiveValueTotal :=
        flows.tokenSimpleReceiveValueTotal + amount * prices.price transfer.blockTimeStamp }
  else flows

/-- A transfer, in what has been sent and received. -/
def addToFlows (flows : Flows) (transfer : TransferEntity) : Flows :=
  addReceive asset setOfAddresses prices (addSend asset setOfAddresses prices flows transfer) transfer

/-- The figures before they are rounded, with the prices of the asset. -/
def figuresOf (transfers : List TransferEntity) (fromTimestamp toTimestamp : ℚ) : Figures :=
  let transfersForBalanceStart := transfers.filter (·.blockTimeStamp < fromTimestamp)
  let transfersForProfitAndLoss := transfers.filter fun transfer =>
    fromTimestamp ≤ transfer.blockTimeStamp ∧ transfer.blockTimeStamp ≤ toTimestamp
  let tokenBalanceStart := transfersForBalanceStart.foldl (addToBalance asset setOfAddresses) 0
  let tokenBalanceStartValue := tokenBalanceStart * prices.price fromTimestamp
  let flows := transfersForProfitAndLoss.foldl (addToFlows asset setOfAddresses prices) ⟨0, 0, 0, 0⟩
  let tokenSimpleReceiveWeightedPrice :=
    if flows.tokenSimpleReceiveTotal ≠ 0 then
      flows.tokenSimpleReceiveValueTotal / flows.tokenSimpleReceiveTotal
    else 0
  let tokenBalanceEndValue :=
    (tokenBalanceStart + flows.tokenSimpleReceiveTotal - flows.tokenSimpleSendTotal) *
      prices.price toTimestamp
  let tokenBalanceChangeValue := tokenBalanceEndValue - tokenBalanceStartValue
  let tokenNetReceiveValueTotal :=
    flows.tokenSimpleReceiveValueTotal - flows.tokenSimpleSendValueTotal
  ⟨tokenBalanceChangeValue - tokenNetReceiveValueTotal, tokenSimpleReceiveWeightedPrice⟩

end

/-- The figures before they are rounded. -/
def exactFigures (asset : AssetsEntity) (transfers : List TransferEntity) (addresses : List Address)
    (priceData : HistoricalPricesMap) (fromTimestamp toTimestamp : ℚ) : Except String Figures :=
  match priceData.get asset.address with
  | some prices => .ok (figuresOf asset (unique addresses) prices transfers fromTimestamp toTimestamp)
  | none => .error "TypeError"

def calculateProfitAndLoss (asset : AssetsEntity) (transfers : List TransferEntity)
    (addresses : List Address) (priceData : HistoricalPricesMap) (fromTimestamp toTimestamp : ℚ) :
    Except String Figures :=
  (exactFigures asset transfers addresses priceData fromTimestamp toTimestamp).map fun figures =>
    ⟨figures.profitAndLoss.toFixed 8, figures.averageCost.toFixed 8⟩

/-- There are prices at the times of all transfers, and at some others. -/
def Priced (asset : AssetsEntity) (transfers : List TransferEntity)
    (priceData : HistoricalPricesMap) (timestamps : List ℚ) : Prop :=
  ∃ prices, priceData.get asset.address = some prices ∧
    ∀ timestamp ∈ timestamps ++ transfers.map (·.blockTimeStamp),
      ∃ q, prices.price timestamp = finite q

/-! ## Gains -/

section
variable (asset : AssetsEntity) (setOfAddresses : List Address) (prices : HistoricalPrices)

/-- The amount of a transfer. -/
def amountOf (transfer : TransferEntity) : ℚ :=
  roundHalfUp 20 (transfer.amount / 10 ^ asset.decimals)

def sentBy (transfer : TransferEntity) : ℚ :=
  if transfer.fromAddress ∈ setOfAddresses then amountOf asset transfer else 0

def receivedBy (transfer : TransferEntity) : ℚ :=
  if transfer.toAddress ∈ setOfAddresses then amountOf asset transfer else 0

/-- The price at a time at which there is one. -/
def priceAt (timestamp : ℚ) : ℚ :=
  match prices.price timestamp with
  | finite q => q
  | infinity _ | nan => 0

/-- What a transfer gains in value. -/
def gain (fromTimestamp toTimestamp : ℚ) (transfer : TransferEntity) : ℚ :=
  if transfer.blockTimeStamp ≤ toTimestamp then
    (receivedBy asset setOfAddresses transfer - sentBy asset setOfAddresses transfer) *
      (priceAt prices toTimestamp - priceAt prices (max fromTimestamp transfer.blockTimeStamp))
  else 0

end

section
variable {asset : AssetsEntity} {setOfAddresses : List Address} {prices : HistoricalPrices}
variable {transfers : List TransferEntity}

theorem decimalsAmount_eq (transfer : TransferEntity) :
    decimalsAmount transfer.amount asset.decimals = finite (amountOf asset transfer) := by
  have hten : ((10 : ℚ) ^ (asset.decimals : ℤ)) ≠ 0 := zpow_ne_zero _ (by norm_num)
  rw [decimalsAmount, dividedBy, tenPow, finite_div _ hten, zpow_natCast]
  rfl

theorem price_eq {timestamp : ℚ} (h : ∃ q, prices.price timestamp = finite q) :
    prices.price timestamp = finite (priceAt prices timestamp) := by
  obtain ⟨q, hq⟩ := h
  rw [priceAt, hq]

/-- The balance at the start. -/
theorem foldl_addToBalance (asset : AssetsEntity) (setOfAddresses : List Address)
    (transfers : List TransferEntity) (q : ℚ) :
    transfers.foldl (addToBalance asset setOfAddresses) (finite q) =
    finite (q + (transfers.map (receivedBy asset setOfAddresses)).sum -
      (transfers.map (sentBy asset setOfAddresses)).sum) := by
  induction transfers generalizing q with
  | nil => exact congrArg finite (by simp)
  | cons transfer transfers ih =>
    have hstep : addToBalance asset setOfAddresses (finite q) transfer =
        finite (q + receivedBy asset setOfAddresses transfer -
          sentBy asset setOfAddresses transfer) := by
      simp only [addToBalance, decimalsAmount_eq, receivedBy, sentBy, finite_sub]
      split <;> split
      · change finite (_ + _) = _
        exact congrArg finite (by ring)
      · change finite (_ + _) = _
        exact congrArg finite (by ring)
      · exact congrArg finite (by ring)
      · exact congrArg finite (by ring)
    rw [List.foldl_cons, hstep, ih, List.map_cons, List.map_cons, List.sum_cons, List.sum_cons]
    exact congrArg finite (by ring)

/-- What has been sent and received. -/
theorem foldl_addToFlows (asset : AssetsEntity) (setOfAddresses : List Address)
    (hprices : ∀ transfer ∈ transfers,
      prices.price transfer.blockTimeStamp = finite (priceAt prices transfer.blockTimeStamp))
    (s sv r rv : ℚ) :
    transfers.foldl (addToFlows asset setOfAddresses prices)
        ⟨finite s, finite sv, finite r, finite rv⟩ =
      ⟨finite (s + (transfers.map (sentBy asset setOfAddresses)).sum),
        finite (sv + (transfers.map fun transfer =>
          sentBy asset setOfAddresses transfer * priceAt prices transfer.blockTimeStamp).sum),
        finite (r + (transfers.map (receivedBy asset setOfAddresses)).sum),
        finite (rv + (transfers.map fun transfer =>
          receivedBy asset setOfAddresses transfer *
            priceAt prices transfer.blockTimeStamp).sum)⟩ := by
  induction transfers generalizing s sv r rv with
  | nil => simp
  | cons transfer transfers ih =>
    obtain ⟨hprice, hprices⟩ := List.forall_mem_cons.mp hprices
    have hstep : addToFlows asset setOfAddresses prices
        ⟨finite s, finite sv, finite r, finite rv⟩ transfer =
        ⟨finite (s + sentBy asset setOfAddresses transfer),
          finite (sv + sentBy asset setOfAddresses transfer *
            priceAt prices transfer.blockTimeStamp),
          finite (r + receivedBy asset setOfAddresses transfer),
          finite (rv + receivedBy asset setOfAddresses transfer *
            priceAt prices transfer.blockTimeStamp)⟩ := by
      have hsend : addSend asset setOfAddresses prices
          ⟨finite s, finite sv, finite r, finite rv⟩ transfer =
          ⟨finite (s + sentBy asset setOfAddresses transfer),
            finite (sv + sentBy asset setOfAddresses transfer *
              priceAt prices transfer.blockTimeStamp), finite r, finite rv⟩ := by
        simp only [addSend, decimalsAmount_eq, sentBy, hprice]
        split
        · rfl
        · simp
      rw [addToFlows, hsend]
      simp only [addReceive, decimalsAmount_eq, receivedBy, hprice]
      split
      · rfl
      · simp
    rw [List.foldl_cons, hstep, ih hprices]
    simp only [List.map_cons, List.sum_cons, add_assoc]

/-- Of a transfer, the end balance, the start balance and the flows leave what it gains. -/
theorem sum_gain (transfers : List TransferEntity) (fromTimestamp toTimestamp : ℚ)
    (h : fromTimestamp ≤ toTimestamp) :
    let start := transfers.filter (·.blockTimeStamp < fromTimestamp)
    let within := transfers.filter fun transfer =>
      fromTimestamp ≤ transfer.blockTimeStamp ∧ transfer.blockTimeStamp ≤ toTimestamp
    let balance := 0 + (start.map (receivedBy asset setOfAddresses)).sum -
      (start.map (sentBy asset setOfAddresses)).sum
    (balance + (0 + (within.map (receivedBy asset setOfAddresses)).sum) -
          (0 + (within.map (sentBy asset setOfAddresses)).sum)) * priceAt prices toTimestamp -
        balance * priceAt prices fromTimestamp -
        ((0 + (within.map fun transfer => receivedBy asset setOfAddresses transfer *
            priceAt prices transfer.blockTimeStamp).sum) -
          (0 + (within.map fun transfer => sentBy asset setOfAddresses transfer *
            priceAt prices transfer.blockTimeStamp).sum)) =
      (transfers.map (gain asset setOfAddresses prices fromTimestamp toTimestamp)).sum := by
  induction transfers with
  | nil => simp
  | cons transfer transfers ih =>
    dsimp only at ih ⊢
    rw [List.map_cons, List.sum_cons, gain]
    rcases lt_or_ge transfer.blockTimeStamp fromTimestamp with hbefore | hfrom
    · rw [if_pos (hbefore.le.trans h), max_eq_left hbefore.le, List.filter_cons_of_pos (by simpa),
        List.filter_cons_of_neg (by simp [hbefore])]
      simp only [List.map_cons, List.sum_cons]
      linear_combination ih
    · rw [List.filter_cons_of_neg (by simpa using hfrom)]
      rcases le_or_gt transfer.blockTimeStamp toTimestamp with hto | hafter
      · rw [if_pos hto, max_eq_right hfrom, List.filter_cons_of_pos (by simp [hfrom, hto])]
        simp only [List.map_cons, List.sum_cons]
        linear_combination ih
      · rw [if_neg hafter.not_ge, List.filter_cons_of_neg (by simp [hafter])]
        linear_combination ih

/-- The profit and loss is the sum of the gains. -/
theorem profitAndLoss_eq_sum {fromTimestamp toTimestamp : ℚ} (h : fromTimestamp ≤ toTimestamp)
    (hfrom : ∃ q, prices.price fromTimestamp = finite q)
    (hto : ∃ q, prices.price toTimestamp = finite q)
    (hprices : ∀ transfer ∈ transfers, ∃ q, prices.price transfer.blockTimeStamp = finite q) :
    (figuresOf asset setOfAddresses prices transfers fromTimestamp toTimestamp).profitAndLoss =
      finite (transfers.map (gain asset setOfAddresses prices fromTimestamp toTimestamp)).sum := by
  rw [← sum_gain transfers fromTimestamp toTimestamp h]
  have hbalance := foldl_addToBalance asset setOfAddresses
    (transfers.filter (·.blockTimeStamp < fromTimestamp)) 0
  have hwithin : ∀ transfer ∈ transfers.filter (fun transfer =>
      fromTimestamp ≤ transfer.blockTimeStamp ∧ transfer.blockTimeStamp ≤ toTimestamp),
      prices.price transfer.blockTimeStamp = finite (priceAt prices transfer.blockTimeStamp) :=
    fun transfer htransfer => price_eq (hprices transfer (List.mem_of_mem_filter htransfer))
  have hflows := foldl_addToFlows asset setOfAddresses hwithin 0 0 0 0
  have hzero : (0 : JsNumber) = finite 0 := rfl
  simp only [figuresOf, hzero, hbalance, hflows, price_eq hfrom, price_eq hto]
  change (finite (_ + _) - _) * _ - _ - _ = _
  rw [finite_sub, finite_sub]
  change finite (_ * _) - finite (_ * _) - _ = _
  rw [finite_sub, finite_sub]

/-- A gain over two intervals is the sum of the gains over each. -/
theorem gain_add (transfer : TransferEntity) {a b c : ℚ} (hab : a ≤ b) (hbc : b ≤ c) :
    gain asset setOfAddresses prices a c transfer =
      gain asset setOfAddresses prices a b transfer +
        gain asset setOfAddresses prices b c transfer := by
  rw [gain, gain, gain]
  rcases le_or_gt transfer.blockTimeStamp b with hb | hb
  · -- the first interval values the transfer at its end, the second from there on
    rw [if_pos (hb.trans hbc), if_pos hb, if_pos (hb.trans hbc), max_eq_left hb]
    ring
  · rw [if_neg hb.not_ge, max_eq_right (hab.trans hb.le), max_eq_right hb.le, zero_add]

end

/-- Over two intervals with a common end, the exact profit and loss adds up to what it is over
both. -/
theorem profitAndLoss_additive (asset : AssetsEntity) (transfers : List TransferEntity)
    (addresses : List Address) (priceData : HistoricalPricesMap) {a b c : ℚ} (hab : a ≤ b)
    (hbc : b ≤ c) (hprices : Priced asset transfers priceData [a, b, c]) :
    ∃ ac ab bc, exactFigures asset transfers addresses priceData a c = .ok ac ∧
      exactFigures asset transfers addresses priceData a b = .ok ab ∧
      exactFigures asset transfers addresses priceData b c = .ok bc ∧
      ac.profitAndLoss = ab.profitAndLoss + bc.profitAndLoss := by
  obtain ⟨prices, hget, hprices⟩ := hprices
  have htransfers : ∀ transfer ∈ transfers,
      ∃ q, prices.price transfer.blockTimeStamp = finite q :=
    fun transfer h => hprices _ (List.mem_append_right _ (List.mem_map_of_mem h))
  have ha := hprices a (by simp)
  have hb := hprices b (by simp)
  have hc := hprices c (by simp)
  have hexact : ∀ fromTimestamp toTimestamp,
      exactFigures asset transfers addresses priceData fromTimestamp toTimestamp =
        .ok (figuresOf asset (unique addresses) prices transfers fromTimestamp toTimestamp) := by
    intro fromTimestamp toTimestamp
    rw [exactFigures, hget]
  refine ⟨_, _, _, hexact a c, hexact a b, hexact b c, ?_⟩
  rw [profitAndLoss_eq_sum (hab.trans hbc) ha hc htransfers,
    profitAndLoss_eq_sum hab ha hb htransfers, profitAndLoss_eq_sum hbc hb hc htransfers]
  change _ = finite (_ + _)
  rw [← List.sum_map_add]
  exact congrArg (fun l : List ℚ => finite l.sum)
    (List.map_congr_left fun transfer _ => gain_add transfer hab hbc)

/-- One token is received at the time that both intervals share. -/
theorem profitAndLoss_additive_shared : ∃ ac ab bc,
    exactFigures ⟨"0xa", 0⟩ [⟨"0xb", "0xc", 1, 1⟩] ["0xc"]
      [("0xa", [(0, some 2), (1, some 3), (2, some 5)])] 0 2 = .ok ac ∧
    exactFigures ⟨"0xa", 0⟩ [⟨"0xb", "0xc", 1, 1⟩] ["0xc"]
      [("0xa", [(0, some 2), (1, some 3), (2, some 5)])] 0 1 = .ok ab ∧
    exactFigures ⟨"0xa", 0⟩ [⟨"0xb", "0xc", 1, 1⟩] ["0xc"]
      [("0xa", [(0, some 2), (1, some 3), (2, some 5)])] 1 2 = .ok bc ∧
    ac.profitAndLoss = ab.profitAndLoss + bc.profitAndLoss := by
  apply profitAndLoss_additive _ _ _ _ (by decide +kernel) (by decide +kernel)
  refine ⟨[(0, some 2), (1, some 3), (2, some 5)], by decide +kernel, fun timestamp h => ?_⟩
  simp only [List.map_cons, List.map_nil, List.cons_append, List.nil_append, List.mem_cons,
    List.not_mem_nil, or_false] at h
  rcases h with rfl | rfl | rfl | rfl
  · exact ⟨2, by decide +kernel⟩
  · exact ⟨3, by decide +kernel⟩
  · exact ⟨5, by decide +kernel⟩
  · exact ⟨3, by decide +kernel⟩

end ProfitAndLoss
end Account
end DefiBackend
