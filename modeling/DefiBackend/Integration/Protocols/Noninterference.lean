import DefiBackend.Integration.Protocols.BenqiLending

/-! # Wallets of one request

`StakingRewards` and `BenqiLending` over one pool list for several addresses: whether an address is
told what it is told when it is the only one. -/

namespace DefiBackend
namespace Integration

/-- The addresses of a request are told what they are told alone exactly when they keep apart: for
`StakingRewards`, in the order of the request; for `BenqiLending`, in any order in which the calls
for the addresses return. -/
theorem usersData_told_alone_iff {addresses : List Address} (haddresses : addresses.Nodup) :
    (∀ pools errors chain, StakingRewards.Noninterfering pools errors chain addresses ↔
      ∀ data, StakingRewards.fetchUsersData pools chain addresses = .ok data →
        StakingRewards.KeepsApart data pools.zipIdx addresses) ∧
    ∀ «meta» pools errors calls order, order.Perm addresses →
      (BenqiLending.Noninterfering «meta» pools errors calls order ↔
        BenqiLending.KeepsApart «meta» pools calls order) :=
  ⟨fun _ _ _ => StakingRewards.noninterfering_iff haddresses, fun _ _ _ _ _ horder =>
    BenqiLending.noninterfering_iff (horder.nodup_iff.mpr haddresses)⟩

/-! ## Two users of one pool -/

def firstUser : Address := "0x00000000000000000000000000000000000000aa"

def secondUser : Address := "0x00000000000000000000000000000000000000bb"

/-- Two addresses of a request, each in one order. -/
theorem usersData_told_alone_two :
    [firstUser, secondUser].Nodup ∧ [secondUser, firstUser].Perm [firstUser, secondUser] ∧
      (∀ pools errors chain, StakingRewards.Noninterfering pools errors chain [firstUser, secondUser] ↔
        ∀ data, StakingRewards.fetchUsersData pools chain [firstUser, secondUser] = .ok data →
          StakingRewards.KeepsApart data pools.zipIdx [firstUser, secondUser]) ∧
      ∀ «meta» pools errors calls,
        BenqiLending.Noninterfering «meta» pools errors calls [secondUser, firstUser] ↔
          BenqiLending.KeepsApart «meta» pools calls [secondUser, firstUser] := by
  have hnodup : [firstUser, secondUser].Nodup := by decide
  have hperm : [secondUser, firstUser].Perm [firstUser, secondUser] := by decide
  obtain ⟨hstaking, hlending⟩ := usersData_told_alone_iff hnodup
  exact ⟨hnodup, hperm, hstaking, fun «meta» pools errors calls =>
    hlending «meta» pools errors calls _ hperm⟩

/-- A token without decimals at the price of 1, as the stake and as the reward. -/
def sampleStakingPool : StakingRewards.Pool where
  id := "0x0000000000000000000000000000000000000009"
  supplied := [⟨"0x0000000000000000000000000000000000000001", 0, 1⟩]
  rewarded := [⟨"0x0000000000000000000000000000000000000001", 0, 1⟩]

/-- One user has staked 1 and earned 3, the other 2 and 4. -/
def sampleStakes : CallResults := fun label =>
  let pool := sampleStakingPool.id
  let token := "0x0000000000000000000000000000000000000001"
  ([(StakingRewards.balanceOfLabel pool firstUser, 1), (StakingRewards.earnedLabel pool token firstUser, 3),
    (StakingRewards.balanceOfLabel pool secondUser, 2),
    (StakingRewards.earnedLabel pool token secondUser, 4)].lookup label).map .number

def sampleLendingToken : BenqiLending.LendingToken where
  address := "0x0000000000000000000000000000000000000002"
  symbol := "qiAVAX"
  decimals := 8
  price := 1
  underlying := [⟨"AVAX", 18, 1⟩]

/-- A market that lends at a rate of 1. -/
def sampleLendingPool : BenqiLending.Pool where
  id := "0x0000000000000000000000000000000000000002"
  supplied := [⟨sampleLendingToken, 1, 1, 1⟩]
  borrowed := [⟨sampleLendingToken, 1, 1, 1⟩]
  rewarded := []

/-- A loan without supply. -/
def sampleLoan (address : Address) : CallResults := fun label =>
  if label = BenqiLending.concatStrings [address, sampleLendingPool.id, "getAccountSnapshot"] then
    some (.record [("1", .number 0), ("2", .number 1), ("3", .number 1)])
  else none

def sampleMeta : BenqiLending.Meta where
  chain := 6
  avax := "0x0000000000000000000000000000000000000003"
  qi := "0x0000000000000000000000000000000000000004"

/-- One user is told the amounts the other has staked, or its rate with the other sign. -/
theorem samples_not_told_alone :
    ¬ StakingRewards.Noninterfering [sampleStakingPool] [] (.ok sampleStakes) [firstUser, secondUser] ∧
      ¬ BenqiLending.Noninterfering sampleMeta [sampleLendingPool] []
        (fun address => .ok (sampleLoan address)) [firstUser, secondUser] := by
  refine ⟨fun h => ?_, fun h => ?_⟩
  · exact absurd (h firstUser (List.mem_cons_self ..)) (by decide +kernel)
  · exact absurd (h secondUser (List.mem_cons_of_mem _ (List.mem_singleton_self _))) (by decide +kernel)

end Integration
end DefiBackend
