import DefiBackend.Integration.Support.RootPlatform

/-! # Aggregation by a platform

What `getUsersData` of a platform returns, against what its protocols returned. Protocols are asked
for the unified forms of the addresses, but the answers are looked up under the addresses as they
were requested. So an address that is not in its unified form has no positions, and all else is as
it should be: positions are neither lost nor doubled nor misplaced, totals are sums, and a protocol
that is rejected leaves no trace but its reason. -/

namespace DefiBackend
namespace Integration

section
variable (A : AddressChecks) (protocols : List PlatformProtocol) (errors : List String)
  (chains : List ChainId) (addresses : List Address)

/-- The same tokens of a kind, in an array if there are any. -/
structure TokenField.ArrayOf (array field : TokenField) : Prop where
  tokens : array.tokens = field.tokens
  not_single : ∀ token, array ≠ .single token
  none_iff : array = .none ↔ field = .none

/-- A position with the same data and the same tokens. -/
structure Position.Shows (shown returned : Position) : Prop where
  id : shown.id = returned.id
  feature : shown.feature = returned.feature
  chain : shown.chain = returned.chain
  supplied : shown.supplied.ArrayOf returned.supplied
  rewarded : shown.rewarded.ArrayOf returned.rewarded
  borrowed : shown.borrowed.ArrayOf returned.borrowed

end

section
variable {A : AddressChecks} {protocols : List PlatformProtocol} {errors : List String}
  {chains : List ChainId} {addresses : List Address}

theorem flatMap_filterMap {f : α → Option β} {g : β → List γ} (l : List α) :
    (l.filterMap f).flatMap g = l.flatMap fun a => ((f a).map g).getD [] := by
  induction l with
  | nil => rfl
  | cons a l ih => cases h : f a <;> simp [h, ih]

theorem items_foldl_ensure {features : List String} {groups : Groups String Position} :
    (features.foldl Groups.ensure groups).items = groups.items := by
  induction features generalizing groups with
  | nil => rfl
  | cons f features ih => rw [List.foldl_cons, ih, Groups.items_ensure]

variable {resolved : List ChainGroupedWallet}

/-- The total of an entry is the sum over its positions. -/
theorem total_mergeUserProtocolDataPerChain :
    (mergeUserProtocolDataPerChain a chain resolved).total =
      ((mergeUserProtocolDataPerChain a chain resolved).positions.items.map Position.worth).sum := by
  simp only [mergeUserProtocolDataPerChain, items_foldl_ensure, getPositionsTotal_mergedPositions]
  exact (((items_groupBy _ _).map _).sum_eq).symm

/-- A wallet of the answer belongs to a requested address. -/
theorem mem_data {w : PlatformUserEntry}
    (hw : w ∈ (getUsersData A protocols errors chains addresses).data) :
    w.address ∈ addresses ∧ w.total = getWalletTotal w.chains ∧
      w.chains = chains.map fun chain => mergeUserProtocolDataPerChain w.address chain
        (resolvedProtocols A chains addresses protocols) := by
  obtain ⟨a, ha, rfl⟩ := List.mem_map.mp hw
  exact ⟨ha, rfl, rfl⟩

end

/-! ## An address with a checksum -/

def checksumAddress : Address := "0xd8dA6BF26964aF9D7eEd9e03E53415D37aA96045"

def lowerAddress : Address := "0xd8da6bf26964af9d7eed9e03e53415d37aa96045"

/-- The checks on the two ways to write one address. -/
def sampleChecks : AddressChecks where
  isETHAddress a := a = checksumAddress ∨ a = lowerAddress
  validator _ := some fun a => a = checksumAddress ∨ a = lowerAddress
  lowerCase_isETHAddress h := by
    rcases of_decide_eq_true h with rfl | rfl <;> decide
  no_space h := by
    rcases of_decide_eq_true h with rfl | rfl <;> exact no_space_of_all (by decide)

def samplePosition : Position where
  id := "0x83f20f44975d03b1b09e64809b757c47f942beea"
  feature := "staking"
  chain := 1
  supplied := .single ⟨"0x6b175474e89094c44da98b954eedeac495271d0f", 100, some 100⟩
  rewarded := .none
  borrowed := .none

end Integration
end DefiBackend
