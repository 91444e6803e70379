import DefiBackend.Common.Address
import DefiBackend.Common.JsMap
import DefiBackend.Common.JsNumber

/-! # Merged transfers

`mergeTransfersResponse` of `apps/account`: for each address, the transactions of two responses,
with the transfers of those that both have put together.

* `IsMerged`: a list has each hash of either response once, and no other, with the transfers of
  both.
* `merged_iff`: every address has such a list exactly when there is no address for which both
  responses have an empty list. For such an address there is no list. -/

namespace DefiBackend
namespace Account
namespace MergedTransfers

/-- A transaction with its transfers of tokens. -/
structure ScanTransfer (τ : Type) where
  chainId : ℕ
  hash : String
  blockNumber : JsNumber
  blockTimeStamp : JsNumber
  gas : JsNumber
  gasPrice : JsNumber
  gasUsed : JsNumber
  erc20Transfers : List τ

/-- The transactions by user address. -/
abbrev TransfersResponse (τ : Type) := JsMap Address (List (ScanTransfer τ))

section
variable {τ : Type}

/-- `a ? a : b`. -/
def orElse (a b : JsNumber) : JsNumber := if a.falsy then b else a

/-- What two responses have found under one hash, if anything. -/
def mergeTransfer : Option (ScanTransfer τ) → Option (ScanTransfer τ) → Option (ScanTransfer τ)
  | some rsp1TxTransfer, some rsp2TxTransfer => some {
      chainId := rsp2TxTransfer.chainId
      hash := rsp2TxTransfer.hash
      blockNumber := rsp2TxTransfer.blockNumber
      blockTimeStamp := orElse rsp2TxTransfer.blockTimeStamp rsp1TxTransfer.blockTimeStamp
      gas := orElse rsp2TxTransfer.gas rsp1TxTransfer.gas
      gasPrice := orElse rsp2TxTransfer.gasPrice rsp1TxTransfer.gasPrice
      gasUsed := orElse rsp2TxTransfer.gasUsed rsp1TxTransfer.gasUsed
      erc20Transfers := rsp1TxTransfer.erc20Transfers ++ rsp2TxTransfer.erc20Transfers }
  | some rsp1TxTransfer, none => some rsp1TxTransfer
  | none, rsp2TxTransfer => rsp2TxTransfer

/-- The merged transaction of a hash. One of the two lists has the hash. -/
def mergedTransfer (rsp1 rsp2 : List (ScanTransfer τ)) (hash : String) : Option (ScanTransfer τ) :=
  mergeTransfer (rsp1.find? (·.hash = hash)) (rsp2.find? (·.hash = hash))

def transactionHashes (rsp1 rsp2 : List (ScanTransfer τ)) : List String :=
  unique (rsp1.map (·.hash) ++ rsp2.map (·.hash))

/-- A merged transaction, appended to the list of the address, which it may be the first of. -/
def appendMerged (a : Address) (rsp1 rsp2 : List (ScanTransfer τ))
    (finalTransfersResponse : TransfersResponse τ) (hash : String) : TransfersResponse τ :=
  match mergedTransfer rsp1 rsp2 hash with
  | some merged => finalTransfersResponse.pushTo a merged
  | none => finalTransfersResponse

def mergeAddress (response1 response2 finalTransfersResponse : TransfersResponse τ) (a : Address) :
    TransfersResponse τ :=
  match response1.get a, response2.get a with
  | none, none => finalTransfersResponse.set a []
  | some rsp1, none => finalTransfersResponse.set a rsp1
  | none, some rsp2 => finalTransfersResponse.set a rsp2
  | some rsp1, some rsp2 =>
    (transactionHashes rsp1 rsp2).foldl (appendMerged a rsp1 rsp2) finalTransfersResponse

def mergeTransfersResponse (addresses : List Address) (response1 response2 : TransfersResponse τ) :
    TransfersResponse τ :=
  addresses.foldl (mergeAddress response1 response2) []

/-- The transactions of an address, none without an entry. -/
def transactionsOf (response : TransfersResponse τ) (a : Address) : List (ScanTransfer τ) :=
  (response.get a).getD []

/-- The transfers under a hash. -/
def transfersUnder (list : List (ScanTransfer τ)) (hash : String) : List τ :=
  (list.filter (·.hash = hash)).flatMap (·.erc20Transfers)

/-- A list has the hashes of two others, each once, with the transfers of both. -/
structure IsMerged (rsp1 rsp2 list : List (ScanTransfer τ)) : Prop where
  nodup : (list.map (·.hash)).Nodup
  mem_iff : ∀ hash, hash ∈ list.map (·.hash) ↔
    hash ∈ rsp1.map (·.hash) ∨ hash ∈ rsp2.map (·.hash)
  transfers : ∀ merged ∈ list, merged.erc20Transfers.Perm
    (transfersUnder rsp1 merged.hash ++ transfersUnder rsp2 merged.hash)

/-- The lists of a response have pairwise different hashes. -/
def DifferentHashes (response : TransfersResponse τ) : Prop :=
  ∀ a list, response.get a = some list → (list.map (·.hash)).Nodup

/-- Every address has a list of the transactions of both responses. -/
def MergesAll (addresses : List Address) (response1 response2 : TransfersResponse τ) : Prop :=
  ∀ a ∈ addresses, ∃ list,
    (mergeTransfersResponse addresses response1 response2).get a = some list ∧
      IsMerged (transactionsOf response1 a) (transactionsOf response2 a) list

/-! ## One address -/

/-- The list of an address, if it has one. -/
def listOf (response1 response2 : TransfersResponse τ) (a : Address) :
    Option (List (ScanTransfer τ)) :=
  match response1.get a, response2.get a with
  | none, none => some []
  | some rsp1, none => some rsp1
  | none, some rsp2 => some rsp2
  | some rsp1, some rsp2 =>
    match (transactionHashes rsp1 rsp2).filterMap (mergedTransfer rsp1 rsp2) with
    | [] => none
    | list => some list

theorem foldl_appendMerged_of_ne {a b : Address} (h : a ≠ b) (rsp1 rsp2 : List (ScanTransfer τ))
    (hashes : List String) (final : TransfersResponse τ) :
    (hashes.foldl (appendMerged a rsp1 rsp2) final).get b = final.get b := by
  induction hashes generalizing final with
  | nil => rfl
  | cons hash hashes ih =>
    rw [List.foldl_cons, ih, appendMerged]
    split
    · exact (JsMap.get_set).trans (if_neg h)
    · rfl

theorem foldl_appendMerged_of_some {a : Address} (rsp1 rsp2 : List (ScanTransfer τ))
    (hashes : List String) {final : TransfersResponse τ} {list : List (ScanTransfer τ)}
    (h : final.get a = some list) :
    (hashes.foldl (appendMerged a rsp1 rsp2) final).get a =
      some (list ++ hashes.filterMap (mergedTransfer rsp1 rsp2)) := by
  induction hashes generalizing final list with
  | nil => simpa using h
  | cons hash hashes ih =>
    rw [List.foldl_cons, appendMerged, List.filterMap_cons]
    cases mergedTransfer rsp1 rsp2 hash with
    | none => exact ih h
    | some merged =>
      have hpush : (final.pushTo a merged).get a = some (list ++ [merged]) := by
        rw [JsMap.pushTo, JsMap.get_set_self, h, Option.getD_some]
      rw [ih hpush, List.append_assoc, List.singleton_append]

/-- The first merged transaction makes the list of the address. -/
theorem foldl_appendMerged_of_none {a : Address} (rsp1 rsp2 : List (ScanTransfer τ))
    (hashes : List String) {final : TransfersResponse τ} (h : final.get a = none) :
    (hashes.foldl (appendMerged a rsp1 rsp2) final).get a =
      match hashes.filterMap (mergedTransfer rsp1 rsp2) with
      | [] => none
      | list => some list := by
  induction hashes with
  | nil => exact h
  | cons hash hashes ih =>
    rw [List.foldl_cons, appendMerged, List.filterMap_cons]
    cases mergedTransfer rsp1 rsp2 hash with
    | none => exact ih
    | some merged =>
      have hpush : (final.pushTo a merged).get a = some [merged] := by
        rw [JsMap.pushTo, JsMap.get_set_self, h]
        rfl
      rw [foldl_appendMerged_of_some rsp1 rsp2 hashes hpush]
      rfl

variable {response1 response2 : TransfersResponse τ} {addresses : List Address} {a : Address}

theorem mergeAddress_of_ne {b : Address} (h : b ≠ a) (final : TransfersResponse τ) :
    (mergeAddress response1 response2 final b).get a = final.get a := by
  rw [mergeAddress]
  split
  · exact (JsMap.get_set).trans (if_neg h)
  · exact (JsMap.get_set).trans (if_neg h)
  · exact (JsMap.get_set).trans (if_neg h)
  · exact foldl_appendMerged_of_ne h _ _ _ _

theorem mergeAddress_self {final : TransfersResponse τ} (h : final.get a = none) :
    (mergeAddress response1 response2 final a).get a = listOf response1 response2 a := by
  rw [mergeAddress, listOf]
  split
  · exact JsMap.get_set_self
  · exact JsMap.get_set_self
  · exact JsMap.get_set_self
  · exact foldl_appendMerged_of_none _ _ _ h

/-- Each address has the list that is made for it alone. -/
theorem get_mergeTransfersResponse (haddresses : addresses.Nodup) (ha : a ∈ addresses) :
    (mergeTransfersResponse addresses response1 response2).get a = listOf response1 response2 a := by
  have hrest : ∀ (rest : List Address) (final : TransfersResponse τ), a ∉ rest →
      (rest.foldl (mergeAddress response1 response2) final).get a = final.get a := by
    intro rest
    induction rest with
    | nil => exact fun _ _ => rfl
    | cons b rest ih =>
      intro final hnew
      obtain ⟨hb, hnew⟩ := List.ne_and_not_mem_of_not_mem_cons hnew
      rw [List.foldl_cons, ih _ hnew, mergeAddress_of_ne hb.symm]
  obtain ⟨before, after, rfl⟩ := List.append_of_mem ha
  obtain ⟨-, hafter, hdisjoint⟩ := List.nodup_append.mp haddresses
  have hbefore : a ∉ before := fun h => hdisjoint a h a List.mem_cons_self rfl
  rw [mergeTransfersResponse, List.foldl_append, List.foldl_cons,
    hrest after _ (List.nodup_cons.mp hafter).1]
  exact mergeAddress_self (hrest before [] hbefore)

end

/-! ## One list -/

section
variable {τ : Type} {rsp1 rsp2 : List (ScanTransfer τ)} {hash : String} {merged : ScanTransfer τ}

theorem filter_hash_eq {list : List (ScanTransfer τ)} (h : (list.map (·.hash)).Nodup) :
    list.filter (·.hash = hash) = (list.find? (·.hash = hash)).toList := by
  induction list with
  | nil => rfl
  | cons t list ih =>
    obtain ⟨hnew, hlist⟩ := List.nodup_cons.mp h
    by_cases ht : t.hash = hash
    · have hnone : list.filter (·.hash = hash) = [] := by
        apply List.filter_eq_nil_iff.mpr
        intro t' ht' heq
        apply hnew
        change t.hash ∈ _
        rw [ht, ← of_decide_eq_true heq]
        exact List.mem_map_of_mem ht'
      rw [List.filter_cons_of_pos (by simpa), List.find?_cons_of_pos (by simpa), hnone]
      rfl
    · rw [List.filter_cons_of_neg (by simpa), List.find?_cons_of_neg (by simpa), ih hlist]

/-- With pairwise different hashes, the transfers under one are those of the transaction found. -/
theorem transfersUnder_eq {list : List (ScanTransfer τ)} (h : (list.map (·.hash)).Nodup) :
    transfersUnder list hash =
      ((list.find? (·.hash = hash)).map (·.erc20Transfers)).getD [] := by
  rw [transfersUnder, filter_hash_eq h]
  cases list.find? (·.hash = hash) with
  | none => rfl
  | some t => exact List.flatMap_singleton ..

theorem hash_of_find? {list : List (ScanTransfer τ)} {t : ScanTransfer τ}
    (h : list.find? (·.hash = hash) = some t) : t.hash = hash :=
  by simpa using List.find?_some h

/-- A merged transaction has its hash, and the transfers of both. -/
theorem mergedTransfer_spec (h1 : (rsp1.map (·.hash)).Nodup) (h2 : (rsp2.map (·.hash)).Nodup)
    (h : mergedTransfer rsp1 rsp2 hash = some merged) : merged.hash = hash ∧
      merged.erc20Transfers = transfersUnder rsp1 hash ++ transfersUnder rsp2 hash := by
  rw [transfersUnder_eq h1, transfersUnder_eq h2]
  rw [mergedTransfer] at h
  cases hfind1 : rsp1.find? (·.hash = hash) with
  | none =>
    rw [hfind1] at h
    have h : rsp2.find? (·.hash = hash) = some merged := h
    rw [h]
    exact ⟨hash_of_find? h, rfl⟩
  | some t1 =>
    rw [hfind1] at h
    cases hfind2 : rsp2.find? (·.hash = hash) with
    | none =>
      rw [hfind2] at h
      cases h
      exact ⟨hash_of_find? hfind1, (List.append_nil _).symm⟩
    | some t2 =>
      rw [hfind2] at h
      cases h
      have hhash : t2.hash = hash := hash_of_find? hfind2
      exact ⟨hhash, rfl⟩

theorem exists_mergedTransfer (h : hash ∈ transactionHashes rsp1 rsp2) :
    ∃ merged, mergedTransfer rsp1 rsp2 hash = some merged := by
  rw [transactionHashes, mem_unique, List.mem_append] at h
  rw [mergedTransfer]
  cases hfind1 : rsp1.find? (·.hash = hash) with
  | some t1 =>
    cases rsp2.find? (·.hash = hash) with
    | none => exact ⟨_, rfl⟩
    | some t2 => exact ⟨_, rfl⟩
  | none =>
    cases hfind2 : rsp2.find? (·.hash = hash) with
    | some t2 => exact ⟨_, rfl⟩
    | none =>
      rw [List.find?_eq_none] at hfind1 hfind2
      rcases h with h | h
      · obtain ⟨t, ht, hhash⟩ := List.mem_map.mp h
        exact absurd (decide_eq_true hhash) (hfind1 t ht)
      · obtain ⟨t, ht, hhash⟩ := List.mem_map.mp h
        exact absurd (decide_eq_true hhash) (hfind2 t ht)

/-- The merged transactions have the hashes of both lists, in their order. -/
theorem map_hash_merged (h1 : (rsp1.map (·.hash)).Nodup) (h2 : (rsp2.map (·.hash)).Nodup) :
    ((transactionHashes rsp1 rsp2).filterMap (mergedTransfer rsp1 rsp2)).map (·.hash) =
      transactionHashes rsp1 rsp2 := by
  have hkeep : ∀ hash ∈ transactionHashes rsp1 rsp2,
      (mergedTransfer rsp1 rsp2 hash).map (·.hash) = some hash := by
    intro hash hhash
    obtain ⟨merged, hmerged⟩ := exists_mergedTransfer hhash
    rw [hmerged, Option.map_some, (mergedTransfer_spec h1 h2 hmerged).1]
  rw [List.map_filterMap, List.filterMap_congr hkeep]
  exact List.filterMap_some

theorem isMerged_both (h1 : (rsp1.map (·.hash)).Nodup) (h2 : (rsp2.map (·.hash)).Nodup) :
    IsMerged rsp1 rsp2 ((transactionHashes rsp1 rsp2).filterMap (mergedTransfer rsp1 rsp2)) where
  nodup := by
    rw [map_hash_merged h1 h2]
    exact nodup_unique _
  mem_iff hash := by
    rw [map_hash_merged h1 h2, transactionHashes, mem_unique, List.mem_append]
  transfers merged hmerged := by
    obtain ⟨hash, -, hmerged⟩ := List.mem_filterMap.mp hmerged
    obtain ⟨rfl, htransfers⟩ := mergedTransfer_spec h1 h2 hmerged
    exact .of_eq htransfers

/-- A list has its own hashes and transfers, and none of an empty list. -/
theorem isMerged_self (h : (rsp1.map (·.hash)).Nodup) :
    IsMerged rsp1 [] rsp1 ∧ IsMerged [] rsp1 rsp1 := by
  have htransfers : ∀ merged ∈ rsp1, merged.erc20Transfers = transfersUnder rsp1 merged.hash := by
    intro merged hmerged
    have hmem : merged ∈ rsp1.filter (·.hash = merged.hash) :=
      List.mem_filter.mpr ⟨hmerged, decide_eq_true rfl⟩
    rw [filter_hash_eq h, Option.mem_toList] at hmem
    rw [transfersUnder_eq h, hmem]
    rfl
  constructor
  · refine ⟨h, fun hash => by simp, fun merged hmerged => .of_eq ?_⟩
    exact (htransfers merged hmerged).trans (List.append_nil _).symm
  · exact ⟨h, fun hash => by simp, fun merged hmerged => .of_eq (htransfers merged hmerged)⟩

theorem transactionHashes_eq_nil : transactionHashes rsp1 rsp2 = [] ↔ rsp1 = [] ∧ rsp2 = [] := by
  rw [transactionHashes, unique_eq_nil, List.append_eq_nil_iff, List.map_eq_nil_iff,
    List.map_eq_nil_iff]

end

section
variable {τ : Type} {response1 response2 : TransfersResponse τ} {a : Address}

/-- What is made for an address is merged, and is missing only where both lists are empty. -/
theorem listOf_spec (h1 : DifferentHashes response1) (h2 : DifferentHashes response2) :
    (listOf response1 response2 a = none ∧ response1.get a = some [] ∧ response2.get a = some []) ∨
      (∃ list, listOf response1 response2 a = some list ∧
        IsMerged (transactionsOf response1 a) (transactionsOf response2 a) list) ∧
      ¬ (response1.get a = some [] ∧ response2.get a = some []) := by
  rw [listOf, transactionsOf, transactionsOf]
  cases hget1 : response1.get a with
  | none =>
    right
    cases hget2 : response2.get a with
    | none =>
      have hnil : (([] : List (ScanTransfer τ)).map (·.hash)).Nodup := List.nodup_nil
      exact ⟨⟨_, rfl, (isMerged_self hnil).1⟩, fun h => by cases h.1⟩
    | some rsp2 => exact ⟨⟨_, rfl, (isMerged_self (h2 a rsp2 hget2)).2⟩, fun h => by cases h.1⟩
  | some rsp1 =>
    cases hget2 : response2.get a with
    | none =>
      right
      exact ⟨⟨_, rfl, (isMerged_self (h1 a rsp1 hget1)).1⟩, fun h => by cases h.2⟩
    | some rsp2 =>
      have hnodup1 := h1 a rsp1 hget1
      have hnodup2 := h2 a rsp2 hget2
      have hmap := map_hash_merged hnodup1 hnodup2
      have hmerged := isMerged_both hnodup1 hnodup2
      dsimp only
      cases hlist : (transactionHashes rsp1 rsp2).filterMap (mergedTransfer rsp1 rsp2) with
      | nil =>
        left
        rw [hlist, List.map_nil] at hmap
        obtain ⟨rfl, rfl⟩ := transactionHashes_eq_nil.mp hmap.symm
        exact ⟨rfl, rfl, rfl⟩
      | cons merged list =>
        right
        rw [hlist] at hmap hmerged
        refine ⟨⟨_, rfl, hmerged⟩, fun ⟨hnil1, hnil2⟩ => ?_⟩
        rw [transactionHashes_eq_nil.mpr ⟨Option.some.inj hnil1, Option.some.inj hnil2⟩] at hmap
        cases hmap

end

/-- Every address has a list of the transactions of both responses exactly when there is none for
which both responses have an empty list. -/
theorem merged_iff {τ : Type} (addresses : List Address) (response1 response2 : TransfersResponse τ)
    (haddresses : addresses.Nodup) (h1 : DifferentHashes response1)
    (h2 : DifferentHashes response2) :
    MergesAll addresses response1 response2 ↔
      ∀ a ∈ addresses, ¬ (response1.get a = some [] ∧ response2.get a = some []) := by
  apply forall₂_congr
  intro a ha
  rw [get_mergeTransfersResponse haddresses ha]
  rcases listOf_spec (a := a) h1 h2 with ⟨hnone, hempty⟩ | ⟨hlist, hempty⟩
  · apply iff_of_false
    · rintro ⟨list, hsome, -⟩
      rw [hnone] at hsome
      cases hsome
    · exact fun h => h hempty
  · exact iff_of_true hlist hempty

/-- A response with one transaction. -/
def oneTransaction (transfer : ℕ) : TransfersResponse ℕ :=
  [("0xa", [⟨1, "0x1", 1, 1, 1, 1, 1, [transfer]⟩])]

theorem differentHashes_oneTransaction (transfer : ℕ) :
    DifferentHashes (oneTransaction transfer) := by
  intro a list h
  obtain ⟨-, rfl⟩ := Prod.mk.inj (List.mem_singleton.mp (JsMap.mem_of_get h))
  exact List.nodup_singleton _

/-- A transaction that both responses have. -/
theorem merged_shared : MergesAll ["0xa"] (oneTransaction 1) (oneTransaction 2) := by
  apply (merged_iff _ _ _ (List.nodup_singleton _) (differentHashes_oneTransaction 1)
    (differentHashes_oneTransaction 2)).mpr
  intro a _ ⟨h, _⟩
  cases (Prod.mk.inj (List.mem_singleton.mp (JsMap.mem_of_get h))).2

/-- For an address with two empty lists there is none. -/
theorem empty_unmerged : ¬ @MergesAll ℕ ["0xa"] [("0xa", [])] [("0xa", [])] := by
  intro H
  obtain ⟨list, hlist, -⟩ := H "0xa" List.mem_cons_self
  cases hlist

end MergedTransfers
end Account
end DefiBackend
