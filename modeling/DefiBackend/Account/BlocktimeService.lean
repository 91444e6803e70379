import DefiBackend.Common.Int32
import DefiBackend.Theory.ChordSearch
import DefiBackend.Theory.Descent

/-! # The block at a time

`BlocktimeService.getBlockFromDate` of `apps/account`: from a guess on, `estimateBlockTimes` goes by
as many blocks as there are average block times in what the time of the block is off by.

* `FindsBlock`: the search comes to an end, has asked for blocks of the chain only, and its block is
  less than the tolerance off.
* A search finds a block exactly when no block that it is led to leads out of the chain or back to
  itself. This is so where, from some block on, blocks take less than twice the average time, and
  the target is nearer to the first guess than to both ends (`getBlockFromDate_correct`).

The seconds of the blocks and the average are exact. A node answers a request in the same way each
time. -/

namespace DefiBackend
namespace Account
namespace BlocktimeService
open Theory Relation JsNumber

/-- A chain up to its latest block, with the second at which each block comes. -/
structure Chain where
  latest : ℕ
  timestamp : ℕ → ℕ
  increasing : ∀ m n, m < n → n ≤ latest → timestamp m < timestamp n

structure Block where
  number : ℕ
  timestamp : ℕ

structure BlockTimestamp where
  date : JsNumber
  block : ℕ
  timestamp : JsNumber

namespace Chain
variable (chain : Chain)

def block (n : ℕ) : Block := ⟨n, chain.timestamp n⟩

/-- `web3.eth.getBlock` of a number: after the latest block, it is `null`. -/
def getBlock : JsNumber → Except String (Option Block)
  | .finite q =>
    if q.den = 1 ∧ 0 ≤ q then
      .ok (if q.num.toNat ≤ chain.latest then some (chain.block q.num.toNat) else none)
    else .error "invalid number"
  | .infinity _ | .nan => .error "invalid number"

/-- A number of a block of the chain. -/
def IsBlockNumber (guess : JsNumber) : Prop := ∃ n ≤ chain.latest, guess = finite n

end Chain

/-- `retry` of `libs/common`. -/
def retry (action : Except String α) : ℕ → Except String α
  | 0 => action
  | maxRetries + 1 =>
    match action with
    | .ok a => .ok a
    | .error _ => retry action maxRetries

/-- A property of what a node has answered is read. -/
def dereference : Option Block → Except String Block
  | some block => .ok block
  | none => .error "TypeError"

/-- The time of `new Date(ms)`. -/
def newDate : JsNumber → JsNumber
  | .finite q => if |q| ≤ 8640000000000000 then .finite (truncate q) else .nan
  | .infinity _ | .nan => .nan

/-- The date of a block. -/
def guessedTime (guessedBlock : Block) : JsNumber :=
  newDate (finite guessedBlock.timestamp * finite 1000)

/-- The seconds that a block is later than the target. -/
def difference (target : ℤ) (guessedBlock : Block) : JsNumber :=
  floor ((guessedTime guessedBlock - finite target) / finite 1000)

/-- A block that a call of `estimateBlockTimes` returns. -/
def foundBlock (guessedBlock : Block) : BlockTimestamp :=
  ⟨guessedTime guessedBlock, guessedBlock.number,
    ofInt32 (guessedTime guessedBlock / finite 1000).toInt32⟩

/-- The guess with which `estimateBlockTimes` calls itself. -/
def nextGuess (target : ℤ) (avgBlockTime : JsNumber) (guessedBlock : Block) : JsNumber :=
  finite guessedBlock.number - floor (difference target guessedBlock / avgBlockTime)

/-- The numbers that have been asked for, and what has been returned or thrown, if anything. -/
structure Search where
  requests : List JsNumber
  answer : Option (Except String BlockTimestamp)

section
variable (chain : Chain) (target : ℤ)

/-- So many calls of `estimateBlockTimes`, from a guess on. -/
def estimateBlockTimes (avgBlockTime tolerance : JsNumber) : ℕ → JsNumber → Search
  | 0, _ => ⟨[], none⟩
  | calls + 1, guess =>
    match retry (chain.getBlock guess) 3 >>= dereference with
    | .error e => ⟨[guess], some (.error e)⟩
    | .ok guessedBlock =>
      if (abs (difference target guessedBlock)).lt tolerance then
        ⟨[guess], some (.ok (foundBlock guessedBlock))⟩
      else
        let search := estimateBlockTimes avgBlockTime tolerance calls
          (nextGuess target avgBlockTime guessedBlock)
        ⟨guess :: search.requests, search.answer⟩

/-- The average time of the blocks between two. -/
def avgBlockTime (latestBlock earlyBlock : Block) : JsNumber :=
  (finite latestBlock.timestamp - finite earlyBlock.timestamp) /
    (finite latestBlock.number - finite earlyBlock.number)

/-- The block before the latest one by the blocks of a day. -/
def firstGuess (latestBlock : Block) (avgBlockTime : JsNumber) : JsNumber :=
  finite latestBlock.number - floor (finite 86400 / avgBlockTime)

/-- The search, with so many calls of `estimateBlockTimes`. -/
def getBlockFromDate (calls : ℕ) : Search :=
  let latestBlock := chain.block chain.latest
  let earlyNumber := floor (finite latestBlock.number * finite (3 / 4))
  match retry (chain.getBlock earlyNumber) 3 >>= dereference with
  | .error e => ⟨[earlyNumber], some (.error e)⟩
  | .ok earlyBlock =>
    let avg := avgBlockTime latestBlock earlyBlock
    let search := estimateBlockTimes chain target avg (finite 900) calls (firstGuess latestBlock avg)
    ⟨earlyNumber :: search.requests, search.answer⟩

/-- A block of the chain with its date, less than 15 minutes off. -/
def IsRight (found : BlockTimestamp) : Prop :=
  ∃ n ≤ chain.latest, found.block = n ∧ found.date = finite (1000 * chain.timestamp n) ∧
    |1000 * (chain.timestamp n : ℤ) - target| < 1000 * 900

/-- The search ends after some calls with a right block, and all its requests are for blocks of the
chain. -/
def FindsBlock : Prop :=
  ∃ calls found, (getBlockFromDate chain target calls).answer = some (.ok found) ∧
    IsRight chain target found ∧
    ∀ guess ∈ (getBlockFromDate chain target calls).requests, chain.IsBlockNumber guess

end

/-! ## Requests -/

theorem retry_eq (action : Except String α) (maxRetries : ℕ) : retry action maxRetries = action := by
  induction maxRetries with
  | zero => rfl
  | succ maxRetries ih =>
    cases action with
    | ok a => rfl
    | error e => exact ih

section
variable {chain : Chain} {guess : JsNumber}

theorem getBlock_natCast {n : ℕ} (h : n ≤ chain.latest) :
    chain.getBlock (finite n) = .ok (some (chain.block n)) := by
  simp [Chain.getBlock, h]

theorem request_block {n : ℕ} (h : n ≤ chain.latest) :
    retry (chain.getBlock (finite n)) 3 >>= dereference = .ok (chain.block n) := by
  rw [retry_eq, getBlock_natCast h]
  rfl

/-- Only the numbers of blocks are answered with a block. -/
theorem isBlockNumber_of_request {block : Block}
    (h : retry (chain.getBlock guess) 3 >>= dereference = .ok block) : chain.IsBlockNumber guess := by
  rw [retry_eq] at h
  cases guess with
  | infinity _ => cases h
  | nan => cases h
  | finite q =>
    rw [Chain.getBlock] at h
    split at h
    · next hq =>
      split at h
      · next hlatest =>
        refine ⟨q.num.toNat, hlatest, congrArg finite ?_⟩
        have hnum : ((q.num.toNat : ℤ) : ℚ) = q := by
          rw [Int.toNat_of_nonneg (Rat.num_nonneg.mpr hq.2), Rat.coe_int_num_of_den_eq_one hq.1]
        exact_mod_cast hnum.symm
      · cases h
    · cases h

end

/-! ## Calls -/

section
variable (chain : Chain) (target : ℤ)

/-- The time of a block is less than 15 minutes off. -/
def Near (n : ℕ) : Prop := (abs (difference target (chain.block n))).lt (finite 900)

instance : DecidablePred (Near chain target) :=
  fun n => inferInstanceAs (Decidable ((abs (difference target (chain.block n))).lt (finite 900)))

/-- The block before which three quarters of the others are. -/
def Chain.earlyBlock : Block := chain.block (3 * chain.latest / 4)

/-- The average time of the blocks in the last quarter. -/
def Chain.avgBlockTime : JsNumber :=
  BlocktimeService.avgBlockTime (chain.block chain.latest) chain.earlyBlock

/-- The guess that a search starts from. -/
def Chain.firstGuess : JsNumber :=
  BlocktimeService.firstGuess (chain.block chain.latest) chain.avgBlockTime

/-- The first guess is a block that is too far off, and the second is where it leads. -/
def Leads (guess guess' : JsNumber) : Prop :=
  ∃ n ≤ chain.latest, guess = finite n ∧ ¬ Near chain target n ∧
    guess' = nextGuess target chain.avgBlockTime (chain.block n)

end

section
variable {chain : Chain} {target : ℤ} {avg guess : JsNumber} {calls n : ℕ} {found : BlockTimestamp}

theorem estimateBlockTimes_near (hn : n ≤ chain.latest) (h : Near chain target n) :
    estimateBlockTimes chain target avg (finite 900) (calls + 1) (finite n) =
      ⟨[finite n], some (.ok (foundBlock (chain.block n)))⟩ := by
  rw [estimateBlockTimes, request_block hn]
  exact if_pos h

theorem estimateBlockTimes_far (hn : n ≤ chain.latest) (h : ¬ Near chain target n) :
    estimateBlockTimes chain target avg (finite 900) (calls + 1) (finite n) =
      let search := estimateBlockTimes chain target avg (finite 900) calls
        (nextGuess target avg (chain.block n))
      ⟨finite n :: search.requests, search.answer⟩ := by
  rw [estimateBlockTimes, request_block hn]
  exact if_neg h

/-- A search that returns a block has started from a block. -/
theorem isBlockNumber_of_answer (h : (estimateBlockTimes chain target avg (finite 900) calls
    guess).answer = some (.ok found)) :
    chain.IsBlockNumber guess := by
  cases calls with
  | zero => cases h
  | succ calls =>
    rw [estimateBlockTimes] at h
    split at h
    · cases h
    · next hblock => exact isBlockNumber_of_request hblock

/-- What is near by the check is less than the tolerance off. -/
theorem isRight_foundBlock (hn : n ≤ chain.latest) (h : Near chain target n) :
    IsRight chain target (foundBlock (chain.block n)) := by
  have htime : guessedTime (chain.block n) = finite (1000 * chain.timestamp n) := by
    rw [Near, difference] at h
    have hdate : guessedTime (chain.block n) = finite (1000 * chain.timestamp n) ∨
        guessedTime (chain.block n) = nan := by
      change newDate (finite _) = _ ∨ newDate (finite _) = _
      rw [newDate]
      split
      · left
        have hcast : ((chain.block n).timestamp * 1000 : ℚ) =
            ((1000 * chain.timestamp n : ℤ) : ℚ) := by
          push_cast
          exact mul_comm _ _
        rw [hcast, truncate_of_den (Rat.den_intCast _), Rat.num_intCast]
        push_cast
        rfl
      · exact .inr rfl
    rcases hdate with hdate | hdate
    · exact hdate
    · rw [hdate] at h
      cases h
  refine ⟨n, hn, rfl, htime, ?_⟩
  rw [Near, difference, htime, finite_sub, finite_div _ (by norm_num)] at h
  have hfloor : |⌊((1000 * chain.timestamp n - target) / 1000 : ℚ)⌋| < 900 := by
    have hcast : ((|⌊((1000 * chain.timestamp n - target) / 1000 : ℚ)⌋| : ℤ) : ℚ) < 900 := by
      push_cast
      exact of_decide_eq_true h
    exact_mod_cast hcast
  obtain ⟨hlow, hhigh⟩ := abs_lt.mp hfloor
  have hlow : (-900 : ℤ) ≤ ⌊((1000 * chain.timestamp n - target) / 1000 : ℚ)⌋ - 1 := by omega
  have hhigh : ⌊((1000 * chain.timestamp n - target) / 1000 : ℚ)⌋ < 900 := hhigh
  rw [Int.floor_lt, div_lt_iff₀ (by norm_num)] at hhigh
  rw [le_sub_iff_add_le, Int.le_floor, le_div_iff₀ (by norm_num)] at hlow
  push_cast at hlow hhigh
  have hlow' : -(1000 * 900 : ℚ) < 1000 * chain.timestamp n - target := by linarith
  have hhigh' : (1000 * chain.timestamp n - target : ℚ) < 1000 * 900 := by linarith
  exact abs_lt.mpr ⟨by exact_mod_cast hlow', by exact_mod_cast hhigh'⟩

/-- A block that is returned is right, and all blocks that have been asked for are of the chain. -/
theorem isRight_of_answer (h : (estimateBlockTimes chain target avg (finite 900) calls
    guess).answer = some (.ok found)) :
    IsRight chain target found ∧ ∀ guess' ∈ (estimateBlockTimes chain target avg (finite 900) calls
      guess).requests, chain.IsBlockNumber guess' := by
  induction calls generalizing guess with
  | zero => cases h
  | succ calls ih =>
    obtain ⟨n, hn, rfl⟩ := isBlockNumber_of_answer h
    by_cases hnear : Near chain target n
    · rw [estimateBlockTimes_near hn hnear] at h ⊢
      cases h
      exact ⟨isRight_foundBlock hn hnear, List.forall_mem_singleton.mpr ⟨n, hn, rfl⟩⟩
    · rw [estimateBlockTimes_far hn hnear] at h ⊢
      obtain ⟨hright, hrequests⟩ := ih h
      exact ⟨hright, List.forall_mem_cons.mpr ⟨⟨n, hn, rfl⟩, hrequests⟩⟩

end

/-! ## The search as a descent -/

/-- Where a guess leads if it is not near. -/
def nextGuesses (chain : Chain) (target : ℤ) (avg guess : JsNumber) : Option (List JsNumber) :=
  match chain.getBlock guess with
  | .ok (some block) => some [nextGuess target avg block]
  | _ => none

/-- The search, in which below a block is the next guess. -/
def descent (chain : Chain) (target : ℤ) (avg : JsNumber) : Descent JsNumber where
  settled guess := ∃ n ≤ chain.latest, guess = finite n ∧ Near chain target n
  below := nextGuesses chain target avg

section
variable {chain : Chain} {target : ℤ} {avg guess guess' : JsNumber} {n : ℕ}

theorem descent_below (hn : n ≤ chain.latest) :
    (descent chain target avg).below (finite n) =
      some [nextGuess target avg (chain.block n)] := by
  change nextGuesses chain target avg (finite n) = _
  rw [nextGuesses, getBlock_natCast hn]

theorem isBlockNumber_of_below {list : List JsNumber}
    (h : (descent chain target avg).below guess = some list) : chain.IsBlockNumber guess := by
  change nextGuesses chain target avg guess = _ at h
  rw [nextGuesses] at h
  split at h
  · next block hblock =>
    have hrequest : retry (chain.getBlock guess) 3 >>= dereference = .ok block := by
      rw [retry_eq, hblock]
      rfl
    exact isBlockNumber_of_request hrequest
  · cases h

theorem descent_settled_iff :
    (descent chain target avg).settled (finite n) ↔ n ≤ chain.latest ∧ Near chain target n := by
  constructor
  · rintro ⟨m, hm, hguess, hnear⟩
    have hmn : n = m := by exact_mod_cast finite.inj hguess
    exact hmn ▸ ⟨hm, hnear⟩
  · exact fun ⟨hn, hnear⟩ => ⟨n, hn, rfl, hnear⟩

theorem descent_finitelyBelow : (descent chain target avg).FinitelyBelow := by
  apply ((Set.finite_le_nat chain.latest).image fun n =>
    nextGuess target avg (chain.block n)).subset
  rintro guess ⟨guess', list, hbelow, hguess⟩
  obtain ⟨n, hn, rfl⟩ := isBlockNumber_of_below hbelow
  rw [descent_below hn] at hbelow
  cases hbelow
  exact ⟨n, hn, (List.mem_singleton.mp hguess).symm⟩

/-- A search returns a block exactly when the descent settles its guess. -/
theorem settles_iff_answer : (descent chain target avg).Settles guess ↔ ∃ calls found,
    (estimateBlockTimes chain target avg (finite 900) calls guess).answer = some (.ok found) := by
  constructor
  · intro H
    induction H with
    | settled h =>
      obtain ⟨n, hn, rfl, hnear⟩ := h
      exact ⟨1, _, congrArg Search.answer (estimateBlockTimes_near hn hnear)⟩
    | all hsettled hbelow _ ih =>
      obtain ⟨n, hn, rfl⟩ := isBlockNumber_of_below hbelow
      rw [descent_below hn] at hbelow
      cases hbelow
      obtain ⟨calls, found, hfound⟩ := ih _ (List.mem_singleton_self _)
      have hfar : ¬ Near chain target n := fun h => hsettled (descent_settled_iff.mpr ⟨hn, h⟩)
      refine ⟨calls + 1, found, ?_⟩
      rw [estimateBlockTimes_far hn hfar]
      exact hfound
  · rintro ⟨calls, found, h⟩
    induction calls generalizing guess with
    | zero => cases h
    | succ calls ih =>
      obtain ⟨n, hn, rfl⟩ := isBlockNumber_of_answer h
      by_cases hnear : Near chain target n
      · exact .settled (descent_settled_iff.mpr ⟨hn, hnear⟩)
      · rw [estimateBlockTimes_far hn hnear] at h
        have hsettled : ¬ (descent chain target avg).settled (finite n) :=
          fun hsettled => hnear (descent_settled_iff.mp hsettled).2
        exact .all hsettled (descent_below hn) (List.forall_mem_singleton.mpr (ih h))

theorem step_iff_leads :
    (descent chain target chain.avgBlockTime).Step guess guess' ↔ Leads chain target guess guess' := by
  constructor
  · rintro ⟨hsettled, list, hbelow, hguess⟩
    obtain ⟨n, hn, rfl⟩ := isBlockNumber_of_below hbelow
    rw [descent_below hn] at hbelow
    cases hbelow
    exact ⟨n, hn, rfl, fun h => hsettled (descent_settled_iff.mpr ⟨hn, h⟩),
      List.mem_singleton.mp hguess⟩
  · rintro ⟨n, hn, rfl, hfar, rfl⟩
    exact ⟨fun h => hfar (descent_settled_iff.mp h).2, _, descent_below hn,
      List.mem_singleton_self _⟩

theorem settled_or_below_iff : (descent chain target avg).settled guess ∨
    ((descent chain target avg).below guess).isSome ↔ chain.IsBlockNumber guess := by
  constructor
  · rintro (⟨n, hn, hguess, -⟩ | h)
    · exact ⟨n, hn, hguess⟩
    · obtain ⟨list, hlist⟩ := Option.isSome_iff_exists.mp h
      exact isBlockNumber_of_below hlist
  · rintro ⟨n, hn, rfl⟩
    exact .inr (descent_below hn ▸ rfl)

theorem sound_iff : (descent chain target chain.avgBlockTime).Sound guess ↔
    (∀ guess', ReflTransGen (Leads chain target) guess guess' → chain.IsBlockNumber guess') ∧
      AcyclicFrom (Leads chain target) guess := by
  have hstep : (descent chain target chain.avgBlockTime).Step = Leads chain target :=
    funext fun _ => funext fun _ => propext step_iff_leads
  rw [Descent.Sound, hstep]
  exact and_congr_left fun _ => forall₂_congr fun _ _ => settled_or_below_iff

end

/-- The search goes on from the first guess of the chain. -/
theorem getBlockFromDate_eq (chain : Chain) (target : ℤ) (calls : ℕ) :
    getBlockFromDate chain target calls =
      let search := estimateBlockTimes chain target chain.avgBlockTime (finite 900) calls
        chain.firstGuess
      ⟨finite (3 * chain.latest / 4 : ℕ) :: search.requests, search.answer⟩ := by
  have hearly : floor (finite (chain.block chain.latest).number * finite (3 / 4)) =
      finite (3 * chain.latest / 4 : ℕ) := by
    change finite ⌊(chain.latest : ℚ) * (3 / 4)⌋ = _
    have hquotient : (chain.latest : ℚ) * (3 / 4) = ((3 * chain.latest : ℕ) : ℤ) / (4 : ℕ) := by
      push_cast
      ring
    rw [hquotient, Rat.floor_intCast_div_natCast]
    rfl
  rw [getBlockFromDate, hearly, request_block (by omega)]
  rfl

theorem findsBlock_iff_settles {chain : Chain} {target : ℤ} : FindsBlock chain target ↔
    (descent chain target chain.avgBlockTime).Settles chain.firstGuess := by
  rw [settles_iff_answer]
  constructor
  · rintro ⟨calls, found, h, -⟩
    rw [getBlockFromDate_eq] at h
    exact ⟨calls, found, h⟩
  · rintro ⟨calls, found, h⟩
    obtain ⟨hright, hrequests⟩ := isRight_of_answer h
    refine ⟨calls, found, ?_⟩
    rw [getBlockFromDate_eq]
    exact ⟨h, hright, List.forall_mem_cons.mpr ⟨⟨_, by omega, rfl⟩, hrequests⟩⟩

/-! ## Steady chains -/

namespace Chain
variable (chain : Chain) (target : ℤ)

/-- The average time of the blocks in the last quarter, of two blocks or more. -/
def average : ℚ :=
  ((chain.timestamp chain.latest : ℚ) - chain.timestamp (3 * chain.latest / 4)) /
    ((chain.latest : ℚ) - (3 * chain.latest / 4 : ℕ))

/-- The number of the block that is a day before the latest one, on the average. -/
def dayAgo : ℤ := chain.latest - ⌊86400 / chain.average⌋

/-- The seconds that a block is later than the target, which is given in milliseconds. -/
def secondsOff (n : ℤ) : ℤ := chain.timestamp n.toNat - ⌈(target : ℚ) / 1000⌉

/-- From block `m` on there are the blocks of a day, which come every 15 minutes or more often, and
take less than twice the average time of one block less, or less than half an hour; the target is
not farther from the block a day ago than from block `m` and from the latest one. -/
structure SteadyFrom (m : ℕ) : Prop where
  latest_pos : 0 < chain.latest
  timestamp_le : chain.timestamp chain.latest ≤ 8640000000000
  average_le : chain.average ≤ 900
  span_lt : ∀ i j, m ≤ i → i < j → j ≤ chain.latest →
    (chain.timestamp j - chain.timestamp i : ℚ) < 2 * max 900 ((j - i - 1) * chain.average)
  le_dayAgo : m ≤ chain.dayAgo
  off_le_first : |chain.secondsOff target chain.dayAgo| ≤ -chain.secondsOff target m
  off_le_last : |chain.secondsOff target chain.dayAgo| ≤ chain.secondsOff target chain.latest

end Chain

section
variable {chain : Chain} {target : ℤ} {n m : ℕ}

theorem average_pos (h : 0 < chain.latest) : 0 < chain.average := by
  have hlt : 3 * chain.latest / 4 < chain.latest := by omega
  have htime := chain.increasing _ _ hlt le_rfl
  apply div_pos
  · exact sub_pos.mpr (by exact_mod_cast htime)
  · exact sub_pos.mpr (by exact_mod_cast hlt)

theorem avgBlockTime_eq (h : 0 < chain.latest) : chain.avgBlockTime = finite chain.average := by
  have hlt : 3 * chain.latest / 4 < chain.latest := by omega
  have hblocks : (chain.latest : ℚ) - (3 * chain.latest / 4 : ℕ) ≠ 0 :=
    (sub_pos.mpr (by exact_mod_cast hlt)).ne'
  rw [Chain.avgBlockTime, avgBlockTime, finite_sub, finite_sub]
  exact finite_div _ hblocks

theorem firstGuess_eq (h : 0 < chain.latest) : chain.firstGuess = finite chain.dayAgo := by
  rw [Chain.firstGuess, firstGuess, avgBlockTime_eq h, finite_div _ (average_pos h).ne']
  change finite _ - finite ⌊86400 / chain.average⌋ = _
  rw [finite_sub, Chain.dayAgo]
  push_cast
  rfl

theorem difference_eq (h : chain.timestamp n ≤ 8640000000000) :
    difference target (chain.block n) = finite (chain.secondsOff target n) := by
  have htime : guessedTime (chain.block n) = finite ((1000 * chain.timestamp n : ℤ) : ℚ) := by
    have hcast : ((chain.timestamp n * 1000 : ℚ)) = ((1000 * chain.timestamp n : ℤ) : ℚ) := by
      push_cast
      exact mul_comm _ _
    have hdate : |((1000 * chain.timestamp n : ℤ) : ℚ)| ≤ 8640000000000000 := by
      rw [abs_of_nonneg (by positivity)]
      push_cast
      have hseconds : (chain.timestamp n : ℚ) ≤ 8640000000000 := by exact_mod_cast h
      linarith
    change newDate (finite (chain.timestamp n * 1000)) = _
    rw [newDate, hcast, if_pos hdate, truncate_of_den (Rat.den_intCast _), Rat.num_intCast]
  rw [difference, htime, finite_sub, finite_div _ (by norm_num)]
  change finite ⌊_⌋ = _
  have hoff : (((1000 * chain.timestamp n : ℤ) : ℚ) - target) / 1000 =
      -(target / 1000 : ℚ) + (chain.timestamp n : ℤ) := by
    push_cast
    ring
  rw [hoff, Int.floor_add_intCast, Int.floor_neg, Chain.secondsOff, Int.toNat_natCast]
  push_cast
  ring_nf

theorem near_iff (h : chain.timestamp n ≤ 8640000000000) :
    Near chain target n ↔ |chain.secondsOff target n| < 900 := by
  rw [Near, difference_eq h]
  change decide (|(chain.secondsOff target n : ℚ)| < 900) = true ↔ _
  rw [decide_eq_true_iff]
  exact_mod_cast Iff.rfl

theorem nextGuess_eq (hlatest : 0 < chain.latest) (h : chain.timestamp n ≤ 8640000000000) :
    nextGuess target chain.avgBlockTime (chain.block n) =
      finite (chord (chain.secondsOff target) chain.average n) := by
  rw [nextGuess, difference_eq h, avgBlockTime_eq hlatest,
    finite_div _ (average_pos hlatest).ne']
  change finite _ - finite ⌊_⌋ = _
  rw [finite_sub, chord]
  push_cast
  rfl

theorem timestamp_le_latest (hn : n ≤ chain.latest) : chain.timestamp n ≤ chain.timestamp chain.latest := by
  rcases hn.lt_or_eq with h | rfl
  · exact (chain.increasing _ _ h le_rfl).le
  · exact le_rfl

namespace Chain.SteadyFrom
variable (H : chain.SteadyFrom target m)
include H

theorem dayAgo_le : chain.dayAgo ≤ chain.latest := by
  have hday : 0 ≤ ⌊86400 / chain.average⌋ := by
    apply Int.floor_nonneg.mpr
    have haverage := average_pos H.latest_pos
    positivity
  rw [dayAgo]
  omega

/-- The seconds off are steady errors. -/
theorem steady : Steady (chain.secondsOff target) chain.average 900 m chain.latest where
  tolerance_pos := by norm_num
  slope_pos := average_pos H.latest_pos
  slope_le := H.average_le
  increasing i j hi hij hj := by
    have htime := chain.increasing i.toNat j.toNat (by omega) (by omega)
    rw [secondsOff, secondsOff]
    omega
  span_lt i j hi hij hj := by
    obtain ⟨i, rfl⟩ := Int.eq_ofNat_of_zero_le (by omega : 0 ≤ i)
    obtain ⟨j, rfl⟩ := Int.eq_ofNat_of_zero_le (by omega : 0 ≤ j)
    have hspan := H.span_lt i j (by omega) (by omega) (by omega)
    rw [secondsOff, secondsOff, sub_sub_sub_cancel_right]
    push_cast [Int.toNat_natCast]
    exact hspan

/-- The search of a steady chain settles every block that is not farther off than the first guess.
-/
theorem settles : (descent chain target chain.avgBlockTime).Settles chain.firstGuess := by
  have hdate : ∀ n ≤ chain.latest, chain.timestamp n ≤ 8640000000000 :=
    fun n hn => (timestamp_le_latest hn).trans H.timestamp_le
  rw [firstGuess_eq H.latest_pos]
  apply H.steady.search_induction (motive := fun n : ℤ =>
    (descent chain target chain.avgBlockTime).Settles (finite n)) H.off_le_first H.off_le_last
  · intro n hn hn' hsmall
    obtain ⟨n, rfl⟩ := Int.eq_ofNat_of_zero_le (by omega : 0 ≤ n)
    have hn' : n ≤ chain.latest := by omega
    exact .settled ⟨n, hn', rfl, (near_iff (hdate n hn')).mpr hsmall⟩
  · intro n hn hn' hfar hnext
    obtain ⟨n, rfl⟩ := Int.eq_ofNat_of_zero_le (by omega : 0 ≤ n)
    have hn' : n ≤ chain.latest := by omega
    have hsettled : ¬ (descent chain target chain.avgBlockTime).settled (finite (n : ℕ)) := by
      intro h
      exact hfar.not_gt ((near_iff (hdate n hn')).mp (descent_settled_iff.mp h).2)
    apply Descent.Settles.all hsettled (descent_below hn')
    rw [List.forall_mem_singleton, nextGuess_eq H.latest_pos (hdate n hn')]
    exact hnext
  · exact H.le_dayAgo
  · exact H.dayAgo_le
  · exact le_rfl

end Chain.SteadyFrom

end

/-- A search finds a block exactly when what its first guess leads to are blocks of the chain, and
none of them leads back to itself. It finds one where the chain is steady. -/
theorem getBlockFromDate_correct (chain : Chain) (target : ℤ) :
    (FindsBlock chain target ↔
      (∀ guess, ReflTransGen (Leads chain target) chain.firstGuess guess →
        chain.IsBlockNumber guess) ∧
      AcyclicFrom (Leads chain target) chain.firstGuess) ∧
    ∀ m, chain.SteadyFrom target m → FindsBlock chain target := by
  constructor
  · rw [findsBlock_iff_settles, Descent.settles_iff_sound descent_finitelyBelow, sound_iff]
  · intro m H
    exact findsBlock_iff_settles.mpr H.settles

/-- A chain with a block every 864 seconds. -/
def even : Chain where
  latest := 200
  timestamp n := 864 * n
  increasing := by omega

theorem even_average : even.average = 864 := by
  norm_num [Chain.average, even]

/-- The first guess, block 100, is ten hours off; a block near the target is found. -/
theorem even_findsBlock : 1000 * 36000 ≤ |1000 * (even.timestamp 100 : ℤ) - 50000000| ∧
    FindsBlock even 50000000 := by
  refine ⟨by decide, (getBlockFromDate_correct even 50000000).2 0 ?_⟩
  have hday : even.dayAgo = 100 := by
    rw [Chain.dayAgo, even_average]
    norm_num [even]
  constructor
  · decide
  · decide
  · rw [even_average]
    norm_num
  · intro i j _ hij _
    rw [even_average]
    change ((864 * j : ℕ) - (864 * i : ℕ) : ℚ) < _
    have hij : (i : ℚ) + 1 ≤ j := by exact_mod_cast hij
    push_cast
    rcases le_or_gt ((j : ℚ) - i) 2 with h | h
    · have hmax : (900 : ℚ) ≤ max (900 : ℚ) (((j : ℚ) - i - 1) * 864) := le_max_left _ _
      linarith
    · have hmax : ((j : ℚ) - i - 1) * 864 ≤ max (900 : ℚ) (((j : ℚ) - i - 1) * 864) := le_max_right _ _
      linarith
  · rw [hday]
    norm_num
  · rw [hday]
    norm_num [Chain.secondsOff, even]
  · rw [hday]
    norm_num [Chain.secondsOff, even]

/-! ## A gap -/

/-- A chain on which a block every 864 seconds comes, but for half an hour around block 101. -/
def gap : Chain where
  latest := 200
  timestamp n := if n ≤ 100 then 864 * n else if n = 101 then 87300 else 864 * n + 900
  increasing m n hmn hn := by
    split_ifs <;> omega

/-- The search for block 101 goes from block 100 to block 102 and back without end. -/
theorem gap_endless : |1000 * (gap.timestamp 101 : ℤ) - 87300000| < 1000 * 900 ∧
    ¬ FindsBlock gap 87300000 := by
  refine ⟨by decide, fun H => ?_⟩
  have hsound : AcyclicFrom (Leads gap 87300000) gap.firstGuess :=
    (sound_iff.mp (findsBlock_iff_settles.mp H).sound).2
  have hup : Leads gap 87300000 gap.firstGuess (finite 102) :=
    ⟨100, by decide, by decide +kernel, by decide +kernel, by decide +kernel⟩
  have hdown : Leads gap 87300000 (finite 102) gap.firstGuess :=
    ⟨102, by decide, by decide +kernel, by decide +kernel, by decide +kernel⟩
  exact hsound _ .refl (.tail (.single hup) hdown)

end BlocktimeService
end Account
end DefiBackend
