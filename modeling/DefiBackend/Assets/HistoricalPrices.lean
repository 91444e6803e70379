import Mathlib.Algebra.Ring.Rat
import Mathlib.Data.Int.LeastGreatest
import Mathlib.Data.List.Induction

/-! # Historical prices

`assets/modules/prices`: snapshots of the current prices go to a table, a clean-up keeps of the rows
older than 2 days the first one of each hour, and of those older than 7 days the ones of every
fourth hour. A request for a price asks for the rows within a time range that grows with the age of
the instant asked for.

* `mem_run_iff`: which snapshots are in the table after a history of snapshots and clean-ups.
* `Request.found_iff`: when a request finds a row. The clean-up goes by the age of a row and the
  time range by that of the instant, which may be younger than the row.

Times are those of the table, in microseconds. -/

namespace DefiBackend
namespace Assets
namespace HistoricalPrices

abbrev AssetId := Nat

def millisecond : Int := 1000
def minute : Int := 60 * 1000 * millisecond
def hour : Int := 60 * minute
def day : Int := 24 * hour

/-- `AssetHistoricalPriceEntity`. An asset has no two rows of one timestamp. -/
structure AssetHistoricalPrice where
  asset : AssetId
  price : Rat
  timestamp : Int
  deriving DecidableEq

/-! ## Rows -/

/-- The rows of `insertChunkAssetPrices`, for the assets with the prices that are cached for
them. -/
def insertChunkAssetPrices (now : Int) (trackedAssetsChunk : List (AssetId × Option Rat)) :
    List AssetHistoricalPrice :=
  trackedAssetsChunk.filterMap fun trackedAsset =>
    (trackedAsset.2.filter (· ≠ 0)).map fun price => ⟨trackedAsset.1, price, now⟩

/-- `DATE_TRUNC('hour', "timestamp")`, in hours. -/
def dateTruncHour (timestamp : Int) : Int := timestamp / hour

/-- `EXTRACT(HOUR FROM "timestamp")`. -/
def extractHour (timestamp : Int) : Int := timestamp / hour % 24

/-- A row is the first one of its hour and asset. -/
def isFirst (rows : List AssetHistoricalPrice) (row : AssetHistoricalPrice) : Bool :=
  rows.all fun other =>
    !(other.asset = row.asset ∧ dateTruncHour other.timestamp = dateTruncHour row.timestamp ∧
      other.timestamp < row.timestamp)

/-- What `clearPrices` deletes at the time `now`. -/
def cleared (now : Int) (rows : List AssetHistoricalPrice) (row : AssetHistoricalPrice) : Bool :=
  (row.timestamp < now - 2 * day && !isFirst rows row) ||
    (row.timestamp < now - 7 * day && extractHour row.timestamp ∉ [0, 4, 8, 12, 16, 20])

def clearPrices (now : Int) (rows : List AssetHistoricalPrice) : List AssetHistoricalPrice :=
  rows.filter (!cleared now rows ·)

/-- `getTimeRange`, at the time `now`. -/
def getTimeRange (now priceAt : Int) : Int :=
  let timeDiff : Int := (now - priceAt).natAbs
  let isPariceAtIn2Days := timeDiff < 2 * day
  let isPariceAtIn7Days := timeDiff < 7 * day
  if isPariceAtIn2Days then 15 * minute
  else if isPariceAtIn7Days then 60 * minute
  else 240 * minute

structure HistoricalPriceRequest where
  assetId : AssetId
  pricesAt : List Int

/-- `AssetsHistoricalPriceRepository.getPrices`, at the time `now`. -/
def getPrices (now : Int) (rows : List AssetHistoricalPrice)
    (requests : List HistoricalPriceRequest) : List AssetHistoricalPrice :=
  rows.filter fun row => requests.any fun request => request.pricesAt.any fun priceAt =>
    let timeRange := getTimeRange now priceAt
    row.asset = request.assetId ∧ priceAt - timeRange ≤ row.timestamp ∧
      row.timestamp ≤ priceAt + timeRange

/-! ## Histories -/

/-- Statements that go through, each at its time. -/
inductive Action
  | insert (now : Int) (trackedAssetsChunk : List (AssetId × Option Rat))
  | clear (now : Int)

def Action.now : Action → Int
  | .insert now _ => now
  | .clear now => now

/-- The rows that an action inserts. -/
def Action.inserted : Action → List AssetHistoricalPrice
  | .insert now trackedAssetsChunk => insertChunkAssetPrices now trackedAssetsChunk
  | .clear _ => []

def step (rows : List AssetHistoricalPrice) : Action → List AssetHistoricalPrice
  | .insert now trackedAssetsChunk => rows ++ insertChunkAssetPrices now trackedAssetsChunk
  | .clear now => clearPrices now rows

/-- The table after a history. -/
def run (history : List Action) : List AssetHistoricalPrice := history.foldl step []

/-- A snapshot of an asset is taken at a time. -/
def Snapshot (history : List Action) (asset : AssetId) (time : Int) : Prop :=
  ∃ action ∈ history, ∃ row ∈ action.inserted, row.asset = asset ∧ row.timestamp = time

/-- A clean-up runs at a time. -/
def Cleanup (history : List Action) (now : Int) : Prop := .clear now ∈ history

/-- Earlier actions come first. -/
def Chronological (history : List Action) : Prop := history.Pairwise fun a b => a.now ≤ b.now

/-- No clean-up deletes the snapshot of an asset that was taken at a time. -/
structure Kept (history : List Action) (asset : AssetId) (time : Int) : Prop where
  snapshot : Snapshot history asset time
  first : ∀ now, Cleanup history now → time < now - 2 * day → ∀ other,
    Snapshot history asset other → dateTruncHour other = dateTruncHour time → time ≤ other
  fourth : ∀ now, Cleanup history now → time < now - 7 * day →
    extractHour time ∈ [0, 4, 8, 12, 16, 20]

theorem insertChunkAssetPrices_timestamp (h : row ∈ insertChunkAssetPrices now chunk) :
    row.timestamp = now := by
  obtain ⟨trackedAsset, -, hrow⟩ := List.mem_filterMap.mp h
  obtain ⟨price, -, rfl⟩ := Option.map_eq_some_iff.mp hrow
  rfl

theorem inserted_timestamp {action : Action} (h : row ∈ action.inserted) :
    row.timestamp = action.now := by
  cases action with
  | insert now chunk => exact insertChunkAssetPrices_timestamp h
  | clear now => cases h

theorem snapshot_append : Snapshot (history ++ [action]) asset time ↔
    Snapshot history asset time ∨ ∃ row ∈ action.inserted, row.asset = asset ∧ row.timestamp = time := by
  constructor
  · rintro ⟨a, ha, h⟩
    rcases List.mem_append.mp ha with ha | ha
    · exact .inl ⟨a, ha, h⟩
    · rw [List.mem_singleton.mp ha] at h
      exact .inr h
  · rintro (⟨a, ha, h⟩ | h)
    · exact ⟨a, List.mem_append_left _ ha, h⟩
    · exact ⟨action, List.mem_append_right _ List.mem_cons_self, h⟩

theorem cleanup_append : Cleanup (history ++ [action]) now ↔
    Cleanup history now ∨ action = .clear now := by
  rw [Cleanup, List.mem_append, List.mem_singleton]
  exact or_congr_right eq_comm

theorem chronological_append : Chronological (history ++ [action]) ↔
    Chronological history ∧ ∀ a ∈ history, a.now ≤ action.now := by
  rw [Chronological, List.pairwise_append]
  constructor
  · rintro ⟨h, -, hle⟩
    exact ⟨h, fun a ha => hle a ha action List.mem_cons_self⟩
  · rintro ⟨h, hle⟩
    refine ⟨h, List.pairwise_singleton _ _, fun a ha b hb => ?_⟩
    rw [List.mem_singleton.mp hb]
    exact hle a ha

/-- A row is not the first of its hour exactly when the hour has an earlier one. -/
theorem isFirst_eq_false_iff : isFirst rows row = false ↔
    ∃ other ∈ rows, other.asset = row.asset ∧
      dateTruncHour other.timestamp = dateTruncHour row.timestamp ∧
      other.timestamp < row.timestamp := by
  rw [isFirst, List.all_eq_false]
  simp

/-- The first snapshot of an hour. -/
theorem exists_first (h : Snapshot history asset time) : ∃ first, Snapshot history asset first ∧
    dateTruncHour first = dateTruncHour time ∧ ∀ other, Snapshot history asset other →
      dateTruncHour other = dateTruncHour time → first ≤ other := by
  obtain ⟨first, ⟨hfirst, hhour⟩, hle⟩ := Int.exists_least_of_bdd
    (P := fun t => Snapshot history asset t ∧ dateTruncHour t = dateTruncHour time)
    ⟨dateTruncHour time * hour, fun t ⟨_, ht⟩ => ht ▸ Int.ediv_mul_le t (by decide)⟩ ⟨time, h, rfl⟩
  exact ⟨first, hfirst, hhour, fun other ho hh => hle other ⟨ho, hh⟩⟩

/-- The last snapshot up to an instant. -/
theorem exists_last (h : Snapshot history asset s) (hs : s ≤ t) : ∃ last,
    Snapshot history asset last ∧ last ≤ t ∧
      ∀ other, Snapshot history asset other → other ≤ t → other ≤ last := by
  obtain ⟨last, ⟨hlast, hle⟩, hmax⟩ := Int.exists_greatest_of_bdd
    (P := fun s => Snapshot history asset s ∧ s ≤ t) ⟨t, fun _ h => h.2⟩ ⟨s, h, hs⟩
  exact ⟨last, hlast, hle, fun other ho hle => hmax other ⟨ho, hle⟩⟩

/-- Two instants of one hour are less than an hour apart. -/
theorem lt_add_hour (h : dateTruncHour s = dateTruncHour t) : s < t + hour := by
  simp only [dateTruncHour, hour, minute, millisecond] at h ⊢
  omega

/-- The first snapshot of an hour goes only together with the others. -/
theorem kept_of_first (h : Kept history asset time) (hfirst : Snapshot history asset first)
    (hhour : dateTruncHour first = dateTruncHour time)
    (hle : ∀ other, Snapshot history asset other → dateTruncHour other = dateTruncHour time →
      first ≤ other) : Kept history asset first where
  snapshot := hfirst
  first _ _ _ other hother hsame := hle other hother (hsame.trans hhour)
  fourth now hnow hold := by
    by_contra hnot
    have hlt := lt_add_hour hhour.symm
    have htime : time ≤ first := h.first now hnow (by
      simp only [day, hour, minute, millisecond] at hold hlt ⊢
      omega) first hfirst hhour
    obtain rfl := Int.le_antisymm htime (hle time h.snapshot rfl)
    exact hnot (h.fourth now hnow hold)

/-- A clean-up deletes what the definition of `Kept` says. -/
theorem cleared_eq_false_iff (now : Int) {rows : List AssetHistoricalPrice} {row : AssetHistoricalPrice}
    (hrows : ∀ time, (∃ row' ∈ rows, row'.asset = row.asset ∧ row'.timestamp = time) ↔
      Kept history row.asset time) (hrow : row ∈ rows) :
    cleared now rows row = false ↔
      (row.timestamp < now - 2 * day → ∀ other, Snapshot history row.asset other →
        dateTruncHour other = dateTruncHour row.timestamp → row.timestamp ≤ other) ∧
      (row.timestamp < now - 7 * day → extractHour row.timestamp ∈ [0, 4, 8, 12, 16, 20]) := by
  have kept := (hrows _).mp ⟨row, hrow, rfl, rfl⟩
  have first_iff : isFirst rows row = true ↔ ∀ other, Snapshot history row.asset other →
      dateTruncHour other = dateTruncHour row.timestamp → row.timestamp ≤ other := by
    constructor
    · intro hisFirst other hother hhour
      by_contra hlt
      obtain ⟨first, hfirst, hfirsthour, hle⟩ := exists_first hother
      obtain ⟨row', hrow', hasset, htime⟩ := (hrows first).mpr (kept_of_first kept hfirst
        (hfirsthour.trans hhour) fun o ho hh => hle o ho (hh.trans hhour.symm))
      have := hle other hother rfl
      have hnot : isFirst rows row = false := isFirst_eq_false_iff.mpr ⟨row', hrow', hasset,
        by rw [htime, hfirsthour, hhour], by rw [htime]; omega⟩
      rw [hisFirst] at hnot
      cases hnot
    · intro hle
      by_contra hnot
      obtain ⟨row', hrow', hasset, hhour, hlt⟩ :=
        isFirst_eq_false_iff.mp (Bool.eq_false_iff.mpr hnot)
      have := hle _ ((hrows _).mp ⟨row', hrow', hasset, rfl⟩).snapshot hhour
      omega
  rw [← first_iff, cleared, Bool.or_eq_false_iff, Bool.and_eq_false_iff, Bool.and_eq_false_iff,
    decide_eq_false_iff_not, decide_eq_false_iff_not, decide_eq_false_iff_not, Bool.not_eq_false',
    Decidable.not_not, Decidable.imp_iff_not_or, Decidable.imp_iff_not_or]

theorem run_append (history : List Action) (action : Action) :
    run (history ++ [action]) = step (run history) action := by
  rw [run, List.foldl_append]
  rfl

theorem Kept.of_append (h : Kept (history ++ [action]) asset time)
    (hsnapshot : Snapshot history asset time) : Kept history asset time where
  snapshot := hsnapshot
  first now hnow hold other hother :=
    h.first now (cleanup_append.mpr (.inl hnow)) hold other (snapshot_append.mpr (.inl hother))
  fourth now hnow := h.fourth now (cleanup_append.mpr (.inl hnow))

/-- Snapshots and clean-ups of a history are not later than what comes after it. -/
theorem Snapshot.le (h : Snapshot history asset time) (hle : ∀ a ∈ history, a.now ≤ now) :
    time ≤ now := by
  obtain ⟨a, ha, row, hrow, -, rfl⟩ := h
  rw [inserted_timestamp hrow]
  exact hle a ha

theorem kept_insert_iff (hle : ∀ a ∈ history, a.now ≤ now) :
    Kept (history ++ [.insert now chunk]) asset time ↔
      Kept history asset time ∨
        ∃ row ∈ insertChunkAssetPrices now chunk, row.asset = asset ∧ row.timestamp = time := by
  constructor
  · intro h
    rcases snapshot_append.mp h.snapshot with hsnapshot | hrow
    · exact .inl (h.of_append hsnapshot)
    · exact .inr hrow
  · have cleanup : ∀ {c}, Cleanup (history ++ [.insert now chunk]) c → Cleanup history c := by
      intro c hc
      rcases cleanup_append.mp hc with hc | hc
      · exact hc
      · cases hc
    rintro (h | hrow)
    · refine ⟨snapshot_append.mpr (.inl h.snapshot), fun c hc hold other hother hhour => ?_,
        fun c hc => h.fourth c (cleanup hc)⟩
      rcases snapshot_append.mp hother with hother | ⟨row, hrow, -, rfl⟩
      · exact h.first c (cleanup hc) hold other hother hhour
      · rw [inserted_timestamp hrow]
        exact h.snapshot.le hle
    · obtain ⟨row, hrow, hasset, htime⟩ := hrow
      -- what is inserted now is younger than every clean-up before
      have young : ∀ c, Cleanup (history ++ [.insert now chunk]) c → c ≤ time := by
        intro c hc
        rw [← htime, insertChunkAssetPrices_timestamp hrow]
        exact hle (.clear c) (cleanup hc)
      refine ⟨snapshot_append.mpr (.inr ⟨row, hrow, hasset, htime⟩), fun c hc hold => ?_,
        fun c hc hold => ?_⟩
      all_goals
        have := young c hc
        simp only [day, hour, minute, millisecond] at hold
        omega

theorem kept_clear_iff : Kept (history ++ [.clear now]) asset time ↔
    Kept history asset time ∧
      (time < now - 2 * day → ∀ other, Snapshot history asset other →
        dateTruncHour other = dateTruncHour time → time ≤ other) ∧
      (time < now - 7 * day → extractHour time ∈ [0, 4, 8, 12, 16, 20]) := by
  have snapshot_iff : ∀ {t}, Snapshot (history ++ [.clear now]) asset t ↔
      Snapshot history asset t := by
    intro t
    rw [snapshot_append]
    refine or_iff_left ?_
    rintro ⟨row, hrow, -⟩
    cases hrow
  constructor
  · intro h
    have hnow : Cleanup (history ++ [.clear now]) now := cleanup_append.mpr (.inr rfl)
    exact ⟨h.of_append (snapshot_iff.mp h.snapshot),
      fun hold other hother => h.first now hnow hold other (snapshot_iff.mpr hother),
      h.fourth now hnow⟩
  · rintro ⟨h, first, fourth⟩
    refine ⟨snapshot_iff.mpr h.snapshot, fun c hc hold other hother => ?_, fun c hc => ?_⟩
    · rcases cleanup_append.mp hc with hc | hc
      · exact h.first c hc hold other (snapshot_iff.mp hother)
      · cases hc
        exact first hold other (snapshot_iff.mp hother)
    · rcases cleanup_append.mp hc with hc | hc
      · exact h.fourth c hc
      · cases hc
        exact fourth

/-- After a history the table has the snapshots that no clean-up deletes. -/
theorem mem_run_iff (h : Chronological history) (asset : AssetId) (time : Int) :
    (∃ row ∈ run history, row.asset = asset ∧ row.timestamp = time) ↔ Kept history asset time := by
  induction history using List.reverseRecOn generalizing time with
  | nil =>
    constructor
    · rintro ⟨row, hrow, -⟩
      cases hrow
    · intro h
      obtain ⟨a, ha, -⟩ := h.snapshot
      cases ha
  | append_singleton history action ih =>
    obtain ⟨hchron, hle⟩ := chronological_append.mp h
    have ih := ih hchron
    rw [run_append]
    cases action with
    | insert now chunk =>
      have hle : ∀ a ∈ history, a.now ≤ now := hle
      rw [kept_insert_iff hle, ← ih]
      constructor
      · rintro ⟨row, hrow, hrest⟩
        rcases List.mem_append.mp hrow with hrow | hrow
        · exact .inl ⟨row, hrow, hrest⟩
        · exact .inr ⟨row, hrow, hrest⟩
      · rintro (⟨row, hrow, hrest⟩ | ⟨row, hrow, hrest⟩)
        · exact ⟨row, List.mem_append_left _ hrow, hrest⟩
        · exact ⟨row, List.mem_append_right _ hrow, hrest⟩
    | clear now =>
      rw [kept_clear_iff, ← ih]
      constructor
      · rintro ⟨row, hrow, rfl, rfl⟩
        obtain ⟨hrow, hclear⟩ := List.mem_filter.mp hrow
        exact ⟨⟨row, hrow, rfl, rfl⟩,
          (cleared_eq_false_iff now ih hrow).mp (by simpa using hclear)⟩
      · rintro ⟨⟨row, hrow, rfl, rfl⟩, hkept⟩
        have hclear := (cleared_eq_false_iff now ih hrow).mpr hkept
        exact ⟨row, List.mem_filter.mpr ⟨hrow, by simpa using hclear⟩, rfl, rfl⟩

/-! ## Requests -/

/-- An asset whose snapshots are at most 15 minutes apart up to now, and a past instant at least 15
minutes after the first one. -/
structure Request where
  history : List Action
  chronological : Chronological history
  asset : AssetId
  now : Int
  le_now : ∀ action ∈ history, action.now ≤ now
  uninterrupted : ∀ s, Snapshot history asset s → s + 15 * minute < now →
    ∃ next, Snapshot history asset next ∧ s < next ∧ next ≤ s + 15 * minute
  priceAt : Int
  priceAt_le : priceAt ≤ now
  first : ∃ s, Snapshot history asset s ∧ s + 15 * minute ≤ priceAt

namespace Request
variable (R : Request)

/-- The request finds a row. -/
def Found : Prop := getPrices R.now (run R.history) [⟨R.asset, [R.priceAt]⟩] ≠ []

/-- The clean-up is ahead of the time range: the instant is less than 7 days old, its hour is none
of those that are kept for longer, and a clean-up has deleted the hour as a snapshot in it was older
than 7 days; the next hour begins with a snapshot after the time range, and the hour before, when it
is one that is kept for longer, with none or with one before the time range. -/
structure Outrun : Prop where
  days2 : 2 * day ≤ R.now - R.priceAt
  days7 : R.now - R.priceAt < 7 * day
  hour : extractHour R.priceAt ∉ [0, 4, 8, 12, 16, 20]
  cleanup : ∃ now, Cleanup R.history now ∧ ∃ s, Snapshot R.history R.asset s ∧
    dateTruncHour s = dateTruncHour R.priceAt ∧ s < now - 7 * day
  next : ∀ s, Snapshot R.history R.asset s →
    dateTruncHour s = dateTruncHour R.priceAt + 1 → R.priceAt + 60 * minute < s
  previous : extractHour (R.priceAt - 60 * minute) ∈ [0, 4, 8, 12, 16, 20] →
    (∃ s, Snapshot R.history R.asset s ∧ dateTruncHour s = dateTruncHour R.priceAt - 1) →
    ∃ s, Snapshot R.history R.asset s ∧ dateTruncHour s = dateTruncHour R.priceAt - 1 ∧
      s < R.priceAt - 60 * minute

theorem found_iff_kept : R.Found ↔ ∃ s, Kept R.history R.asset s ∧
    R.priceAt - getTimeRange R.now R.priceAt ≤ s ∧ s ≤ R.priceAt + getTimeRange R.now R.priceAt := by
  rw [Found, getPrices, Ne, List.filter_eq_nil_iff]
  simp only [not_forall, Classical.not_not, exists_prop]
  constructor
  · rintro ⟨row, hrow, h⟩
    simp only [List.any_cons, List.any_nil, Bool.or_false, decide_eq_true_eq] at h
    obtain ⟨hasset, hge, hle⟩ := h
    exact ⟨_, (mem_run_iff R.chronological R.asset _).mp ⟨row, hrow, hasset, rfl⟩, hge, hle⟩
  · rintro ⟨s, kept, hge, hle⟩
    obtain ⟨row, hrow, hasset, rfl⟩ := (mem_run_iff R.chronological R.asset s).mpr kept
    refine ⟨row, hrow, ?_⟩
    simp only [List.any_cons, List.any_nil, Bool.or_false, decide_eq_true_eq]
    exact ⟨hasset, hge, hle⟩

theorem cleanup_le {R : Request} (h : Cleanup R.history c) : c ≤ R.now := R.le_now (.clear c) h

/-- A snapshot comes within 15 minutes of every instant after the first one. -/
theorem exists_next {R : Request} (hs : Snapshot R.history R.asset s) (hle : s ≤ t)
    (ht : t + 15 * minute < R.now) :
    ∃ next, Snapshot R.history R.asset next ∧ t < next ∧ next ≤ t + 15 * minute := by
  obtain ⟨last, hlast, hlastle, hmax⟩ := exists_last hs hle
  obtain ⟨next, hnext, hlt, hnextle⟩ := R.uninterrupted last hlast (by omega)
  refine ⟨next, hnext, ?_, by omega⟩
  by_contra hnot
  have := hmax next hnext (by omega)
  omega

theorem kept_of_young {R : Request} (hs : Snapshot R.history R.asset s) (h : R.now - 2 * day ≤ s) :
    Kept R.history R.asset s where
  snapshot := hs
  first c hc hold := by
    have := cleanup_le hc
    omega
  fourth c hc hold := by
    have := cleanup_le hc
    simp only [day, hour, minute, millisecond] at h hold
    omega

/-- The first snapshot of an hour is kept when it is younger than 7 days, or when the hour is one
of those that are kept for longer. -/
theorem exists_kept_of_hour {R : Request} (hs : Snapshot R.history R.asset s)
    (h : (∀ t, dateTruncHour t = dateTruncHour s → R.now - 7 * day ≤ t) ∨
      extractHour s ∈ [0, 4, 8, 12, 16, 20]) :
    ∃ first, Kept R.history R.asset first ∧ dateTruncHour first = dateTruncHour s ∧ first ≤ s := by
  obtain ⟨first, hfirst, hhour, hle⟩ := exists_first hs
  refine ⟨first, ⟨hfirst, fun _ _ _ other ho hh => hle other ho (hh.trans hhour), fun c hc hold => ?_⟩,
    hhour, hle s hs rfl⟩
  rcases h with young | fourth
  · have := young first hhour
    have := cleanup_le hc
    omega
  · rw [extractHour, ← dateTruncHour, hhour]
    exact fourth

theorem getTimeRange_of_recent (h : R.now - R.priceAt < 2 * day) :
    getTimeRange R.now R.priceAt = 15 * minute := by
  have := R.priceAt_le
  rw [getTimeRange, if_pos (by omega)]

theorem getTimeRange_of_week (h2 : 2 * day ≤ R.now - R.priceAt) (h7 : R.now - R.priceAt < 7 * day) :
    getTimeRange R.now R.priceAt = 60 * minute := by
  have := R.priceAt_le
  rw [getTimeRange, if_neg (by omega), if_pos (by omega)]

theorem getTimeRange_of_old (h : 7 * day ≤ R.now - R.priceAt) :
    getTimeRange R.now R.priceAt = 240 * minute := by
  have h2 : 2 * day ≤ R.now - R.priceAt := by
    simp only [day, hour, minute, millisecond] at h ⊢
    omega
  rw [getTimeRange, if_neg (by omega), if_neg (by omega)]

/-- An instant less than 2 days old has a snapshot within 15 minutes that is younger than 2 days:
the next one, or the last one up to now. -/
theorem found_of_recent (h : R.now - R.priceAt < 2 * day) : R.Found := by
  rw [found_iff_kept, R.getTimeRange_of_recent h]
  obtain ⟨s, hs, hle⟩ := R.first
  obtain ⟨last, hlast, hlastle, hmax⟩ := exists_last (t := R.priceAt) hs (by
    simp only [minute, millisecond] at hle
    omega)
  have hpast := R.priceAt_le
  by_cases hnow : last + 15 * minute < R.now
  · obtain ⟨next, hnext, hlt, hnextle⟩ := R.uninterrupted last hlast hnow
    have hafter : R.priceAt < next := by
      by_contra hnot
      have := hmax next hnext (by omega)
      omega
    refine ⟨next, kept_of_young hnext (by omega), ?_, by omega⟩
    simp only [minute, millisecond]
    omega
  · refine ⟨last, kept_of_young hlast ?_, by omega, ?_⟩
    all_goals
      simp only [day, hour, minute, millisecond] at hnow ⊢
      omega

/-- An hour that begins after a snapshot, and early enough, has a snapshot in its first 15
minutes. -/
theorem exists_snapshot_at {R : Request} (hs : Snapshot R.history R.asset s) {h : Int}
    (hlt : s < h * hour) (hnow : h * hour + 15 * minute ≤ R.now) :
    ∃ t, Snapshot R.history R.asset t ∧ dateTruncHour t = h ∧ t < h * hour + 15 * minute := by
  obtain ⟨next, hnext, hltnext, hnextle⟩ := exists_next hs (show s ≤ h * hour - 1 by omega) (by omega)
  refine ⟨next, hnext, ?_, by omega⟩
  simp only [dateTruncHour, hour, minute, millisecond] at hltnext hnextle ⊢
  omega

/-- In the hour of an instant more than 2 days old a snapshot was taken. -/
theorem exists_snapshot_of_hour (h : 2 * day ≤ R.now - R.priceAt) :
    ∃ s, Snapshot R.history R.asset s ∧ dateTruncHour s = dateTruncHour R.priceAt := by
  obtain ⟨s, hs, hle⟩ := R.first
  by_cases hhour : dateTruncHour s = dateTruncHour R.priceAt
  · exact ⟨s, hs, hhour⟩
  · have hlt : s < dateTruncHour R.priceAt * hour := by
      simp only [dateTruncHour, hour, minute, millisecond] at hle hhour ⊢
      omega
    obtain ⟨t, ht, hsame, -⟩ := exists_snapshot_at hs hlt (by
      simp only [dateTruncHour, day, hour, minute, millisecond] at h ⊢
      omega)
    exact ⟨t, ht, hsame⟩

/-- The hour at the beginning of the four hours of an instant. -/
def fourHours (time : Int) : Int := time / (4 * hour) * 4

theorem extractHour_of_fourHours (time n : Int) (h : dateTruncHour s = fourHours time + 4 * n) :
    extractHour s ∈ [0, 4, 8, 12, 16, 20] := by
  rw [extractHour, ← dateTruncHour, h, fourHours]
  simp only [List.mem_cons, List.not_mem_nil, or_false]
  omega

/-- An instant at least 7 days old is found by the first snapshot of an hour that is kept for
longer: that at the beginning of its four hours, or the next one when there was none yet. -/
theorem found_of_old (h : 7 * day ≤ R.now - R.priceAt) : R.Found := by
  rw [found_iff_kept, R.getTimeRange_of_old h]
  obtain ⟨s, hs, hle⟩ := R.first
  by_cases hstart : ∃ s, Snapshot R.history R.asset s ∧ dateTruncHour s = fourHours R.priceAt
  · obtain ⟨s, hs, hhour⟩ := hstart
    obtain ⟨first, kept, hfirst, -⟩ :=
      exists_kept_of_hour hs (.inr (extractHour_of_fourHours R.priceAt 0 (by omega)))
    rw [hhour] at hfirst
    refine ⟨first, kept, ?_, ?_⟩
    all_goals
      simp only [dateTruncHour, fourHours, hour, minute, millisecond] at hfirst ⊢
      omega
  · -- the snapshots began after that hour
    have hafter : (fourHours R.priceAt + 1) * hour ≤ s := by
      by_contra hnot
      by_cases hlt : s < fourHours R.priceAt * hour
      · obtain ⟨t, ht, hsame, -⟩ := exists_snapshot_at hs hlt (by
          simp only [fourHours, day, hour, minute, millisecond] at h ⊢
          omega)
        exact hstart ⟨t, ht, hsame⟩
      · refine hstart ⟨s, hs, ?_⟩
        simp only [dateTruncHour, fourHours, hour, minute, millisecond] at hnot hlt ⊢
        omega
    obtain ⟨t, ht, hsame, htlt⟩ := exists_snapshot_at (h := fourHours R.priceAt + 4) hs (by
        simp only [fourHours, hour, minute, millisecond] at hle ⊢
        omega) (by
        simp only [fourHours, day, hour, minute, millisecond] at h ⊢
        omega)
    obtain ⟨first, kept, hfirst, hfirstle⟩ :=
      exists_kept_of_hour ht (.inr (extractHour_of_fourHours R.priceAt 1 (by omega)))
    rw [hsame] at hfirst
    refine ⟨first, kept, ?_, ?_⟩
    all_goals
      simp only [dateTruncHour, fourHours, hour, minute, millisecond] at hfirst hafter hle htlt ⊢
      omega

theorem extractHour_eq (h : dateTruncHour s = dateTruncHour t) : extractHour s = extractHour t := by
  rw [extractHour, extractHour, ← dateTruncHour, ← dateTruncHour, h]

/-- When the clean-up is ahead, no row within an hour is kept. -/
theorem not_kept_of_outrun {R : Request} (outrun : R.Outrun) (kept : Kept R.history R.asset t)
    (hge : R.priceAt - 60 * minute ≤ t) (hle : t ≤ R.priceAt + 60 * minute) : False := by
  obtain ⟨c, hc, s, hs, hhour, hold⟩ := outrun.cleanup
  have hours : dateTruncHour t = dateTruncHour R.priceAt ∨
      dateTruncHour t = dateTruncHour R.priceAt + 1 ∨
      dateTruncHour t = dateTruncHour R.priceAt - 1 := by
    simp only [dateTruncHour, hour, minute, millisecond] at hge hle ⊢
    omega
  rcases hours with same | next | previous
  · have hts : t ≤ s := by
      have := lt_add_hour (same.trans hhour.symm)
      refine kept.first c hc ?_ s hs (hhour.trans same.symm)
      simp only [day, hour, minute, millisecond] at hold this ⊢
      omega
    have fourth := kept.fourth c hc (by omega)
    rw [extractHour_eq same] at fourth
    exact outrun.hour fourth
  · have := outrun.next t kept.snapshot next
    omega
  · have hts : t < s := by
      simp only [dateTruncHour, hour, minute, millisecond] at hhour previous
      omega
    have fourth := kept.fourth c hc (by omega)
    have before : dateTruncHour t = dateTruncHour (R.priceAt - 60 * minute) := by
      simp only [dateTruncHour, hour, minute, millisecond] at previous ⊢
      omega
    rw [extractHour_eq before] at fourth
    obtain ⟨other, hother, hotherhour, hlt⟩ := outrun.previous fourth ⟨t, kept.snapshot, previous⟩
    have := kept.first c hc (by
      simp only [day, hour, minute, millisecond] at hold ⊢
      omega) other hother (hotherhour.trans previous.symm)
    omega

/-- When no row within an hour is kept, the clean-up is ahead. -/
theorem outrun_of_not_kept {R : Request} (h2 : 2 * day ≤ R.now - R.priceAt)
    (h7 : R.now - R.priceAt < 7 * day) (none : ∀ t, Kept R.history R.asset t →
      R.priceAt - 60 * minute ≤ t → ¬ t ≤ R.priceAt + 60 * minute) : R.Outrun := by
  have same_hour : ∀ t, dateTruncHour t = dateTruncHour R.priceAt → ¬ Kept R.history R.asset t := by
    intro t ht kept
    refine none t kept ?_ ?_
    all_goals
      simp only [dateTruncHour, hour, minute, millisecond] at ht ⊢
      omega
  obtain ⟨s, hs, hhour⟩ := R.exists_snapshot_of_hour h2
  refine ⟨h2, h7, fun hfourth => ?_, ?_, fun s hs hnext => ?_, fun hfourth hprevious => ?_⟩
  · rw [← extractHour_eq hhour] at hfourth
    obtain ⟨first, kept, hfirst, -⟩ := exists_kept_of_hour hs (.inr hfourth)
    exact same_hour first (hfirst.trans hhour) kept
  · obtain ⟨first, hfirst, hfirsthour, hmin⟩ := exists_first hs
    by_contra hnone
    refine same_hour first (hfirsthour.trans hhour) ⟨hfirst,
      fun _ _ _ other ho hh => hmin other ho (hh.trans hfirsthour), fun c hc hold => ?_⟩
    exact absurd ⟨c, hc, first, hfirst, hfirsthour.trans hhour, hold⟩ hnone
  · by_contra hnot
    obtain ⟨first, kept, hfirst, hfirstle⟩ := exists_kept_of_hour hs (.inl fun t ht => by
      rw [hnext] at ht
      simp only [dateTruncHour, day, hour, minute, millisecond] at ht h7 ⊢
      omega)
    refine none first kept ?_ (by omega)
    rw [hnext] at hfirst
    simp only [dateTruncHour, hour, minute, millisecond] at hfirst ⊢
    omega
  · by_contra hnot
    obtain ⟨s, hs, hprevious⟩ := hprevious
    have before : dateTruncHour s = dateTruncHour (R.priceAt - 60 * minute) := by
      simp only [dateTruncHour, hour, minute, millisecond] at hprevious ⊢
      omega
    rw [← extractHour_eq before] at hfourth
    obtain ⟨first, kept, hfirst, -⟩ := exists_kept_of_hour hs (.inr hfourth)
    refine none first kept ?_ ?_
    · by_contra hlt
      exact hnot ⟨first, kept.snapshot, hfirst.trans hprevious, by omega⟩
    · rw [hprevious] at hfirst
      simp only [dateTruncHour, hour, minute, millisecond] at hfirst ⊢
      omega

/-- An instant between 2 and 7 days old is found by a row within an hour. -/
theorem found_of_week (h2 : 2 * day ≤ R.now - R.priceAt) (h7 : R.now - R.priceAt < 7 * day) :
    R.Found ↔ ¬ R.Outrun := by
  rw [found_iff_kept, R.getTimeRange_of_week h2 h7]
  constructor
  · rintro ⟨t, kept, hge, hle⟩ outrun
    exact not_kept_of_outrun outrun kept hge hle
  · intro hnot
    by_contra hnone
    exact hnot (outrun_of_not_kept h2 h7 fun t kept hge hle => hnone ⟨t, kept, hge, hle⟩)

/-- A request finds a row exactly when the clean-up is not ahead of its time range. -/
theorem found_iff : R.Found ↔ ¬ R.Outrun := by
  by_cases h2 : 2 * day ≤ R.now - R.priceAt
  · by_cases h7 : R.now - R.priceAt < 7 * day
    · exact R.found_of_week h2 h7
    · exact ⟨fun _ outrun => h7 outrun.days7, fun _ => R.found_of_old (by omega)⟩
  · exact ⟨fun _ outrun => h2 outrun.days2, fun _ => R.found_of_recent (by omega)⟩

end Request

/-! ### A week of snapshots -/

/-- Every 15 minutes from midnight, and from 2:59 on a minute earlier. -/
def snapshotTime (i : Nat) : Int :=
  19000 * day + (if i < 12 then 15 * (i : Int) else 15 * (i : Int) - 1) * minute

/-- The snapshots, and a clean-up at 2:01 a week later. -/
def weekHistory : List Action :=
  (List.range 681).map (fun i => .insert (snapshotTime i) [(1, some 100)]) ++
    [.clear (19007 * day + 121 * minute)]

theorem snapshot_weekHistory : Snapshot weekHistory 1 t ↔ ∃ i < 681, snapshotTime i = t := by
  have hrows : ∀ now, insertChunkAssetPrices now [(1, some 100)] = [⟨1, 100, now⟩] := fun _ => rfl
  rw [weekHistory, snapshot_append]
  constructor
  · rintro (⟨a, ha, row, hrow, -, rfl⟩ | ⟨row, hrow, -⟩)
    · obtain ⟨i, hi, rfl⟩ := List.mem_map.mp ha
      rw [Action.inserted, hrows, List.mem_singleton] at hrow
      exact ⟨i, List.mem_range.mp hi, by rw [hrow]⟩
    · cases hrow
  · rintro ⟨i, hi, rfl⟩
    refine .inl ⟨_, List.mem_map_of_mem (List.mem_range.mpr hi), ⟨1, 100, snapshotTime i⟩, ?_, rfl, rfl⟩
    rw [Action.inserted, hrows]
    exact List.mem_cons_self

theorem snapshotTime_le (h : i ≤ j) : snapshotTime i ≤ snapshotTime j := by
  simp only [snapshotTime, minute, millisecond]
  split <;> split <;> omega

theorem snapshotTime_next (i : Nat) : snapshotTime i < snapshotTime (i + 1) ∧
    snapshotTime (i + 1) ≤ snapshotTime i + 15 * minute := by
  simp only [snapshotTime, minute, millisecond]
  push_cast
  split <;> split <;> omega

theorem snapshotTime_680 : snapshotTime 680 = 19007 * day + 119 * minute := by decide

/-- At 2:04 the price a week ago at 2:05 is asked for. -/
def weekRequest : Request where
  history := weekHistory
  chronological := by
    refine chronological_append.mpr ⟨List.pairwise_map.mpr (List.pairwise_lt_range.imp fun h =>
      snapshotTime_le h.le), fun a ha => ?_⟩
    obtain ⟨i, hi, rfl⟩ := List.mem_map.mp ha
    have := snapshotTime_le (Nat.le_of_lt_succ (List.mem_range.mp hi))
    rw [snapshotTime_680] at this
    simp only [Action.now, day, hour, minute, millisecond] at this ⊢
    omega
  asset := 1
  now := 19007 * day + 124 * minute
  le_now a ha := by
    rcases List.mem_append.mp ha with ha | ha
    · obtain ⟨i, hi, rfl⟩ := List.mem_map.mp ha
      have := snapshotTime_le (Nat.le_of_lt_succ (List.mem_range.mp hi))
      rw [snapshotTime_680] at this
      simp only [Action.now, day, hour, minute, millisecond] at this ⊢
      omega
    · rw [List.mem_singleton.mp ha]
      decide
  uninterrupted s hs hlt := by
    obtain ⟨i, hi, rfl⟩ := snapshot_weekHistory.mp hs
    obtain ⟨hltnext, hnext⟩ := snapshotTime_next i
    refine ⟨_, snapshot_weekHistory.mpr ⟨i + 1, ?_, rfl⟩, hltnext, hnext⟩
    by_contra hnot
    obtain rfl : i = 680 := by omega
    rw [snapshotTime_680] at hlt
    revert hlt
    decide
  priceAt := 19000 * day + 125 * minute
  priceAt_le := by decide
  first := ⟨_, snapshot_weekHistory.mpr ⟨0, by decide, rfl⟩, by decide⟩

/-- The snapshots of the hour are gone, and the next one is of 3:14. -/
theorem weekRequest_outrun : weekRequest.Outrun where
  days2 := by decide
  days7 := by decide
  hour := by decide
  cleanup := ⟨_, List.mem_append_right _ List.mem_cons_self, _,
    snapshot_weekHistory.mpr ⟨8, by decide, rfl⟩, by decide, by decide⟩
  next s hs hhour := by
    obtain ⟨i, -, rfl⟩ := snapshot_weekHistory.mp hs
    have hpriceAt : weekRequest.priceAt = 19000 * day + 125 * minute := rfl
    rw [hpriceAt] at hhour ⊢
    simp only [snapshotTime, dateTruncHour, day, hour, minute, millisecond] at hhour ⊢
    split at hhour <;> split <;> omega
  previous fourth := absurd fourth (by decide)

/-- The price of that instant is not found. -/
theorem weekRequest_not_found : ¬ weekRequest.Found := fun found =>
  (weekRequest.found_of_week (by decide) (by decide)).mp found weekRequest_outrun

end HistoricalPrices
end Assets
end DefiBackend
