import Mathlib.Data.List.Nodup
import MarketFeed.Proofs.Exchange.Intervals
import MarketFeed.Proofs.Outcome

/-!
# Candles as bars

A candle becomes a bar if a table has its interval code and its three times are instants
(`IntervalTable.IsConvertible`).  The bar has all that the candle has (`IntervalTable.Converts`), so
the candles are found again in the bars where no two codes stand for one timeframe
(`IntervalTable.candles?`).  Of the candles of a push either all become bars or none does, and the
error is that of the first one that does not (`IntervalTable.Refuses`).
-/

namespace MarketFeed

namespace IntervalTable

/-- The table has the interval code of a candle, and the times of the candle are instants. -/
structure IsConvertible (table : IntervalTable) (c : Candle) : Prop where
  interval : ∃ timeframe, (c.interval, timeframe) ∈ table.entries
  startTime : c.startTime.toNat ≤ lastMilli
  endTime : c.endTime.toNat ≤ lastMilli
  lastTrade : c.lastTrade.toNat ≤ lastMilli

/-- A bar has the symbol of a push, the timeframe of a candle and everything else that the candle
has. -/
structure Converts (table : IntervalTable) (symbol : String) (c : Candle) (b : Bar) : Prop where
  symbol : b.symbol = symbol
  timeframe : table.timeframe? c.interval = some b.timeframe
  startTime : b.startTime.millis = c.startTime.toNat
  endTime : b.endTime.millis = c.endTime.toNat
  opening : b.opening = c.opening
  closing : b.closing = c.closing
  high : b.high = c.high
  low : b.low = c.low
  volume : b.volume = c.volume
  quoteVolume : b.quoteVolume = c.turnover
  closed : b.closed = c.confirmed
  lastTrade : b.lastTrade.millis = c.lastTrade.toNat

/-- The error of a candle that does not become a bar: the interval code is looked at first, then the
times in their order. -/
inductive Refuses (table : IntervalTable) (c : Candle) : FeedError → Prop
  | interval (hinterval : ∀ timeframe, (c.interval, timeframe) ∉ table.entries) :
    Refuses table c (.unknownInterval c.interval c)
  | startTime (hinterval : ∃ timeframe, (c.interval, timeframe) ∈ table.entries)
    (hstart : lastMilli < c.startTime.toNat) : Refuses table c (.timestamp "start" c.startTime)
  | endTime (hinterval : ∃ timeframe, (c.interval, timeframe) ∈ table.entries)
    (hstart : c.startTime.toNat ≤ lastMilli) (hend : lastMilli < c.endTime.toNat) :
    Refuses table c (.timestamp "end" c.endTime)
  | lastTrade (hinterval : ∃ timeframe, (c.interval, timeframe) ∈ table.entries)
    (hstart : c.startTime.toNat ≤ lastMilli) (hend : c.endTime.toNat ≤ lastMilli)
    (hlast : lastMilli < c.lastTrade.toNat) : Refuses table c (.timestamp "timestamp" c.lastTrade)

/-- No two codes stand for one timeframe. -/
def IsInjective (table : IntervalTable) : Prop :=
  ∀ code code' timeframe, table.timeframe? code = some timeframe →
    table.timeframe? code' = some timeframe → code = code'

/-- The candle that a bar comes from, with the first code of the table for its timeframe. -/
def candle? (table : IntervalTable) (b : Bar) : Option Candle := do
  let entry ← table.entries.find? fun entry => table.timeframe? entry.1 == some b.timeframe
  return {
    startTime := UInt64.ofNat b.startTime.millis
    endTime := UInt64.ofNat b.endTime.millis
    interval := entry.1
    opening := b.opening
    closing := b.closing
    high := b.high
    low := b.low
    volume := b.volume
    turnover := b.quoteVolume
    confirmed := b.closed
    lastTrade := UInt64.ofNat b.lastTrade.millis }

/-- The candles that market data comes from. -/
def candles? (table : IntervalTable) (data : List MarketData) : Option (List Candle) :=
  data.mapM fun d => d.bar?.bind table.candle?

variable {table : IntervalTable}

/-! ### One candle -/

theorem instant_eq_ok_iff {field : String} {millis : UInt64} {t : Instant} :
    instant field millis = .ok t ↔ t.millis = millis.toNat := by
  obtain ⟨n, hn⟩ := t
  unfold instant Instant.ofMillis?
  by_cases h : millis.toNat ≤ lastMilli
  · simp [h, eq_comm]
  · have hne : n ≠ millis.toNat := fun he => h (he ▸ hn)
    simp [h, hne]

theorem instant_eq_error_iff {field : String} {millis : UInt64} {e : FeedError} :
    instant field millis = .error e ↔ lastMilli < millis.toNat ∧ e = .timestamp field millis := by
  unfold instant Instant.ofMillis?
  by_cases h : millis.toNat ≤ lastMilli
  · simp [h, Nat.not_lt.2 h]
  · simp [h, Nat.lt_of_not_le h, eq_comm]

theorem bar_of_none {symbol : String} {c : Candle} (h : table.timeframe? c.interval = none) :
    table.bar symbol c = .error (.unknownInterval c.interval c) := by
  unfold bar
  rw [h]
  rfl

/-- A candle whose interval is known becomes a bar if its times do. -/
theorem bar_of_some {symbol : String} {c : Candle} {timeframe : Timeframe}
    (h : table.timeframe? c.interval = some timeframe) :
    table.bar symbol c = do
      let startTime ← instant "start" c.startTime
      let endTime ← instant "end" c.endTime
      let lastTrade ← instant "timestamp" c.lastTrade
      return ⟨symbol, timeframe, startTime, endTime, c.opening, c.closing, c.high, c.low, c.volume,
        c.turnover, c.confirmed, lastTrade⟩ := by
  unfold bar
  rw [h]

theorem bar_eq_ok_iff {symbol : String} {c : Candle} {b : Bar} :
    table.bar symbol c = .ok b ↔ table.Converts symbol c b := by
  constructor
  · intro h
    cases htimeframe : table.timeframe? c.interval with
    | none =>
      rw [bar_of_none htimeframe] at h
      cases h
    | some timeframe =>
      rw [bar_of_some htimeframe] at h
      obtain ⟨startTime, hstart, h⟩ := Outcome.bind_eq_ok_iff.1 h
      obtain ⟨endTime, hend, h⟩ := Outcome.bind_eq_ok_iff.1 h
      obtain ⟨lastTrade, hlast, h⟩ := Outcome.bind_eq_ok_iff.1 h
      cases h
      exact ⟨rfl, htimeframe, instant_eq_ok_iff.1 hstart, instant_eq_ok_iff.1 hend, rfl, rfl, rfl,
        rfl, rfl, rfl, rfl, instant_eq_ok_iff.1 hlast⟩
  · obtain ⟨symbol', timeframe, startTime, endTime, opening, closing, high, low, volume,
      quoteVolume, closed, lastTrade⟩ := b
    rintro ⟨rfl, htimeframe, hstart, hend, rfl, rfl, rfl, rfl, rfl, rfl, rfl, hlast⟩
    rw [bar_of_some htimeframe]
    refine Outcome.bind_eq_ok_iff.2 ⟨startTime, instant_eq_ok_iff.2 hstart, ?_⟩
    refine Outcome.bind_eq_ok_iff.2 ⟨endTime, instant_eq_ok_iff.2 hend, ?_⟩
    exact Outcome.bind_eq_ok_iff.2 ⟨lastTrade, instant_eq_ok_iff.2 hlast, rfl⟩

theorem bar_eq_error_iff {symbol : String} {c : Candle} {e : FeedError} :
    table.bar symbol c = .error e ↔ table.Refuses c e := by
  constructor
  · intro h
    cases htimeframe : table.timeframe? c.interval with
    | none =>
      rw [bar_of_none htimeframe] at h
      cases h
      exact .interval (timeframe?_eq_none_iff.1 htimeframe)
    | some timeframe =>
      have hinterval := exists_timeframe?_iff.1 ⟨timeframe, htimeframe⟩
      rw [bar_of_some htimeframe] at h
      rcases Outcome.bind_eq_error_iff.1 h with hstart | ⟨startTime, hstart, h⟩
      · obtain ⟨hlate, rfl⟩ := instant_eq_error_iff.1 hstart
        exact .startTime hinterval hlate
      · have hstart := instant_eq_ok_iff.1 hstart ▸ startTime.millis_le
        rcases Outcome.bind_eq_error_iff.1 h with hend | ⟨endTime, hend, h⟩
        · obtain ⟨hlate, rfl⟩ := instant_eq_error_iff.1 hend
          exact .endTime hinterval hstart hlate
        · have hend := instant_eq_ok_iff.1 hend ▸ endTime.millis_le
          rcases Outcome.bind_eq_error_iff.1 h with hlast | ⟨lastTrade, _, h⟩
          · obtain ⟨hlate, rfl⟩ := instant_eq_error_iff.1 hlast
            exact .lastTrade hinterval hstart hend hlate
          · cases h
  · intro h
    cases h with
    | interval hinterval => exact bar_of_none (timeframe?_eq_none_iff.2 hinterval)
    | startTime hinterval hstart =>
      obtain ⟨timeframe, htimeframe⟩ := exists_timeframe?_iff.2 hinterval
      rw [bar_of_some htimeframe, instant_eq_error_iff.2 ⟨hstart, rfl⟩]
      rfl
    | endTime hinterval hstart hend =>
      obtain ⟨timeframe, htimeframe⟩ := exists_timeframe?_iff.2 hinterval
      rw [bar_of_some htimeframe, @instant_eq_ok_iff _ _ ⟨_, hstart⟩ |>.2 rfl,
        instant_eq_error_iff.2 ⟨hend, rfl⟩]
      rfl
    | lastTrade hinterval hstart hend hlast =>
      obtain ⟨timeframe, htimeframe⟩ := exists_timeframe?_iff.2 hinterval
      rw [bar_of_some htimeframe, @instant_eq_ok_iff _ _ ⟨_, hstart⟩ |>.2 rfl,
        @instant_eq_ok_iff _ _ ⟨_, hend⟩ |>.2 rfl, instant_eq_error_iff.2 ⟨hlast, rfl⟩]
      rfl

theorem exists_converts_iff {symbol : String} {c : Candle} :
    (∃ b, table.Converts symbol c b) ↔ table.IsConvertible c := by
  constructor
  · rintro ⟨b, h⟩
    exact ⟨exists_timeframe?_iff.1 ⟨b.timeframe, h.timeframe⟩, h.startTime ▸ b.startTime.millis_le,
      h.endTime ▸ b.endTime.millis_le, h.lastTrade ▸ b.lastTrade.millis_le⟩
  · rintro ⟨hinterval, hstart, hend, hlast⟩
    obtain ⟨timeframe, htimeframe⟩ := exists_timeframe?_iff.2 hinterval
    exact ⟨⟨symbol, timeframe, ⟨_, hstart⟩, ⟨_, hend⟩, c.opening, c.closing, c.high, c.low,
      c.volume, c.turnover, c.confirmed, ⟨_, hlast⟩⟩, rfl, htimeframe, rfl, rfl, rfl, rfl, rfl, rfl,
      rfl, rfl, rfl, rfl⟩

/-- A bar determines its candle where no two codes stand for one timeframe. -/
theorem candle?_of_converts (hinjective : table.IsInjective) {symbol : String} {c : Candle}
    {b : Bar} (h : table.Converts symbol c b) : table.candle? b = some c := by
  obtain ⟨timeframe, hmem⟩ := exists_timeframe?_iff.1 ⟨b.timeframe, h.timeframe⟩
  have hfound : (table.entries.find? fun entry =>
      table.timeframe? entry.1 == some b.timeframe).isSome = true :=
    List.find?_isSome.2 ⟨_, hmem, beq_iff_eq.2 h.timeframe⟩
  obtain ⟨⟨code, timeframe'⟩, hentry⟩ := Option.isSome_iff_exists.1 hfound
  have hfits := List.find?_some hentry
  have hcode : table.timeframe? code = some b.timeframe := eq_of_beq hfits
  obtain rfl : code = c.interval := hinjective _ _ _ hcode h.timeframe
  rw [candle?, hentry]
  simp only [Option.bind_eq_bind, Option.bind_some, h.startTime, h.endTime, h.lastTrade, h.opening,
    h.closing, h.high, h.low, h.volume, h.quoteVolume, h.closed, UInt64.ofNat_toNat]
  rfl

/-! ### All candles of a push -/

/-- The candles of a push become bars in their order, all of them or none. -/
theorem marketData_eq_ok_iff {p : CandlePush} {data : List MarketData} :
    table.marketData (.candles p) = .ok data ↔
      ∃ bars, data = bars.map .bar ∧ List.Forall₂ (table.Converts p.symbol) p.candles bars := by
  have hmember (c : Candle) (d : MarketData) : (table.bar p.symbol c).map .bar = .ok d ↔
      ∃ b, table.Converts p.symbol c b ∧ MarketData.bar b = d := by
    rw [Outcome.map_eq_ok_iff]
    exact exists_congr fun b => and_congr_left' bar_eq_ok_iff
  rw [marketData, Outcome.mapM_eq_ok_iff]
  simp only [hmember]
  constructor
  · intro h
    obtain ⟨bars, hbars, hdata⟩ := Outcome.exists_between (fun c d => id) h
    refine ⟨bars, ?_, hbars⟩
    rw [← List.forall₂_eq_eq_eq, List.forall₂_map_right_iff]
    exact hdata.flip.imp fun _ _ he => he.symm
  · rintro ⟨bars, rfl, hbars⟩
    rw [List.forall₂_map_right_iff]
    exact hbars.imp fun c b hb => ⟨b, hb, rfl⟩

theorem exists_marketData_iff {p : CandlePush} :
    (∃ data, table.marketData (.candles p) = .ok data) ↔
      ∀ c ∈ p.candles, table.IsConvertible c := by
  simp only [marketData_eq_ok_iff]
  constructor
  · rintro ⟨_, bars, _, hbars⟩ c hc
    obtain ⟨b, _, hb⟩ := Outcome.exists_of_forall₂ hbars hc
    exact exists_converts_iff.1 ⟨b, hb⟩
  · intro h
    obtain ⟨bars, hbars⟩ := Outcome.exists_forall₂ fun c hc =>
      (@exists_converts_iff table p.symbol c).2 (h c hc)
    exact ⟨_, bars, rfl, hbars⟩

/-- The error is that of the first candle that does not become a bar. -/
theorem marketData_eq_error_iff {p : CandlePush} {e : FeedError} :
    table.marketData (.candles p) = .error e ↔
      ∃ before c after, p.candles = before ++ c :: after ∧
        (∀ x ∈ before, table.IsConvertible x) ∧ table.Refuses c e := by
  rw [marketData, Outcome.mapM_eq_error_iff]
  refine exists_congr fun before => exists_congr fun c => exists_congr fun after => ?_
  refine and_congr_right fun _ => and_congr ?_ (Outcome.map_eq_error_iff.trans bar_eq_error_iff)
  refine forall₂_congr fun x _ => ?_
  rw [← @exists_converts_iff table p.symbol x]
  constructor
  · rintro ⟨d, hd⟩
    obtain ⟨b, hb, _⟩ := Outcome.map_eq_ok_iff.1 hd
    exact ⟨b, bar_eq_ok_iff.1 hb⟩
  · rintro ⟨b, hb⟩
    exact ⟨.bar b, Outcome.map_eq_ok_iff.2 ⟨b, bar_eq_ok_iff.2 hb, rfl⟩⟩

theorem candles?_of_marketData (hinjective : table.IsInjective) {p : CandlePush}
    {data : List MarketData} (h : table.marketData (.candles p) = .ok data) :
    table.candles? data = some p.candles := by
  obtain ⟨bars, rfl, hbars⟩ := marketData_eq_ok_iff.1 h
  rw [candles?, Outcome.optionMapM_eq_some_iff, List.forall₂_map_left_iff]
  exact hbars.flip.imp fun b c hb => candle?_of_converts hinjective hb

/-- What becomes of the candles of a push. -/
structure ConvertsAll (table : IntervalTable) (p : CandlePush) : Prop where
  succeeds : (∃ data, table.marketData (.candles p) = .ok data) ↔
    ∀ c ∈ p.candles, table.IsConvertible c
  keeps : ∀ data, table.marketData (.candles p) = .ok data →
    ∃ bars, data = bars.map .bar ∧ List.Forall₂ (table.Converts p.symbol) p.candles bars
  fails : ∀ e, table.marketData (.candles p) = .error e ↔
    ∃ before c after, p.candles = before ++ c :: after ∧
      (∀ x ∈ before, table.IsConvertible x) ∧ table.Refuses c e
  recovers : table.IsInjective → ∀ data, table.marketData (.candles p) = .ok data →
    table.candles? data = some p.candles ∧
      ∀ q : CandlePush, table.marketData (.candles q) = .ok data → q.candles = p.candles

/-- Either every candle of a push becomes a bar, and the candles can be found again in the bars, or
there is no market data and the first candle that is to blame is named. -/
theorem marketData_convertsAll (table : IntervalTable) (p : CandlePush) : table.ConvertsAll p where
  succeeds := exists_marketData_iff
  keeps _ := marketData_eq_ok_iff.1
  fails _ := marketData_eq_error_iff
  recovers hinjective data h := by
    have hp := candles?_of_marketData hinjective h
    refine ⟨hp, fun q hq => ?_⟩
    have hq := candles?_of_marketData hinjective hq
    exact Option.some.inj (hq.symm.trans hp)

/-- A table that lists each timeframe once has no two codes for one. -/
theorem isInjective_of_nodup (h : (table.entries.map (·.2)).Nodup) : table.IsInjective := by
  intro code code' timeframe hcode hcode'
  have heq := List.inj_on_of_nodup_map h (mem_of_timeframe? hcode) (mem_of_timeframe? hcode') rfl
  exact congrArg Prod.fst heq

/-- A candle of a given interval and end, with a price that has places to lose. -/
def sampleCandle (interval : String) (endTime : UInt64) : Candle :=
  ⟨0, endTime, interval, ⟨false, 1649350, 2, by decide, by decide⟩, Decimal.zero,
    ⟨true, 5, 28, by decide, by decide⟩, Decimal.zero, Decimal.zero, Decimal.zero, false, endTime⟩

/-- The last instant is converted and found again, and the first of two bad candles is blamed, for
the first of its two times that are too late. -/
theorem marketData_convertsAll_standard :
    (∃ data, standard.marketData (.candles ⟨"BTCUSDT", .snapshot,
        [sampleCandle "D" 8210266876799999, sampleCandle "5" 0]⟩) = .ok data ∧
      standard.candles? data = some [sampleCandle "D" 8210266876799999, sampleCandle "5" 0]) ∧
    standard.marketData (.candles ⟨"BTCUSDT", .delta,
        [sampleCandle "D" 0, sampleCandle "M" 8210266876800000, sampleCandle "7" 0]⟩) =
      .error (.timestamp "end" 8210266876800000) := by
  have hgood := marketData_convertsAll standard ⟨"BTCUSDT", .snapshot,
    [sampleCandle "D" 8210266876799999, sampleCandle "5" 0]⟩
  have hbad := marketData_convertsAll standard ⟨"BTCUSDT", .delta,
    [sampleCandle "D" 0, sampleCandle "M" 8210266876800000, sampleCandle "7" 0]⟩
  have hfirst : standard.IsConvertible (sampleCandle "D" 0) :=
    ⟨⟨.d1, by decide⟩, by decide, by decide, by decide⟩
  constructor
  · obtain ⟨data, hdata⟩ := hgood.succeeds.2 (List.forall_mem_cons.2
      ⟨⟨⟨.d1, by decide⟩, by decide, by decide, by decide⟩, List.forall_mem_singleton.2
        ⟨⟨.m5, by decide⟩, by decide, by decide, by decide⟩⟩)
    exact ⟨data, hdata, (hgood.recovers (isInjective_of_nodup (by decide)) data hdata).1⟩
  · refine (hbad.fails _).2 ⟨[sampleCandle "D" 0], _, [sampleCandle "7" 0], rfl,
      List.forall_mem_singleton.2 hfirst, ?_⟩
    exact .endTime ⟨.mo1, by decide⟩ (by decide) (by decide)

end IntervalTable

end MarketFeed
