import MarketFeed.Exchange.Feed
import MarketFeed.Proofs.Market.Conversion

/-!
# Timeframes there and back

A timeframe becomes an interval code in the topic that is subscribed to, and the code of a candle
becomes the timeframe of a bar.  The bar has the timeframe that was asked for exactly if the last
entry with the code is for it (`IntervalTable.exists_bar_iff`); so it always has where no code is
repeated (`IntervalTable.Agrees`).
-/

namespace MarketFeed

/-- The times of a candle are instants. -/
structure Candle.HasInstants (c : Candle) : Prop where
  startTime : c.startTime.toNat ≤ lastMilli
  endTime : c.endTime.toNat ≤ lastMilli
  lastTrade : c.lastTrade.toNat ≤ lastMilli

namespace IntervalTable

variable {table : IntervalTable} {code symbol : String} {timeframe : Timeframe} {c : Candle}

/-! ### The timeframe of a bar -/

/-- A candle whose code is in the table becomes a bar of the timeframe that the code stands for. -/
theorem exists_bar_of_timeframe? (h : table.timeframe? c.interval = some timeframe)
    (hc : c.HasInstants) : ∃ b, table.bar symbol c = .ok b ∧ b.timeframe = timeframe := by
  have hconvertible : table.IsConvertible c :=
    ⟨exists_timeframe?_iff.1 ⟨timeframe, h⟩, hc.startTime, hc.endTime, hc.lastTrade⟩
  obtain ⟨b, hb⟩ := (@exists_converts_iff table symbol c).2 hconvertible
  exact ⟨b, bar_eq_ok_iff.2 hb, Option.some.inj (hb.timeframe.symm.trans h)⟩

/-- A candle with the code of a timeframe becomes a bar, and the bar is of that timeframe exactly if
the last entry with the code is for it. -/
theorem exists_bar_iff (h : table.code? timeframe = some code) (hinterval : c.interval = code)
    (hc : c.HasInstants) : ∃ b, table.bar symbol c = .ok b ∧
      (b.timeframe = timeframe ↔ IsLast Prod.fst table.entries (code, timeframe)) := by
  subst hinterval
  obtain ⟨timeframe', htimeframe⟩ := exists_timeframe?_iff.2 ⟨timeframe, mem_of_code? h⟩
  obtain ⟨b, hb, rfl⟩ : ∃ b, table.bar symbol c = .ok b ∧ b.timeframe = timeframe' :=
    exists_bar_of_timeframe? htimeframe hc
  rw [← timeframe?_eq_some_iff, htimeframe, Option.some.injEq]
  exact ⟨b, hb, Iff.rfl⟩

/-! ### Tables without repetitions -/

theorem timeframe?_of_code? (hcodes : (table.entries.map Prod.fst).Nodup)
    (h : table.code? timeframe = some code) : table.timeframe? code = some timeframe :=
  timeframe?_eq_some_iff.2 ((isLast_iff_mem hcodes).2 (mem_of_code? h))

theorem code?_of_timeframe? (htimeframes : (table.entries.map Prod.snd).Nodup)
    (h : table.timeframe? code = some timeframe) : table.code? timeframe = some code :=
  code?_eq_some_iff.2 ((isLast_iff_mem htimeframes).2 (mem_of_timeframe? h))

/-- No two timeframes have one code where no code is repeated. -/
theorem timeframe_eq_of_code? (hcodes : (table.entries.map Prod.fst).Nodup) {timeframe' : Timeframe}
    (h : table.code? timeframe = some code) (h' : table.code? timeframe' = some code) :
    timeframe = timeframe' :=
  Option.some.inj ((timeframe?_of_code? hcodes h).symm.trans (timeframe?_of_code? hcodes h'))

/-! ### Topics of candles -/

theorem topic_candles_eq_ok_iff {topic : String} :
    table.topic (.candles symbol timeframe) = .ok topic ↔
      ∃ code, table.code? timeframe = some code ∧ topic = Topic.join ["kline", code, symbol] := by
  simp only [IntervalTable.topic, TopicType.text]
  cases table.code? timeframe <;> simp [eq_comm]

/-! ### The two directions -/

/-- How the two directions of a table go together. -/
structure Agrees (table : IntervalTable) : Prop where
  /-- The codes are written entry by entry, and a later entry replaces those before it. -/
  writesCodes : table.timeframe? = table.entries.foldl
    (fun (found : String → Option Timeframe) e => Function.update found e.1 (some e.2))
    fun _ => none
  /-- So are the timeframes, on their own. -/
  writesTimeframes : table.code? = table.entries.foldl
    (fun (found : Timeframe → Option String) e => Function.update found e.2 (some e.1))
    fun _ => none
  ofCode : ∀ code timeframe, table.timeframe? code = some timeframe ↔
    IsLast Prod.fst table.entries (code, timeframe)
  ofTimeframe : ∀ timeframe code, table.code? timeframe = some code ↔
    IsLast Prod.snd table.entries (code, timeframe)
  size : table.size = (table.entries.map Prod.fst).toFinset.card
  /-- A candle with the code of a timeframe becomes a bar, of that timeframe or not. -/
  converts : ∀ timeframe code, table.code? timeframe = some code →
    ∀ symbol (c : Candle), c.interval = code → c.HasInstants →
      ∃ b, table.bar symbol c = .ok b ∧
        (b.timeframe = timeframe ↔ IsLast Prod.fst table.entries (code, timeframe))
  /-- Where no code is repeated, candles have the timeframe that was subscribed to. -/
  returns : (table.entries.map Prod.fst).Nodup →
    ∀ symbol timeframe topic, table.topic (.candles symbol timeframe) = .ok topic →
      ∃ code, table.code? timeframe = some code ∧ topic = Topic.join ["kline", code, symbol] ∧
        ∀ c : Candle, c.interval = code → c.HasInstants →
          ∃ b, table.bar symbol c = .ok b ∧ b.timeframe = timeframe
  inverse : (table.entries.map Prod.fst).Nodup → (table.entries.map Prod.snd).Nodup →
    (∀ code timeframe, table.timeframe? code = some timeframe ↔
      table.code? timeframe = some code) ∧ table.size = table.entries.length

/-- In either direction the last entry counts, whatever is repeated, and the directions agree
wherever the entries let them. -/
theorem directions_agree (table : IntervalTable) : table.Agrees where
  writesCodes := timeframe?_eq_foldl table
  writesTimeframes := code?_eq_foldl table
  ofCode _ _ := timeframe?_eq_some_iff
  ofTimeframe _ _ := code?_eq_some_iff
  size := size_eq_card table
  converts _ _ h _ _ hinterval hc := exists_bar_iff h hinterval hc
  returns hcodes symbol timeframe topic htopic := by
    obtain ⟨code, hcode, rfl⟩ := topic_candles_eq_ok_iff.1 htopic
    refine ⟨code, hcode, rfl, fun c hinterval hc => ?_⟩
    subst hinterval
    exact exists_bar_of_timeframe? (timeframe?_of_code? hcodes hcode) hc
  inverse hcodes htimeframes :=
    ⟨fun _ _ => ⟨code?_of_timeframe? htimeframes, timeframe?_of_code? hcodes⟩,
      size_eq_length hcodes⟩

/-- A code that is repeated labels candles with the timeframe of its last entry, which is not the
one that was asked for; without repetitions they have the one that was. -/
theorem directions_agree_repeated :
    (∃ b, bar ⟨[("1", .m1), ("2", .m3), ("1", .m5)]⟩ "BTCUSDT" (sampleCandle "1" 0) = .ok b ∧
      b.timeframe ≠ .m1) ∧
    ∃ b, standard.bar "BTCUSDT" (sampleCandle "D" 8210266876799999) = .ok b ∧
      b.timeframe = .d1 := by
  constructor
  · have hagrees := directions_agree ⟨[("1", .m1), ("2", .m3), ("1", .m5)]⟩
    obtain ⟨b, hb, hiff⟩ := hagrees.converts .m1 "1" (by decide) "BTCUSDT" (sampleCandle "1" 0) rfl
      ⟨by decide, by decide, by decide⟩
    refine ⟨b, hb, fun hasked => ?_⟩
    have hfound := timeframe?_eq_some_iff.2 (hiff.1 hasked)
    exact absurd hfound (by decide)
  · obtain ⟨code, hcode, -, hreturns⟩ := (directions_agree standard).returns (by decide) "BTCUSDT"
      .d1 "kline.D.BTCUSDT" rfl
    exact hreturns _ (Option.some.inj hcode) ⟨by decide, by decide, by decide⟩

end IntervalTable

end MarketFeed
