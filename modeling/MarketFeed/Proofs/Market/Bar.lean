import MarketFeed.Proofs.Calendar.Timestamp
import MarketFeed.Proofs.Decimal.Difference
import MarketFeed.Proofs.Json.View
import MarketFeed.Proofs.Market.Conversion

/-!
# Prices and times of bars

The range of a bar is the difference of its prices and its colour is their order, as numbers
(`Bar.measures`).  Nothing is asked of the prices: the highest may be below the lowest, and either
may be negative.  The times of a candle are written in the object of its bar as texts (`Bar.write`),
from which the milliseconds on the wire can be read again (`IntervalTable.bar_keepsTimes`).
-/

namespace MarketFeed

open Json Json.Node

/-! ### Prices -/

namespace Bar

/-- What is made of the prices of a bar.  The range is exact where it fits with all places, it is
rounded where it does not, and it is missing exactly where it does not fit as an integer. -/
structure Measures (b : Bar) : Prop where
  exact : |b.high.worth - b.low.worth| * 10 ^ max b.high.scale b.low.scale < mantissaBound →
    ∃ d, b.range? = some d ∧ d.worth = b.high.worth - b.low.worth
  rounded : ∀ d, b.range? = some d →
    d.worth = Decimal.signFactor (decide (b.high.worth < b.low.worth)) *
      (Rounding.toEven (|b.high.worth - b.low.worth| * 10 ^ d.scale) / 10 ^ d.scale)
  missing : b.range? = none ↔
    (mantissaBound : ℤ) ≤ Rounding.toEven |b.high.worth - b.low.worth|
  present : 0 ≤ b.high.worth ∧ 0 ≤ b.low.worth ∨ b.high.worth ≤ 0 ∧ b.low.worth ≤ 0 →
    ∃ d, b.range? = some d
  rising : b.isBullish = true ↔ b.opening.worth < b.closing.worth
  good : b.attachment.color = some "good" ↔ b.opening.worth < b.closing.worth
  danger : b.attachment.color = some "danger" ↔ b.closing.worth ≤ b.opening.worth

/-- The range of a bar is the difference of its prices, exact or rounded or missing, and the bar is
good exactly if its price has risen. -/
theorem measures (b : Bar) : b.Measures where
  exact := Decimal.exists_sub?_of_lt
  rounded _ := Decimal.worth_of_sub?
  missing := Decimal.sub?_eq_none_iff
  present := Decimal.exists_sub?_of_same_side
  rising := Decimal.worthLess_iff
  good := by
    rw [← Decimal.worthLess_iff, ← isBullish]
    cases hrises : b.isBullish <;> simp [attachment, hrises]
  danger := by
    rw [← not_lt, ← Decimal.worthLess_iff, ← isBullish]
    cases hrises : b.isBullish <;> simp [attachment, hrises]

end Bar

/-! ### Times -/

/-- A member of an object is a text that stands for a number of milliseconds, on a day that the
calendar has. -/
def DenotesTime (t : Node) (key : String) (millis : UInt64) : Prop :=
  ∃ s timestamp, (t.get? key).bind string? = some s ∧ Timestamp.read? s = some timestamp ∧
    timestamp.IsValid ∧ timestamp.millis = millis.toNat

theorem denotesTime_of_text {t : Node} {key : String} {instant : Instant} {millis : UInt64}
    (h : (t.get? key).bind string? = some instant.text) (hmillis : instant.millis = millis.toNat) :
    DenotesTime t key millis :=
  ⟨_, _, h, instant.read?_text, instant.isValid_timestamp, by
    rw [instant.millis_timestamp, hmillis]⟩

namespace IntervalTable

/-- The times of a candle can be read again from its bar, and no two of them have the same text. -/
structure KeepsTimes (table : IntervalTable) : Prop where
  read : ∀ symbol c b, table.bar symbol c = .ok b →
    DenotesTime b.write "start_time" c.startTime ∧ DenotesTime b.write "end_time" c.endTime ∧
      DenotesTime b.write "last_trade_time" c.lastTrade
  convertible : ∀ field (millis : UInt64),
    (∃ t, instant field millis = .ok t) ↔ millis.toNat ≤ lastMilli
  distinct : ∀ field field' millis millis' t t', instant field millis = .ok t →
    instant field' millis' = .ok t' → t.text = t'.text → millis = millis'

theorem bar_keepsTimes (table : IntervalTable) : table.KeepsTimes where
  read symbol c b h := by
    obtain ⟨-, -, hstart, hend, -, -, -, -, -, -, -, hlast⟩ := bar_eq_ok_iff.1 h
    exact ⟨denotesTime_of_text (by simp [Bar.write, get?_ofPairs]) hstart,
      denotesTime_of_text (by simp [Bar.write, get?_ofPairs]) hend,
      denotesTime_of_text (by simp [Bar.write, get?_ofPairs]) hlast⟩
  convertible field millis := by
    constructor
    · rintro ⟨t, ht⟩
      exact instant_eq_ok_iff.1 ht ▸ t.millis_le
    · intro h
      exact ⟨⟨_, h⟩, instant_eq_ok_iff.2 rfl⟩
  distinct field field' millis millis' t t' ht ht' htext := by
    obtain rfl := Instant.text_injective htext
    exact UInt64.toNat_inj.1 ((instant_eq_ok_iff.1 ht).symm.trans (instant_eq_ok_iff.1 ht'))

end IntervalTable

end MarketFeed
