import MarketFeed.Proofs.Calendar.Date
import MarketFeed.Proofs.Text.Digits

/-!
# Timestamps

A `Timestamp` is a date with a time of day, and stands for a number of milliseconds
(`Timestamp.millis`).  It is read from a text of one form only (`Timestamp.read?`): a year of four
digits, or a larger one behind a plus sign, two digits for everything else, and three for the
milliseconds unless there are none.  The text of an instant is read as a timestamp that the calendar
has, and stands for that instant (`read?_text`).
-/

namespace MarketFeed

/-- A day and a time of the day. -/
structure Timestamp where
  date : Date
  hour : Nat
  minute : Nat
  second : Nat
  milli : Nat

namespace Timestamp

/-- The calendar has the day, and the day has the time. -/
structure IsValid (t : Timestamp) : Prop where
  date : t.date.IsValid
  hour_lt : t.hour < 24
  minute_lt : t.minute < 60
  second_lt : t.second < 60
  milli_lt : t.milli < 1000

/-- The milliseconds from the start of 1970. -/
def millis (t : Timestamp) : ℤ :=
  ((t.date.dayNumber : ℤ) - Date.dayNumber ⟨1970, 1, 1⟩) * (24 * 60 * 60 * 1000) +
    (((t.hour * 60 + t.minute) * 60 + t.second) * 1000 + t.milli : ℕ)

/-! ### Reading -/

/-- A part of a text is read from its start. -/
abbrev Reader := StateT (List Char) Option

/-- Reads a character. -/
def mark (c : Char) : Reader Unit
  | d :: cs => if d = c then some ((), cs) else none
  | [] => none

/-- Reads a number of so many digits. -/
def number (width : Nat) : Reader Nat := fun cs =>
  if width ≤ cs.length then
    ((cs.take width).mapM Digit.ofChar?).map fun ds => (Digits.value ds, cs.drop width)
  else none

/-- Reads a year: one above 9999 behind a plus sign, up to a minus sign. -/
def year : Reader Nat
  | '+' :: cs => do
    let (y, cs) ← number (cs.takeWhile (· ≠ '-')).length cs
    if 9999 < y then some (y, cs) else none
  | cs => number 4 cs

/-- Reads the milliseconds, which are left out where there are none. -/
def fraction : Reader Nat
  | '.' :: cs => do
    let (milli, cs) ← number 3 cs
    if milli = 0 then none else some (milli, cs)
  | cs => some (0, cs)

/-- Reads a timestamp. -/
def reader : Reader Timestamp := do
  let year ← year
  mark '-'
  let month ← number 2
  mark '-'
  let day ← number 2
  mark 'T'
  let hour ← number 2
  mark ':'
  let minute ← number 2
  mark ':'
  let second ← number 2
  let milli ← fraction
  mark 'Z'
  return ⟨⟨year, month, day⟩, hour, minute, second, milli⟩

/-- The timestamp that a text is. -/
def read? (s : String) : Option Timestamp :=
  match reader s.toList with
  | some (t, []) => some t
  | _ => none

/-! ### What is written is read -/

/-- What follows a part that has been read goes on with the rest. -/
theorem bind_of_eq {α β : Type} {r : Reader α} {f : α → Reader β} {a : α} {cs cs' : List Char}
    (h : r cs = some (a, cs')) : (r >>= f) cs = f a cs' := by
  change (r cs >>= fun p => f p.1 p.2) = f a cs'
  rw [h]
  rfl

theorem mark_cons (c : Char) (cs : List Char) : mark c (c :: cs) = some ((), cs) := if_pos rfl

theorem number_chars (ds : List Digit) (cs : List Char) :
    number ds.length (Digits.chars ds ++ cs) = some (Digits.value ds, cs) := by
  have hlength : (Digits.chars ds).length = ds.length := List.length_map _
  rw [number, if_pos (by simp [hlength]), List.take_left' hlength, List.drop_left' hlength,
    Digits.mapM_chars]
  rfl

theorem number_padded {width n : Nat} (hwidth : 0 < width) (hn : n < 10 ^ width) (cs : List Char) :
    number width ((Text.ofNatPadded width n).toList ++ cs) = some (n, cs) := by
  obtain ⟨ds, hchars, rfl, rfl⟩ := Text.toList_ofNatPadded hwidth hn
  rw [hchars, number_chars]

/-- The text of a year is read as the year. -/
theorem year_text (y : Nat) (cs : List Char) :
    year ((if 9999 < y then "+" ++ Text.ofNat y else Text.ofNatPadded 4 y).toList ++ '-' :: cs) =
      some (y, '-' :: cs) := by
  split_ifs with hy
  · have hdigits : ∀ c ∈ Digits.chars (Digits.ofNat y), decide (c ≠ '-') = true := by
      intro c hc
      obtain ⟨d, -, rfl⟩ := List.mem_map.1 hc
      exact decide_eq_true d.toChar_ne_sign.1
    have hlength : ((Digits.chars (Digits.ofNat y) ++ '-' :: cs).takeWhile (· ≠ '-')).length =
        (Digits.ofNat y).length := by
      rw [List.takeWhile_append_of_pos hdigits, List.takeWhile_cons_of_neg (by decide),
        List.append_nil, Digits.chars, List.length_map]
    have hsign : ("+" ++ Text.ofNat y).toList = '+' :: Digits.chars (Digits.ofNat y) := by
      simp [Text.ofNat]
    rw [hsign, List.cons_append, year, hlength, number_chars, Digits.value_ofNat]
    exact if_pos hy
  · have hfour : y < 10 ^ 4 := by omega
    obtain ⟨ds, hchars, hlength, -⟩ := Text.toList_ofNatPadded (by decide) hfour
    unfold year
    split
    · next cs' hplus =>
      obtain ⟨d, ds, rfl⟩ := List.exists_cons_of_length_eq_add_one hlength
      rw [hchars] at hplus
      exact absurd (List.cons.inj hplus).1 d.toChar_ne_sign.2
    · exact number_padded (by decide) hfour _

theorem fraction_text (t : Instant) (cs : List Char) :
    fraction (t.fraction.toList ++ 'Z' :: cs) = some (t.ofDay % 1000, 'Z' :: cs) := by
  unfold Instant.fraction
  split_ifs with hzero
  · rw [hzero]
    rfl
  · have hthree : t.ofDay % 1000 < 10 ^ 3 := Nat.mod_lt _ (by decide)
    have hpoint : ("." ++ Text.ofNatPadded 3 (t.ofDay % 1000)).toList ++ 'Z' :: cs =
        '.' :: ((Text.ofNatPadded 3 (t.ofDay % 1000)).toList ++ 'Z' :: cs) := by
      simp
    rw [hpoint, fraction, number_padded (by decide) hthree]
    exact if_neg hzero

end Timestamp

namespace Instant

/-- The timestamp of an instant. -/
def timestamp (t : Instant) : Timestamp :=
  ⟨t.date, t.ofDay / 3600000, t.ofDay / 60000 % 60, t.ofDay / 1000 % 60, t.ofDay % 1000⟩

open Timestamp in
theorem read?_text (t : Instant) : Timestamp.read? t.text = some t.timestamp := by
  have hday : t.ofDay < dayMillis := Nat.mod_lt _ (by decide)
  unfold dayMillis at hday
  have hvalid : t.date.IsValid := (Date.ofDays_spec _).1
  have hmonth : t.date.month < 10 ^ 2 := hvalid.month_le.trans_lt (by decide)
  have hdate : t.date.day < 10 ^ 2 := by
    have := hvalid.day_le
    unfold Date.monthLength at this
    split_ifs at this <;> omega
  have htext : t.text.toList =
      (if 9999 < t.date.year then "+" ++ Text.ofNat t.date.year
        else Text.ofNatPadded 4 t.date.year).toList ++
      '-' :: ((Text.ofNatPadded 2 t.date.month).toList ++
      '-' :: ((Text.ofNatPadded 2 t.date.day).toList ++
      'T' :: ((Text.ofNatPadded 2 (t.ofDay / 3600000)).toList ++
      ':' :: ((Text.ofNatPadded 2 (t.ofDay / 60000 % 60)).toList ++
      ':' :: ((Text.ofNatPadded 2 (t.ofDay / 1000 % 60)).toList ++
      (t.fraction.toList ++ ['Z'])))))) := by
    simp [text, Date.text, clock]
  have hread : reader t.text.toList = some (t.timestamp, []) := by
    rw [htext, reader, bind_of_eq (year_text _ _), bind_of_eq (mark_cons _ _),
      bind_of_eq (number_padded (by decide) hmonth _), bind_of_eq (mark_cons _ _),
      bind_of_eq (number_padded (by decide) hdate _), bind_of_eq (mark_cons _ _),
      bind_of_eq (number_padded (by decide) (by omega) _), bind_of_eq (mark_cons _ _),
      bind_of_eq (number_padded (by decide) (by omega) _), bind_of_eq (mark_cons _ _),
      bind_of_eq (number_padded (by decide) (by omega) _), bind_of_eq (fraction_text t _),
      bind_of_eq (mark_cons _ _)]
    rfl
  rw [read?, hread]

-- The last instant, in a year of six digits.
example : (⟨lastMilli, le_rfl⟩ : Instant).text = "+262142-12-31T23:59:59.999Z" := by
  decide +kernel

theorem isValid_timestamp (t : Instant) : t.timestamp.IsValid where
  date := (Date.ofDays_spec _).1
  hour_lt := by
    have : t.ofDay < dayMillis := Nat.mod_lt _ (by decide)
    unfold dayMillis at this
    simp only [timestamp]
    omega
  minute_lt := Nat.mod_lt _ (by decide)
  second_lt := Nat.mod_lt _ (by decide)
  milli_lt := Nat.mod_lt _ (by decide)

theorem millis_timestamp (t : Instant) : t.timestamp.millis = t.millis := by
  have hdate : t.date.dayNumber = epochDays + t.millis / dayMillis := (Date.ofDays_spec _).2
  have hepoch : Date.dayNumber ⟨1970, 1, 1⟩ = epochDays := by decide
  simp only [Timestamp.millis, timestamp, hdate, hepoch, ofDay, dayMillis]
  push_cast
  omega

/-- Different instants have different texts. -/
theorem text_injective : Function.Injective text := by
  intro t t' h
  have hread : some t.timestamp = some t'.timestamp := by rw [← read?_text, h, read?_text]
  have hmillis := congrArg Timestamp.millis (Option.some.inj hread)
  rw [millis_timestamp, millis_timestamp, Int.natCast_inj] at hmillis
  obtain ⟨n, _⟩ := t
  obtain ⟨n', _⟩ := t'
  obtain rfl : n = n' := hmillis
  rfl

end Instant

end MarketFeed
