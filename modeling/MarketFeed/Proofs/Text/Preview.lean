import MarketFeed.Proofs.Text.Utf8
import MarketFeed.Text.Preview

/-!
# What a preview shows

The octets of a text can be cut exactly behind the starts of the text (`Utf8.isBoundary_iff`), so
the boundary that a preview goes back to ends the longest start within the limit
(`Text.exists_isCut`).  A text is its own preview if it fits, or if it is what the cut would make of
it (`Text.preview_eq_self_iff`); `Text.Shows` says all that holds of the preview of a text.
-/

namespace MarketFeed

namespace Utf8

theorem length_encode_cons (c : Char) (s : List Char) :
    (encode (c :: s)).length = c.utf8Size + (encode s).length := by
  rw [encode_cons, List.length_append, String.length_utf8EncodeChar]

theorem length_encode (s : List Char) : (encode s).length = size s := by
  induction s with
  | nil => rfl
  | cons c s ih =>
    rw [length_encode_cons, ih]
    rfl

/-! ### Starts of a text -/

/-- A start that takes as many octets as the text is all of it. -/
theorem eq_of_length_encode_le {p q : List Char} (h : p <+: q)
    (hle : (encode q).length ≤ (encode p).length) : p = q := by
  obtain ⟨t, rfl⟩ := h
  cases t with
  | nil => exact (List.append_nil p).symm
  | cons c t =>
    have hpos := c.utf8Size_pos
    rw [encode_append, List.length_append, length_encode_cons] at hle
    omega

/-- Of two starts of a text the one with fewer octets is a start of the other. -/
theorem isPrefix_of_length_encode_le {s p q : List Char} (hp : p <+: s) (hq : q <+: s)
    (hle : (encode p).length ≤ (encode q).length) : p <+: q := by
  obtain h | h := List.prefix_or_prefix_of_prefix hp hq
  · exact h
  · obtain rfl := eq_of_length_encode_le h hle
    exact List.prefix_refl q

/-! ### Where a text can be cut -/

/-- Behind a start of a text there is a boundary. -/
theorem isBoundary_of_isPrefix {s p : List Char} (h : p <+: s) :
    isBoundary (encode s) (encode p).length = true := by
  obtain ⟨t, rfl⟩ := h
  rw [encode_append]
  cases t with
  | nil => simp [isBoundary, encode]
  | cons c t =>
    obtain ⟨b, tail, hc, hb, -⟩ := encodeChar_octets c
    simp [isBoundary, encode_cons, hc, hb]

/-- Inside a character there is no boundary. -/
theorem le_of_isBoundary {c : Char} {s : List Char} {i : Nat}
    (h : isBoundary (encode (c :: s)) i = true) (hi : i ≠ 0) : c.utf8Size ≤ i := by
  refine Nat.le_of_not_lt fun hlt => ?_
  -- The octet there is one of the character's, and not its first.
  obtain ⟨b, tail, hc, -, hcontinues⟩ := encodeChar_octets c
  have hsize : c.utf8Size = tail.length + 1 := by
    rw [← String.length_utf8EncodeChar, hc, List.length_cons]
  obtain ⟨j, rfl⟩ := Nat.exists_eq_succ_of_ne_zero hi
  have hj : j < tail.length := by omega
  have hoctet : (encode (c :: s))[j + 1]? = some tail[j] := by
    rw [encode_cons, hc, List.cons_append, List.getElem?_cons_succ, List.getElem?_append_left hj,
      List.getElem?_eq_getElem hj]
  simp [isBoundary, hoctet, hcontinues _ (List.getElem_mem hj)] at h

/-- Boundaries behind the first character are those of what follows it. -/
theorem isBoundary_of_cons {c : Char} {s : List Char} {i : Nat}
    (h : isBoundary (encode (c :: s)) (c.utf8Size + i) = true) :
    isBoundary (encode s) i = true := by
  have hpos := c.utf8Size_pos
  have hoctet : (encode (c :: s))[c.utf8Size + i]? = (encode s)[i]? := by
    rw [encode_cons, List.getElem?_append_right (by rw [String.length_utf8EncodeChar]; omega),
      String.length_utf8EncodeChar, Nat.add_sub_cancel_left]
  rw [isBoundary, hoctet, length_encode_cons, decide_eq_false (by omega), Bool.false_or] at h
  rw [isBoundary, Bool.or_eq_true]
  right
  cases hi : (encode s)[i]? with
  | none => simpa [hi] using h
  | some b => simpa [hi] using h

/-- The octets of a text can be cut exactly behind a start of the text. -/
theorem isBoundary_iff {s : List Char} {i : Nat} :
    isBoundary (encode s) i = true ↔ ∃ p, p <+: s ∧ (encode p).length = i := by
  constructor
  · intro h
    induction s generalizing i with
    | nil =>
      refine ⟨[], List.prefix_refl [], ?_⟩
      simpa [isBoundary, encode, eq_comm] using h
    | cons c s ih =>
      by_cases hi : i = 0
      · exact ⟨[], List.nil_prefix, hi.symm⟩
      · obtain ⟨j, rfl⟩ := Nat.exists_eq_add_of_le (le_of_isBoundary h hi)
        obtain ⟨p, hp, hlength⟩ := ih (isBoundary_of_cons h)
        exact ⟨c :: p, List.cons_prefix_cons.2 ⟨rfl, hp⟩, by rw [length_encode_cons, hlength]⟩
  · rintro ⟨p, hp, rfl⟩
    exact isBoundary_of_isPrefix hp

end Utf8

namespace Text

open Utf8

/-! ### The longest start within the limit -/

/-- The longest start of a text that fits into a number of octets. -/
structure IsLongest (limit : Nat) (s kept : List Char) : Prop where
  isPrefix : kept <+: s
  fits : (encode kept).length ≤ limit
  longest : ∀ p, p <+: s → (encode p).length ≤ limit → p <+: kept

/-- A start that goes beyond the longest one does not fit. -/
theorem IsLongest.lt {limit : Nat} {s kept : List Char} {c : Char} {t : List Char}
    (h : IsLongest limit s kept) (split : s = kept ++ c :: t) :
    limit < (encode kept).length + c.utf8Size := by
  refine Nat.lt_of_not_le fun fits => ?_
  have longer : kept ++ [c] <+: kept := by
    refine h.longest _ ⟨t, by rw [split, List.append_assoc]; rfl⟩ ?_
    rwa [encode_append, List.length_append, length_encode_cons]
  have := longer.length_le
  rw [List.length_append, List.length_singleton] at this
  omega

/-- Going back from the limit comes to the end of the longest start that fits. -/
theorem exists_isLongest (limit : Nat) (s : List Char) :
    ∃ kept, IsLongest limit s kept ∧
      lastBoundary? (encode s) limit = some (encode kept).length := by
  obtain ⟨stop, found, le, boundary, passed⟩ := exists_lastBoundary? (encode s) limit
  obtain ⟨kept, hkept, rfl⟩ := isBoundary_iff.1 boundary
  refine ⟨kept, ⟨hkept, le, fun p hp hfits => ?_⟩, found⟩
  -- Behind `p` there is a boundary, which the search would not have passed.
  have hle : (encode p).length ≤ (encode kept).length := by
    refine Nat.le_of_not_lt fun hlt => ?_
    have := passed _ hlt hfits
    rw [isBoundary_of_isPrefix hp] at this
    cases this
  exact isPrefix_of_length_encode_le hp hkept hle

/-! ### The cut -/

theorem takeOctets_append (p t : List Char) : takeOctets (encode p).length (p ++ t) = p := by
  induction p with
  | nil =>
    cases t with
    | nil => rfl
    | cons c t => exact if_neg (Nat.not_le_of_lt c.utf8Size_pos)
  | cons c p ih =>
    rw [length_encode_cons, List.cons_append, takeOctets, if_pos (Nat.le_add_right _ _),
      Nat.add_sub_cancel_left, ih]

theorem before?_of_isPrefix {s p : List Char} (h : p <+: s) :
    before? s (encode p).length = some p := by
  rw [before?, if_pos (isBoundary_of_isPrefix h)]
  obtain ⟨t, rfl⟩ := h
  rw [takeOctets_append]

/-- How a text that does not fit is cut behind what is kept of it. -/
structure IsCut (limit : Nat) (s kept : List Char) : Prop where
  /-- The search ends, without going below the first octet, behind what is kept. -/
  found : lastBoundary? (encode s) limit = some (encode kept).length
  /-- No character is split there, so cutting does not fail. -/
  boundary : isBoundary (encode s) (encode kept).length = true
  before : before? s (encode kept).length = some kept
  octets : (encode s).take (encode kept).length = encode kept
  /-- The search passes three octets at most. -/
  near : limit < (encode kept).length + 4
  shown : preview? limit s = some (kept ++ ['.', '.', '.'])

theorem IsLongest.isCut {limit : Nat} {s kept : List Char} (h : IsLongest limit s kept)
    (found : lastBoundary? (encode s) limit = some (encode kept).length)
    (long : limit < (encode s).length) : IsCut limit s kept where
  found := found
  boundary := isBoundary_of_isPrefix h.isPrefix
  before := before?_of_isPrefix h.isPrefix
  octets := by
    obtain ⟨t, rfl⟩ := h.isPrefix
    rw [encode_append, List.take_left]
  near := by
    obtain ⟨t, split⟩ := h.isPrefix
    cases t with
    | nil =>
      have hfits := h.fits
      rw [List.append_nil] at split
      rw [split] at hfits
      omega
    | cons c t =>
      have hlt := h.lt split.symm
      have hsize := c.utf8Size_le_four
      omega
  shown := by
    rw [preview?, ← length_encode, if_neg (Nat.not_le_of_lt long), found, Option.bind_eq_bind,
      Option.bind_some, before?_of_isPrefix h.isPrefix]
    rfl

/-! ### The preview -/

theorem preview?_eq (limit : Nat) (s : List Char) :
    preview? limit s = some (preview limit s) := (Option.some_get _).symm

theorem preview_of_fits {limit : Nat} {s : List Char} (fits : (encode s).length ≤ limit) :
    preview limit s = s := by
  rw [← Option.some_inj, ← preview?_eq, preview?, ← length_encode, if_pos fits]

/-- A text that does not fit is cut behind its longest start that does. -/
theorem exists_isCut {limit : Nat} {s : List Char} (long : limit < (encode s).length) :
    ∃ kept, IsLongest limit s kept ∧ IsCut limit s kept := by
  obtain ⟨kept, longest, found⟩ := exists_isLongest limit s
  exact ⟨kept, longest, longest.isCut found long⟩

theorem IsCut.preview_eq {limit : Nat} {s kept : List Char} (h : IsCut limit s kept) :
    preview limit s = kept ++ ['.', '.', '.'] := by
  rw [← Option.some_inj, ← preview?_eq, h.shown]

/-- Only a text that fits is its own preview, or one whose last three points are what does not. -/
theorem preview_eq_self_iff {limit : Nat} {s : List Char} :
    preview limit s = s ↔ (encode s).length ≤ limit ∨
      ∃ p, s = p ++ ['.', '.', '.'] ∧ (encode p).length = limit := by
  constructor
  · intro same
    obtain long | fits := Nat.lt_or_ge limit (encode s).length
    · right
      obtain ⟨kept, longest, cut⟩ := exists_isCut long
      have split : s = kept ++ ['.', '.', '.'] := same.symm.trans cut.preview_eq
      have hlt := longest.lt split
      exact ⟨kept, split, Nat.le_antisymm longest.fits (Nat.le_of_lt_succ hlt)⟩
    · exact .inl fits
  · rintro (fits | ⟨p, rfl, hp⟩)
    · exact preview_of_fits fits
    · have long : limit < (encode (p ++ ['.', '.', '.'])).length := by
        rw [encode_append, List.length_append, hp]
        exact Nat.lt_add_of_pos_right (by decide)
      obtain ⟨kept, longest, cut⟩ := exists_isCut long
      have hprefix : p <+: kept := longest.longest p (List.prefix_append _ _) (Nat.le_of_eq hp)
      obtain rfl := eq_of_length_encode_le hprefix (hp ▸ longest.fits)
      exact cut.preview_eq

/-- What a preview shows of a text. -/
structure Shows (limit : Nat) (s : List Char) : Prop where
  /-- Making the preview does not fail. -/
  made : preview? limit s = some (preview limit s)
  /-- The text is left as it is exactly if it fits, or if it is what a cut would make of it. -/
  same_iff : preview limit s = s ↔ (encode s).length ≤ limit ∨
    ∃ p, s = p ++ ['.', '.', '.'] ∧ (encode p).length = limit
  cut : limit < (encode s).length → ∃ kept, IsLongest limit s kept ∧ IsCut limit s kept

theorem shows (limit : Nat) (s : List Char) : Shows limit s :=
  ⟨preview?_eq limit s, preview_eq_self_iff, exists_isCut⟩

example : preview 2 ['a', 'é', 'b'] = ['a', '.', '.', '.'] := by decide

/-- Texts that do not fit and are left as they are. -/
theorem preview_leaves_long :
    (0 < (encode ['.', '.', '.']).length ∧ preview 0 ['.', '.', '.'] = ['.', '.', '.']) ∧
      (2 < (encode ['a', 'b', '.', '.', '.']).length ∧
        preview 2 ['a', 'b', '.', '.', '.'] = ['a', 'b', '.', '.', '.']) := by
  decide

end Text

end MarketFeed
