import Mathlib.Data.List.DropRight
import MarketFeed.Text.Characters
import MarketFeed.Text.Digits

/-!
# Texts between blanks

Trimming takes nothing but blanks from the two ends of a text (`Text.exists_trim`).  A text without
blanks in it is what trimming leaves of it between any blanks (`Text.trim_eq_iff`).
-/

namespace MarketFeed

namespace Text

/-- Characters that are white space. -/
def AreBlank (cs : List Char) : Prop := ∀ c ∈ cs, isBlank c = true

theorem isBlank_toChar : ∀ d : Digit, isBlank d.toChar = false := by decide

theorem exists_trim (s : List Char) :
    ∃ before after, s = before ++ (trim s ++ after) ∧ AreBlank before ∧ AreBlank after := by
  refine ⟨s.takeWhile isBlank, (s.dropWhile isBlank).rtakeWhile isBlank, ?_,
    fun _ => List.mem_takeWhile_imp, fun _ => List.mem_rtakeWhile_imp⟩
  calc s = s.takeWhile isBlank ++ s.dropWhile isBlank := List.takeWhile_append_dropWhile.symm
    _ = s.takeWhile isBlank ++ ((s.dropWhile isBlank).rdropWhile isBlank ++
        (s.dropWhile isBlank).rtakeWhile isBlank) := by rw [List.rdropWhile_append_rtakeWhile]

/-- A text that does not begin with a blank is not blank. -/
theorem trim_ne_nil {c : Char} (hc : isBlank c = false) (cs : List Char) : trim (c :: cs) ≠ [] := by
  intro hnil
  obtain ⟨before, after, hs, hbefore, hafter⟩ := exists_trim (c :: cs)
  rw [hnil, List.nil_append] at hs
  have hmem : c ∈ before ++ after := hs ▸ List.mem_cons_self
  have hblank : isBlank c = true := (List.mem_append.1 hmem).elim (hbefore c) (hafter c)
  rw [hc] at hblank
  cases hblank

/-- Blanks at the end do not matter to trimming. -/
theorem trimEnd_append (s : List Char) {after : List Char} (h : AreBlank after) :
    trimEnd (s ++ after) = trimEnd s := by
  rw [trimEnd, trimEnd, List.reverse_append,
    List.dropWhile_append_of_pos fun c hc => h c (List.mem_reverse.1 hc)]

theorem trimEnd_eq_self {w : List Char} (hw : ∀ c ∈ w, isBlank c = false) : trimEnd w = w := by
  refine List.rdropWhile_eq_self_iff.2 fun hne => ?_
  simp [hw _ (List.getLast_mem hne)]

theorem trim_eq_iff {s w : List Char} (hw : ∀ c ∈ w, isBlank c = false) :
    trim s = w ↔
      ∃ before after, s = before ++ (w ++ after) ∧ AreBlank before ∧ AreBlank after := by
  constructor
  · rintro rfl
    exact exists_trim s
  · rintro ⟨before, after, rfl, hbefore, hafter⟩
    rw [trim, List.dropWhile_append_of_pos hbefore]
    cases w with
    | nil =>
      have hdrop : after.dropWhile isBlank = [] := List.dropWhile_eq_nil_iff.2 hafter
      rw [List.nil_append, hdrop]
      rfl
    | cons c w =>
      have hc : ¬isBlank c = true := by simp [hw c List.mem_cons_self]
      rw [List.cons_append, List.dropWhile_cons_of_neg hc, ← List.cons_append,
        trimEnd_append _ hafter, trimEnd_eq_self hw]

end Text

end MarketFeed
