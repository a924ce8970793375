import MarketFeed.Proofs.Json.Grammar

/-!
# Lists of pieces

Elements and members are listed alike: pieces with commas between them, up to a mark that closes
the list.  `Listing.between` is what scanning such a list does, given how the pieces are scanned
one after the other, and `Listing.behind` what it does behind a piece.  A list is found in its text
(`Listing.between_text`), and what is found is spelled and makes up the octets
(`Listing.listed_between`, `Listing.listed_behind`).
-/

namespace MarketFeed

namespace Json

/-! ### Gaps -/

/-- Whether no blank stands at the start of the octets. -/
def startsBare : List UInt8 → Bool
  | [] => true
  | b :: _ => !Octet.isBlank b

theorem takeGap_append {gap : Gap} (hgap : gap.isBlank = true) {s : List UInt8}
    (hs : startsBare s = true) : takeGap (gap ++ s) = gap := by
  rw [takeGap, List.takeWhile_append_of_pos (List.all_eq_true.1 hgap)]
  cases s with
  | nil => exact List.append_nil gap
  | cons b s =>
    rw [List.takeWhile_cons_of_neg (by simpa [startsBare] using hs), List.append_nil]

theorem dropGap_append {gap : Gap} (hgap : gap.isBlank = true) {s : List UInt8}
    (hs : startsBare s = true) : dropGap (gap ++ s) = s := by
  rw [dropGap, List.dropWhile_append_of_pos (List.all_eq_true.1 hgap)]
  cases s with
  | nil => rfl
  | cons b s => exact List.dropWhile_cons_of_neg (by simpa [startsBare] using hs)

theorem takeGap_isBlank (s : List UInt8) : Gap.isBlank (takeGap s) = true := by
  rw [Gap.isBlank, takeGap, List.all_takeWhile]

theorem takeGap_append_dropGap (s : List UInt8) : takeGap s ++ dropGap s = s :=
  List.takeWhile_append_dropWhile

namespace Listing

variable {β : Type}

/-! ### Scanning a list -/

/-- The octets of pieces, each with a comma before it. -/
def text (piece : β → List UInt8) : List β → List UInt8
  | [] => []
  | x :: xs => Octet.comma :: piece x ++ text piece xs

/-- The pieces that begin with a given one, when the octets behind it are given. -/
def behind (close : UInt8) (more : List UInt8 → List β × Ending × List UInt8) (x : β) :
    List UInt8 → List β × Ending × List UInt8
  | [] => ([x], .cut [], [])
  | b :: rest =>
    if b = Octet.comma then
      match more rest with
      | ([], _, _) => ([x], .cut (b :: rest), [])
      | (xs, ending, rest) => (x :: xs, ending, rest)
    else if b = close then ([x], .closed [], rest)
    else ([x], .cut (b :: rest), [])

/-- The pieces up to the closing mark, which may come at once. -/
def between (close : UInt8) (more : List UInt8 → List β × Ending × List UInt8) (s : List UInt8) :
    List β × Ending × List UInt8 :=
  match dropGap s with
  | [] => ([], .cut s, [])
  | b :: rest => if b = close then ([], .closed (takeGap s), rest) else more s

/-! ### A list is found in its text -/

/-- There is a step for the first of `n + 1` octets, and enough are left for the others. -/
theorem exists_step {n bound : Nat} (h : 3 * (n + 1) ≤ bound) :
    ∃ bound', bound = bound' + 1 ∧ 3 * n + 2 ≤ bound' :=
  ⟨bound - 1, by omega, by omega⟩

section

variable {piece : β → List UInt8} {close : UInt8}
  {more : Nat → List UInt8 → List β × Ending × List UInt8}

/-- A piece is found where a comma or the closing mark is behind it. -/
def IsFound (piece : β → List UInt8) (close : UInt8)
    (more : Nat → List UInt8 → List β × Ending × List UInt8) (x : β) : Prop :=
  ∀ bound b s, 3 * (piece x).length ≤ bound → b = Octet.comma ∨ b = close →
    more (bound + 1) (piece x ++ b :: s) = behind close (more bound) x (b :: s)

/-- Pieces are found up to the mark behind them. -/
theorem more_text (hclose : close ≠ Octet.comma) {x : β} {xs : List β}
    (hfound : ∀ y ∈ x :: xs, IsFound piece close more y) {bound : Nat}
    (hb : 3 * ((piece x ++ text piece xs).length + 1) ≤ bound) (rest : List UInt8) :
    more bound (piece x ++ text piece xs ++ close :: rest) = (x :: xs, .closed [], rest) := by
  induction xs generalizing x bound with
  | nil =>
    obtain ⟨bound, rfl, hb⟩ := exists_step hb
    rw [text, List.append_nil] at hb ⊢
    rw [hfound x List.mem_cons_self bound close rest (by omega) (Or.inr rfl), behind,
      if_neg hclose, if_pos rfl]
  | cons y xs ih =>
    obtain ⟨bound, rfl, hb⟩ := exists_step hb
    simp only [text, List.length_append, List.length_cons] at hb
    have hlength : 3 * ((piece y ++ text piece xs).length + 1) ≤ bound := by
      rw [List.length_append]
      omega
    have hrest := ih (fun z hz => hfound z (List.mem_cons_of_mem _ hz)) hlength
    rw [text, List.append_assoc, List.append_assoc, List.cons_append,
      hfound x List.mem_cons_self bound Octet.comma _ (by omega) (Or.inl rfl), behind,
      if_pos rfl, ← List.append_assoc, hrest]

/-- The pieces of a list and its ending are found in the text of the list. -/
theorem between_text (hclose : close ≠ Octet.comma) (hblank : Octet.isBlank close = false)
    {xs : List β} {ending : Ending} (hending : Node.IsEnding (!xs.isEmpty) ending)
    (hhead : ∀ x ∈ xs, ∀ s, ∃ b s', dropGap (piece x ++ s) = b :: s' ∧ b ≠ close)
    (hfound : ∀ x ∈ xs, IsFound piece close more x) {bound : Nat}
    (hb : 3 * ((text piece xs).drop 1 ++ ending.text close).length ≤ bound) (rest : List UInt8) :
    between close (more bound) ((text piece xs).drop 1 ++ (ending.text close ++ rest)) =
      (xs, ending, rest) := by
  obtain ⟨gap, rfl, hgap, hnil⟩ := hending
  cases xs with
  | nil =>
    have hbare : startsBare (close :: rest) = true := congrArg Bool.not hblank
    rw [text, List.drop_nil, List.nil_append, Ending.text, List.append_assoc,
      List.singleton_append, between, dropGap_append hgap hbare, takeGap_append hgap hbare]
    dsimp only
    rw [if_pos rfl]
  | cons x xs =>
    obtain rfl := hnil rfl
    have hdrop : (text piece (x :: xs)).drop 1 = piece x ++ text piece xs := by
      rw [text]
      rfl
    rw [hdrop, Ending.text, List.nil_append, List.length_append, List.length_singleton] at hb
    have hmore := more_text hclose hfound hb rest
    obtain ⟨b, s, hs, hne⟩ := hhead x List.mem_cons_self (text piece xs ++ close :: rest)
    rw [hdrop, Ending.text, List.nil_append, List.singleton_append, between, List.append_assoc, hs]
    dsimp only
    rw [if_neg hne, ← List.append_assoc, hmore]

end

/-! ### Nothing else is found in a list -/

/-- Pieces are spelled, and their text, the ending and the rest make up the octets. -/
def Listed (spelled : β → Bool) (piece : β → List UInt8) (close : UInt8) (s : List UInt8) :
    List β × Ending × List UInt8 → Prop
  | (xs, ending, rest) => xs.all spelled = true ∧ ending.isSpelled (!xs.isEmpty) = true ∧
      (text piece xs).drop 1 ++ (ending.text close ++ rest) = s

section

variable {spelled : β → Bool} {piece : β → List UInt8} {close : UInt8}
  {more : List UInt8 → List β × Ending × List UInt8}

theorem listed_cut (s : List UInt8) : Listed spelled piece close s ([], .cut s, []) := by
  refine ⟨rfl, rfl, ?_⟩
  rw [text, List.drop_nil, List.nil_append, Ending.text, List.append_nil]

theorem listed_one {x : β} {ending : Ending} {s rest : List UInt8} (hx : spelled x = true)
    (hending : ending.isSpelled true = true)
    (hs : piece x ++ (ending.text close ++ rest) = s) :
    Listed spelled piece close s ([x], ending, rest) := by
  refine ⟨?_, hending, ?_⟩
  · rw [List.all_cons, hx]
    rfl
  · rw [text, text, List.append_nil]
    exact hs

theorem listed_cutAfter {x : β} {s rest : List UInt8} (hx : spelled x = true)
    (hs : piece x ++ rest = s) : Listed spelled piece close s ([x], .cut rest, []) := by
  refine listed_one hx rfl ?_
  rw [Ending.text, List.append_nil]
  exact hs

theorem listed_cons {x : β} {xs : List β} {ending : Ending} {s s' rest : List UInt8}
    (hx : spelled x = true) (hne : xs ≠ [])
    (hxs : Listed spelled piece close s' (xs, ending, rest))
    (hs : piece x ++ Octet.comma :: s' = s) :
    Listed spelled piece close s (x :: xs, ending, rest) := by
  obtain ⟨hspelled, hending, htext⟩ := hxs
  obtain ⟨y, xs, rfl⟩ := List.exists_cons_of_ne_nil hne
  refine ⟨?_, hending, ?_⟩
  · rw [List.all_cons, hx, hspelled]
    rfl
  · rw [← hs, ← htext, text, text]
    simp

/-- The pieces that one piece and what scanning makes of the octets behind it make up. -/
theorem listed_behind (hmore : ∀ s, Listed spelled piece close s (more s)) {x : β}
    (hx : spelled x = true) {s after : List UInt8} (hs : piece x ++ after = s) :
    Listed spelled piece close s (behind close more x after) := by
  cases after with
  | nil => exact listed_cutAfter hx hs
  | cons b rest =>
    rw [behind]
    by_cases hcomma : b = Octet.comma
    · subst hcomma
      rw [if_pos rfl]
      rcases hxs : more rest with ⟨xs, ending, rest'⟩
      have hrest := hmore rest
      rw [hxs] at hrest
      cases xs with
      | nil => exact listed_cutAfter hx hs
      | cons y xs => exact listed_cons hx (List.cons_ne_nil y xs) hrest hs
    · rw [if_neg hcomma]
      by_cases hclose : b = close
      · subst hclose
        rw [if_pos rfl]
        exact listed_one hx rfl hs
      · rw [if_neg hclose]
        exact listed_cutAfter hx hs

theorem listed_between (hmore : ∀ s, Listed spelled piece close s (more s)) (s : List UInt8) :
    Listed spelled piece close s (between close more s) := by
  rw [between]
  have hs := takeGap_append_dropGap s
  cases hdrop : dropGap s with
  | nil => exact listed_cut s
  | cons b rest =>
    dsimp only
    by_cases hb : b = close
    · subst hb
      rw [if_pos rfl]
      refine ⟨rfl, ?_, ?_⟩
      · rw [Ending.isSpelled, takeGap_isBlank]
        rfl
      · rw [hdrop] at hs
        rw [text, List.drop_nil, List.nil_append, Ending.text, List.append_assoc]
        exact hs
    · rw [if_neg hb]
      exact hmore s

end

end Listing

/-! ### Elements and members -/

namespace Node

theorem elementsText_eq (es : List (Spaced Node)) :
    elementsText es = Listing.text elementText es := by
  induction es with
  | nil => rw [elementsText, Listing.text]
  | cons e es ih => rw [elementsText, Listing.text, ih]

theorem membersText_eq (ms : List (Entry Node)) :
    membersText ms = Listing.text memberText ms := by
  induction ms with
  | nil => rw [membersText, Listing.text]
  | cons m ms ih => rw [membersText, Listing.text, ih]

theorem scanElements_eq (bound : Nat) (s : List UInt8) :
    scanElements (bound + 1) s =
      Listing.between Octet.closeBracket (scanMoreElements bound) s := by
  rewrite [scanElements, Listing.between]
  cases dropGap s <;> rfl

theorem scanMembers_eq (bound : Nat) (s : List UInt8) :
    scanMembers (bound + 1) s = Listing.between Octet.closeBrace (scanMoreMembers bound) s := by
  rewrite [scanMembers, Listing.between]
  cases dropGap s <;> rfl

/-- An element is what is scanned between the gaps. -/
theorem scanMoreElements_eq {bound : Nat} {s after : List UInt8} {value : Node}
    (hvalue : scanWithin bound (dropGap s) = (value, after)) :
    scanMoreElements (bound + 1) s =
      Listing.behind Octet.closeBracket (scanMoreElements bound)
        ⟨takeGap s, value, takeGap after⟩ (dropGap after) := by
  rw [scanMoreElements, hvalue]
  dsimp only
  cases dropGap after with
  | nil => rfl
  | cons b rest =>
    rw [Listing.behind]
    dsimp only
    rcases scanMoreElements bound rest with ⟨es, ending, rest'⟩
    cases es with
    | nil => rfl
    | cons e es => rfl

/-- A member is a key and what is scanned behind the colon, between the gaps. -/
theorem scanMoreMembers_eq {bound : Nat} {s afterQuote afterKey afterColon after : List UInt8}
    {key : List StringPart} {colon : Option (Gap × Gap)} {value : Node}
    (hquote : dropGap s = Octet.quote :: afterQuote)
    (hkey : StringPart.scan? afterQuote = some (key, afterKey))
    (hcolon : scanColon afterKey = (colon, afterColon))
    (hvalue : (if colon.isSome then scanWithin bound afterColon else (broken afterColon, [])) =
      (value, after)) :
    scanMoreMembers (bound + 1) s =
      Listing.behind Octet.closeBrace (scanMoreMembers bound)
        ⟨takeGap s, key, colon, value, takeGap after⟩ (dropGap after) := by
  rw [scanMoreMembers, hquote]
  dsimp only
  rw [if_pos rfl, hkey]
  dsimp only
  rw [hcolon]
  dsimp only
  rw [hvalue]
  dsimp only
  cases dropGap after with
  | nil => rfl
  | cons b rest =>
    rw [Listing.behind]
    dsimp only
    rcases scanMoreMembers bound rest with ⟨ms, ending, rest'⟩
    cases ms with
    | nil => rfl
    | cons m ms => rfl

/-! ### Pieces of the text -/

/-- A piece of a list stands in the text of the list. -/
theorem infix_listing {α : Type} {piece : α → List UInt8} {x : α} {xs : List α} (h : x ∈ xs) :
    piece x <:+: (Listing.text piece xs).drop 1 := by
  induction xs with
  | nil => cases h
  | cons y xs ih =>
    rw [Listing.text, List.cons_append, List.drop_one, List.tail_cons]
    obtain rfl | h := List.mem_cons.1 h
    · exact (List.prefix_append _ _).isInfix
    · exact ((ih h).trans (List.drop_suffix 1 _).isInfix).trans (List.suffix_append _ _).isInfix

theorem infix_array {e : Spaced Node} {es : List (Spaced Node)} (h : e ∈ es) (ending : Ending) :
    e.value.text <:+: (array es ending).text := by
  have hvalue : e.value.text <:+: elementText e := ⟨e.before, e.after, by rw [elementText]⟩
  rw [text, elementsText_eq, List.cons_append]
  exact ((hvalue.trans (infix_listing h)).trans (List.prefix_append _ _).isInfix).trans
    (List.suffix_cons _ _).isInfix

theorem infix_object {m : Entry Node} {ms : List (Entry Node)} (h : m ∈ ms) (ending : Ending) :
    memberText m <:+: (object ms ending).text := by
  rw [text, membersText_eq, List.cons_append]
  exact ((infix_listing h).trans (List.prefix_append _ _).isInfix).trans
    (List.suffix_cons _ _).isInfix

theorem infix_value (m : Entry Node) : m.value.text <:+: memberText m := by
  obtain ⟨before, key, colon, value, after⟩ := m
  rw [memberText.eq_def]
  exact (List.suffix_append _ _).isInfix.trans (List.prefix_append _ _).isInfix

theorem infix_key (m : Entry Node) : StringPart.text m.key <:+: memberText m := by
  obtain ⟨before, key, colon, value, after⟩ := m
  rw [memberText.eq_def]
  dsimp only
  rw [List.append_assoc, List.append_assoc, List.append_assoc]
  exact (List.prefix_append _ _).isInfix.trans (List.suffix_append _ _).isInfix

end Node

end Json

end MarketFeed
