import Mathlib.Data.List.Infix
import MarketFeed.Notice.Format

/-!
# Rendering formats

A format is cut at its places into `Pieces`, in exactly one way (`existsUnique_cuts`).  Each round
of a filling takes one piece and fills the place behind it (`next?_of_rest`), so the loop ends after
as many rounds as there are places, and what has been written by then is the pieces with the values
woven in (`exists_after`).
-/

namespace MarketFeed

namespace Notice

/-! ### Finding a place -/

theorem findPlace?_eq_none_iff {cs : List Char} : findPlace? cs = none ↔ ¬place <:+: cs := by
  induction cs with
  | nil => simp [findPlace?, place]
  | cons c cs ih =>
    rw [findPlace?, List.infix_cons_iff, not_or, ← ih, ← List.isPrefixOf_iff_prefix]
    split_ifs with h <;> simp [h]

/-- The first place is found behind a text that has none, since a place does not begin as it
ends. -/
theorem findPlace?_append {before : List Char} (h : ¬place <:+: before) (behind : List Char) :
    findPlace? (before ++ place ++ behind) = some before.length := by
  induction before with
  | nil => simp [findPlace?, place]
  | cons c cs ih =>
    obtain ⟨hstart, hrest⟩ := not_or.1 (List.infix_cons_iff.not.1 h)
    have hstart' : ¬place <+: c :: (cs ++ place ++ behind) := by
      cases cs with
      | nil => simp [place]
      | cons d ds => simpa [place] using hstart
    rw [List.cons_append, List.cons_append, findPlace?,
      if_neg (mt List.isPrefixOf_iff_prefix.1 hstart'), ih hrest]
    rfl

theorem findPlace?_joined {first : String} (h : ¬place <:+: first.toList) (behind : String) :
    findPlace? (first ++ String.ofList place ++ behind).toList = some first.toList.length := by
  rw [String.toList_append, String.toList_append, String.toList_ofList]
  exact findPlace?_append h _

theorem exists_of_findPlace? {cs : List Char} {position : Nat}
    (h : findPlace? cs = some position) :
    ∃ before behind, cs = before ++ place ++ behind ∧ ¬place <:+: before := by
  induction cs generalizing position with
  | nil => cases h
  | cons c cs ih =>
    rw [findPlace?] at h
    split_ifs at h with hprefix
    · obtain ⟨behind, hbehind⟩ := List.isPrefixOf_iff_prefix.1 hprefix
      exact ⟨[], behind, hbehind.symm, by simp [place]⟩
    · obtain ⟨_, hfound, -⟩ := Option.map_eq_some_iff.1 h
      obtain ⟨before, behind, rfl, hbefore⟩ := ih hfound
      refine ⟨c :: before, behind, rfl, fun hinfix => ?_⟩
      rcases List.infix_cons_iff.1 hinfix with hstart | hrest
      · rw [List.append_assoc] at hprefix
        exact hprefix (List.isPrefixOf_iff_prefix.2 (hstart.trans (List.prefix_append _ _)))
      · exact hbefore hrest

/-! ### Pieces -/

/-- A format without its places: the text before the first place, and the text behind each. -/
structure Pieces where
  first : String
  others : List String

namespace Pieces

/-- The number of places between the pieces. -/
def places (p : Pieces) : Nat := p.others.length

/-- The pieces with other texts between them. -/
def weave (p : Pieces) (fillers : List String) : String :=
  p.first ++ String.join (List.zipWith (· ++ ·) fillers p.others)

/-- No piece has a place, and with places between them the pieces are the format. -/
structure Cuts (p : Pieces) (format : String) : Prop where
  clear : ∀ s ∈ p.first :: p.others, ¬place <:+: s.toList
  joined : p.weave (List.replicate p.places (String.ofList place)) = format

theorem places_cons (first second : String) (others : List String) :
    (⟨first, second :: others⟩ : Pieces).places = (⟨second, others⟩ : Pieces).places + 1 := rfl

theorem toList_weave (p : Pieces) (fillers : List String) :
    (p.weave fillers).toList = p.first.toList ++
      (List.zipWith (· ++ ·) fillers p.others).flatMap String.toList := by
  rw [weave, String.toList_append, String.toList_join]

theorem weave_nil (first : String) (fillers : List String) :
    (⟨first, []⟩ : Pieces).weave fillers = first := by
  simp [weave]

theorem toList_weave_cons (first second : String) (others : List String) (filler : String)
    (fillers : List String) :
    ((⟨first, second :: others⟩ : Pieces).weave (filler :: fillers)).toList =
      first.toList ++ filler.toList ++ ((⟨second, others⟩ : Pieces).weave fillers).toList := by
  simp [toList_weave]

theorem cuts_nil_iff {first format : String} :
    (⟨first, []⟩ : Pieces).Cuts format ↔ ¬place <:+: first.toList ∧ first = format := by
  constructor
  · intro h
    exact ⟨h.clear first List.mem_cons_self, (weave_nil first _).symm.trans h.joined⟩
  · rintro ⟨hfirst, rfl⟩
    exact ⟨List.forall_mem_singleton.2 hfirst, weave_nil first _⟩

/-- Behind the first place stands a format that the other pieces are those of. -/
theorem cuts_cons_iff {first second format : String} {others : List String} :
    (⟨first, second :: others⟩ : Pieces).Cuts format ↔ ¬place <:+: first.toList ∧
      ∃ behind, format = first ++ String.ofList place ++ behind ∧
        (⟨second, others⟩ : Pieces).Cuts behind := by
  have hweave : (⟨first, second :: others⟩ : Pieces).weave
      (List.replicate (others.length + 1) (String.ofList place)) =
        first ++ String.ofList place ++ (⟨second, others⟩ : Pieces).weave
          (List.replicate others.length (String.ofList place)) := by
    apply String.toList_injective
    rw [List.replicate_succ, toList_weave_cons, String.toList_append, String.toList_append]
  constructor
  · rintro ⟨hclear, hjoined⟩
    obtain ⟨hfirst, hothers⟩ := List.forall_mem_cons.1 hclear
    exact ⟨hfirst, _, hjoined.symm.trans hweave, hothers, rfl⟩
  · rintro ⟨hfirst, _, rfl, hothers, rfl⟩
    exact ⟨List.forall_mem_cons.2 ⟨hfirst, hothers⟩, hweave⟩

theorem exists_cuts (format : String) : ∃ p : Pieces, p.Cuts format := by
  induction hn : format.toList.length using Nat.strongRecOn generalizing format with
  | ind n ih =>
    cases hfound : findPlace? format.toList with
    | none => exact ⟨_, cuts_nil_iff.2 ⟨findPlace?_eq_none_iff.1 hfound, rfl⟩⟩
    | some position =>
      obtain ⟨before, behind, hsplit, hbefore⟩ := exists_of_findPlace? hfound
      have hshort : (String.ofList behind).toList.length < n := by
        rw [← hn, hsplit, String.toList_ofList]
        simp only [place, List.length_append, List.length_cons, List.length_nil]
        omega
      obtain ⟨p, hp⟩ := ih _ hshort _ rfl
      have hformat : format = String.ofList before ++ String.ofList place ++ String.ofList behind :=
        String.toList_injective (by simp [hsplit])
      exact ⟨_, cuts_cons_iff.2 ⟨by rwa [String.toList_ofList], _, hformat, hp⟩⟩

theorem Cuts.unique {p q : Pieces} {format : String} (hp : p.Cuts format) (hq : q.Cuts format) :
    p = q := by
  obtain ⟨first, others⟩ := p
  obtain ⟨first', others'⟩ := q
  induction others generalizing first first' others' format with
  | nil =>
    obtain ⟨hfirst, rfl⟩ := cuts_nil_iff.1 hp
    cases others' with
    | nil => rw [(cuts_nil_iff.1 hq).2]
    | cons second' others' =>
      obtain ⟨hfirst', behind', rfl, -⟩ := cuts_cons_iff.1 hq
      cases (findPlace?_eq_none_iff.2 hfirst).symm.trans (findPlace?_joined hfirst' behind')
  | cons second others ih =>
    obtain ⟨hfirst, behind, rfl, hbehind⟩ := cuts_cons_iff.1 hp
    cases others' with
    | nil =>
      obtain ⟨hfirst', rfl⟩ := cuts_nil_iff.1 hq
      cases (findPlace?_eq_none_iff.2 hfirst').symm.trans (findPlace?_joined hfirst behind)
    | cons second' others' =>
      obtain ⟨hfirst', behind', hsame, hbehind'⟩ := cuts_cons_iff.1 hq
      -- Both first pieces end where the first place is.
      have hlength : first.toList.length = first'.toList.length :=
        Option.some.inj ((findPlace?_joined hfirst behind).symm.trans
          (hsame ▸ findPlace?_joined hfirst' behind'))
      have htexts := congrArg String.toList hsame
      simp only [String.toList_append, List.append_assoc] at htexts
      obtain ⟨hfirsts, hrests⟩ := List.append_inj htexts hlength
      obtain rfl := String.toList_injective hfirsts
      obtain rfl := String.toList_injective (List.append_cancel_left hrests)
      obtain ⟨rfl, rfl⟩ := Pieces.mk.inj (ih _ hbehind _ _ hbehind')
      rfl

/-- There is one way to cut a format at its places. -/
theorem existsUnique_cuts (format : String) : ∃! p : Pieces, p.Cuts format :=
  let ⟨p, hp⟩ := exists_cuts format
  ⟨p, hp, fun _ hq => hq.unique hp⟩

end Pieces

/-! ### The loop -/

/-- What comes into the places: the values in their order, and where there is none the place. -/
def fillers (places : Nat) (values : List String) : List String :=
  (List.range places).map fun i => values[i]?.getD (String.ofList place)

theorem fillers_succ (places : Nat) (values : List String) :
    fillers (places + 1) values =
      values.headD (String.ofList place) :: fillers places values.tail := by
  simp [fillers, List.range_succ_eq_map, List.headD_eq_head?_getD, List.head?_eq_getElem?]

theorem fillers_take (places : Nat) (values : List String) :
    fillers places (values.take places) = fillers places values :=
  List.map_congr_left fun i hi => by rw [List.getElem?_take_of_lt (List.mem_range.1 hi)]

theorem fillers_nil (places : Nat) :
    fillers places [] = List.replicate places (String.ofList place) := by
  simp [fillers]

namespace Filling

/-- A filling after a number of rounds, if there are as many. -/
def after : Nat → Filling → Option Filling
  | 0, f => some f
  | n + 1, f => f.next?.bind (after n)

theorem filler_eq (f : Filling) : f.filler = (f.values.headD (String.ofList place)).toList := by
  unfold filler
  cases f.values <;> simp

theorem next?_eq_none {f : Filling} (h : ¬place <:+: f.rest) : f.next? = none := by
  rw [next?, findPlace?_eq_none_iff.2 h]

/-- A round writes the text before the place and what comes into the place. -/
theorem next?_of_rest {f : Filling} {before behind : List Char}
    (h : f.rest = before ++ place ++ behind) (hbefore : ¬place <:+: before) :
    f.next? = some ⟨f.written ++ before ++ f.filler, behind, f.values.tail⟩ := by
  rw [next?, h, findPlace?_append hbefore]
  simp [place]

theorem finish_of_some {f g : Filling} (h : f.next? = some g) : f.finish = g.finish := by
  rw [finish]
  split
  · next g' h' => rw [Option.some.inj (h.symm.trans h')]
  · next h' => cases h.symm.trans h'

theorem finish_of_none {f : Filling} (h : f.next? = none) : f.finish = f.written ++ f.rest := by
  rw [finish]
  split
  · next h' => cases h.symm.trans h'
  · rfl

theorem finish_of_after {n : Nat} {f g : Filling} (h : f.after n = some g) :
    f.finish = g.finish := by
  induction n generalizing f with
  | zero =>
    obtain rfl := Option.some.inj h
    rfl
  | succ n ih =>
    obtain ⟨f', hnext, hafter⟩ := Option.bind_eq_some_iff.1 h
    rw [finish_of_some hnext, ih hafter]

/-- There are as many rounds as there are places in the rest, and when they are over, the pieces of
the rest have been written with the values between them. -/
theorem exists_after {f : Filling} {p : Pieces} {format : String} (hp : p.Cuts format)
    (hrest : f.rest = format.toList) :
    ∃ g, f.after p.places = some g ∧ g.next? = none ∧
      g.written ++ g.rest = f.written ++ (p.weave (fillers p.places f.values)).toList := by
  obtain ⟨first, others⟩ := p
  induction others generalizing f first format with
  | nil =>
    obtain ⟨hfirst, rfl⟩ := Pieces.cuts_nil_iff.1 hp
    exact ⟨f, rfl, next?_eq_none (hrest ▸ hfirst), by rw [Pieces.weave_nil, hrest]⟩
  | cons second others ih =>
    obtain ⟨hfirst, behind, rfl, hbehind⟩ := Pieces.cuts_cons_iff.1 hp
    rw [String.toList_append, String.toList_append, String.toList_ofList] at hrest
    have hnext := next?_of_rest hrest hfirst
    obtain ⟨g, hafter, hend, hwritten⟩ :=
      ih (f := ⟨f.written ++ first.toList ++ f.filler, behind.toList, f.values.tail⟩) rfl _ hbehind
    refine ⟨g, Option.bind_eq_some_iff.2 ⟨_, hnext, hafter⟩, hend, ?_⟩
    rw [hwritten, Pieces.places_cons, fillers_succ, Pieces.toList_weave_cons, filler_eq]
    simp only [List.append_assoc]

end Filling

/-! ### Rendering -/

/-- What becomes of a format with the given pieces: there is one round for each place, the values
stand in the places in their order, the places that are left stay and no further value counts. -/
structure Pieces.Fills (p : Pieces) (format : String) (values : List String) : Prop where
  text : render format values = p.weave (fillers p.places values)
  rounds : ∃ f, (Filling.begin format values).after p.places = some f ∧ f.next? = none ∧
    render format values = String.ofList (f.written ++ f.rest)
  surplus : render format (values.take p.places) = render format values

theorem render_of_cuts {p : Pieces} {format : String} (hp : p.Cuts format) (values : List String) :
    render format values = p.weave (fillers p.places values) := by
  obtain ⟨f, hafter, hend, hwritten⟩ := Filling.exists_after (f := .begin format values) hp rfl
  apply String.toList_injective
  rw [render, String.toList_ofList, Filling.finish_of_after hafter, Filling.finish_of_none hend,
    hwritten]
  rfl

/-- A format is its pieces with places between them in exactly one way, and rendering puts the
values between the pieces from left to right, whatever the values are.  Without values the format
stays as it is. -/
theorem render_substitutes (format : String) (values : List String) :
    (∃! p : Pieces, p.Cuts format) ∧ (∀ p : Pieces, p.Cuts format → p.Fills format values) ∧
      render format [] = format := by
  refine ⟨Pieces.existsUnique_cuts format, fun p hp => ⟨render_of_cuts hp values, ?_, ?_⟩, ?_⟩
  · obtain ⟨f, hafter, hend, -⟩ := Filling.exists_after (f := .begin format values) hp rfl
    refine ⟨f, hafter, hend, ?_⟩
    rw [render, Filling.finish_of_after hafter, Filling.finish_of_none hend]
  · rw [render_of_cuts hp, render_of_cuts hp, fillers_take]
  · obtain ⟨p, hp⟩ := Pieces.exists_cuts format
    rw [render_of_cuts hp, fillers_nil, hp.joined]

-- Braces of a value and braces beside a place are text.
example : render (String.ofList ['{', '{', '}', '}', '{', '}']) [String.ofList place, "x"] =
    String.ofList ['{', '{', '}', '}', 'x'] := by
  cbv

end Notice

end MarketFeed
