import Mathlib.Data.List.Basic
import Mathlib.Tactic.SplitIfs
import MarketFeed.Topic

/-!
# Segments of a topic

The segments of joined parts are those of each part (`Topic.segments_join`), and the segments of a
topic are the only parts without a separator that are joined to it (`Topic.segments_eq_iff`).  So
the type of a topic is that of the characters before its first separator (`Topic.type_eq`), and its
symbol is the last of three parts (`Topic.symbol?_eq_some_iff`).
-/

namespace MarketFeed

namespace Topic

/-- The first stretch ends before the first separator. -/
theorem head?_split (cs : List Char) :
    (split cs).head? = some (cs.takeWhile (· ≠ separator)) := by
  induction cs with
  | nil => rfl
  | cons c cs ih =>
    rw [split]
    by_cases hc : c = separator
    · rw [if_pos hc, List.takeWhile_cons_of_neg (by simpa using hc)]
      rfl
    · obtain ⟨ss, hss⟩ := List.head?_eq_some_iff.1 ih
      rw [if_neg hc, hss, List.takeWhile_cons_of_pos (by simpa using hc)]
      rfl

theorem type_eq (topic : String) :
    type topic = TopicType.ofText (String.ofList (topic.toList.takeWhile (· ≠ separator))) := by
  obtain ⟨ss, hss⟩ := List.head?_eq_some_iff.1 (head?_split topic.toList)
  rw [type, segments, hss]
  rfl

/-- The characters of a topic before its first separator. -/
def first (topic : String) : String := String.ofList (topic.toList.takeWhile (· ≠ '.'))

theorem type_eq_ofText_first (topic : String) : type topic = TopicType.ofText (first topic) :=
  type_eq topic

theorem text_ofText (s : String) : (TopicType.ofText s).text = s := by
  unfold TopicType.ofText
  split_ifs <;> simp_all [TopicType.text]

/-- A known type has one text only. -/
theorem ofText_eq_iff {s : String} {t : TopicType} (ht : t.isKnown = true) :
    TopicType.ofText s = t ↔ s = t.text := by
  constructor
  · rintro rfl
    exact (text_ofText s).symm
  · rintro rfl
    cases t with
    | unknown raw => cases ht
    | _ => rfl

theorem isKnown_ofText_iff {s : String} :
    (TopicType.ofText s).isKnown = true ↔ s ∈ ["orderbook", "kline", "order", "wallet"] := by
  unfold TopicType.ofText
  split_ifs <;> simp_all [TopicType.isKnown]

theorem ofText_eq_order_iff {s : String} : TopicType.ofText s = .order ↔ s = "order" :=
  ofText_eq_iff rfl

theorem ofText_eq_wallet_iff {s : String} : TopicType.ofText s = .wallet ↔ s = "wallet" :=
  ofText_eq_iff rfl

theorem notMem_text {t : TopicType} (h : t.isKnown = true) : separator ∉ t.text.toList := by
  cases t with
  | unknown raw => cases h
  | _ => decide

/-! ### Splitting and joining -/

/-- Characters without a separator are one stretch. -/
theorem split_of_notMem {p : List Char} (h : separator ∉ p) : split p = [p] := by
  induction p with
  | nil => rfl
  | cons c cs ih =>
    simp only [List.mem_cons, not_or] at h
    rw [split, if_neg (Ne.symm h.1), ih h.2]

/-- What is split at a separator are the stretches before it and those behind it. -/
theorem split_append_cons (cs ds : List Char) :
    split (cs ++ separator :: ds) = split cs ++ split ds := by
  induction cs with
  | nil => rfl
  | cons c cs ih =>
    obtain ⟨ss, hss⟩ := List.head?_eq_some_iff.1 (head?_split cs)
    rw [List.cons_append, split, split, ih, hss]
    split_ifs <;> rfl

/-- The stretches of joined parts are those of each part. -/
theorem split_intercalate (p : List Char) (ps : List (List Char)) :
    split ([separator].intercalate (p :: ps)) = (p :: ps).flatMap split := by
  induction ps generalizing p with
  | nil => simp
  | cons q qs ih =>
    rw [List.intercalate_cons_cons, List.append_assoc, List.singleton_append, split_append_cons, ih]
    rfl

theorem length_split (cs : List Char) : (split cs).length = cs.count separator + 1 := by
  induction cs with
  | nil => rfl
  | cons c cs ih =>
    obtain ⟨ss, hss⟩ := List.head?_eq_some_iff.1 (head?_split cs)
    rw [hss] at ih
    rw [split, List.count_cons, hss]
    by_cases hc : c = separator
    · rw [if_pos hc, if_pos (beq_iff_eq.2 hc)]
      exact congrArg (· + 1) ih
    · rw [if_neg hc, if_neg (by simpa using hc)]
      exact ih

/-- The stretches have no separator and are joined to what was split. -/
theorem intercalate_split (cs : List Char) :
    [separator].intercalate (split cs) = cs ∧ ∀ p ∈ split cs, separator ∉ p := by
  induction cs with
  | nil => simp [split]
  | cons c cs ih =>
    obtain ⟨ss, hss⟩ := List.head?_eq_some_iff.1 (head?_split cs)
    rw [split]
    by_cases hc : c = separator
    · rw [if_pos hc]
      rw [hss] at ih ⊢
      refine ⟨?_, List.forall_mem_cons.2 ⟨List.not_mem_nil, ih.2⟩⟩
      rw [List.intercalate_cons_cons, ih.1, hc]
      rfl
    · rw [if_neg hc, hss]
      rw [hss] at ih
      obtain ⟨hjoin, hparts⟩ := ih
      obtain ⟨hfirst, hothers⟩ := List.forall_mem_cons.1 hparts
      refine ⟨?_, List.forall_mem_cons.2 ⟨?_, hothers⟩⟩
      · cases ss with
        | nil => simpa using hjoin
        | cons q qs =>
          rw [List.intercalate_cons_cons] at hjoin ⊢
          simpa using hjoin
      · simp only [List.mem_cons, not_or]
        exact ⟨Ne.symm hc, hfirst⟩

/-! ### Segments -/

theorem toList_join (parts : List String) :
    (join parts).toList = [separator].intercalate (parts.map String.toList) :=
  String.toList_intercalate

theorem segments_join (part : String) (parts : List String) :
    segments (join (part :: parts)) = (part :: parts).flatMap segments := by
  rw [segments, toList_join, List.map_cons, split_intercalate, ← List.map_cons, List.map_flatMap,
    List.flatMap_map]
  rfl

theorem join_segments (topic : String) : join (segments topic) = topic := by
  apply String.toList_injective
  rw [toList_join, segments, List.map_map]
  simpa [Function.comp_def] using (intercalate_split topic.toList).1

theorem notMem_of_mem_segments {topic s : String} (h : s ∈ segments topic) :
    separator ∉ s.toList := by
  obtain ⟨p, hp, rfl⟩ := List.mem_map.1 h
  rw [String.toList_ofList]
  exact (intercalate_split topic.toList).2 p hp

theorem length_segments (topic : String) :
    (segments topic).length = topic.toList.count separator + 1 := by
  rw [segments, List.length_map, length_split]

theorem segments_ne_nil (topic : String) : segments topic ≠ [] :=
  List.ne_nil_of_length_eq_add_one (length_segments topic)

theorem segments_of_notMem {topic : String} (h : separator ∉ topic.toList) :
    segments topic = [topic] := by
  rw [segments, split_of_notMem h, List.map_singleton, String.ofList_toList]

theorem head?_segments (topic : String) : (segments topic).head? = some (first topic) := by
  rw [segments, List.head?_map, head?_split]
  rfl

/-- The type of joined parts is that of the first one up to its first separator. -/
theorem type_join (part : String) (parts : List String) :
    type (join (part :: parts)) = TopicType.ofText (first part) := by
  rw [type, segments_join, List.flatMap_cons, List.headD_eq_head?_getD, List.head?_append,
    head?_segments]
  rfl

/-- Parts without a separator are the segments of what they are joined to. -/
theorem segments_join_of_notMem {part : String} {parts : List String}
    (h : ∀ q ∈ part :: parts, separator ∉ q.toList) :
    segments (join (part :: parts)) = part :: parts := by
  rw [segments_join]
  calc (part :: parts).flatMap segments
      = (part :: parts).flatMap fun q => [q] :=
        List.flatMap_congr fun q hq => segments_of_notMem (h q hq)
    _ = part :: parts := List.flatMap_singleton' _

/-- The segments are the only parts without a separator that are joined to the topic. -/
theorem segments_eq_iff {topic : String} {parts : List String} :
    segments topic = parts ↔
      parts ≠ [] ∧ join parts = topic ∧ ∀ part ∈ parts, separator ∉ part.toList := by
  constructor
  · rintro rfl
    exact ⟨segments_ne_nil topic, join_segments topic, fun _ => notMem_of_mem_segments⟩
  · rintro ⟨hne, rfl, hparts⟩
    obtain ⟨part, parts, rfl⟩ := List.exists_cons_of_ne_nil hne
    exact segments_join_of_notMem hparts

/-- Three joined parts are determined, the last one whatever it has, if the others have no
separator. -/
theorem join_three_inj {a b c a' b' c' : String} (ha : separator ∉ a.toList)
    (hb : separator ∉ b.toList) (ha' : separator ∉ a'.toList) (hb' : separator ∉ b'.toList)
    (h : join [a, b, c] = join [a', b', c']) : a = a' ∧ b = b' ∧ c = c' := by
  have hsegments := congrArg segments h
  simp only [segments_join, List.flatMap_cons, List.flatMap_nil, segments_of_notMem ha,
    segments_of_notMem hb, segments_of_notMem ha', segments_of_notMem hb', List.append_nil,
    List.singleton_append, List.cons.injEq] at hsegments
  obtain ⟨rfl, rfl, hc⟩ := hsegments
  exact ⟨rfl, rfl, by rw [← join_segments c, hc, join_segments]⟩

/-! ### Symbols -/

theorem symbol?_eq_some_iff_segments {topic symbol : String} :
    symbol? topic = some symbol ↔ ∃ a b, segments topic = [a, b, symbol] := by
  unfold symbol?
  split
  · next a b c h => simp [h, eq_comm]
  · next h =>
    refine ⟨nofun, fun ⟨a, b, hsegments⟩ => ?_⟩
    exact absurd hsegments (h a b symbol)

/-- A topic is two parts and the symbol, with a separator between them and none in them. -/
def HasSymbol (topic symbol : String) : Prop :=
  ∃ a b, topic.toList = a ++ '.' :: (b ++ '.' :: symbol.toList) ∧ '.' ∉ a ∧ '.' ∉ b ∧
    '.' ∉ symbol.toList

theorem symbol?_eq_some_iff {topic symbol : String} :
    symbol? topic = some symbol ↔ HasSymbol topic symbol := by
  rw [symbol?_eq_some_iff_segments]
  constructor
  · rintro ⟨a, b, hsegments⟩
    obtain ⟨-, rfl, hparts⟩ := segments_eq_iff.1 hsegments
    simp only [List.forall_mem_cons] at hparts
    refine ⟨a.toList, b.toList, ?_, hparts.1, hparts.2.1, hparts.2.2.1⟩
    rw [toList_join]
    simp [List.intercalate, separator]
  · rintro ⟨a, b, htopic, ha, hb, hsymbol⟩
    refine ⟨String.ofList a, String.ofList b, segments_eq_iff.2 ⟨List.cons_ne_nil _ _, ?_, ?_⟩⟩
    · apply String.toList_injective
      rw [toList_join, htopic]
      simp [List.intercalate, separator]
    · simpa using ⟨ha, hb, hsymbol⟩

theorem symbol?_eq_none_iff {topic : String} :
    symbol? topic = none ↔ ∀ symbol, ¬HasSymbol topic symbol := by
  simp only [Option.eq_none_iff_forall_ne_some, ne_eq, symbol?_eq_some_iff]

end Topic

end MarketFeed
