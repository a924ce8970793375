import Mathlib.Data.Finset.Card
import Mathlib.Data.List.Dedup
import Mathlib.Data.List.Induction
import Mathlib.Logic.Function.Basic
import MarketFeed.Exchange.IntervalTable

/-!
# Entries of an interval table

Which of its entries a table goes by.  Looking up in a map after `put` is looking up in an updated
function (`lookup_put`), so either direction of a table is what updates make of the entries
(`IntervalTable.timeframe?_eq_foldl`, `IntervalTable.code?_eq_foldl`), and those leave for each key
the value of the last entry with it (`foldl_update_eq_some_iff`).  The keys of a map are those of
the entries, each once, which gives the number of codes (`IntervalTable.size_eq_card`).
-/

namespace MarketFeed

/-! ### Maps -/

section Map

variable {κ ν : Type} [DecidableEq κ]

theorem lookup_cons_eq_ite (k : κ) (entry : κ × ν) (map : List (κ × ν)) :
    (entry :: map).lookup k = if k = entry.1 then some entry.2 else map.lookup k := by
  obtain ⟨key, value⟩ := entry
  by_cases h : k = key
  · rw [if_pos h, h, List.lookup_cons_self]
  · rw [if_neg h, List.lookup_cons, beq_eq_false_iff_ne.2 h]

theorem lookup_put (key : κ) (value : ν) (map : List (κ × ν)) :
    (fun k => (put key value map).lookup k) =
      Function.update (fun k => map.lookup k) key (some value) := by
  funext k
  rw [Function.update_apply]
  fun_induction put key value map with
  | case1 => rw [lookup_cons_eq_ite]
  | case2 entry map hkey =>
    rw [lookup_cons_eq_ite, lookup_cons_eq_ite, ← eq_of_beq hkey]
    split_ifs <;> rfl
  | case3 entry map hkey ih =>
    rw [lookup_cons_eq_ite, lookup_cons_eq_ite, ih]
    split_ifs with hentry hk
    · exact absurd (hk ▸ hentry) (ne_of_beq_false (by simpa using hkey))
    · rfl
    · rfl
    · rfl

/-- A key that is written is added at the end, if it is not there. -/
theorem keys_put (key : κ) (value : ν) (map : List (κ × ν)) :
    (put key value map).map Prod.fst =
      if key ∈ map.map Prod.fst then map.map Prod.fst else map.map Prod.fst ++ [key] := by
  fun_induction put key value map with
  | case1 => rfl
  | case2 entry map hkey => simp [eq_of_beq hkey]
  | case3 entry map hkey ih =>
    have hne : key ≠ entry.1 := by simpa using hkey
    rw [List.map_cons, List.map_cons, ih]
    by_cases hmem : key ∈ map.map Prod.fst <;> simp [hmem, hne]

theorem nodup_keys_put {key : κ} {value : ν} {map : List (κ × ν)}
    (h : (map.map Prod.fst).Nodup) : ((put key value map).map Prod.fst).Nodup := by
  rw [keys_put]
  split_ifs with hkey
  · exact h
  · exact List.concat_eq_append ▸ h.concat hkey

theorem mem_keys_put {key k : κ} {value : ν} {map : List (κ × ν)} :
    k ∈ (put key value map).map Prod.fst ↔ k ∈ map.map Prod.fst ∨ k = key := by
  rw [keys_put]
  split_ifs with hkey
  · exact ⟨.inl, fun h => h.elim id fun h => h ▸ hkey⟩
  · rw [List.mem_append, List.mem_singleton]

end Map

/-! ### The last entry with a key -/

/-- A member of a list behind which there is no other with its key. -/
def IntervalTable.IsLast {α κ : Type} (key : α → κ) (xs : List α) (x : α) : Prop :=
  ∃ before after, xs = before ++ x :: after ∧ ∀ y ∈ after, key y ≠ key x

namespace IntervalTable

section Last

variable {α κ ν : Type} {key : α → κ} {xs : List α} {x : α}

theorem IsLast.mem (h : IsLast key xs x) : x ∈ xs := by
  obtain ⟨before, after, rfl, -⟩ := h
  exact List.mem_append_right _ List.mem_cons_self

/-- Where no two members have one key, every member is the last with its key. -/
theorem isLast_iff_mem (h : (xs.map key).Nodup) : IsLast key xs x ↔ x ∈ xs := by
  refine ⟨IsLast.mem, fun hx => ?_⟩
  obtain ⟨before, after, rfl⟩ := List.append_of_mem hx
  refine ⟨before, after, rfl, fun y hy hkey => ?_⟩
  rw [List.map_append, List.map_cons] at h
  exact (List.nodup_cons.1 h.of_append_right).1 (List.mem_map.2 ⟨y, hy, hkey⟩)

/-- A member that is put behind a list is the last with its key, and the last with the other keys
stay what they are. -/
theorem isLast_concat_iff {y : α} :
    IsLast key (xs ++ [y]) x ↔ x = y ∨ key y ≠ key x ∧ IsLast key xs x := by
  constructor
  · rintro ⟨before, after, hxs, hafter⟩
    induction after using List.reverseRecOn with
    | nil =>
      obtain ⟨-, hyx⟩ := List.append_inj' hxs rfl
      exact .inl (List.singleton_inj.1 hyx).symm
    | append_singleton after z =>
      rw [← List.cons_append, ← List.append_assoc] at hxs
      obtain ⟨rfl, hzy⟩ := List.append_inj' hxs rfl
      obtain rfl := List.singleton_inj.1 hzy
      refine .inr ⟨hafter _ (by simp), before, after, rfl, fun z hz => hafter z (by simp [hz])⟩
  · rintro (rfl | ⟨hkey, before, after, rfl, hafter⟩)
    · exact ⟨xs, [], rfl, nofun⟩
    · refine ⟨before, after ++ [y], by simp, fun z hz => ?_⟩
      obtain hz | rfl := List.mem_append.1 hz |>.imp_right List.mem_singleton.1
      · exact hafter z hz
      · exact hkey

variable [DecidableEq κ]

/-- Updating a function entry by entry leaves at each key the value of the last entry with it. -/
theorem foldl_update_eq_some_iff {value : α → ν} {k : κ} {v : ν} :
    xs.foldl (fun (found : κ → Option ν) x => Function.update found (key x) (some (value x)))
      (fun _ => none) k = some v ↔ ∃ x, key x = k ∧ value x = v ∧ IsLast key xs x := by
  induction xs using List.reverseRecOn with
  | nil =>
    refine iff_of_false nofun ?_
    rintro ⟨x, -, -, hx⟩
    cases hx.mem
  | append_singleton xs y ih =>
    rw [List.foldl_concat, Function.update_apply]
    simp only [isLast_concat_iff]
    split_ifs with hk
    · subst hk
      constructor
      · intro h
        exact ⟨y, rfl, Option.some.inj h, .inl rfl⟩
      · rintro ⟨x, hkey, rfl, rfl | ⟨hne, -⟩⟩
        · rfl
        · exact absurd hkey.symm hne
    · rw [ih]
      constructor
      · rintro ⟨x, rfl, rfl, hx⟩
        exact ⟨x, rfl, rfl, .inr ⟨Ne.symm hk, hx⟩⟩
      · rintro ⟨x, rfl, rfl, rfl | ⟨-, hx⟩⟩
        · exact absurd rfl hk
        · exact ⟨x, rfl, rfl, hx⟩

theorem foldl_update_eq_none_iff {value : α → ν} {k : κ} :
    xs.foldl (fun (found : κ → Option ν) x => Function.update found (key x) (some (value x)))
      (fun _ => none) k = none ↔ ∀ x ∈ xs, key x ≠ k := by
  induction xs using List.reverseRecOn with
  | nil => simp
  | append_singleton xs y ih =>
    rw [List.foldl_concat, Function.update_apply, List.forall_mem_append, ← ih,
      List.forall_mem_singleton]
    split_ifs with hk
    · exact iff_of_false nofun fun h => h.2 hk.symm
    · exact (and_iff_left (Ne.symm hk)).symm

end Last

/-! ### Filling a table -/

theorem maps_concat (entries : List (String × Timeframe)) (e : String × Timeframe) :
    maps ⟨entries ++ [e]⟩ = (maps ⟨entries⟩).enter e :=
  List.foldl_concat ..

theorem timeframe?_eq_foldl (table : IntervalTable) : table.timeframe? = table.entries.foldl
    (fun (found : String → Option Timeframe) e => Function.update found e.1 (some e.2))
    fun _ => none := by
  obtain ⟨entries⟩ := table
  induction entries using List.reverseRecOn with
  | nil => rfl
  | append_singleton entries e ih =>
    rw [List.foldl_concat, ← ih]
    unfold timeframe?
    rw [maps_concat]
    exact lookup_put ..

theorem code?_eq_foldl (table : IntervalTable) : table.code? = table.entries.foldl
    (fun (found : Timeframe → Option String) e => Function.update found e.2 (some e.1))
    fun _ => none := by
  obtain ⟨entries⟩ := table
  induction entries using List.reverseRecOn with
  | nil => rfl
  | append_singleton entries e ih =>
    rw [List.foldl_concat, ← ih]
    unfold code?
    rw [maps_concat]
    exact lookup_put ..

/-! ### Looking up -/

variable {table : IntervalTable} {code : String} {timeframe : Timeframe}

theorem timeframe?_eq_some_iff : table.timeframe? code = some timeframe ↔
    IsLast Prod.fst table.entries (code, timeframe) := by
  rw [timeframe?_eq_foldl, foldl_update_eq_some_iff]
  constructor
  · rintro ⟨e, rfl, rfl, hlast⟩
    exact hlast
  · exact fun hlast => ⟨_, rfl, rfl, hlast⟩

theorem code?_eq_some_iff : table.code? timeframe = some code ↔
    IsLast Prod.snd table.entries (code, timeframe) := by
  rw [code?_eq_foldl, foldl_update_eq_some_iff]
  constructor
  · rintro ⟨e, rfl, rfl, hlast⟩
    exact hlast
  · exact fun hlast => ⟨_, rfl, rfl, hlast⟩

theorem timeframe?_eq_none_iff :
    table.timeframe? code = none ↔ ∀ timeframe, (code, timeframe) ∉ table.entries := by
  rw [timeframe?_eq_foldl, foldl_update_eq_none_iff]
  constructor
  · exact fun h timeframe hmem => h _ hmem rfl
  · rintro h ⟨_, timeframe⟩ hmem rfl
    exact h timeframe hmem

theorem code?_eq_none_iff :
    table.code? timeframe = none ↔ ∀ code, (code, timeframe) ∉ table.entries := by
  rw [code?_eq_foldl, foldl_update_eq_none_iff]
  constructor
  · exact fun h code hmem => h _ hmem rfl
  · rintro h ⟨code, _⟩ hmem rfl
    exact h code hmem

theorem exists_timeframe?_iff : (∃ timeframe, table.timeframe? code = some timeframe) ↔
    ∃ timeframe, (code, timeframe) ∈ table.entries := by
  rw [← Option.isSome_iff_exists, ← not_iff_not, Option.not_isSome_iff_eq_none,
    timeframe?_eq_none_iff, not_exists]

theorem mem_of_timeframe? (h : table.timeframe? code = some timeframe) :
    (code, timeframe) ∈ table.entries :=
  (timeframe?_eq_some_iff.1 h).mem

theorem mem_of_code? (h : table.code? timeframe = some code) : (code, timeframe) ∈ table.entries :=
  (code?_eq_some_iff.1 h).mem

/-! ### The number of codes -/

/-- The codes in the map are those of the entries, each once. -/
theorem keys_timeframes (entries : List (String × Timeframe)) :
    ((maps ⟨entries⟩).timeframes.map Prod.fst).Nodup ∧
      ∀ code, code ∈ (maps ⟨entries⟩).timeframes.map Prod.fst ↔ code ∈ entries.map Prod.fst := by
  induction entries using List.reverseRecOn with
  | nil => exact ⟨List.nodup_nil, fun _ => Iff.rfl⟩
  | append_singleton entries e ih =>
    obtain ⟨once, same⟩ := ih
    rw [maps_concat]
    refine ⟨nodup_keys_put once, fun code => ?_⟩
    rw [Maps.enter, mem_keys_put, same, List.map_append, List.mem_append]
    exact or_congr_right List.mem_singleton.symm

theorem size_eq_card (table : IntervalTable) :
    table.size = (table.entries.map Prod.fst).toFinset.card := by
  obtain ⟨once, same⟩ := keys_timeframes table.entries
  rw [size, ← List.length_map Prod.fst, ← List.toFinset_card_of_nodup once]
  congr 1
  ext code
  rw [List.mem_toFinset, List.mem_toFinset, same]

theorem size_eq_length (h : (table.entries.map Prod.fst).Nodup) :
    table.size = table.entries.length := by
  rw [size_eq_card, List.toFinset_card_of_nodup h, List.length_map]

end IntervalTable

end MarketFeed
