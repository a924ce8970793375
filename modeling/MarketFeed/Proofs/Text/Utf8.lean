import Mathlib.Tactic.SplitIfs
import MarketFeed.Text.Utf8

/-!
# UTF-8 there and back

Reading the UTF-8 form of characters gives the characters (`Utf8.decode?_encode`), and octets that
read as characters are their UTF-8 form (`Utf8.encode_of_decode?`).  Octets of such a form are a
text (`Utf8.IsText`), and so is what stands before and behind an octet of seven bits, or a
character, in a text (`Utf8.isText_cut`, `Utf8.isText_cut_char`).
-/

namespace MarketFeed

namespace Utf8

/-! ### One octet -/

theorem toNat_ofNat {n : Nat} (h : n < 256) : (UInt8.ofNat n).toNat = n :=
  UInt8.toNat_ofNat_of_lt' h

theorem piecesFrom_start_cons (b : UInt8) (s : List UInt8) :
    piecesFrom .start (b :: s) =
      (Partial.lead b.toNat).1 ++ piecesFrom (Partial.lead b.toNat).2 s := rfl

/-- The last octet of a character. -/
theorem piecesFrom_last {value low high : Nat} {b : UInt8} (h : low ≤ b.toNat ∧ b.toNat ≤ high)
    (s : List UInt8) :
    piecesFrom (.inside 0 value low high) (b :: s) =
      some (Char.ofNat (value * 64 + (b.toNat - 0x80))) :: piecesFrom .start s := by
  simp [piecesFrom, Partial.step, h]

/-- An octet of a character that is neither its first nor its last. -/
theorem piecesFrom_more {missing value low high : Nat} {b : UInt8}
    (h : low ≤ b.toNat ∧ b.toNat ≤ high) (s : List UInt8) :
    piecesFrom (.inside (missing + 1) value low high) (b :: s) =
      piecesFrom (.inside missing (value * 64 + (b.toNat - 0x80)) 0x80 0xBF) s := by
  simp [piecesFrom, Partial.step, h]

theorem lead_one {b : Nat} (h : b < 0x80) :
    Partial.lead b = ([some (Char.ofNat b)], .start) := by
  rw [Partial.lead, if_pos h]

theorem lead_two {b : Nat} (h : 0xC2 ≤ b ∧ b < 0xE0) :
    Partial.lead b = ([], .inside 0 (b - 0xC0) 0x80 0xBF) := by
  rw [Partial.lead, if_neg (by omega), if_neg (by omega), if_pos h.2]

theorem lead_three {b : Nat} (h : 0xE0 ≤ b ∧ b < 0xF0) :
    Partial.lead b = ([], .inside 1 (b - 0xE0) (if b = 0xE0 then 0xA0 else 0x80)
      (if b = 0xED then 0x9F else 0xBF)) := by
  rw [Partial.lead, if_neg (by omega), if_neg (by omega), if_neg (by omega), if_pos h.2]

theorem lead_four {b : Nat} (h : 0xF0 ≤ b ∧ b < 0xF5) :
    Partial.lead b = ([], .inside 2 (b - 0xF0) (if b = 0xF0 then 0x90 else 0x80)
      (if b = 0xF4 then 0x8F else 0xBF)) := by
  rw [Partial.lead, if_neg (by omega), if_neg (by omega), if_neg (by omega), if_neg (by omega),
    if_pos h.2]

/-! ### The forms of a code point -/

theorem piecesFrom_one {v : Nat} (h : v < 0x80) (s : List UInt8) :
    piecesFrom .start (UInt8.ofNat v :: s) = some (Char.ofNat v) :: piecesFrom .start s := by
  rw [piecesFrom_start_cons, toNat_ofNat (by omega), lead_one h]
  rfl

theorem piecesFrom_two {v : Nat} (h : 0x80 ≤ v ∧ v < 0x800) (s : List UInt8) :
    piecesFrom .start (UInt8.ofNat (v / 64 % 32 + 0xC0) :: UInt8.ofNat (v % 64 + 0x80) :: s) =
      some (Char.ofNat v) :: piecesFrom .start s := by
  have h₁ := toNat_ofNat (n := v / 64 % 32 + 0xC0) (by omega)
  have h₂ := toNat_ofNat (n := v % 64 + 0x80) (by omega)
  rw [piecesFrom_start_cons, h₁, lead_two (by omega), List.nil_append,
    piecesFrom_last (by omega), h₂]
  rw [show (v / 64 % 32 + 0xC0 - 0xC0) * 64 + (v % 64 + 0x80 - 0x80) = v by omega]

theorem piecesFrom_three {v : Nat} (h : 0x800 ≤ v ∧ v < 0x10000) (gap : v < 0xD800 ∨ 0xE000 ≤ v)
    (s : List UInt8) :
    piecesFrom .start (UInt8.ofNat (v / 4096 % 16 + 0xE0) :: UInt8.ofNat (v / 64 % 64 + 0x80)
        :: UInt8.ofNat (v % 64 + 0x80) :: s) =
      some (Char.ofNat v) :: piecesFrom .start s := by
  have h₁ := toNat_ofNat (n := v / 4096 % 16 + 0xE0) (by omega)
  have h₂ := toNat_ofNat (n := v / 64 % 64 + 0x80) (by omega)
  have h₃ := toNat_ofNat (n := v % 64 + 0x80) (by omega)
  rw [piecesFrom_start_cons, h₁, lead_three (by omega), List.nil_append,
    piecesFrom_more (by constructor <;> split <;> omega), h₂, piecesFrom_last (by omega), h₃]
  rw [show ((v / 4096 % 16 + 0xE0 - 0xE0) * 64 + (v / 64 % 64 + 0x80 - 0x80)) * 64
    + (v % 64 + 0x80 - 0x80) = v by omega]

theorem piecesFrom_four {v : Nat} (h : 0x10000 ≤ v ∧ v < 0x110000) (s : List UInt8) :
    piecesFrom .start (UInt8.ofNat (v / 262144 % 8 + 0xF0) :: UInt8.ofNat (v / 4096 % 64 + 0x80)
        :: UInt8.ofNat (v / 64 % 64 + 0x80) :: UInt8.ofNat (v % 64 + 0x80) :: s) =
      some (Char.ofNat v) :: piecesFrom .start s := by
  have h₁ := toNat_ofNat (n := v / 262144 % 8 + 0xF0) (by omega)
  have h₂ := toNat_ofNat (n := v / 4096 % 64 + 0x80) (by omega)
  have h₃ := toNat_ofNat (n := v / 64 % 64 + 0x80) (by omega)
  have h₄ := toNat_ofNat (n := v % 64 + 0x80) (by omega)
  rw [piecesFrom_start_cons, h₁, lead_four (by omega), List.nil_append,
    piecesFrom_more (by constructor <;> split <;> omega), h₂, piecesFrom_more (by omega), h₃,
    piecesFrom_last (by omega), h₄]
  rw [show (((v / 262144 % 8 + 0xF0 - 0xF0) * 64 + (v / 4096 % 64 + 0x80 - 0x80)) * 64
    + (v / 64 % 64 + 0x80 - 0x80)) * 64 + (v % 64 + 0x80 - 0x80) = v by omega]

/-! ### Reading what was written -/

theorem encode_cons (c : Char) (cs : List Char) :
    encode (c :: cs) = String.utf8EncodeChar c ++ encode cs := List.flatMap_cons

theorem encode_append (cs ds : List Char) : encode (cs ++ ds) = encode cs ++ encode ds :=
  List.flatMap_append

/-- The code points that characters have. -/
theorem toNat_valid (c : Char) : c.toNat < 0x110000 ∧ (c.toNat < 0xD800 ∨ 0xE000 ≤ c.toNat) := by
  have h := c.valid
  simp only [UInt32.isValidChar, Nat.isValidChar] at h
  change c.val.toNat < _ ∧ (c.val.toNat < _ ∨ _ ≤ c.val.toNat)
  omega

/-- The UTF-8 form of a character, by the size of its code point. -/
theorem encodeChar_eq (c : Char) :
    String.utf8EncodeChar c =
      let v := c.toNat
      if v ≤ 0x7F then [UInt8.ofNat v]
      else if v ≤ 0x7FF then [UInt8.ofNat (v / 64 % 32 + 0xC0), UInt8.ofNat (v % 64 + 0x80)]
      else if v ≤ 0xFFFF then
        [UInt8.ofNat (v / 4096 % 16 + 0xE0), UInt8.ofNat (v / 64 % 64 + 0x80),
          UInt8.ofNat (v % 64 + 0x80)]
      else
        [UInt8.ofNat (v / 262144 % 8 + 0xF0), UInt8.ofNat (v / 4096 % 64 + 0x80),
          UInt8.ofNat (v / 64 % 64 + 0x80), UInt8.ofNat (v % 64 + 0x80)] := rfl

/-- The character at the start of the octets is read before what follows it. -/
theorem piecesFrom_encodeChar (c : Char) (s : List UInt8) :
    piecesFrom .start (String.utf8EncodeChar c ++ s) = some c :: piecesFrom .start s := by
  obtain ⟨hlt, gap⟩ := toNat_valid c
  rw [encodeChar_eq]
  dsimp only
  split_ifs with h₁ h₂ h₃
  · exact (piecesFrom_one (by omega) s).trans (by rw [Char.ofNat_toNat])
  · exact (piecesFrom_two (by omega) s).trans (by rw [Char.ofNat_toNat])
  · exact (piecesFrom_three (by omega) gap s).trans (by rw [Char.ofNat_toNat])
  · exact (piecesFrom_four (by omega) s).trans (by rw [Char.ofNat_toNat])

theorem pieces_encode (cs : List Char) : pieces (encode cs) = cs.map some := by
  induction cs with
  | nil => rfl
  | cons c cs ih =>
    rw [encode_cons, pieces, piecesFrom_encodeChar, List.map_cons]
    exact congrArg _ ih

/-- The UTF-8 form of characters reads as them. -/
@[simp] theorem decode?_encode (cs : List Char) : decode? (encode cs) = some cs := by
  rw [decode?, pieces_encode]
  induction cs with
  | nil => rfl
  | cons c cs ih => simp [ih]

/-! ### Writing what was read -/

theorem ofNat_eq_octet {n : Nat} {b : UInt8} (h : n = b.toNat) : UInt8.ofNat n = b := by
  rw [h, UInt8.ofNat_toNat]

theorem toNat_ofNat_char {v : Nat} (h : v < 0x110000) (gap : v < 0xD800 ∨ 0xE000 ≤ v) :
    (Char.ofNat v).toNat = v := by
  have valid : v.isValidChar := by
    simp only [Nat.isValidChar]
    omega
  rw [Char.ofNat, dif_pos valid]
  rfl

theorem encodeChar_one {a : UInt8} (h : a.toNat < 0x80) :
    String.utf8EncodeChar (Char.ofNat a.toNat) = [a] := by
  rw [encodeChar_eq, toNat_ofNat_char (by omega) (by omega)]
  dsimp only
  rw [if_pos (by omega), UInt8.ofNat_toNat]

theorem encodeChar_two {a b : UInt8} (ha : 0xC2 ≤ a.toNat ∧ a.toNat < 0xE0)
    (hb : 0x80 ≤ b.toNat ∧ b.toNat ≤ 0xBF) :
    String.utf8EncodeChar (Char.ofNat ((a.toNat - 0xC0) * 64 + (b.toNat - 0x80))) = [a, b] := by
  rw [encodeChar_eq, toNat_ofNat_char (by omega) (by omega)]
  dsimp only
  rw [if_neg (by omega), if_pos (by omega), ofNat_eq_octet (b := a) (by omega),
    ofNat_eq_octet (b := b) (by omega)]

theorem encodeChar_three {a b c : UInt8} (ha : 0xE0 ≤ a.toNat ∧ a.toNat < 0xF0)
    (low : (if a.toNat = 0xE0 then 0xA0 else 0x80) ≤ b.toNat)
    (high : b.toNat ≤ if a.toNat = 0xED then 0x9F else 0xBF)
    (hc : 0x80 ≤ c.toNat ∧ c.toNat ≤ 0xBF) :
    String.utf8EncodeChar (Char.ofNat
      (((a.toNat - 0xE0) * 64 + (b.toNat - 0x80)) * 64 + (c.toNat - 0x80))) = [a, b, c] := by
  have hb : 0x80 ≤ b.toNat ∧ b.toNat ≤ 0xBF := by
    constructor
    · split at low <;> omega
    · split at high <;> omega
  have hlow : a.toNat = 0xE0 → 0xA0 ≤ b.toNat := fun h => by rwa [if_pos h] at low
  have hhigh : a.toNat = 0xED → b.toNat ≤ 0x9F := fun h => by rwa [if_pos h] at high
  clear low high
  rw [encodeChar_eq, toNat_ofNat_char (by omega) (by omega)]
  dsimp only
  rw [if_neg (by omega), if_neg (by omega), if_pos (by omega), ofNat_eq_octet (b := a) (by omega),
    ofNat_eq_octet (b := b) (by omega), ofNat_eq_octet (b := c) (by omega)]

theorem encodeChar_four {a b c d : UInt8} (ha : 0xF0 ≤ a.toNat ∧ a.toNat < 0xF5)
    (low : (if a.toNat = 0xF0 then 0x90 else 0x80) ≤ b.toNat)
    (high : b.toNat ≤ if a.toNat = 0xF4 then 0x8F else 0xBF)
    (hc : 0x80 ≤ c.toNat ∧ c.toNat ≤ 0xBF) (hd : 0x80 ≤ d.toNat ∧ d.toNat ≤ 0xBF) :
    String.utf8EncodeChar (Char.ofNat
      ((((a.toNat - 0xF0) * 64 + (b.toNat - 0x80)) * 64 + (c.toNat - 0x80)) * 64
        + (d.toNat - 0x80))) = [a, b, c, d] := by
  have hb : 0x80 ≤ b.toNat ∧ b.toNat ≤ 0xBF := by
    constructor
    · split at low <;> omega
    · split at high <;> omega
  have hlow : a.toNat = 0xF0 → 0x90 ≤ b.toNat := fun h => by rwa [if_pos h] at low
  have hhigh : a.toNat = 0xF4 → b.toNat ≤ 0x8F := fun h => by rwa [if_pos h] at high
  clear low high
  rw [encodeChar_eq, toNat_ofNat_char (by omega) (by omega)]
  dsimp only
  rw [if_neg (by omega), if_neg (by omega), if_neg (by omega), ofNat_eq_octet (b := a) (by omega),
    ofNat_eq_octet (b := b) (by omega), ofNat_eq_octet (b := c) (by omega),
    ofNat_eq_octet (b := d) (by omega)]

/-- The characters that remain to be read from a given point of a character, if the octets are
well-formed from there. -/
def charsFrom? (p : Partial) (s : List UInt8) : Option (List Char) := (piecesFrom p s).mapM id

theorem charsFrom?_last {value low high : Nat} {s : List UInt8} {cs : List Char}
    (h : charsFrom? (.inside 0 value low high) s = some cs) :
    ∃ b rest cs', s = b :: rest ∧ (low ≤ b.toNat ∧ b.toNat ≤ high) ∧
      cs = Char.ofNat (value * 64 + (b.toNat - 0x80)) :: cs' ∧
      charsFrom? .start rest = some cs' := by
  cases s with
  | nil => simp [charsFrom?, piecesFrom] at h
  | cons b rest =>
    by_cases hb : low ≤ b.toNat ∧ b.toNat ≤ high
    · rw [charsFrom?, piecesFrom_last hb, List.mapM_cons] at h
      simp only [id, Option.bind_eq_bind, Option.bind_some, Option.bind_eq_some_iff,
        Option.pure_def, Option.some.injEq] at h
      obtain ⟨cs', hcs, rfl⟩ := h
      exact ⟨b, rest, cs', rfl, hb, rfl, hcs⟩
    · simp [charsFrom?, piecesFrom, Partial.step, hb] at h

theorem charsFrom?_more {missing value low high : Nat} {s : List UInt8} {cs : List Char}
    (h : charsFrom? (.inside (missing + 1) value low high) s = some cs) :
    ∃ b rest, s = b :: rest ∧ (low ≤ b.toNat ∧ b.toNat ≤ high) ∧
      charsFrom? (.inside missing (value * 64 + (b.toNat - 0x80)) 0x80 0xBF) rest = some cs := by
  cases s with
  | nil => simp [charsFrom?, piecesFrom] at h
  | cons b rest =>
    by_cases hb : low ≤ b.toNat ∧ b.toNat ≤ high
    · rw [charsFrom?, piecesFrom_more hb] at h
      exact ⟨b, rest, rfl, hb, h⟩
    · simp [charsFrom?, piecesFrom, Partial.step, hb] at h

/-- Octets that read as characters from the start begin with the form of the first of them. -/
theorem charsFrom?_start {s : List UInt8} {cs : List Char} (h : charsFrom? .start s = some cs) :
    s = [] ∧ cs = [] ∨ ∃ c cs' rest, cs = c :: cs' ∧ s = String.utf8EncodeChar c ++ rest ∧
      charsFrom? .start rest = some cs' := by
  cases s with
  | nil => exact .inl ⟨rfl, (Option.some.inj h).symm⟩
  | cons a s =>
    right
    rw [charsFrom?, piecesFrom_start_cons] at h
    by_cases h₁ : a.toNat < 0x80
    · rw [lead_one h₁, List.singleton_append, List.mapM_cons] at h
      simp only [id, Option.bind_eq_bind, Option.bind_some, Option.bind_eq_some_iff,
        Option.pure_def, Option.some.injEq] at h
      obtain ⟨cs', hcs, rfl⟩ := h
      exact ⟨_, cs', s, rfl, by rw [encodeChar_one h₁]; rfl, hcs⟩
    by_cases h₂ : a.toNat < 0xC2
    · simp [Partial.lead, h₁, h₂] at h
    by_cases h₃ : a.toNat < 0xE0
    · rw [lead_two (by omega), List.nil_append] at h
      obtain ⟨b, rest, cs', rfl, hb, rfl, hcs⟩ := charsFrom?_last h
      exact ⟨_, cs', rest, rfl, by rw [encodeChar_two (by omega) hb]; rfl, hcs⟩
    by_cases h₄ : a.toNat < 0xF0
    · rw [lead_three (by omega), List.nil_append] at h
      obtain ⟨b, s, rfl, hb, h⟩ := charsFrom?_more h
      obtain ⟨c, rest, cs', rfl, hc, rfl, hcs⟩ := charsFrom?_last h
      exact ⟨_, cs', rest, rfl, by rw [encodeChar_three (by omega) hb.1 hb.2 hc]; rfl, hcs⟩
    by_cases h₅ : a.toNat < 0xF5
    · rw [lead_four (by omega), List.nil_append] at h
      obtain ⟨b, s, rfl, hb, h⟩ := charsFrom?_more h
      obtain ⟨c, s, rfl, hc, h⟩ := charsFrom?_more h
      obtain ⟨d, rest, cs', rfl, hd, rfl, hcs⟩ := charsFrom?_last h
      exact ⟨_, cs', rest, rfl, by rw [encodeChar_four (by omega) hb.1 hb.2 hc hd]; rfl, hcs⟩
    · simp [Partial.lead, h₁, h₂, h₃, h₄, h₅] at h

/-- Octets that read as characters are the UTF-8 form of them. -/
theorem encode_of_decode? {s : List UInt8} {cs : List Char} (h : decode? s = some cs) :
    encode cs = s := by
  induction cs generalizing s with
  | nil =>
    obtain ⟨rfl, -⟩ | ⟨_, _, _, hcs, -⟩ := charsFrom?_start h
    · rfl
    · cases hcs
  | cons c cs ih =>
    obtain ⟨-, hcs⟩ | ⟨c', cs', rest, hcs, rfl, hrest⟩ := charsFrom?_start h
    · cases hcs
    · obtain ⟨rfl, rfl⟩ := List.cons_eq_cons.1 hcs
      rw [encode_cons]
      exact congrArg _ (ih hrest)

/-! ### Cutting -/

/-- The octets are the UTF-8 form of characters. -/
def IsText (s : List UInt8) : Prop := ∃ cs, encode cs = s

theorem IsText.cons {s : List UInt8} (c : Char) (h : IsText s) :
    IsText (String.utf8EncodeChar c ++ s) := by
  obtain ⟨cs, rfl⟩ := h
  exact ⟨c :: cs, encode_cons c cs⟩

theorem IsText.append {s t : List UInt8} (hs : IsText s) (ht : IsText t) : IsText (s ++ t) := by
  obtain ⟨cs, rfl⟩ := hs
  obtain ⟨ds, rfl⟩ := ht
  exact ⟨cs ++ ds, encode_append cs ds⟩

/-- Octets of seven bits are a text. -/
theorem isText_of_ascii {s : List UInt8} (h : ∀ b ∈ s, b.toNat < 0x80) : IsText s := by
  induction s with
  | nil => exact ⟨[], rfl⟩
  | cons b s ih =>
    obtain ⟨hb, hs⟩ := List.forall_mem_cons.1 h
    have htext := (ih hs).cons (Char.ofNat b.toNat)
    rwa [encodeChar_one hb] at htext

theorem isText_octet {b : UInt8} (h : b.toNat < 0x80) : IsText [b] :=
  isText_of_ascii (List.forall_mem_singleton.2 h)

/-- An octet of seven bits is a character of its own. -/
theorem encodeChar_of_mem {c : Char} {b : UInt8} (hb : b.toNat < 0x80)
    (h : b ∈ String.utf8EncodeChar c) : String.utf8EncodeChar c = [b] ∧ c.toNat = b.toNat := by
  obtain ⟨hlt, _⟩ := toNat_valid c
  rw [encodeChar_eq] at h ⊢
  dsimp only at h ⊢
  split_ifs at h ⊢ with h₁ h₂ h₃
  · obtain rfl := List.mem_singleton.1 h
    exact ⟨rfl, (toNat_ofNat (by omega)).symm⟩
  all_goals
    exfalso
    simp only [List.mem_cons, List.not_mem_nil, or_false] at h
  · obtain rfl | rfl := h <;> rw [toNat_ofNat (by omega)] at hb <;> omega
  · obtain rfl | rfl | rfl := h <;> rw [toNat_ofNat (by omega)] at hb <;> omega
  · obtain rfl | rfl | rfl | rfl := h <;> rw [toNat_ofNat (by omega)] at hb <;> omega

/-- A text may be cut on either side of an octet of seven bits. -/
theorem isText_cut {b : UInt8} (hb : b.toNat < 0x80) {s t : List UInt8}
    (h : IsText (s ++ b :: t)) : IsText s ∧ IsText t := by
  obtain ⟨cs, hcs⟩ := h
  induction cs generalizing s with
  | nil => simp [encode] at hcs
  | cons c cs ih =>
    rw [encode_cons, List.append_eq_append_iff] at hcs
    obtain ⟨tail, rfl, htail⟩ | ⟨tail, hc, htail⟩ := hcs
    · obtain ⟨⟨ds, rfl⟩, ht⟩ := ih htail
      exact ⟨⟨c :: ds, encode_cons c ds⟩, ht⟩
    · cases tail with
      | nil =>
        rw [List.append_nil] at hc
        obtain ⟨_, ht⟩ := ih (s := []) htail.symm
        exact ⟨⟨[c], by rw [encode_cons, hc]; exact List.append_nil s⟩, ht⟩
      | cons a tail =>
        obtain ⟨rfl, rfl⟩ := List.cons_eq_cons.1 htail
        obtain ⟨hsingle, _⟩ := encodeChar_of_mem (c := c) hb (by simp [hc])
        obtain ⟨rfl, rfl⟩ : s = [] ∧ tail = [] := by
          rw [hc] at hsingle
          simpa [List.append_eq_singleton_iff] using hsingle
        exact ⟨⟨[], rfl⟩, ⟨cs, rfl⟩⟩

theorem continues_ofNat (n : Nat) : Continues (UInt8.ofNat (n % 64 + 0x80)) := by
  rw [Continues, toNat_ofNat (by omega)]
  omega

theorem not_continues_ofNat {n : Nat} (h : n < 0x80 ∨ 0xC0 ≤ n) (hn : n < 256) :
    ¬Continues (UInt8.ofNat n) := by
  rw [Continues, toNat_ofNat hn]
  omega

/-- The octets of a character go on with it, but for the first one. -/
theorem encodeChar_octets (c : Char) :
    ∃ b tail, String.utf8EncodeChar c = b :: tail ∧ ¬Continues b ∧ ∀ a ∈ tail, Continues a := by
  rw [encodeChar_eq]
  dsimp only
  split_ifs with h₁ h₂ h₃
  · exact ⟨_, [], rfl, not_continues_ofNat (by omega) (by omega), by simp⟩
  all_goals
    refine ⟨_, _, rfl, not_continues_ofNat (by omega) (by omega), ?_⟩
    simp only [List.forall_mem_cons]
  · exact ⟨continues_ofNat _, List.forall_mem_nil _⟩
  · exact ⟨continues_ofNat _, continues_ofNat _, List.forall_mem_nil _⟩
  · exact ⟨continues_ofNat _, continues_ofNat _, continues_ofNat _, List.forall_mem_nil _⟩

/-- A text may be cut on either side of a character. -/
theorem isText_cut_char {c : Char} {s t : List UInt8}
    (h : IsText (s ++ (String.utf8EncodeChar c ++ t))) : IsText s ∧ IsText t := by
  obtain ⟨cs, hcs⟩ := h
  induction cs generalizing s with
  | nil => simp [encode] at hcs
  | cons d cs ih =>
    rw [encode_cons] at hcs
    obtain ⟨tail, rfl, htail⟩ | ⟨tail, hd, htail⟩ := List.append_eq_append_iff.1 hcs
    · obtain ⟨⟨ds, rfl⟩, ht⟩ := ih htail
      exact ⟨⟨d :: ds, encode_cons d ds⟩, ht⟩
    · cases s with
      | nil =>
        have hpieces := congrArg (piecesFrom .start) hcs
        rw [List.nil_append, piecesFrom_encodeChar, piecesFrom_encodeChar] at hpieces
        obtain rfl := Option.some.inj (List.cons_eq_cons.1 hpieces).1
        exact ⟨⟨[], rfl⟩, cs, List.append_cancel_left hcs⟩
      | cons a s =>
        obtain ⟨_, _, hd', _, hcontinues⟩ := encodeChar_octets d
        obtain ⟨b, _, hc, hb, _⟩ := encodeChar_octets c
        cases tail with
        | nil =>
          rw [List.append_nil] at hd
          obtain ⟨_, ht⟩ := ih (s := []) htail.symm
          exact ⟨⟨[d], by rw [encode_cons, hd]; exact List.append_nil _⟩, ht⟩
        | cons x tail =>
          -- What is left of one character goes on with it, but another character begins there.
          rw [hc] at htail
          obtain ⟨rfl, _⟩ := List.cons_eq_cons.1 htail
          rw [hd'] at hd
          obtain ⟨_, rfl⟩ := List.cons_eq_cons.1 hd
          exact absurd (hcontinues b (by simp)) hb

end Utf8

/-- A text whose octets read as a text is that text. -/
@[simp] theorem decode?_octets (s : String) : Utf8.decode? (octets s) = some s.toList :=
  Utf8.decode?_encode _

@[simp] theorem textOf_octets (s : String) : textOf (octets s) = s := by
  rw [textOf, octets, Utf8.lossy, Utf8.pieces_encode, List.map_map]
  exact (congrArg String.ofList (List.map_id s.toList)).trans String.ofList_toList

/-- Reading octets as a text loses none of them. -/
theorem octets_of_decode? {bytes : List UInt8} {cs : List Char}
    (h : Utf8.decode? bytes = some cs) : octets (String.ofList cs) = bytes := by
  rw [octets, String.toList_ofList]
  exact Utf8.encode_of_decode? h

theorem isText_octets (s : String) : Utf8.IsText (octets s) := ⟨s.toList, rfl⟩

/-- The text of octets has those octets, if they are a text. -/
theorem octets_textOf {bytes : List UInt8} (h : Utf8.IsText bytes) :
    octets (textOf bytes) = bytes := by
  obtain ⟨cs, rfl⟩ := h
  rw [textOf, Utf8.lossy, Utf8.pieces_encode, octets, String.toList_ofList, List.map_map]
  exact congrArg Utf8.encode (List.map_id cs)

end MarketFeed
