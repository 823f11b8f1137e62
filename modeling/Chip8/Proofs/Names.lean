import Chip8.Named

/-! # Names in order

The order of names by their characters is the order of their encodings byte by byte: the first
byte of a character grows with the number of bytes that follow and with what it carries itself, and
each of those carries six bits more. In a map whose names increase, every name finds its own value.
-/

namespace Chip8

namespace Utf8

/-- What is left of a code point for the first byte if some bytes follow. -/
def leading : Nat → Nat → Nat
  | 0, n => n
  | following + 1, n => leading following (n / 64)

/-- The bytes that follow the first one, with six bits each. -/
def continuation : Nat → Nat → List UInt8
  | 0, _ => []
  | following + 1, n => continuation following (n / 64) ++ [UInt8.ofNat (n % 64 + 128)]

/-- How many bytes follow the first one of a code point. -/
def following (n : Nat) : Nat :=
  if n ≤ 127 then 0 else if n ≤ 2047 then 1 else if n ≤ 65535 then 2 else 3

/-- The first byte tells how many bytes follow. -/
def mark : Nat → Nat
  | 0 => 0
  | 1 => 192
  | 2 => 224
  | _ => 240

/-- The first byte of a code point. -/
def first (n : Nat) : Nat := leading (following n) n + mark (following n)

theorem toNat_val_lt (c : Char) : c.val.toNat < 0x110000 := by
  have hvalid := c.valid
  grind

theorem utf8EncodeChar_eq (c : Char) : String.utf8EncodeChar c =
    UInt8.ofNat (first c.val.toNat) :: continuation (following c.val.toNat) c.val.toNat := by
  have hlast := toNat_val_lt c
  unfold String.utf8EncodeChar
  generalize c.val.toNat = n at hlast
  dsimp only
  split
  case isTrue h => simp [first, following, leading, mark, continuation, h]
  case isFalse h =>
    split
    case isTrue h' =>
      have hlead : n / 64 % 32 = n / 64 := by omega
      simp [first, following, leading, mark, continuation, h, h', hlead]
    case isFalse h' =>
      split
      case isTrue h'' =>
        have hlead : n / 4096 % 16 = n / 4096 := by omega
        simp [first, following, leading, mark, continuation, h, h', h'', hlead,
          Nat.div_div_eq_div_mul]
      case isFalse h'' =>
        have hlead : n / 262144 % 8 = n / 262144 := by omega
        simp [first, following, leading, mark, continuation, h, h', h'', hlead,
          Nat.div_div_eq_div_mul]

theorem byte_lt {a b : Nat} (h : a < b) (hb : b < 256) : UInt8.ofNat a < UInt8.ofNat b := by
  have ha : a < UInt8.size := Nat.lt_trans h hb
  rw [UInt8.lt_iff_toNat_lt, UInt8.toNat_ofNat_of_lt' ha, UInt8.toNat_ofNat_of_lt' hb]
  exact h

theorem continuation_append_lt {m n : Nat} (h : m < n) {count : Nat}
    (hlead : leading count m = leading count n) (s t : List UInt8) :
    continuation count m ++ s < continuation count n ++ t := by
  induction count generalizing m n s t with
  | zero => exact absurd hlead (Nat.ne_of_lt h)
  | succ count ih =>
    simp only [continuation, List.append_assoc]
    obtain hlt | ⟨hsame, hlast⟩ : m / 64 < n / 64 ∨ m / 64 = n / 64 ∧ m % 64 < n % 64 := by omega
    · exact ih hlt hlead _ _
    · have hbyte : UInt8.ofNat (m % 64 + 128) < UInt8.ofNat (n % 64 + 128) :=
        byte_lt (Nat.add_lt_add_right hlast 128) (by omega)
      rw [hsame]
      exact List.append_left_lt (List.cons_lt_cons_iff.mpr (.inl hbyte))

theorem following_cases (n : Nat) :
    following n = 0 ∧ n ≤ 127 ∨ following n = 1 ∧ 127 < n ∧ n ≤ 2047 ∨
      following n = 2 ∧ 2047 < n ∧ n ≤ 65535 ∨ following n = 3 ∧ 65535 < n := by
  unfold following
  grind

/-- A greater code point has a greater first byte, or as many bytes to follow the same one. -/
theorem first_lt_or {m n : Nat} (h : m < n) (hn : n < 0x110000) : first n < 256 ∧
    (first m < first n ∨ following m = following n ∧
      leading (following m) m = leading (following m) n ∧ first m = first n) := by
  unfold first
  -- A longer encoding has the greater mark. In one of the same length no less is left for the first
  -- byte of a greater code point.
  rcases following_cases m with ⟨hm, hlast⟩ | ⟨hm, hrange⟩ | ⟨hm, hrange⟩ | ⟨hm, hleast⟩ <;>
    rcases following_cases n with ⟨hn, hlast'⟩ | ⟨hn, hrange'⟩ | ⟨hn, hrange'⟩ | ⟨hn, hleast'⟩ <;>
    simp only [hm, hn, leading, mark, true_and] <;> omega

theorem utf8EncodeChar_append_lt {c d : Char} (h : c < d) (s t : List UInt8) :
    String.utf8EncodeChar c ++ s < String.utf8EncodeChar d ++ t := by
  have hcode : c.val.toNat < d.val.toNat := h
  obtain ⟨hbyte, hlt | ⟨hcount, hlead, hsame⟩⟩ := first_lt_or hcode (toNat_val_lt d)
  · rw [utf8EncodeChar_eq, utf8EncodeChar_eq]
    exact List.cons_lt_cons_iff.mpr (.inl (byte_lt hlt hbyte))
  · rw [utf8EncodeChar_eq, utf8EncodeChar_eq, hsame, ← hcount]
    exact List.cons_lt_cons_iff.mpr (.inr ⟨rfl, continuation_append_lt hcode hlead s t⟩)

end Utf8

theorem toUTF8_eq_flatMap (s : String) :
    s.toUTF8.data.toList = s.toList.flatMap String.utf8EncodeChar := by
  rw [String.toUTF8_eq_toByteArray, ← String.utf8Encode_toList, List.utf8Encode,
    List.data_toByteArray]

theorem toUTF8_lt_toUTF8 {a b : String} (h : a < b) :
    a.toUTF8.data.toList < b.toUTF8.data.toList := by
  rw [toUTF8_eq_flatMap, toUTF8_eq_flatMap]
  have hlt : a.toList < b.toList := String.lt_iff.mp h
  generalize a.toList = cs at hlt
  generalize b.toList = ds at hlt
  induction cs generalizing ds with
  | nil =>
    cases ds with
    | nil => exact absurd hlt (List.lt_irrefl [])
    | cons d ds => rw [List.flatMap_cons, Utf8.utf8EncodeChar_eq]; exact List.nil_lt_cons _ _
  | cons c cs ih =>
    cases ds with
    | nil => exact absurd hlt (List.not_lt_nil _)
    | cons d ds =>
      simp only [List.flatMap_cons]
      obtain hchar | ⟨rfl, hrest⟩ := List.cons_lt_cons_iff.mp hlt
      · exact Utf8.utf8EncodeChar_append_lt hchar _ _
      · exact List.append_left_lt (ih ds hrest)

theorem lt_iff_toUTF8_lt {a b : String} :
    a < b ↔ a.toUTF8.data.toList < b.toUTF8.data.toList := by
  refine ⟨toUTF8_lt_toUTF8, fun h => ?_⟩
  obtain hlt | rfl | hgt := Std.lt_trichotomy a b
  · exact hlt
  · exact absurd h (List.lt_irrefl _)
  · exact absurd (toUTF8_lt_toUTF8 hgt) (List.lt_asymm h)

namespace Named

variable {α : Type} {named : Named α} {name other : String} {value old : α}
  {before after : List (String × α)}

theorem lt_of_mem_before (hsplit : named.entries = before ++ (name, value) :: after)
    (h : (other, old) ∈ before) : other < name := by
  have hincreasing := named.increasing
  rw [hsplit] at hincreasing
  exact (List.pairwise_append.mp hincreasing).2.2 _ h _ (List.mem_cons_self ..)

theorem get?_of_mem (h : (name, value) ∈ named.entries) : named.get? name = some value := by
  obtain ⟨before, after, hsplit⟩ := List.append_of_mem h
  refine List.lookup_eq_some_iff.mpr ⟨before, after, hsplit, fun entry hentry => ?_⟩
  have hlt : entry.1 < name := lt_of_mem_before hsplit hentry
  have hne : name ≠ entry.1 := fun heq => String.lt_irrefl name (heq ▸ hlt)
  exact bne_iff_ne.mpr hne

theorem mem_before_of_lt (hsplit : named.entries = before ++ (name, value) :: after)
    (h : (other, old) ∈ named.entries) (hlt : other < name) : (other, old) ∈ before := by
  have hincreasing := named.increasing
  rw [hsplit] at hincreasing h
  obtain hbefore | hafter := List.mem_append.mp h
  · exact hbefore
  obtain heq | hafter := List.mem_cons.mp hafter
  · cases heq
    exact absurd hlt (String.lt_irrefl name)
  · have hgt := (List.pairwise_cons.mp (List.pairwise_append.mp hincreasing).2.1).1 _ hafter
    exact absurd (String.lt_trans hlt hgt) (String.lt_irrefl other)

end Named

end Chip8
