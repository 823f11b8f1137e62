import Chip8.Cli.Numeral
import Chip8.Text.Hex

/-! # Numerals are read back

A written number is read back as the number that it was written for, in either case and with zeros
in front.
-/

namespace Chip8

namespace Cli

variable {radix max value n : Nat}

/-- Digits that follow others go on with the number of the others. -/
theorem digitsFrom_append {digits : List Char} (h : digitsFrom radix max value digits = .ok n)
    (rest : List Char) :
    digitsFrom radix max value (digits ++ rest) = digitsFrom radix max n rest := by
  induction digits generalizing value with
  | nil =>
    cases h
    rfl
  | cons c digits ih =>
    rw [List.cons_append, digitsFrom]
    rw [digitsFrom] at h
    cases hdigit : digitBelow? radix c with
    | none => simp [hdigit] at h
    | some digit =>
      simp only [hdigit] at h ⊢
      split at h
      case isTrue hfits => simp only [hfits, if_true, ih h]
      case isFalse => cases h

theorem digitsFrom_zeros (hzero : digitBelow? radix '0' = some 0) (count : Nat) (rest : List Char) :
    digitsFrom radix max 0 (List.replicate count '0' ++ rest) = digitsFrom radix max 0 rest := by
  induction count with
  | zero => rfl
  | succ count ih =>
    simp only [List.replicate_succ, List.cons_append, digitsFrom, hzero, Nat.zero_mul, Nat.add_zero,
      Nat.zero_le, if_true, ih]

/-- Whatever the digits look like, as long as each is read as itself. -/
theorem digitsFrom_toDigits {face : Char → Char}
    (hface : ∀ d < radix, digitBelow? radix (face d.digitChar) = some d) (hradix : 1 < radix)
    (hmax : n ≤ max) : digitsFrom radix max 0 ((Nat.toDigits radix n).map face) = .ok n := by
  induction n using Nat.strongRecOn with
  | ind n ih =>
    by_cases hlast : n < radix
    · rw [Nat.toDigits_of_lt_base hlast, List.map_singleton, digitsFrom, hface n hlast]
      simp only [Nat.zero_mul, Nat.zero_add, hmax, if_true, digitsFrom]
    · have hle : radix ≤ n := Nat.le_of_not_lt hlast
      have hsmaller : n / radix < n := Nat.div_lt_self (by omega) hradix
      have hfront := ih (n / radix) hsmaller (by omega)
      have hsum : n / radix * radix + n % radix = n := Nat.div_add_mod' n radix
      rw [Nat.toDigits_of_base_le hradix hle, List.map_append, List.map_singleton,
        digitsFrom_append hfront, digitsFrom, hface _ (Nat.mod_lt n (by omega))]
      simp only [hsum, hmax, if_true, digitsFrom]

theorem isSome_digit {digits : List Char} (h : digitsFrom radix max value digits = .ok n) :
    ∀ c ∈ digits, (digitBelow? radix c).isSome := by
  induction digits generalizing value with
  | nil => exact List.forall_mem_nil _
  | cons c digits ih =>
    rw [digitsFrom] at h
    cases hdigit : digitBelow? radix c with
    | none => simp [hdigit] at h
    | some digit =>
      simp only [hdigit] at h
      split at h
      case isTrue => exact List.forall_mem_cons.mpr ⟨hdigit ▸ rfl, ih h⟩
      case isFalse => cases h

/-- The plus that may stand in front of a number is no digit itself. -/
theorem readNumeral_of_digits {text : String} (hplus : digitBelow? radix '+' = none)
    (hread : digitsFrom radix max 0 text.toList = .ok n) (hne : text.toList ≠ []) :
    readNumeral radix max text = .ok n := by
  have habsent : '+' ∉ text.toList := fun hmem => by
    have hdigit := isSome_digit hread '+' hmem
    rw [hplus] at hdigit
    cases hdigit
  unfold readNumeral
  split
  case h_1 hnil => exact absurd hnil hne
  case h_2 hhead | h_3 hhead => exact absurd (hhead ▸ List.mem_cons_self) habsent
  case h_4 => exact hread

theorem readNumeral_toString (hmax : n ≤ max) : readNumeral 10 max (toString n) = .ok n := by
  have hread : digitsFrom 10 max 0 ((Nat.toDigits 10 n).map id) = .ok n :=
    digitsFrom_toDigits (by decide) (by decide) hmax
  rw [List.map_id] at hread
  have hdigits : (toString n).toList = Nat.toDigits 10 n := by
    rw [Nat.toString_eq_ofList_toDigits, String.toList_ofList]
  rw [← hdigits] at hread
  exact readNumeral_of_digits (by decide) hread (hdigits ▸ Nat.toDigits_ne_nil)

end Cli

namespace Text.Hex

variable {max n : Nat}

theorem digitsFrom_lower (width : Nat) (hmax : n ≤ max) :
    Cli.digitsFrom 16 max 0 (lower width n).toList = .ok n := by
  have hdigits : Cli.digitsFrom 16 max 0 ((digits n).map id) = .ok n :=
    Cli.digitsFrom_toDigits (by decide) (by decide) hmax
  rw [List.map_id] at hdigits
  rw [lower, String.toList_ofList, List.leftpad, Cli.digitsFrom_zeros (by decide), hdigits]

theorem digitsFrom_upper (hmax : n ≤ max) :
    Cli.digitsFrom 16 max 0 (upper n).toList = .ok n := by
  rw [upper, String.toList_ofList]
  exact Cli.digitsFrom_toDigits (by decide) (by decide) hmax

theorem length_lower (width : Nat) :
    (lower width n).toList.length = Nat.max width (digits n).length := by
  rw [lower, String.toList_ofList, List.length_leftpad]

theorem readNumeral_lower (width : Nat) (hmax : n ≤ max) :
    Cli.readNumeral 16 max (lower width n) = .ok n := by
  refine Cli.readNumeral_of_digits (by decide) (digitsFrom_lower width hmax) fun hnil => ?_
  have hlength : 0 = Nat.max width (digits n).length := by rw [← length_lower, hnil]; rfl
  have hnone : (digits n).length ≤ 0 := hlength ▸ Nat.le_max_right width (digits n).length
  exact Nat.toDigits_ne_nil (List.length_eq_zero_iff.mp (Nat.le_zero.mp hnone))

end Text.Hex

end Chip8
