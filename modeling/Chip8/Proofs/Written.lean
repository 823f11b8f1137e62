import Chip8.Json.Shape
import Chip8.Profile.Writer

/-! # What was written is read back

A string, a number, an array and an object are read back from where they were written, and the
reader stops at the end of what was written. A number alone depends on what follows it: its digits
end at a comma, at a bracket or with the text.
-/

namespace Chip8.Json

/-! ## Strings -/

theorem length_le_byteLength (text : List Char) : text.length ≤ byteLength text := by
  induction text with
  | nil => exact Nat.zero_le _
  | cons c rest ih =>
    have hcons : String.ofList (c :: rest) = String.singleton c ++ String.ofList rest := by
      apply String.toList_inj.mp
      simp
    have hpos := c.utf8Size_pos
    rw [byteLength, hcons, String.utf8ByteSize_append, String.utf8ByteSize_singleton]
    rw [byteLength] at ih
    rw [List.length_cons]
    omega

theorem hexUnit_of_digits {a b c d : Char} {w x y z : Nat} (ha : hexValue? a = some w)
    (hb : hexValue? b = some x) (hc : hexValue? c = some y) (hd : hexValue? d = some z)
    (s : List Char) :
    hexUnit (a :: b :: c :: d :: s) = .ok (((w * 16 + x) * 16 + y) * 16 + z) := by
  have hlength : ¬ byteLength [a, b, c, d] < 4 :=
    Nat.not_lt.mpr (length_le_byteLength [a, b, c, d])
  simp [hexUnit, hlength, ha, hb, hc, hd]

theorem textAfter_escape {c : Char} {cs s rest : List Char} {size : Nat}
    (hescape : escape s = .ok (c, size)) (hafter : textAfter size s = .ok (cs, rest)) :
    textAfter 0 ('\\' :: s) = .ok (c :: cs, rest) := by
  have hquote : '\\' ≠ '\x22' := by decide
  simp only [textAfter, hquote, if_false, if_true, hescape, bind, Except.bind, hafter, pure,
    Except.pure]

theorem leftpad_digits : ∀ n < 32, (Text.Hex.digits n).leftpad 2 '0' =
    [(n / 16).digitChar, (n % 16).digitChar] := by decide

theorem hexValue?_digitChar : ∀ d < 16, hexValue? d.digitChar = some d := by decide

theorem escape_control {c : Char} (hc : c.toNat < 32) (s : List Char) :
    escape ('u' :: '0' :: '0' :: (Text.Hex.lower 2 c.toNat).toList ++ s) = .ok (c, 5) := by
  have hunit : hexUnit ('0' :: '0' :: (c.toNat / 16).digitChar :: (c.toNat % 16).digitChar :: s) =
      .ok c.toNat := by
    rw [hexUnit_of_digits (w := 0) (x := 0) rfl rfl (hexValue?_digitChar _ (by omega))
      (hexValue?_digitChar _ (by omega))]
    congr 1
    omega
  have hlow : isLowSurrogate c.toNat = false := by
    simp [isLowSurrogate]
    omega
  have hhigh : isHighSurrogate c.toNat = false := by
    simp [isHighSurrogate]
    omega
  rw [Text.Hex.lower, String.toList_ofList, leftpad_digits _ hc]
  simp only [List.cons_append, List.nil_append, escape, unicodeEscape, hunit, bind, Except.bind,
    hlow, hhigh, Except.map]
  simp [pure, Except.pure, Char.ofNat_toNat]

theorem textAfter_quoteChar {cs s rest : List Char} (c : Char)
    (h : textAfter 0 s = .ok (cs, rest)) :
    textAfter 0 (quoteChar c ++ s) = .ok (c :: cs, rest) := by
  unfold quoteChar
  -- Seven characters are written with an escape of their own.
  iterate 7
    split
    case isTrue hc =>
      subst hc
      exact textAfter_escape rfl h
  rename_i hquote hbackslash _ _ _ _ _
  split
  case isTrue hcontrol =>
    have hc : c.toNat < 32 := hcontrol
    have hescape := escape_control hc s
    rw [Text.Hex.lower, String.toList_ofList, leftpad_digits _ hc] at hescape ⊢
    exact textAfter_escape hescape h
  case isFalse hplain =>
    simp only [List.singleton_append, textAfter, hquote, hbackslash, hplain, if_false, h, bind,
      Except.bind, pure, Except.pure]

theorem textAfter_flatMap (cs rest : List Char) :
    textAfter 0 (cs.flatMap quoteChar ++ '\x22' :: rest) = .ok (cs, rest) := by
  induction cs with
  | nil => rfl
  | cons c cs ih =>
    rw [List.flatMap_cons, List.append_assoc]
    exact textAfter_quoteChar c ih

theorem text_quote (s : String) (rest : List Char) :
    text (s.toList.flatMap quoteChar ++ '\x22' :: rest) = .ok (s, rest) := by
  rw [text, textAfter_flatMap]
  simp only [bind, Except.bind, pure, Except.pure, String.ofList_toList]

/-! ## Numbers -/

theorem le_ofDigitChars (digits : List Char) (n : Nat) : n ≤ Nat.ofDigitChars 10 digits n := by
  induction digits generalizing n with
  | nil => exact Nat.le_refl n
  | cons c digits ih =>
    have hmore := ih (10 * n + (c.toNat - '0'.toNat))
    rw [Nat.ofDigitChars_cons]
    omega

theorem appendDigits_eq {max : Nat} (digits : List Char) {n : Nat}
    (hfits : Nat.ofDigitChars 10 digits n ≤ max) :
    appendDigits max n digits = (Nat.ofDigitChars 10 digits n, 0) := by
  induction digits generalizing n with
  | nil => rfl
  | cons c digits ih =>
    have hnext : n * 10 + digitValue c = 10 * n + (c.toNat - '0'.toNat) := by
      rw [digitValue, Nat.mul_comm]
    rw [Nat.ofDigitChars_cons] at hfits ⊢
    have hmax := Nat.le_trans (le_ofDigitChars digits _) hfits
    rw [appendDigits]
    simp only [hnext, hmax, if_true]
    exact ih hfits

theorem appendDigits_toDigits {max n : Nat} (hfits : n ≤ max) :
    appendDigits max 0 (Nat.toDigits 10 n) = (n, 0) := by
  rw [appendDigits_eq, Nat.ofDigitChars_ten_toDigits]
  rwa [Nat.ofDigitChars_ten_toDigits]

/-- No zero stands in front of the other digits. -/
theorem head?_toDigits {n : Nat} (hn : n ≠ 0) : (Nat.toDigits 10 n).head? ≠ some '0' := by
  induction n using Nat.strongRecOn with
  | ind n ih =>
    obtain hlast | hmore := Nat.lt_or_ge n 10
    · have hdigit : ∀ d < 10, d ≠ 0 → d.digitChar ≠ '0' := by decide
      rw [Nat.toDigits_of_lt_base hlast]
      simpa using hdigit n hlast hn
    · have hfront := ih (n / 10) (by omega) (by omega)
      obtain ⟨c, rest, hcons⟩ := List.exists_cons_of_ne_nil (@Nat.toDigits_ne_nil (n / 10) 10)
      rw [Nat.toDigits_of_base_le (by decide) hmore, hcons]
      rwa [hcons] at hfront

/-- What may follow a value: a comma, a bracket that closes, or nothing. -/
def Ends (rest : List Char) : Prop := ∀ c ∈ rest.head?, c = ',' ∨ c = ']' ∨ c = '\x7d'

theorem ends_cons {c : Char} (hc : c = ',' ∨ c = ']' ∨ c = '\x7d') (rest : List Char) :
    Ends (c :: rest) := by
  intro d hd
  cases hd
  exact hc

theorem Ends.not_isDigit {rest : List Char} (hrest : Ends rest) :
    ∀ c ∈ rest.head?, c.isDigit = false := by
  intro c hc
  obtain rfl | rfl | rfl := hrest c hc <;> rfl

theorem digitRun_append {digits rest : List Char} (hdigits : ∀ c ∈ digits, c.isDigit = true)
    (hrest : Ends rest) : digitRun (digits ++ rest) = (digits, rest) := by
  unfold digitRun
  rw [List.takeWhile_append_of_pos hdigits, List.dropWhile_append_of_pos hdigits]
  cases rest with
  | nil => simp
  | cons c rest =>
    have hc : c.isDigit = false := hrest.not_isDigit c rfl
    simp [hc]

theorem numberAfter_numeral (n : UInt64) {rest : List Char} (hrest : Ends rest) :
    numberAfter true (numeral n) rest = .ok (.natural n, rest) := by
  have hfits : n.toNat ≤ significandMax := Nat.le_pred_of_lt n.toNat_lt
  unfold numberAfter
  simp only [numeral, appendDigits_toDigits hfits, if_true]
  split
  case h_1 => exact absurd (hrest '.' rfl) (by decide)
  case h_2 => exact absurd (hrest 'e' rfl) (by decide)
  case h_3 => exact absurd (hrest 'E' rfl) (by decide)
  case h_4 => simp [integer]

theorem number_numeral (n : UInt64) {rest : List Char} (hrest : Ends rest) :
    number true (numeral n ++ rest) = .ok (.natural n, rest) := by
  have hafter := numberAfter_numeral n hrest
  obtain hzero | hpos := Decidable.em (n.toNat = 0)
  · have hnumeral : numeral n = ['0'] := by rw [numeral, hzero, Nat.toDigits_zero]
    rw [hnumeral] at hafter ⊢
    cases rest with
    | nil => exact hafter
    | cons c rest =>
      have hc : c.isDigit = false := hrest.not_isDigit c rfl
      simp only [List.singleton_append, number, hc]
      exact hafter
  · have hdigits : ∀ c ∈ numeral n, c.isDigit = true :=
      fun c => Nat.isDigit_of_mem_toDigits (by decide) (by decide)
    have hrun := digitRun_append hdigits hrest
    have hhead : (numeral n).head? ≠ some '0' := head?_toDigits hpos
    obtain ⟨c, digits, hcons⟩ := List.exists_cons_of_ne_nil (@Nat.toDigits_ne_nil n.toNat 10)
    change numeral n = c :: digits at hcons
    rw [hcons] at hafter hdigits hhead hrun ⊢
    have hc : c.isDigit = true := hdigits c List.mem_cons_self
    rw [List.cons_append, number]
    · simp only [hc, if_true]
      rw [← List.cons_append, hrun]
      exact hafter
    · rintro rfl
      exact hhead rfl

/-! ## Values -/

/-- A value that was written is read back, whatever follows it. -/
structure ReadsBack {α : Type} (reader : Reader α) (written : List Char) (value : α) : Prop where
  starts : ∃ c tail, written = c :: tail ∧ isBlank c = false ∧ c ≠ ']'
  reads : ∀ rest, Ends rest → reader (written ++ rest) = .ok (value, rest)

theorem skipBlanks_cons {c : Char} (hc : isBlank c = false) (s : List Char) :
    skipBlanks (c :: s) = c :: s := by
  rw [skipBlanks, List.dropWhile_cons, hc]
  rfl

theorem readsBack_quote (expected s : String) : ReadsBack (readText expected) (quote s) s := by
  refine ⟨⟨'\x22', _, rfl, rfl, by decide⟩, ?_⟩
  intro rest _
  have htext := text_quote s rest
  rw [quote, List.append_assoc]
  exact htext

theorem not_isBlank_of_isDigit {c : Char} (hc : c.isDigit = true) : isBlank c = false := by
  rw [Bool.eq_false_iff]
  intro hblank
  simp only [isBlank, Bool.or_eq_true, decide_eq_true_eq] at hblank
  obtain ((rfl | rfl) | rfl) | rfl := hblank <;> cases hc

theorem readsBack_numeral (n : UInt64) : ReadsBack readSize (numeral n) n := by
  obtain ⟨c, digits, hcons⟩ := List.exists_cons_of_ne_nil (@Nat.toDigits_ne_nil n.toNat 10)
  change numeral n = c :: digits at hcons
  have hdigit : c.isDigit = true :=
    Nat.isDigit_of_mem_toDigits (by decide) (by decide) (hcons ▸ List.mem_cons_self)
  have hblank := not_isBlank_of_isDigit hdigit
  refine ⟨⟨c, digits, hcons, hblank, ?_⟩, ?_⟩
  · rintro rfl
    cases hdigit
  · intro rest hrest
    have hnumber := number_numeral n hrest
    rw [hcons, List.cons_append] at hnumber ⊢
    have hminus : c ≠ '-' := by
      rintro rfl
      cases hdigit
    simp only [readSize, skipBlanks_cons hblank, hdigit, if_true, hnumber]

/-! ## Arrays and objects -/

/-- The items after the first one, each behind a comma, and the bracket that closes them all. -/
def others (close : Char) (rest : List Char) : List (List Char) → List Char
  | [] => close :: rest
  | item :: items => ',' :: (item ++ others close rest items)

theorem commaSeparated_append (item : List Char) (items : List (List Char)) (close : Char)
    (rest : List Char) :
    commaSeparated (item :: items) ++ close :: rest = item ++ others close rest items := by
  induction items generalizing item with
  | nil => rfl
  | cons next items ih =>
    rw [others, ← ih, commaSeparated, List.append_assoc, List.cons_append]
    rintro ⟨⟩

theorem ends_others {close : Char} (hclose : close = ']' ∨ close = '\x7d') (rest : List Char)
    (items : List (List Char)) : Ends (others close rest items) := by
  cases items with
  | nil => exact ends_cons (.inr hclose) rest
  | cons item items => exact ends_cons (.inl rfl) _

theorem length_lt_others (close : Char) (rest : List Char) (items : List (List Char)) :
    items.length < (others close rest items).length := by
  induction items with
  | nil => exact Nat.succ_pos _
  | cons item items ih =>
    simp only [others, List.length_cons, List.length_append]
    omega

/-- What is left to read is long enough to count the items by its characters. -/
theorem length_lt_written {α : Type} (first : List Char) (write : α → List Char)
    (values : List α) (close : Char) (rest : List Char) :
    values.length < (first ++ others close rest (values.map write)).length := by
  have hcount := length_lt_others close rest (values.map write)
  rw [List.length_map] at hcount
  rw [List.length_append]
  omega

section Arrays

variable {α : Type} {item : Reader α} {written : List Char} {value : α}

theorem hasItem_first (h : ReadsBack item written value) (rest : List Char) :
    hasItem true (written ++ rest) = .ok (true, written ++ rest) := by
  obtain ⟨c, tail, rfl, hblank, hclose⟩ := h.starts
  rw [List.cons_append]
  simp only [hasItem, skipBlanks_cons hblank, hclose, if_false, if_true]

theorem hasItem_more (h : ReadsBack item written value) (rest : List Char) :
    hasItem false (',' :: (written ++ rest)) = .ok (true, written ++ rest) := by
  obtain ⟨c, tail, rfl, hblank, hclose⟩ := h.starts
  have hcomma : skipBlanks (',' :: (c :: tail ++ rest)) = ',' :: (c :: tail ++ rest) := rfl
  rw [hasItem, hcomma, List.cons_append]
  simp [skipBlanks_cons hblank, hclose]

variable {write : α → List Char} {values : List α}

theorem itemsUpTo_others (h : ∀ value ∈ values, ReadsBack item (write value) value) {fuel : Nat}
    (hfuel : values.length < fuel) (rest : List Char) :
    itemsUpTo item fuel false (others ']' rest (values.map write)) = .ok (values, rest) := by
  induction values generalizing fuel with
  | nil =>
    cases fuel with
    | zero => cases hfuel
    | succ fuel => rfl
  | cons value values ih =>
    cases fuel with
    | zero => cases hfuel
    | succ fuel =>
      obtain ⟨hvalue, hvalues⟩ := List.forall_mem_cons.mp h
      have hread := hvalue.reads _ (ends_others (.inl rfl) rest (values.map write))
      have hmore := ih hvalues (Nat.lt_of_succ_lt_succ hfuel)
      simp only [List.map_cons, others, itemsUpTo, hasItem_more hvalue, bind, Except.bind, hread,
        hmore, pure, Except.pure]

theorem items_commaSeparated (h : ∀ value ∈ values, ReadsBack item (write value) value)
    (rest : List Char) :
    items item (commaSeparated (values.map write) ++ ']' :: rest) = .ok (values, rest) := by
  unfold items
  cases values with
  | nil => rfl
  | cons value values =>
    obtain ⟨hvalue, hvalues⟩ := List.forall_mem_cons.mp h
    have hread := hvalue.reads _ (ends_others (.inl rfl) rest (values.map write))
    have hfuel := length_lt_written (write value) write values ']' rest
    have hmore := itemsUpTo_others hvalues hfuel rest
    rw [List.map_cons, commaSeparated_append]
    simp only [itemsUpTo, hasItem_first hvalue, bind, Except.bind, hread, hmore, pure, Except.pure]

theorem writeArray_append (written : List (List Char)) (rest : List Char) :
    writeArray written ++ rest = '[' :: (commaSeparated written ++ ']' :: rest) := by
  rw [writeArray, List.append_assoc]
  rfl

end Arrays

section Objects

variable {α : Type} {member : String → α → Reader α} {gathered last : α}
  {members : List (String × List Char)}

/-- What the members of an object, given by key and written value, make of what was gathered. -/
inductive Gathers (member : String → α → Reader α) : α → List (String × List Char) → α → Prop
  | nil (gathered : α) : Gathers member gathered [] gathered
  | cons {gathered next last : α} {key : String} {written : List Char}
      {members : List (String × List Char)}
      (hread : ∀ rest, Ends rest →
        member key gathered (':' :: (written ++ rest)) = .ok (next, rest))
      (hmore : Gathers member next members last) :
      Gathers member gathered ((key, written) :: members) last

def writeMember (member : String × List Char) : List Char := quote member.1 ++ ':' :: member.2

/-- The key of a member whose opening quote was read. -/
theorem text_writeMember (key : String) (written rest : List Char) :
    text ((writeMember (key, written) ++ rest).drop 1) = .ok (key, ':' :: (written ++ rest)) := by
  have hkey := text_quote key (':' :: (written ++ rest))
  simpa [writeMember, quote] using hkey

theorem hasMember_first (key : String) (written rest : List Char) :
    hasMember true (writeMember (key, written) ++ rest) =
      .ok (true, writeMember (key, written) ++ rest) := rfl

theorem hasMember_more (key : String) (written rest : List Char) :
    hasMember false (',' :: (writeMember (key, written) ++ rest)) =
      .ok (true, writeMember (key, written) ++ rest) := rfl

theorem membersUpTo_others (h : Gathers member gathered members last) {fuel : Nat}
    (hfuel : members.length < fuel) (rest : List Char) :
    membersUpTo text member fuel false gathered (others '\x7d' rest (members.map writeMember)) =
      .ok (last, rest) := by
  induction h generalizing fuel with
  | nil =>
    cases fuel with
    | zero => cases hfuel
    | succ fuel => rfl
  | @cons gathered next last key written members hread hmore ih =>
    cases fuel with
    | zero => cases hfuel
    | succ fuel =>
      have hvalue := hread _ (ends_others (.inr rfl) rest (members.map writeMember))
      have hlater := ih (Nat.lt_of_succ_lt_succ hfuel)
      simp only [List.map_cons, others, membersUpTo, hasMember_more, bind, Except.bind,
        text_writeMember, hvalue, hlater]

theorem membersUpTo_commaSeparated (h : Gathers member gathered members last)
    {rest input : List Char}
    (hinput : commaSeparated (members.map writeMember) ++ '\x7d' :: rest = input) :
    membersUpTo text member (input.length + 1) true gathered input = .ok (last, rest) := by
  cases h with
  | nil =>
    subst hinput
    rfl
  | @cons _ next _ key written members hread hmore =>
    have hvalue := hread _ (ends_others (.inr rfl) rest (members.map writeMember))
    rw [List.map_cons, commaSeparated_append] at hinput
    subst hinput
    have hfuel := length_lt_written (writeMember (key, written)) writeMember members '\x7d' rest
    have hlater := membersUpTo_others hmore hfuel rest
    simp only [membersUpTo, hasMember_first, bind, Except.bind, text_writeMember, hvalue, hlater]

theorem writeObject_append (members : List (String × List Char)) (rest : List Char) :
    writeObject members ++ rest =
      '\x7b' :: (commaSeparated (members.map writeMember) ++ '\x7d' :: rest) := by
  rw [writeObject, List.append_assoc]
  rfl

end Objects

end Chip8.Json
