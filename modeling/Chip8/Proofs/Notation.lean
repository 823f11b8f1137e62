import Chip8.Instr.Assembly
import Chip8.Proofs.Exec
import Chip8.Proofs.Hooks
import Chip8.Proofs.Numerals

/-! # Assembly text is read back

An assembler for the text of instructions, which reads every instruction back from its text. So two
words with one text are the same instruction, and executing them comes to the same.
-/

namespace Chip8

namespace Operand

def numeral? (radix bound : Nat) (digits : List Char) : Option (Fin bound) :=
  match Cli.digitsFrom radix (bound - 1) 0 digits with
  | .ok n => if h : n < bound then some ⟨n, h⟩ else none
  | .error _ => none

def read? : List Char → Option Operand
  | ['I'] => some index
  | ['[', 'I', ']'] => some atIndex
  | ['D', 'T'] => some delay
  | ['S', 'T'] => some sound
  | ['K'] => some key
  | ['F'] => some font
  | ['B'] => some decimal
  | 'V' :: digits => (numeral? 16 Layout.registerCount digits).map register
  | '0' :: 'x' :: digits =>
    -- The width alone tells a byte from an address.
    if digits.length ≤ 2 then (numeral? 16 256 digits).map fun value => byte (UInt8.ofFin value)
    else (numeral? 16 Layout.memorySize digits).map address
  | digits => (numeral? 10 16 digits).map count

theorem numeral?_eq {radix bound : Nat} {digits : List Char} (value : Fin bound)
    (h : Cli.digitsFrom radix (bound - 1) 0 digits = .ok value.val) :
    numeral? radix bound digits = some value := by
  simp only [numeral?, h, value.isLt, dite_true]

theorem length_lower_le_two (width n : Nat) :
    (Text.Hex.lower width n).toList.length ≤ 2 ↔ width ≤ 2 ∧ n < 256 := by
  rw [Text.Hex.length_lower, Nat.max_le, Text.Hex.digits,
    Nat.length_toDigits_le_iff (by decide) (by decide)]

theorem read?_count : ∀ n : Fin 16, read? (count n).text.toList = some (count n) := by decide

theorem read?_text (operand : Operand) : read? operand.text.toList = some operand := by
  cases operand with
  | register r =>
    have hdigits := numeral?_eq r (Text.Hex.digitsFrom_upper (Nat.le_pred_of_lt r.isLt))
    rw [text, String.toList_append]
    exact congrArg (Option.map register) hdigits
  | address addr =>
    have hdigits := numeral?_eq addr (Text.Hex.digitsFrom_lower 3 (Nat.le_pred_of_lt addr.isLt))
    have hlong : ¬ (Text.Hex.lower 3 addr.val).toList.length ≤ 2 :=
      fun h => absurd ((length_lower_le_two _ _).mp h).1 (by decide)
    rw [text, String.toList_append]
    exact (if_neg hlong).trans (congrArg (Option.map address) hdigits)
  | byte value =>
    have hdigits : numeral? 16 256 (Text.Hex.lower 2 value.toNat).toList = some value.toFin :=
      numeral?_eq value.toFin (Text.Hex.digitsFrom_lower 2 (Nat.le_pred_of_lt value.toNat_lt))
    have hshort : (Text.Hex.lower 2 value.toNat).toList.length ≤ 2 :=
      (length_lower_le_two _ _).mpr ⟨Nat.le_refl 2, value.toNat_lt⟩
    rw [text, String.toList_append]
    exact (if_pos hshort).trans (congrArg (Option.map fun value => byte (UInt8.ofFin value)) hdigits)
  | count n => exact read?_count n
  | _ => rfl

end Operand

/-- Characters that neither end a line nor divide it. -/
def Plain (chars : List Char) : Prop := ∀ c ∈ chars, c ≠ ',' ∧ c ≠ ' ' ∧ c ≠ '\n'

instance (chars : List Char) : Decidable (Plain chars) :=
  List.decidableBAll (fun c => c ≠ ',' ∧ c ≠ ' ' ∧ c ≠ '\n') chars

theorem plain_digits {chars : List Char} {max n : Nat}
    (h : Cli.digitsFrom 16 max 0 chars = .ok n) : Plain chars := by
  intro c hc
  have hdigit := Cli.isSome_digit h c hc
  refine ⟨?_, ?_, ?_⟩ <;> rintro rfl <;> exact absurd hdigit (by decide)

theorem Plain.append {chars others : List Char} (h : Plain chars) (hothers : Plain others) :
    Plain (chars ++ others) :=
  List.forall_mem_append.mpr ⟨h, hothers⟩

theorem Operand.plain_count : ∀ n : Fin 16, Plain (count n).text.toList := by decide

theorem Operand.plain_text (operand : Operand) : Plain operand.text.toList := by
  cases operand with
  | register r =>
    rw [text, String.toList_append]
    exact .append (by decide) (plain_digits (Text.Hex.digitsFrom_upper (Nat.le_refl r.val)))
  | address addr =>
    rw [text, String.toList_append]
    exact .append (by decide) (plain_digits (Text.Hex.digitsFrom_lower 3 (Nat.le_refl addr.val)))
  | byte value =>
    rw [text, String.toList_append]
    exact .append (by decide)
      (plain_digits (Text.Hex.digitsFrom_lower 2 (Nat.le_refl value.toNat)))
  | count n => exact plain_count n
  | _ => decide

namespace Assembly

/-- The words of a line without the commas between them. -/
def wordsOf (line : String) : List (List Char) :=
  (line.toList.filter (· ≠ ',')).splitOn ' '

theorem filter_plain {chars : List Char} (h : Plain chars) : chars.filter (· ≠ ',') = chars :=
  List.filter_eq_self.mpr fun c hc => decide_eq_true (h c hc).1

theorem filter_intercalate {operands : List (List Char)} (h : ∀ chars ∈ operands, Plain chars) :
    (", ".toList.intercalate operands).filter (· ≠ ',') = [' '].intercalate operands := by
  induction operands with
  | nil => rfl
  | cons chars operands ih =>
    obtain ⟨hplain, hrest⟩ := List.forall_mem_cons.mp h
    cases operands with
    | nil => simp only [List.intercalate_singleton, filter_plain hplain]
    | cons _ _ =>
      rw [List.intercalate_cons_cons, List.intercalate_cons_cons, List.filter_append,
        List.filter_append, filter_plain hplain, ih hrest]
      rfl

theorem wordsOf_text {a : Assembly} (h : Plain a.mnemonic.toList) :
    wordsOf a.text = a.mnemonic.toList :: a.operands.map (·.text.toList) := by
  obtain ⟨mnemonic, operands⟩ := a
  have hplain : ∀ chars ∈ operands.map (·.text.toList), Plain chars := by
    intro chars hchars
    obtain ⟨operand, -, rfl⟩ := List.mem_map.mp hchars
    exact operand.plain_text
  have hwords : ∀ chars ∈ mnemonic.toList :: operands.map (·.text.toList), ' ' ∉ chars :=
    List.forall_mem_cons.mpr
      ⟨fun hmem => (h _ hmem).2.1 rfl,
        fun chars hchars hmem => (hplain chars hchars _ hmem).2.1 rfl⟩
  -- Without its commas a line is its words with one blank between two of them.
  have htext : (Assembly.text ⟨mnemonic, operands⟩).toList.filter (· ≠ ',') =
      [' '].intercalate (mnemonic.toList :: operands.map (·.text.toList)) := by
    cases operands with
    | nil => simpa only [text, List.map_nil, List.intercalate_singleton] using filter_plain h
    | cons operand operands =>
      have hoperands := filter_intercalate hplain
      rw [List.map_cons] at hoperands ⊢
      rw [List.intercalate_cons_cons, ← hoperands]
      simp only [text, String.toList_append, String.toList_intercalate, List.filter_append,
        filter_plain h, List.map_map]
      rfl
  rw [wordsOf, htext, List.splitOn_intercalate ' ' hwords (List.cons_ne_nil _ _)]

end Assembly

namespace Instr

open Operand

def ofAssembly? : Assembly → Option Instr
  | ⟨"CLS", []⟩ => clearScreen
  | ⟨"RET", []⟩ => ret
  | ⟨"SYS", [address addr]⟩ => sys addr
  | ⟨"JP", [address addr]⟩ => jump addr
  | ⟨"CALL", [address addr]⟩ => call addr
  | ⟨"SE", [register x, byte value]⟩ => skipEqualByte x value
  | ⟨"SNE", [register x, byte value]⟩ => skipUnequalByte x value
  | ⟨"SE", [register x, register y]⟩ => skipEqual x y
  | ⟨"LD", [register x, byte value]⟩ => loadByte x value
  | ⟨"ADD", [register x, byte value]⟩ => addByte x value
  | ⟨"LD", [register x, register y]⟩ => copy x y
  | ⟨"OR", [register x, register y]⟩ => or x y
  | ⟨"AND", [register x, register y]⟩ => and x y
  | ⟨"XOR", [register x, register y]⟩ => xor x y
  | ⟨"ADD", [register x, register y]⟩ => add x y
  | ⟨"SUB", [register x, register y]⟩ => sub x y
  | ⟨"SHR", [register x]⟩ => shiftRight x
  | ⟨"SUBN", [register x, register y]⟩ => subFrom x y
  | ⟨"SHL", [register x]⟩ => shiftLeft x
  | ⟨"SNE", [register x, register y]⟩ => skipUnequal x y
  | ⟨"LD", [index, address addr]⟩ => loadIndex addr
  | ⟨"JP", [register _, address addr]⟩ => jumpOffset addr
  | ⟨"RND", [register x, byte value]⟩ => random x value
  | ⟨"DRW", [register x, register y, count rows]⟩ => draw x y rows
  | ⟨"SKP", [register x]⟩ => skipKeyDown x
  | ⟨"SKNP", [register x]⟩ => skipKeyUp x
  | ⟨"LD", [register x, delay]⟩ => readDelay x
  | ⟨"LD", [register x, key]⟩ => waitKey x
  | ⟨"LD", [delay, register x]⟩ => setDelay x
  | ⟨"LD", [sound, register x]⟩ => setSound x
  | ⟨"ADD", [index, register x]⟩ => addIndex x
  | ⟨"LD", [font, register x]⟩ => glyph x
  | ⟨"LD", [decimal, register x]⟩ => storeDecimal x
  | ⟨"LD", [atIndex, register x]⟩ => storeRegisters x
  | ⟨"LD", [register x, atIndex]⟩ => loadRegisters x
  | _ => none

theorem ofAssembly?_assembly (instr : Instr) : ofAssembly? instr.assembly = some instr := by
  cases instr <;> rfl

theorem plain_mnemonic (instr : Instr) : Plain instr.assembly.mnemonic.toList := by
  cases instr <;> simp only [assembly] <;> decide

def ofText? (line : String) : Option Instr :=
  match Assembly.wordsOf line with
  | mnemonic :: operands => do
    ofAssembly? ⟨String.ofList mnemonic, ← operands.mapM Operand.read?⟩
  | [] => none

/-- What the disassembler writes is assembled to the instruction that it was written for. -/
theorem ofText?_text (instr : Instr) : ofText? instr.assembly.text = some instr := by
  have hoperands : ∀ operands : List Operand,
      (operands.map (·.text.toList)).mapM Operand.read? = some operands := by
    intro operands
    induction operands with
    | nil => rfl
    | cons operand operands ih =>
      rw [List.map_cons, List.mapM_cons, operand.read?_text, ih]
      rfl
  rw [ofText?, Assembly.wordsOf_text instr.plain_mnemonic]
  simp only [hoperands, String.ofList_toList]
  exact instr.ofAssembly?_assembly

end Instr

theorem Word.ofText?_of_mnemonic? {w : UInt16} {text : String} (h : mnemonic? w = some text) :
    Instr.ofText? text = Instr.decode? w := by
  obtain ⟨instr, hinstr, rfl⟩ := Option.map_eq_some_iff.mp h
  rw [hinstr, instr.ofText?_text]

namespace Rig

variable {σ : Type}

theorem execute_of_text {rig : Rig σ} (hhooks : rig.hooks = .empty) {w : UInt16} {text : String}
    (h : Word.mnemonic? w = some text) :
    some (rig.execute w) = (Instr.ofText? text).map fun instr => rig.runInstr instr := by
  obtain ⟨instr, hinstr, -⟩ := Option.map_eq_some_iff.mp h
  rw [Word.ofText?_of_mnemonic? h, hinstr]
  simp only [execute, hinstr, hhooks, HookTable.hook?_empty, Option.map_some]

/-- What the text of a word says of executing it. -/
structure AsWritten (rig : Rig σ) (w : UInt16) : Prop where
  told : ∀ text, Word.mnemonic? w = some text →
    some (rig.execute w) = (Instr.ofText? text).map fun instr => rig.runInstr instr
  alike : ∀ w' text, Word.mnemonic? w = some text → Word.mnemonic? w' = some text →
    rig.execute w = rig.execute w'
  unwritten : Word.mnemonic? w = none ↔ (rig.execute w).1 = .error (.unknownOpcode w)
  untouched : Word.mnemonic? w = none → (rig.execute w).2 = rig

theorem execute_as_written {rig : Rig σ} (hhooks : rig.hooks = .empty) (w : UInt16) :
    rig.AsWritten w := by
  have hunknown : Word.mnemonic? w = none → rig.execute w = (.error (.unknownOpcode w), rig) := by
    intro hnone
    rw [execute, Option.map_eq_none_iff.mp hnone]
  constructor
  case told => exact fun text htext => execute_of_text hhooks htext
  case alike =>
    intro w' text hw hw'
    have hboth := execute_of_text hhooks hw
    rw [← execute_of_text hhooks hw'] at hboth
    exact Option.some.inj hboth
  case unwritten =>
    refine ⟨fun hnone => congrArg Prod.fst (hunknown hnone), fun hfails => ?_⟩
    cases htext : Word.mnemonic? w with
    | none => rfl
    | some text =>
      have htold := execute_of_text hhooks htext
      obtain ⟨instr, -, hrun⟩ := Option.map_eq_some_iff.mp htold.symm
      rw [← hrun, runInstr] at hfails
      split at hfails
      · cases hfails
      -- The instruction has failed, but none calls its own word unknown.
      case h_2 e hexec =>
        cases hfails
        exact absurd hexec (Machine.exec_ne_unknownOpcode _ _ _ _)
  case untouched => exact fun hnone => congrArg Prod.snd (hunknown hnone)

def switchedOn : Rig Unit := powerOn ⟨fun _ => 0, 0⟩ () (.empty .off)

/-- The last nibble of a comparison is in no text, and nothing depends on it. -/
theorem switchedOn_as_written : switchedOn.hooks = .empty ∧
    Word.mnemonic? 0x5ab0 = some "SE VA, VB" ∧ Word.mnemonic? 0x5ab7 = some "SE VA, VB" ∧
    switchedOn.execute 0x5ab0 = switchedOn.execute 0x5ab7 ∧
    (switchedOn.execute 0xffff).1 = .error (.unknownOpcode 0xffff) := by
  have htext : Word.mnemonic? 0x5ab0 = some "SE VA, VB" := by decide
  have hother : Word.mnemonic? 0x5ab7 = some "SE VA, VB" := by decide
  have hwritten : ∀ w, switchedOn.AsWritten w := fun w => execute_as_written rfl w
  exact ⟨rfl, htext, hother, (hwritten 0x5ab0).alike _ _ htext hother,
    (hwritten 0xffff).unwritten.mp (by decide)⟩

end Rig

end Chip8
