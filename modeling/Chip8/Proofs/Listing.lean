import Chip8.Cli.Listing
import Chip8.Proofs.Notation

/-! # The listing of a program

The lister goes through a file two bytes at a time, and the machine through its memory. A row of the
listing still stands for the word that the machine fetches at its address when the file is loaded,
and begins with what the machine reports when it executes it.
-/

namespace Chip8

namespace Text

def OneLine (text : String) : Prop := '\n' ∉ text.toList

instance (text : String) : Decidable (OneLine text) :=
  inferInstanceAs (Decidable ('\n' ∉ text.toList))

theorem oneLine_of_plain {text : String} (h : Plain text.toList) : OneLine text :=
  fun hmem => (h _ hmem).2.2 rfl

theorem oneLine_append {text other : String} :
    OneLine (text ++ other) ↔ OneLine text ∧ OneLine other := by
  simp only [OneLine, String.toList_append, List.mem_append, not_or]

theorem oneLine_intercalate {between : String} (hbetween : OneLine between) {texts : List String}
    (h : ∀ text ∈ texts, OneLine text) : OneLine (between.intercalate texts) := by
  induction texts with
  | nil => simp [OneLine]
  | cons text texts ih =>
    obtain ⟨htext, hrest⟩ := List.forall_mem_cons.mp h
    cases texts with
    | nil => simpa only [String.intercalate_singleton] using htext
    | cons _ _ =>
      rw [String.intercalate_cons_of_ne_nil (List.cons_ne_nil _ _), oneLine_append, oneLine_append]
      exact ⟨⟨htext, hbetween⟩, ih hrest⟩

theorem oneLine_lower (width n : Nat) : OneLine (Hex.lower width n) :=
  oneLine_of_plain (plain_digits (Hex.digitsFrom_lower width (Nat.le_refl n)))

end Text

open Text

theorem Instr.oneLine_text (instr : Instr) : OneLine instr.assembly.text := by
  have hmnemonic := oneLine_of_plain instr.plain_mnemonic
  generalize instr.assembly = a at hmnemonic
  obtain ⟨mnemonic, operands⟩ := a
  cases operands with
  | nil => exact hmnemonic
  | cons operand operands =>
    have hoperands : ∀ text ∈ (operand :: operands).map Operand.text, OneLine text := by
      intro text htext
      obtain ⟨operand, -, rfl⟩ := List.mem_map.mp htext
      exact oneLine_of_plain operand.plain_text
    simp only [Assembly.text, oneLine_append]
    exact ⟨⟨hmnemonic, by decide⟩, oneLine_intercalate (by decide) hoperands⟩

theorem Word.oneLine_styled (w : UInt16) : OneLine (styled w) := by
  unfold styled mnemonic?
  cases Instr.decode? w with
  | none =>
    simp only [Option.map_none, Style.paint, oneLine_append]
    exact ⟨⟨by decide, by decide, oneLine_lower 4 _⟩, by decide⟩
  | some instr =>
    simp only [Option.map_some, Style.paint, oneLine_append]
    exact ⟨⟨by decide, instr.oneLine_text⟩, by decide⟩

namespace Rig

variable {σ : Type}

/-- Where everything is reported, a step reports the word that it executes, and nothing else of this
kind. -/
theorem entries_step {rig : Rig σ} {word : UInt16}
    (hfetch : rig.machine.fetch = .ok (word, rig.machine.fetched))
    (hlevel : rig.journal.level = .trace) : ∃ later,
      rig.step.2.journal.entries =
        later ++ .executing rig.machine.pc word :: rig.journal.entries ∧
      ∀ event ∈ later, event.level ≠ .trace := by
  obtain ⟨machine, dice, memo, hleft⟩ := execute_leaves word (rig.begun word)
  have hbegun : (rig.begun word).journal =
      ⟨.trace, .executing rig.machine.pc word :: rig.journal.entries⟩ := by
    simp only [begun, record, Journal.record, hlevel]
    rfl
  rw [step_of_fetch hfetch]
  generalize (rig.begun word).execute word = outcome at hleft
  obtain ⟨result, left⟩ := outcome
  obtain rfl : left = _ := hleft
  simp only [hbegun]
  cases result with
  | ok _ =>
    rw [checkBreak_snd]
    exact ⟨[], rfl, List.forall_mem_nil _⟩
  | error e =>
    cases e with
    | unknownOpcode other =>
      rw [checkBreak_snd]
      exact ⟨[.skipped rig.machine.pc other], rfl, by simp [Event.level]⟩
    | _ => exact ⟨[], rfl, List.forall_mem_nil _⟩

end Rig

theorem Machine.loadRom_of_le {m : Machine} {rom : Bytes} (h : rom.length ≤ Layout.maxRomSize) :
    m.loadRom rom = .ok { m with memory := m.memory.overlay Layout.programStart rom } := by
  simp only [Machine.loadRom, Memory.load, if_pos h]
  rfl

namespace Cli.Listing

theorem length_words (bytes : Bytes) : (words bytes).length = bytes.length / 2 := by
  fun_induction words bytes with
  | case1 high low rest ih =>
    simp only [List.length_cons, ih]
    omega
  | case2 bytes hshort =>
    obtain _ | ⟨high, _ | ⟨low, rest⟩⟩ := bytes
    · rfl
    · simp only [List.length_nil, List.length_singleton, Nat.reduceDiv]
    · exact absurd rfl (hshort high low rest)

theorem getElem?_words {bytes : Bytes} {k : Nat} {word : UInt16}
    (h : (words bytes)[k]? = some word) : ∃ high low,
      bytes[2 * k]? = some high ∧ bytes[2 * k + 1]? = some low ∧ Word.ofBytes high low = word := by
  fun_induction words bytes generalizing k with
  | case1 high low rest ih =>
    cases k with
    | zero => exact ⟨high, low, rfl, rfl, Option.some.inj h⟩
    | succ k => exact ih h
  | case2 => cases h

def rows (addr : Nat) (words : List UInt16) : List String :=
  words.mapIdx fun k word => row (addr + 2 * k) word

theorem lines_eq (addr : Nat) (words : List UInt16) :
    lines addr words = (rows addr words).map (· ++ "\n") := by
  induction words generalizing addr with
  | nil => rfl
  | cons word words ih =>
    have hlater : ∀ k, addr + Layout.instructionSize + 2 * k = addr + 2 * (k + 1) := by
      intro k
      rw [Nat.mul_succ, Nat.add_assoc, Nat.add_comm (2 * k)]
    simp only [lines, rows, ih, List.mapIdx_cons, List.map_cons, hlater]
    rfl

theorem oneLine_row (addr : Nat) (word : UInt16) : OneLine (row addr word) := by
  simp only [row, Style.paint, oneLine_append]
  exact ⟨⟨⟨⟨oneLine_lower 3 addr, by decide⟩, Word.oneLine_styled word⟩, by decide⟩,
    ⟨by decide, oneLine_lower 4 _⟩, by decide⟩

/-- What a machine has to do with a row that stands for its next instruction. -/
structure Foretells (text : String) (addr : Nat) (word : UInt16) (m : Machine) : Prop where
  pc : m.pc.toNat = addr
  fetched : m.fetch = .ok (word, m.fetched)
  /-- Whatever is hooked, the step reports the word and no other. -/
  reported : ∀ {σ : Type} (rig : Rig σ), rig.machine = m → rig.journal.level = .trace → ∃ later,
    rig.step.2.journal.entries = later ++ .executing m.pc word :: rig.journal.entries ∧
    ∀ event ∈ later, event.level ≠ .trace
  begins : ∃ rest, text = (Event.executing m.pc word).message ++ rest

/-- What a row shows of two bytes of the file. -/
structure Shows (content : Bytes) (place : Nat) (word : UInt16) (text : String) : Prop where
  bytes : ∃ high low, content[place]? = some high ∧ content[place + 1]? = some low ∧
    word.toNat = 256 * high.toNat + low.toNat
  oneLine : OneLine text
  row : text = row (0x200 + place) word
  /-- The digits in front read as the address, and the last four as the word. -/
  digits : ∃ first last, text = first ++ ": " ++ Word.styled word ++ " " ++ Style.faint.paint last ∧
    (∀ max, 0x200 + place ≤ max → readNumeral 16 max first = .ok (0x200 + place)) ∧
    readNumeral 16 0xffff last = .ok word.toNat ∧ 3 ≤ first.length ∧ last.length = 4
  /-- If a program can be as large as the file. -/
  runs : content.length ≤ 0xe00 → ∀ m : Machine, ∃ loaded, m.loadRom content = .ok loaded ∧
    Foretells text (0x200 + place) word { loaded with pc := UInt16.ofNat (0x200 + place) }

theorem foretells_row {m : Machine} {addr : Nat} {word : UInt16} (hpc : m.pc.toNat = addr)
    (hword : m.memory.readWord addr = .ok word) : Foretells (row addr word) addr word m := by
  subst hpc
  have hfetch : m.fetch = .ok (word, m.fetched) := Machine.fetch_eq_ok_iff.mpr ⟨hword, rfl⟩
  constructor
  case pc => rfl
  case fetched => exact hfetch
  case reported =>
    rintro σ rig rfl hlevel
    exact Rig.entries_step hfetch hlevel
  case begins =>
    refine ⟨" " ++ Style.faint.paint (Hex.lower 4 word.toNat), ?_⟩
    simp only [row, Event.message, String.append_assoc]

theorem shows_row {content : Bytes} {place : Nat} {high low : UInt8}
    (hhigh : content[place]? = some high) (hlow : content[place + 1]? = some low) :
    Shows content place (Word.ofBytes high low) (row (0x200 + place) (Word.ofBytes high low)) := by
  constructor
  case bytes => exact ⟨high, low, hhigh, hlow, Word.toNat_ofBytes high low⟩
  case oneLine => exact oneLine_row _ _
  case row => rfl
  case digits =>
    refine ⟨_, _, rfl, ?_, ?_, ?_, ?_⟩
    · intro max hmax
      exact Hex.readNumeral_lower 3 hmax
    · exact Hex.readNumeral_lower 4 (Nat.le_of_lt_succ (UInt16.toNat_lt _))
    · rw [← String.length_toList, Hex.length_lower]
      exact Nat.le_max_left 3 _
    · rw [← String.length_toList, Hex.length_lower]
      exact Nat.max_eq_left
        ((Nat.length_toDigits_le_iff (by decide) (by decide)).mpr (UInt16.toNat_lt _))
  case runs =>
    intro hfits m
    have hplace : place + 1 < content.length := (List.getElem?_eq_some_iff.mp hlow).1
    -- Both bytes are inside the program, so the address does not wrap.
    have hpc : (UInt16.ofNat (0x200 + place)).toNat = 0x200 + place := by
      rw [UInt16.toNat_ofNat']
      omega
    have hword := m.memory.readWord_overlay_add 0x200 hhigh hlow
      (by simp only [Layout.memorySize]; omega)
    exact ⟨_, Machine.loadRom_of_le hfits, foretells_row hpc hword⟩

/-- Every offset can be asked for. -/
theorem read_offset (self : String) {file : String} (hfile : file.toList.head? ≠ some '-')
    {offset : Nat} (hoffset : offset ≤ sizeMax) :
    command.read self [file, "-o", toString offset] = .ok (file, offset) := by
  have hscan : scan command.options [file, "-o", toString offset] =
      ([.free file, .value "offset" "-o" (toString offset)], none) := by
    simp only [scan, Argument.ofString_of_head? hfile]
    rfl
  have hfirst : command.take ⟨none, false, 0⟩ (.free file) = .ok ⟨some file, false, 0⟩ := rfl
  have hsecond : command.take ⟨some file, false, 0⟩ (.value "offset" "-o" (toString offset)) =
      .ok ⟨some file, false, offset⟩ := by
    simp only [Command.take, command, argumentNumber, readNumeral_toString hoffset]
    rfl
  have hgather : command.gather [file, "-o", toString offset] = .ok ⟨some file, false, offset⟩ := by
    rw [Command.gather, hscan]
    change (command.take ⟨none, false, 0⟩ (.free file) >>= fun gathered =>
      command.take gathered (.value "offset" "-o" (toString offset)) >>= pure) >>= pure = _
    rw [hfirst]
    exact congrArg (fun result => (result >>= pure) >>= pure) hsecond
  rw [Command.read, hgather]
  rfl

structure Listed (content : Bytes) (offset : Nat) (result : CommandResult) : Prop where
  past : content.length < offset → result.code = 1 ∧ result.out = ""
  within : offset ≤ content.length → result.code = 0 ∧ ∃ texts : List String,
    result.out = String.join (texts.map (· ++ "\n")) ∧
    texts.length = (content.length - offset) / 2 ∧
    ∀ k text, texts[k]? = some text → ∃ word, Shows content (offset + 2 * k) word text

theorem listed_run {self file : String} {args : List String} {files : Files} {content : Bytes}
    {offset : Nat} (hread : command.read self args = .ok (file, offset))
    (hfile : files.read file = .ok content) : Listed content offset (run self args files) := by
  have hrun : run self args files = list file content offset := by
    simp only [run, hread, hfile]
  rw [hrun, list]
  constructor
  case past =>
    intro hpast
    rw [if_neg (Nat.not_le.mpr hpast)]
    exact ⟨rfl, rfl⟩
  case within =>
    intro hwithin
    rw [if_pos hwithin]
    refine ⟨rfl, rows (Layout.programStart + offset) (words (content.drop offset)), ?_, ?_, ?_⟩
    · simp only [lines_eq]
    · rw [rows, List.length_mapIdx, length_words, List.length_drop]
    · intro k text htext
      rw [rows, List.getElem?_mapIdx, Option.map_eq_some_iff] at htext
      obtain ⟨word, hword, rfl⟩ := htext
      obtain ⟨high, low, hhigh, hlow, rfl⟩ := getElem?_words hword
      rw [List.getElem?_drop] at hhigh hlow
      have hshows := shows_row hhigh hlow
      rw [← Nat.add_assoc] at hshows
      exact ⟨_, hshows⟩

/-- An odd number of bytes behind an odd offset. -/
def oddFile : Files := fun _ => .ok [0xff, 0x00, 0xe0, 0x12, 0x00, 0xff]

theorem listed_oddFile : oddFile.read "rom" = .ok [0xff, 0x00, 0xe0, 0x12, 0x00, 0xff] ∧
    command.read "lister" ["rom", "-o", "1"] = .ok ("rom", 1) ∧
    Listed [0xff, 0x00, 0xe0, 0x12, 0x00, 0xff] 1 (run "lister" ["rom", "-o", "1"] oddFile) := by
  have hfree : "rom".toList.head? ≠ some '-' := by decide
  have hsmall : 1 ≤ sizeMax := by decide
  have hread : command.read "lister" ["rom", "-o", "1"] = .ok ("rom", 1) :=
    read_offset "lister" hfree hsmall
  exact ⟨rfl, hread, listed_run hread rfl⟩

end Cli.Listing

end Chip8
