import Chip8.Proofs.Paths
import Chip8.Proofs.Profiles
import Chip8.Proofs.Session

/-! # Loading

A program is loaded from its bytes, from its file, or through a profile that names its file. Each
load either finds all that it needs, and then puts the program and the profile in place, or fails
for a reason in what it was given, and then leaves nothing behind but what the journal reports.
-/

namespace Chip8

theorem Memory.read_overlay (m : Memory) {addr : Nat} {data : List UInt8}
    (hfits : addr + data.length ≤ Layout.memorySize) :
    (m.overlay addr data).read addr data.length = .ok data := by
  refine read_eq_ok_iff.mpr ⟨hfits, rfl, fun k hk => ?_⟩
  have hcell : addr + k < Layout.memorySize := by omega
  have hoverlay : (m.overlay addr data).cells[addr + k] = data[k] := by
    rw [cells_overlay, dif_pos ⟨by omega, by omega⟩]
    simp only [Nat.add_sub_cancel_left]
  rw [List.getElem?_eq_getElem hk, Vector.getElem?_eq_getElem hcell, hoverlay]

/-! ## What files hold -/

theorem fromUTF8?_eq_some_iff {bytes : Bytes} {text : String} :
    String.fromUTF8? ⟨bytes.toArray⟩ = some text ↔ bytes = text.toUTF8.data.toList := by
  unfold String.fromUTF8?
  constructor
  · intro h
    split at h
    case isTrue hvalid =>
      cases h
      rfl
    case isFalse => cases h
  · rintro rfl
    have hvalid : (⟨text.toUTF8.data.toList.toArray⟩ : ByteArray).IsValidUTF8 := text.isValidUTF8
    rw [dif_pos hvalid]
    rfl

namespace Files

/-- The file at a path holds a text. -/
def Holds (files : Files) (path text : String) : Prop :=
  files path = .ok text.toUTF8.data.toList

/-- Why the file at a path gives no program. -/
inductive NoProgram (files : Files) (path : String) : Error → Prop
  | unread {cause : FileError} (h : files path = .error cause) : NoProgram files path (.file cause)
  | tooLarge {rom : Bytes} (h : files path = .ok rom) (hsize : Layout.maxRomSize < rom.length) :
      NoProgram files path (.romTooLarge rom.length Layout.maxRomSize)

/-- Why the file at a path gives no profile. -/
inductive NoProfile (files : Files) (path : String) : Error → Prop
  | unread {cause : FileError} (h : files path = .error cause) : NoProfile files path (.file cause)
  | notText {bytes : Bytes} (h : files path = .ok bytes)
      (htext : ∀ text : String, bytes ≠ text.toUTF8.data.toList) :
      NoProfile files path (.file .notText)
  | malformed {text : String} {failure : Json.Failure} (h : files.Holds path text)
      (hjson : Json.readAll Profile.readJson text = .error failure) :
      NoProfile files path (.json failure)
  /-- The first key that does not exist is reported. -/
  | missingKey {text : String} {profile : Profile} {before after : List UInt64} {key : UInt64}
      (h : files.Holds path text) (hjson : Json.readAll Profile.readJson text = .ok profile)
      (hactions : profile.actions = some (before ++ key :: after))
      (hbefore : ∀ other ∈ before, other.toNat < Layout.keyCount)
      (hkey : Layout.keyCount ≤ key.toNat) : NoProfile files path (.invalidKey key.toNat)

variable {files : Files} {path : String}

theorem readText_of_holds {text : String} (h : files.Holds path text) :
    files.readText path = .ok text := by
  unfold Holds at h
  have htext := fromUTF8?_eq_some_iff.mpr (rfl : text.toUTF8.data.toList = _)
  simp only [readText, read, h, bind, Except.bind, htext]
  rfl

theorem readText_of_not_text {bytes : Bytes} (h : files path = .ok bytes)
    (htext : ∀ text : String, bytes ≠ text.toUTF8.data.toList) :
    files.readText path = .error (.file .notText) := by
  have hnone : String.fromUTF8? ⟨bytes.toArray⟩ = none :=
    Option.eq_none_iff_forall_ne_some.mpr fun text hsome =>
      htext text (fromUTF8?_eq_some_iff.mp hsome)
  simp only [readText, read, h, bind, Except.bind, hnone]
  rfl

theorem noProgram_or (files : Files) (path : String) : (∃ e, files.NoProgram path e) ∨
    ∃ rom, files path = .ok rom ∧ rom.length ≤ Layout.maxRomSize := by
  cases hread : files path with
  | error cause => exact .inl ⟨_, .unread hread⟩
  | ok rom =>
    obtain hsize | hsize := Nat.lt_or_ge Layout.maxRomSize rom.length
    · exact .inl ⟨_, .tooLarge hread hsize⟩
    · exact .inr ⟨rom, rfl, hsize⟩

theorem noProfile_or (files : Files) (path : String) : (∃ e, files.NoProfile path e) ∨
    ∃ text profile, files.Holds path text ∧ Profile.ofJson text = .ok profile := by
  cases hread : files path with
  | error cause => exact .inl ⟨_, .unread hread⟩
  | ok bytes =>
    by_cases htext : ∃ text : String, bytes = text.toUTF8.data.toList
    · obtain ⟨text, rfl⟩ := htext
      cases hjson : Json.readAll Profile.readJson text with
      | error failure => exact .inl ⟨_, .malformed hread hjson⟩
      | ok profile =>
        cases hvalid : profile.validate with
        | error e =>
          obtain ⟨before, key, after, hactions, hbefore, hkey, rfl⟩ :=
            Profile.validate_eq_error_iff.mp hvalid
          exact .inl ⟨_, .missingKey hread hjson hactions hbefore hkey⟩
        | ok accepted =>
          refine .inr ⟨text, accepted, hread, ?_⟩
          rw [Profile.ofJson, hjson]
          exact hvalid
    · exact .inl ⟨_, .notText hread fun text h => htext ⟨text, h⟩⟩

end Files

namespace Profile

variable {files : Files} {path : String}

/-- A profile as it is loaded from a path: its program is found beside that path. -/
structure Placed (profile : Profile) (path : String) (placed : Profile) : Prop where
  rom : Path.Beside path profile.rom placed.rom
  vars : placed.vars = profile.vars
  actions : placed.actions = profile.actions

theorem relocate_of_parent {dir rom : String} (profile : Profile)
    (hdir : Path.parent? path = some dir) (hjoin : Path.join dir profile.rom = rom) :
    profile.relocate path = { profile with rom } := by
  simp only [relocate, hdir, hjoin]

theorem placed_iff {profile placed : Profile} :
    profile.Placed path placed ↔ profile.relocate path = placed := by
  constructor
  · rintro ⟨hrom, hvars, hactions⟩
    obtain ⟨rom, vars, actions⟩ := placed
    cases hvars
    cases hactions
    obtain ⟨hnone, -⟩ | ⟨dir, last, hdivides⟩ := Path.divides_or path
    · obtain rfl := hrom.eq_of_none hnone
      rw [relocate, hnone]
    · exact relocate_of_parent profile hdivides.parent (hrom.eq_join hdivides).symm
  · rintro rfl
    obtain ⟨hnone, -⟩ | ⟨dir, last, hdivides⟩ := Path.divides_or path
    · rw [relocate, hnone]
      exact ⟨Path.beside_of_none hnone _, rfl, rfl⟩
    · rw [relocate, hdivides.parent]
      exact ⟨Path.beside_join hdivides _, rfl, rfl⟩

theorem load_of_holds {text : String} {profile placed : Profile} (h : files.Holds path text)
    (hjson : ofJson text = .ok profile) (hplaced : profile.Placed path placed) :
    load files path = .ok placed := by
  rw [load, Files.readText_of_holds h]
  simp only [bind, Except.bind, hjson]
  exact congrArg Except.ok (placed_iff.mp hplaced)

theorem load_of_noProfile {e : Error} (h : files.NoProfile path e) :
    load files path = .error e := by
  cases h with
  | unread h => simp [load, Files.readText, Files.read, h, bind, Except.bind]
  | notText h htext => rw [load, Files.readText_of_not_text h htext]; rfl
  | malformed h hjson =>
    rw [load, Files.readText_of_holds h]
    simp only [bind, Except.bind, ofJson, hjson]
  | missingKey h hjson hactions hbefore hkey =>
    rw [load, Files.readText_of_holds h]
    have hvalid := validate_eq_error_iff.mpr ⟨_, _, _, hactions, hbefore, hkey, rfl⟩
    simp only [bind, Except.bind, ofJson, hjson, hvalid]

end Profile

/-! ## Three ways to load -/

inductive Load
  | rom (rom : Bytes)
  | romFile (path : String)
  | profile (path : String)

namespace Load

/-- The program that a load puts into memory, and the profile if it brings one. -/
inductive Gives (files : Files) : Load → Bytes → Option Profile → Prop
  | rom {rom : Bytes} (hsize : rom.length ≤ Layout.maxRomSize) : Gives files (.rom rom) rom none
  | romFile {path : String} {rom : Bytes} (hrom : files path = .ok rom)
      (hsize : rom.length ≤ Layout.maxRomSize) : Gives files (.romFile path) rom none
  | profile {path text : String} {profile placed : Profile} {rom : Bytes}
      (h : files.Holds path text) (hjson : Profile.ofJson text = .ok profile)
      (hplaced : profile.Placed path placed) (hrom : files placed.rom = .ok rom)
      (hsize : rom.length ≤ Layout.maxRomSize) : Gives files (.profile path) rom (some placed)

theorem Gives.fits {files : Files} {load : Load} {rom : Bytes} {profile? : Option Profile}
    (h : load.Gives files rom profile?) : rom.length ≤ Layout.maxRomSize := by
  cases h with
  | rom hsize => exact hsize
  | romFile _ hsize => exact hsize
  | profile _ _ _ _ hsize => exact hsize

/-- Why a load finds no program. -/
inductive Fails (files : Files) : Load → Error → Prop
  | rom {rom : Bytes} (hsize : Layout.maxRomSize < rom.length) :
      Fails files (.rom rom) (.romTooLarge rom.length Layout.maxRomSize)
  | romFile {path : String} {e : Error} (h : files.NoProgram path e) : Fails files (.romFile path) e
  | profile {path : String} {e : Error} (h : files.NoProfile path e) : Fails files (.profile path) e
  | program {path text : String} {profile placed : Profile} {e : Error}
      (h : files.Holds path text) (hjson : Profile.ofJson text = .ok profile)
      (hplaced : profile.Placed path placed) (hrom : files.NoProgram placed.rom e) :
      Fails files (.profile path) e

theorem fails_or_gives (files : Files) (load : Load) : (∃ e, load.Fails files e) ∨
    ∃ rom profile?, load.Gives files rom profile? := by
  cases load with
  | rom rom =>
    obtain hsize | hsize := Nat.lt_or_ge Layout.maxRomSize rom.length
    · exact .inl ⟨_, .rom hsize⟩
    · exact .inr ⟨rom, none, .rom hsize⟩
  | romFile path =>
    obtain ⟨e, he⟩ | ⟨rom, hrom, hsize⟩ := files.noProgram_or path
    · exact .inl ⟨e, .romFile he⟩
    · exact .inr ⟨rom, none, .romFile hrom hsize⟩
  | profile path =>
    obtain ⟨e, he⟩ | ⟨text, profile, htext, hjson⟩ := files.noProfile_or path
    · exact .inl ⟨e, .profile he⟩
    have hplaced : profile.Placed path (profile.relocate path) := Profile.placed_iff.mpr rfl
    obtain ⟨e, he⟩ | ⟨rom, hrom, hsize⟩ := files.noProgram_or (profile.relocate path).rom
    · exact .inl ⟨e, .program htext hjson hplaced he⟩
    · exact .inr ⟨rom, _, .profile htext hjson hplaced hrom hsize⟩

end Load

namespace Vm

variable {σ : Type}

def load (files : Files) (vm : Vm σ) : Load → Outcome (Vm σ)
  | .rom rom => vm.loadRom rom
  | .romFile path => vm.loadRomFile files path
  | .profile path => vm.loadProfile files path

/-- The same virtual machine with another journal. -/
def noted (vm : Vm σ) (journal : Journal) : Vm σ := { vm with rig := { vm.rig with journal } }

/-- The virtual machine with a program in memory, and with a profile if there is one. -/
def loaded (vm : Vm σ) (rom : Bytes) (profile? : Option Profile) : Vm σ :=
  let memory := vm.machine.memory.overlay Layout.programStart rom
  { vm.setMachine { vm.machine with memory } with profile := profile?.or vm.profile }

theorem loadRom_of_le {rom : Bytes} (hsize : rom.length ≤ Layout.maxRomSize) (vm : Vm σ) :
    ∃ journal, vm.loadRom rom = (.ok (), (vm.loaded rom none).noted journal) := by
  refine ⟨vm.rig.journal.record (.romLoaded rom.length), ?_⟩
  simp only [loadRom, Machine.loadRom, Memory.load, if_pos hsize]
  rfl

theorem loadRom_of_lt {rom : Bytes} (hsize : Layout.maxRomSize < rom.length) (vm : Vm σ) :
    vm.loadRom rom = (.error (.romTooLarge rom.length Layout.maxRomSize), vm) := by
  simp only [loadRom, Machine.loadRom, Memory.load, if_neg (Nat.not_le.mpr hsize)]
  rfl

theorem loadRom_eq_ok_iff {vm : Vm σ} {rom : Bytes} :
    (vm.loadRom rom).1 = .ok () ↔ rom.length ≤ Layout.maxRomSize := by
  obtain hsize | hsize := Nat.lt_or_ge Layout.maxRomSize rom.length
  · simp [loadRom_of_lt hsize, Nat.not_le.mpr hsize]
  · obtain ⟨journal, hload⟩ := loadRom_of_le hsize vm
    simp only [hload, hsize]

theorem loadRomFile_of_le {files : Files} {path : String} {rom : Bytes}
    (hrom : files path = .ok rom) (hsize : rom.length ≤ Layout.maxRomSize) (vm : Vm σ) :
    ∃ journal, vm.loadRomFile files path = (.ok (), (vm.loaded rom none).noted journal) := by
  obtain ⟨journal, hload⟩ := loadRom_of_le hsize (vm.record (.readingFile path))
  refine ⟨journal, ?_⟩
  simp only [loadRomFile, Files.read, hrom, hload]
  rfl

theorem loadRomFile_of_noProgram {files : Files} {path : String} {e : Error}
    (h : files.NoProgram path e) (vm : Vm σ) :
    ∃ journal, vm.loadRomFile files path = (.error e, vm.noted journal) := by
  refine ⟨vm.rig.journal.record (.readingFile path), ?_⟩
  cases h with
  | unread h =>
    simp only [loadRomFile, Files.read, h]
    rfl
  | tooLarge h hsize =>
    simp only [loadRomFile, Files.read, h, loadRom_of_lt hsize]
    rfl

theorem load_of_gives {files : Files} {load : Load} {rom : Bytes} {profile? : Option Profile}
    (h : load.Gives files rom profile?) (vm : Vm σ) :
    ∃ journal, vm.load files load = (.ok (), (vm.loaded rom profile?).noted journal) := by
  cases h with
  | rom hsize => exact loadRom_of_le hsize vm
  | romFile hrom hsize => exact loadRomFile_of_le hrom hsize vm
  | profile h hjson hplaced hrom hsize =>
    rename_i path text profile placed
    obtain ⟨journal, hload⟩ := loadRomFile_of_le hrom hsize (vm.record (.profileLoaded path))
    refine ⟨journal, ?_⟩
    simp only [Vm.load, loadProfile, Profile.load_of_holds h hjson hplaced, hload,
      Outcome.ok_andThen]
    rfl

theorem load_of_fails {files : Files} {load : Load} {e : Error} (h : load.Fails files e)
    (vm : Vm σ) : ∃ journal, vm.load files load = (.error e, vm.noted journal) := by
  cases h with
  | rom hsize => exact ⟨vm.rig.journal, loadRom_of_lt hsize vm⟩
  | romFile h => exact loadRomFile_of_noProgram h vm
  | profile h =>
    refine ⟨vm.rig.journal, ?_⟩
    simp only [Vm.load, loadProfile, Profile.load_of_noProfile h]
    rfl
  | program h hjson hplaced hrom =>
    rename_i path text profile placed
    obtain ⟨journal, hload⟩ := loadRomFile_of_noProgram hrom (vm.record (.profileLoaded path))
    refine ⟨journal, ?_⟩
    simp only [Vm.load, loadProfile, Profile.load_of_holds h hjson hplaced, hload,
      Outcome.error_andThen]
    rfl

theorem load_eq_ok_iff {files : Files} {load : Load} {vm : Vm σ} :
    (vm.load files load).1 = .ok () ↔ ∃ rom profile?, load.Gives files rom profile? := by
  constructor
  · intro hok
    refine (load.fails_or_gives files).resolve_left ?_
    rintro ⟨e, he⟩
    obtain ⟨journal, hload⟩ := load_of_fails he vm
    simp [hload] at hok
  · rintro ⟨rom, profile?, h⟩
    obtain ⟨journal, hload⟩ := load_of_gives h vm
    rw [hload]

theorem load_eq_error_iff {files : Files} {load : Load} {vm : Vm σ} {e : Error} :
    (vm.load files load).1 = .error e ↔ load.Fails files e := by
  constructor
  · intro herror
    obtain ⟨other, hother⟩ | ⟨rom, profile?, h⟩ := load.fails_or_gives files
    · obtain ⟨journal, hload⟩ := load_of_fails hother vm
      rw [hload] at herror
      cases herror
      exact hother
    · obtain ⟨journal, hload⟩ := load_of_gives h vm
      rw [hload] at herror
      cases herror
  · intro h
    obtain ⟨journal, hload⟩ := load_of_fails h vm
    rw [hload]

/-- One virtual machine is another after a load: the program lies where programs start, and nothing
else has moved but the profile, if the load brought one, and the journal. -/
structure LoadedFrom (after vm : Vm σ) (rom : Bytes) (profile? : Option Profile) : Prop where
  program : after.machine.memory.read Layout.programStart rom.length = .ok rom
  elsewhere : ∀ (addr : Nat) (h : addr < Layout.memorySize),
    addr < Layout.programStart ∨ Layout.programStart + rom.length ≤ addr →
      after.machine.memory.cells[addr] = vm.machine.memory.cells[addr]
  rest : ∃ memory journal, after = { vm with
    rig := { vm.rig with machine := { vm.machine with memory }, journal }
    profile := profile?.or vm.profile }

theorem loadedFrom {rom : Bytes} (hsize : rom.length ≤ Layout.maxRomSize) (vm : Vm σ)
    (profile? : Option Profile) (journal : Journal) :
    ((vm.loaded rom profile?).noted journal).LoadedFrom vm rom profile? where
  program := Memory.read_overlay _ (Nat.add_le_of_le_sub' (by decide) hsize)
  elsewhere addr h hout := by
    refine (Memory.cells_overlay _ _ _ _ h).trans ?_
    rw [dif_neg (by omega)]
  rest := ⟨_, journal, rfl⟩

/-- A load succeeds exactly if it finds a program that fits, and a profile where it goes by one, and
then these are put in place and nothing else moves. Else it fails for what it did not find, and the
virtual machine stays as it was, with its earlier program and its earlier profile. -/
theorem load_whole_or_not (vm : Vm σ) (files : Files) (load : Load) :
    ((vm.load files load).1 = .ok () ↔ ∃ rom profile?, load.Gives files rom profile?) ∧
    (∀ e, (vm.load files load).1 = .error e ↔ load.Fails files e) ∧
    (∀ rom profile?, load.Gives files rom profile? →
      (vm.load files load).2.LoadedFrom vm rom profile?) ∧
    (∀ e, load.Fails files e → ∃ journal, (vm.load files load).2 = vm.noted journal) ∧
    ∀ rom, (vm.loadRom rom).1 = .ok () ↔ rom.length ≤ 0xe00 := by
  refine ⟨load_eq_ok_iff, fun e => load_eq_error_iff, ?_, ?_, ?_⟩
  · intro rom profile? h
    obtain ⟨journal, hload⟩ := load_of_gives h vm
    rw [hload]
    exact loadedFrom h.fits vm profile? journal
  · intro e h
    obtain ⟨journal, hload⟩ := load_of_fails h vm
    exact ⟨journal, congrArg Prod.snd hload⟩
  · exact fun rom => loadRom_eq_ok_iff

/-! ## One profile after another -/

def pong : Profile := ⟨"pong.ch8", .ofList [("score", ⟨.decimal, 0x300⟩)], some [1, 4]⟩

/-- The profile as it is loaded from the directory in which it lies. -/
def shelvedPong : Profile := { pong with rom := "/games/pong.ch8" }

/-- A profile whose program is missing. -/
def tetris : Profile := ⟨"../tetris.ch8", .empty, none⟩

def shelf : Files := fun path =>
  if path = "/games/pong.json" then .ok pong.toJson.toUTF8.data.toList
  else if path = "/games/tetris.json" then .ok tetris.toJson.toUTF8.data.toList
  else if path = "/games/pong.ch8" then .ok [0x12, 0x00]
  else .error .notFound

def unloaded : Vm Unit := ofRig .standard (.powerOn ⟨fun _ => 0, 0⟩ () (.empty .debug))

theorem shelf_gives :
    (Load.profile "/games/pong.json").Gives shelf [0x12, 0x00] (some shelvedPong) := by
  have hexist : pong.KeysExist := by simp [Profile.KeysExist, pong, Layout.keyCount]
  have hplaced : pong.Placed "/games/pong.json" shelvedPong := by
    have hdir : Path.parent? "/games/pong.json" = some "/games" := by decide +kernel
    have hjoin : Path.join "/games" "pong.ch8" = "/games/pong.ch8" := by decide +kernel
    exact Profile.placed_iff.mpr (Profile.relocate_of_parent pong hdir hjoin)
  have hrom : shelf shelvedPong.rom = .ok [0x12, 0x00] := by simp [shelf, shelvedPong]
  have htext : shelf.Holds "/games/pong.json" pong.toJson := by simp [Files.Holds, shelf]
  exact .profile htext (Profile.ofJson_toJson_of_keysExist hexist) hplaced hrom (by decide)

theorem shelf_fails : (Load.profile "/games/tetris.json").Fails shelf (.file .notFound) := by
  have hexist : tetris.KeysExist := by simp [Profile.KeysExist, tetris]
  have hplaced : tetris.Placed "/games/tetris.json"
      { tetris with rom := "/games/../tetris.ch8" } := by
    have hdir : Path.parent? "/games/tetris.json" = some "/games" := by decide +kernel
    have hjoin : Path.join "/games" "../tetris.ch8" = "/games/../tetris.ch8" := by decide +kernel
    exact Profile.placed_iff.mpr (Profile.relocate_of_parent tetris hdir hjoin)
  have htext : shelf.Holds "/games/tetris.json" tetris.toJson := by simp [Files.Holds, shelf]
  have hrom : shelf "/games/../tetris.ch8" = .error .notFound := by simp [shelf]
  exact .program htext (Profile.ofJson_toJson_of_keysExist hexist) hplaced (.unread hrom)

/-- After one profile was loaded another is not, and the first one stays with its program. -/
theorem pong_then_tetris :
    (Load.profile "/games/pong.json").Gives shelf [0x12, 0x00] (some shelvedPong) ∧
    (Load.profile "/games/tetris.json").Fails shelf (.file .notFound) ∧
    (unloaded.load shelf (.profile "/games/pong.json")).2.LoadedFrom unloaded [0x12, 0x00]
      (some shelvedPong) ∧
    ∃ journal, ((unloaded.load shelf (.profile "/games/pong.json")).2.load shelf
        (.profile "/games/tetris.json")).2 =
      (unloaded.load shelf (.profile "/games/pong.json")).2.noted journal :=
  ⟨shelf_gives, shelf_fails, (load_whole_or_not unloaded shelf _).2.2.1 _ _ shelf_gives,
    (load_whole_or_not (unloaded.load shelf (.profile "/games/pong.json")).2 shelf _).2.2.2.1 _
      shelf_fails⟩

end Vm

end Chip8
