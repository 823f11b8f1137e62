import Chip8.Proofs.Transfers
import Mathlib.Data.List.Pairwise

/-! # Memory by ranges

A range is read or written as a whole if it ends inside memory, where its end is the sum of address
and length without any bound. After some writes each cell holds the byte of the last one that
reached it, so writes whose ranges do not meet can be made in any order.
-/

namespace Chip8

/-- Bytes to be written from an address on. -/
structure Patch where
  addr : Nat
  data : List UInt8

namespace Patch

def Covers (patch : Patch) (j : Nat) : Prop :=
  patch.addr ≤ j ∧ j < patch.addr + patch.data.length

def Apart (first second : Patch) : Prop := ∀ j, first.Covers j → ¬ second.Covers j

instance : Std.Symm Apart := ⟨fun _ _ h j hsecond hfirst => h j hfirst hsecond⟩

/-- The byte that a cell is given. A patch that memory has no room for gives none. -/
def byte? (patch : Patch) (j : Nat) : Option UInt8 :=
  if patch.addr + patch.data.length ≤ Layout.memorySize ∧ patch.addr ≤ j then
    patch.data[j - patch.addr]?
  else none

theorem covers_of_byte? {patch : Patch} {j : Nat} {byte : UInt8} (h : patch.byte? j = some byte) :
    patch.Covers j := by
  unfold byte? at h
  split at h
  case isTrue hin =>
    obtain ⟨hlt, -⟩ := List.getElem?_eq_some_iff.mp h
    exact ⟨hin.2, by omega⟩
  case isFalse => cases h

theorem Apart.byte?_eq_none {first second : Patch} (h : first.Apart second) {j : Nat} {byte : UInt8}
    (hbyte : first.byte? j = some byte) : second.byte? j = none := by
  cases hother : second.byte? j with
  | none => rfl
  | some _ => exact absurd (covers_of_byte? hother) (h j (covers_of_byte? hbyte))

end Patch

namespace Memory

theorem read_eq_take (m : Memory) (addr len : Nat) : m.read addr len =
    if addr + len ≤ Layout.memorySize then .ok ((m.cells.toList.drop addr).take len)
    else .error (.outOfBounds addr len) := by
  split
  case isTrue hfits =>
    refine read_eq_ok_iff.mpr ⟨hfits, ?_, ?_⟩
    · rw [List.length_take, List.length_drop, Vector.length_toList]
      omega
    · intro k hk
      rw [List.getElem?_take_of_lt hk, List.getElem?_drop, Vector.getElem?_toList]
  case isFalse hlong => exact read_eq_error_iff.mpr ⟨Nat.not_le.mp hlong, rfl⟩

/-- A range that is read after a write has the bytes of the data where it meets the data. -/
theorem read_overlay_eq (m : Memory) (addr : Nat) (data : List UInt8) (start len : Nat) :
    (m.overlay addr data).read start len = (m.read start len).map fun old =>
      old.mapIdx fun k byte => if h : addr ≤ start + k ∧ start + k - addr < data.length then
        data[start + k - addr] else byte := by
  cases hread : m.read start len with
  | error e => exact read_eq_error_iff.mpr (read_eq_error_iff.mp hread)
  | ok old =>
    obtain ⟨hfits, hlength, hold⟩ := read_eq_ok_iff.mp hread
    refine read_eq_ok_iff.mpr ⟨hfits, by rw [List.length_mapIdx, hlength], ?_⟩
    intro k hk
    have hcell : start + k < Layout.memorySize := by omega
    rw [List.getElem?_mapIdx, hold k hk, Vector.getElem?_eq_getElem hcell,
      Vector.getElem?_eq_getElem hcell, cells_overlay]
    rfl

end Memory

namespace Machine

/-- The machine after a write, whether or not the range is inside memory. -/
def patch (m : Machine) (patch : Patch) : Machine :=
  match m.write patch.addr patch.data with
  | .ok next => next
  | .error _ => m

def patchAll (m : Machine) (patches : List Patch) : Machine := patches.foldl patch m

theorem write_of_le {addr : Nat} {data : List UInt8}
    (hfits : addr + data.length ≤ Layout.memorySize) (m : Machine) :
    m.write addr data = .ok { m with memory := m.memory.overlay addr data } :=
  write_eq_ok_iff.mpr ⟨hfits, rfl⟩

theorem write_of_lt {addr : Nat} {data : List UInt8}
    (hlong : Layout.memorySize < addr + data.length) (m : Machine) :
    m.write addr data = .error (.outOfBounds addr data.length) :=
  write_eq_error_iff.mpr ⟨hlong, rfl⟩

theorem patch_of_lt {patch : Patch} (hlong : Layout.memorySize < patch.addr + patch.data.length)
    (m : Machine) : m.patch patch = m := by
  rw [Machine.patch, write_of_lt hlong]

/-- A write moves nothing but memory. -/
theorem patch_leaves (m : Machine) (patch : Patch) :
    ∃ memory, m.patch patch = { m with memory } := by
  obtain hlong | hfits := Nat.lt_or_ge Layout.memorySize (patch.addr + patch.data.length)
  · exact ⟨m.memory, patch_of_lt hlong m⟩
  · rw [Machine.patch, write_of_le hfits]
    exact ⟨_, rfl⟩

theorem cells_patch (m : Machine) (patch : Patch) {j : Nat} (hj : j < Layout.memorySize) :
    (m.patch patch).memory.cells[j] = (patch.byte? j).getD m.memory.cells[j] := by
  unfold Patch.byte?
  obtain hlong | hfits := Nat.lt_or_ge Layout.memorySize (patch.addr + patch.data.length)
  · rw [if_neg (by omega), Option.getD_none]
    simp only [patch_of_lt hlong]
  · simp only [Machine.patch, write_of_le hfits, Memory.cells_overlay]
    by_cases hstart : patch.addr ≤ j
    · rw [if_pos ⟨hfits, hstart⟩]
      by_cases hin : j - patch.addr < patch.data.length
      · rw [dif_pos ⟨hstart, hin⟩, List.getElem?_eq_getElem hin, Option.getD_some]
      · rw [dif_neg (by omega), List.getElem?_eq_none (Nat.le_of_not_lt hin), Option.getD_none]
    · rw [dif_neg (by omega), if_neg (by omega), Option.getD_none]

theorem patch_comm {first second : Patch} (h : first.Apart second) (m : Machine) :
    (m.patch first).patch second = (m.patch second).patch first := by
  have hmemory : ((m.patch first).patch second).memory = ((m.patch second).patch first).memory := by
    apply Memory.ext
    intro j hj
    simp only [cells_patch _ _ hj]
    cases hfirst : first.byte? j with
    | none => rfl
    | some byte =>
      rw [h.byte?_eq_none hfirst]
      rfl
  obtain ⟨_, hm⟩ := m.patch_leaves first
  obtain ⟨_, hn⟩ := m.patch_leaves second
  obtain ⟨_, hm'⟩ := (m.patch first).patch_leaves second
  obtain ⟨_, hn'⟩ := (m.patch second).patch_leaves first
  rw [hm', hn'] at hmemory ⊢
  rw [hm, hn]
  exact congrArg (fun memory => { m with memory }) hmemory

theorem patchAll_perm {patches order : List Patch} (h : patches.Perm order)
    (hapart : patches.Pairwise Patch.Apart) (m : Machine) :
    m.patchAll patches = m.patchAll order := by
  apply h.foldl_eq'
  intro first hfirst second hsecond m
  -- A patch that stands twice in the list need not be apart from itself.
  by_cases hsame : first = second
  · rw [hsame]
  · exact patch_comm (hapart.forall hfirst hsecond hsame) m

/-- What reading and writing ranges of a machine's memory comes to. -/
structure ByRange (m : Machine) : Prop where
  reads : ∀ addr len, m.memory.read addr len =
    if addr + len ≤ 4096 then .ok ((m.memory.cells.toList.drop addr).take len)
    else .error (.outOfBounds addr len)
  writes : ∀ addr data, addr + data.length ≤ 4096 → ∃ memory,
    m.write addr data = .ok { m with memory } ∧
    ∀ start len, memory.read start len = (m.memory.read start len).map fun old =>
      old.mapIdx fun k byte => if h : addr ≤ start + k ∧ start + k - addr < data.length then
        data[start + k - addr] else byte
  refuses : ∀ addr data, 4096 < addr + data.length →
    m.write addr data = .error (.outOfBounds addr data.length) ∧ m.patch ⟨addr, data⟩ = m
  /-- The last write that reached a cell settles what it holds. -/
  settles : ∀ patches (j : Nat) (hj : j < Layout.memorySize),
    (m.patchAll patches).memory.cells[j] =
      (patches.reverse.findSome? fun patch => patch.byte? j).getD m.memory.cells[j]
  reorders : ∀ patches order, patches.Perm order → patches.Pairwise Patch.Apart →
    m.patchAll patches = m.patchAll order

theorem memory_by_range (m : Machine) : m.ByRange where
  reads addr len := m.memory.read_eq_take addr len
  writes addr data hfits :=
    ⟨m.memory.overlay addr data, write_of_le hfits m, m.memory.read_overlay_eq addr data⟩
  refuses addr data hlong := ⟨write_of_lt hlong m, @patch_of_lt ⟨addr, data⟩ hlong m⟩
  settles patches j hj :=
    view_foldl (fun m : Machine => m.memory.cells[j]) (fun m patch => m.cells_patch patch hj)
      patches m
  reorders _ _ h hapart := patchAll_perm h hapart m

end Machine

end Chip8
