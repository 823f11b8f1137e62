/-! # Named values in order

A finite map from names, kept as a list whose names increase. Names are ordered by their code
points, which is also the order of their encodings byte by byte.
-/

namespace Chip8

/-- The list with a name set to a value, in its place. -/
def insertNamed {α : Type} (name : String) (value : α) : List (String × α) → List (String × α)
  | [] => [(name, value)]
  | (other, old) :: rest =>
    if name < other then (name, value) :: (other, old) :: rest
    else if name = other then (name, value) :: rest
    else (other, old) :: insertNamed name value rest

theorem mem_insertNamed {α : Type} {name : String} {value : α} {entries : List (String × α)}
    {entry : String × α} (h : entry ∈ insertNamed name value entries) :
    entry = (name, value) ∨ entry ∈ entries := by
  induction entries with
  | nil => simpa [insertNamed] using h
  | cons head rest ih =>
    rw [insertNamed] at h
    split at h
    · simpa using h
    split at h
    · rcases List.mem_cons.mp h with h | h <;> simp [h]
    · rcases List.mem_cons.mp h with h | h
      · simp [h]
      · rcases ih h with h | h <;> simp [h]

abbrev NamesIncrease {α : Type} (entries : List (String × α)) : Prop :=
  entries.Pairwise fun a b => a.1 < b.1

theorem NamesIncrease.insertNamed {α : Type} {name : String} {value : α}
    {entries : List (String × α)} (h : NamesIncrease entries) :
    NamesIncrease (Chip8.insertNamed name value entries) := by
  induction entries with
  | nil => simp [Chip8.insertNamed, NamesIncrease]
  | cons head rest ih =>
    obtain ⟨hhead, hrest⟩ := List.pairwise_cons.mp h
    rw [Chip8.insertNamed]
    split
    case isTrue hlt =>
      refine List.pairwise_cons.mpr ⟨fun entry hentry => ?_, h⟩
      rcases List.mem_cons.mp hentry with rfl | hentry
      · exact hlt
      · exact String.lt_trans hlt (hhead entry hentry)
    case isFalse hge =>
      split
      case isTrue heq => exact List.pairwise_cons.mpr ⟨heq ▸ hhead, hrest⟩
      case isFalse hne =>
        refine List.pairwise_cons.mpr ⟨fun entry hentry => ?_, ih hrest⟩
        rcases mem_insertNamed hentry with rfl | hentry
        · exact String.not_le.mp fun hle => hne (String.le_antisymm hle (String.not_lt.mp hge))
        · exact hhead entry hentry

structure Named (α : Type) where
  entries : List (String × α)
  increasing : NamesIncrease entries

namespace Named

variable {α : Type}

instance [DecidableEq α] : DecidableEq (Named α) := fun a b =>
  match a, b with
  | ⟨as, _⟩, ⟨bs, _⟩ =>
    if h : as = bs then .isTrue (by subst h; rfl) else .isFalse fun e => h (by cases e; rfl)

def empty : Named α := ⟨[], .nil⟩

/-- Sets a name to a value, whatever it had before. -/
def insert (named : Named α) (name : String) (value : α) : Named α :=
  ⟨insertNamed name value named.entries, named.increasing.insertNamed⟩

def ofList (entries : List (String × α)) : Named α :=
  entries.foldl (fun named (name, value) => named.insert name value) empty

def get? (named : Named α) (name : String) : Option α := named.entries.lookup name

def names (named : Named α) : List String := named.entries.map Prod.fst

end Named

end Chip8
