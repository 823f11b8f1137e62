import Chip8.Profile.Reader
import Chip8.Proofs.Written
import Chip8.Proofs.Exec

/-! # Profiles are read as they were written

What is written of a profile is read back as that profile, whatever stands in its names and its
path. A profile is accepted exactly if all keys exist that it lets a controller press, and the
first one that does not is what a refusal names.
-/

namespace Chip8

open Json

/-! ## Named values in order -/

theorem insertNamed_last {α : Type} {name : String} (value : α) {entries : List (String × α)}
    (h : ∀ entry ∈ entries, entry.1 < name) :
    insertNamed name value entries = entries ++ [(name, value)] := by
  induction entries with
  | nil => rfl
  | cons head rest ih =>
    obtain ⟨hhead, hrest⟩ := List.forall_mem_cons.mp h
    have hbefore : ¬ name < head.1 := String.lt_asymm hhead
    have hother : name ≠ head.1 := by
      rintro rfl
      exact String.lt_irrefl _ hhead
    rw [insertNamed, if_neg hbefore, if_neg hother, ih hrest, List.cons_append]

theorem Named.ext {α : Type} {named other : Named α} (h : named.entries = other.entries) :
    named = other := by
  obtain ⟨entries, _⟩ := named
  obtain ⟨entries', _⟩ := other
  cases h
  rfl

/-! ## Fields -/

theorem readField_none {α : Type} {value : Reader α} {written rest : List Char} {a : α}
    (h : ReadsBack value written a) (hrest : Ends rest) (name : String) :
    readField name none value (':' :: (written ++ rest)) = .ok (a, rest) := by
  have hcolon : colon (':' :: (written ++ rest)) = .ok ((), written ++ rest) := rfl
  simp only [readField, Option.isSome_none, hcolon, bind, Except.bind, h.reads rest hrest]
  rfl

namespace VariableKind

theorem readName_quote (kind : VariableKind) (rest : List Char) :
    readName (kind.name.toList.flatMap quoteChar ++ '\x22' :: rest) = .ok (kind, rest) := by
  simp only [readName, text_quote, bind, Except.bind]
  cases kind <;> rfl

theorem readsBack (kind : VariableKind) : ReadsBack read (quote kind.name) kind := by
  refine ⟨⟨'\x22', _, rfl, rfl, by decide⟩, ?_⟩
  intro rest _
  have hname := kind.readName_quote rest
  rw [quote, List.append_assoc]
  exact hname

end VariableKind

namespace Variable

theorem gathers (var : Variable) : Gathers Fields.read ⟨none, none⟩
    [("type", quote var.kind.name), ("index", numeral var.index)]
    ⟨some var.kind, some var.index⟩ := by
  have hkind : ∀ rest, Ends rest → Fields.read "type" ⟨none, none⟩
      (':' :: (quote var.kind.name ++ rest)) = .ok (⟨some var.kind, none⟩, rest) := by
    intro rest hrest
    have hfield := readField_none var.kind.readsBack hrest "type"
    simp only [Fields.read, if_true, hfield, bind, Except.bind, pure, Except.pure]
  have hindex : ∀ rest, Ends rest → Fields.read "index" ⟨some var.kind, none⟩
      (':' :: (numeral var.index ++ rest)) = .ok (⟨some var.kind, some var.index⟩, rest) := by
    intro rest hrest
    have hfield := readField_none (readsBack_numeral var.index) hrest "index"
    have hne : "index" ≠ "type" := by decide
    simp only [Fields.read, hne, if_false, if_true, hfield, bind, Except.bind, pure, Except.pure]
  exact .cons hkind (.cons hindex (.nil _))

theorem readsBack (var : Variable) : ReadsBack readJson var.write var := by
  refine ⟨⟨'\x7b', _, rfl, rfl, by decide⟩, ?_⟩
  intro rest _
  have hmembers := membersUpTo_commaSeparated var.gathers (@rfl _ (_ ++ '\x7d' :: rest))
  have hopen : ∀ s, skipBlanks ('\x7b' :: s) = '\x7b' :: s := fun _ => rfl
  rw [write, writeObject_append]
  simp only [readJson, hopen, hmembers, bind, Except.bind, required, pure, Except.pure]

end Variable

namespace Profile

/-- The member of `variables` with a name and a value, after those that come before it. -/
def readVariable (name : String) (vars : Named Variable) : Reader (Named Variable) := fun s => do
  let ((), rest) ← colon s
  let (var, rest) ← Variable.readJson rest
  return (vars.insert name var, rest)

theorem gathers_variables {vars : Named Variable} (later : List (String × Variable))
    {earlier : Named Variable} (h : vars.entries = earlier.entries ++ later) :
    Gathers readVariable earlier (later.map fun (name, var) => (name, var.write)) vars := by
  induction later generalizing earlier with
  | nil =>
    have hall : earlier = vars := Named.ext (by rw [h, List.append_nil])
    exact hall ▸ .nil earlier
  | cons entry later ih =>
    obtain ⟨name, var⟩ := entry
    have hlast : ∀ entry ∈ earlier.entries, entry.1 < name := by
      intro entry hentry
      have hincreasing := vars.increasing
      rw [h] at hincreasing
      exact (List.pairwise_append.mp hincreasing).2.2 entry hentry _ List.mem_cons_self
    have hinsert : (earlier.insert name var).entries = earlier.entries ++ [(name, var)] :=
      insertNamed_last var hlast
    have hmore := @ih (earlier.insert name var) (by rw [hinsert, h]; simp)
    refine .cons ?_ hmore
    intro rest hrest
    have hcolon : colon (':' :: (var.write ++ rest)) = .ok ((), var.write ++ rest) := rfl
    simp only [readVariable, hcolon, bind, Except.bind, var.readsBack.reads rest hrest, pure,
      Except.pure]

theorem readsBack_variables (profile : Profile) :
    ReadsBack readVariables profile.writeVariables profile.vars := by
  refine ⟨⟨'\x7b', _, rfl, rfl, by decide⟩, ?_⟩
  intro rest _
  have hall : profile.vars.entries = Named.empty.entries ++ profile.vars.entries := rfl
  have hmembers := membersUpTo_commaSeparated (gathers_variables _ hall)
    (@rfl _ (_ ++ '\x7d' :: rest))
  rw [writeVariables, writeObject_append]
  exact hmembers

theorem readsBack_actions (keys : List UInt64) :
    ReadsBack readActions (writeArray (keys.map numeral)) (some keys) := by
  refine ⟨⟨'[', _, rfl, rfl, by decide⟩, ?_⟩
  intro rest _
  have hkeys := items_commaSeparated (fun key (_ : key ∈ keys) => readsBack_numeral key) rest
  have hopen : ∀ s, skipBlanks ('[' :: s) = '[' :: s := fun _ => rfl
  rw [writeArray_append]
  simp only [readActions, hopen, hkeys, bind, Except.bind, pure, Except.pure]

theorem gathers_actions (profile : Profile) (rom : String) (vars : Named Variable) :
    ∃ actions, actions.getD none = profile.actions ∧
    Gathers Fields.read ⟨some rom, some vars, none⟩ profile.writeActions
      ⟨some rom, some vars, actions⟩ := by
  unfold writeActions
  cases profile.actions with
  | none => exact ⟨none, rfl, .nil _⟩
  | some keys =>
    refine ⟨some (some keys), rfl, .cons ?_ (.nil _)⟩
    intro rest hrest
    have hfield := readField_none (readsBack_actions keys) hrest "actions"
    have hrom : "actions" ≠ "rom" := by decide
    have hvars : "actions" ≠ "variables" := by decide
    simp only [Fields.read, hrom, hvars, if_false, if_true, hfield, bind, Except.bind, pure,
      Except.pure]

theorem gathers (profile : Profile) : ∃ actions, actions.getD none = profile.actions ∧
    Gathers Fields.read ⟨none, none, none⟩
      ([("rom", quote profile.rom), ("variables", profile.writeVariables)] ++ profile.writeActions)
      ⟨some profile.rom, some profile.vars, actions⟩ := by
  obtain ⟨actions, hactions, hmore⟩ := profile.gathers_actions profile.rom profile.vars
  have hrom : ∀ rest, Ends rest → Fields.read "rom" ⟨none, none, none⟩
      (':' :: (quote profile.rom ++ rest)) = .ok (⟨some profile.rom, none, none⟩, rest) := by
    intro rest hrest
    have hfield := readField_none (readsBack_quote "path string" profile.rom) hrest "rom"
    simp only [Fields.read, if_true, hfield, bind, Except.bind, pure, Except.pure]
  have hvars : ∀ rest, Ends rest → Fields.read "variables" ⟨some profile.rom, none, none⟩
      (':' :: (profile.writeVariables ++ rest)) =
        .ok (⟨some profile.rom, some profile.vars, none⟩, rest) := by
    intro rest hrest
    have hfield := readField_none profile.readsBack_variables hrest "variables"
    have hne : "variables" ≠ "rom" := by decide
    simp only [Fields.read, hne, if_false, if_true, hfield, bind, Except.bind, pure, Except.pure]
  exact ⟨actions, hactions, .cons hrom (.cons hvars hmore)⟩

theorem readJson_toJson (profile : Profile) :
    Json.readAll readJson profile.toJson = .ok profile := by
  obtain ⟨actions, hactions, hgathers⟩ := profile.gathers
  have hmembers := membersUpTo_commaSeparated hgathers (@rfl _ (_ ++ '\x7d' :: []))
  have hopen : ∀ s, skipBlanks ('\x7b' :: s) = '\x7b' :: s := fun _ => rfl
  have hend : skipBlanks [] = [] := rfl
  have hwritten := writeObject_append
    ([("rom", quote profile.rom), ("variables", profile.writeVariables)] ++ profile.writeActions) []
  rw [List.append_nil] at hwritten
  rw [Json.readAll, toJson, String.toList_ofList, hwritten]
  simp only [readJson, hopen, hmembers, bind, Except.bind, required, pure, Except.pure, hend,
    hactions]
  rfl

/-! ## Accepted profiles -/

/-- All keys exist that a controller may press. -/
abbrev KeysExist (profile : Profile) : Prop :=
  ∀ key ∈ profile.actions.getD [], key.toNat < Layout.keyCount

theorem validate_eq_ok_iff {profile result : Profile} :
    profile.validate = .ok result ↔ result = profile ∧ profile.KeysExist := by
  unfold validate
  cases hfind : (profile.actions.getD []).find? fun key => Layout.keyCount ≤ key.toNat with
  | none =>
    have hexist : profile.KeysExist := by simpa using hfind
    simp only [Except.ok.injEq, eq_comm, and_iff_left hexist]
  | some key =>
    have hmem := List.mem_of_find?_eq_some hfind
    have hkey : Layout.keyCount ≤ key.toNat := by simpa using List.find?_some hfind
    have hmissing : ¬ profile.KeysExist := fun hexist => Nat.not_lt.mpr hkey (hexist key hmem)
    simp [hmissing]

theorem validate_eq_error_iff {profile : Profile} {e : Error} : profile.validate = .error e ↔
    ∃ before key after, profile.actions = some (before ++ key :: after) ∧
      (∀ other ∈ before, other.toNat < Layout.keyCount) ∧ Layout.keyCount ≤ key.toNat ∧
      e = .invalidKey key.toNat := by
  have hfirst : profile.validate = .error e ↔ ∃ key, e = .invalidKey key.toNat ∧
      (profile.actions.getD []).find? (fun key => Layout.keyCount ≤ key.toNat) = some key := by
    unfold validate
    cases (profile.actions.getD []).find? fun key => Layout.keyCount ≤ key.toNat with
    | none => simp
    | some key => simp [eq_comm]
  rw [hfirst]
  constructor
  · rintro ⟨key, rfl, hfind⟩
    obtain ⟨hkey, before, after, hsplit, hbefore⟩ := List.find?_eq_some_iff_append.mp hfind
    refine ⟨before, key, after, ?_, by simpa using hbefore, by simpa using hkey, rfl⟩
    cases hactions : profile.actions with
    | none => simp [hactions] at hsplit
    | some keys => exact congrArg some (by simpa [hactions] using hsplit)
  · rintro ⟨before, key, after, hactions, hbefore, hkey, rfl⟩
    refine ⟨key, rfl, List.find?_eq_some_iff_append.mpr ?_⟩
    refine ⟨by simpa using hkey, before, after, ?_, by simpa using hbefore⟩
    rw [hactions, Option.getD_some]

theorem ofJson_eq_ok_iff {text : String} {profile : Profile} : ofJson text = .ok profile ↔
    Json.readAll readJson text = .ok profile ∧ profile.KeysExist := by
  unfold ofJson
  cases Json.readAll readJson text with
  | error failure => simp
  | ok read =>
    simp only [validate_eq_ok_iff, Except.ok.injEq]
    constructor
    · rintro ⟨rfl, hexist⟩
      exact ⟨rfl, hexist⟩
    · rintro ⟨rfl, hexist⟩
      exact ⟨rfl, hexist⟩

/-- A text is refused for a key exactly if it is a profile and this is the first of its keys that
does not exist. -/
theorem ofJson_eq_invalidKey_iff {text : String} {missing : Nat} :
    ofJson text = .error (.invalidKey missing) ↔ ∃ profile before key after,
      Json.readAll readJson text = .ok profile ∧ profile.actions = some (before ++ key :: after) ∧
      (∀ other ∈ before, other.toNat < Layout.keyCount) ∧ Layout.keyCount ≤ key.toNat ∧
      missing = key.toNat := by
  unfold ofJson
  cases Json.readAll readJson text with
  | error failure => simp
  | ok read => simp [validate_eq_error_iff]

theorem ofJson_toJson_of_keysExist {profile : Profile} (hexist : profile.KeysExist) :
    ofJson profile.toJson = .ok profile :=
  ofJson_eq_ok_iff.mpr ⟨profile.readJson_toJson, hexist⟩

/-- The profiles that some text is accepted for are those whose keys exist. Whatever the text was,
the profile that it was accepted for is read back from what is written of it, and then written the
same way again. -/
theorem round_trip (profile : Profile) :
    ((∃ text, ofJson text = .ok profile) ↔ profile.KeysExist) ∧
      ∀ text, ofJson text = .ok profile → ofJson profile.toJson = .ok profile ∧
        (ofJson profile.toJson).map toJson = .ok profile.toJson := by
  have hback : profile.KeysExist → ofJson profile.toJson = .ok profile := ofJson_toJson_of_keysExist
  refine ⟨⟨?_, fun hexist => ⟨profile.toJson, hback hexist⟩⟩, ?_⟩
  · rintro ⟨text, htext⟩
    exact (ofJson_eq_ok_iff.mp htext).2
  · intro text htext
    have hread := hback (ofJson_eq_ok_iff.mp htext).2
    refine ⟨hread, ?_⟩
    rw [hread]
    rfl

/-- An array with blanks, escapes, a kind given as an object, and names that are out of order, one
of them twice. -/
def untidy : String :=
  "[ \"a\\u0007\\n\", \x7b\"z\": [\x7b\"register\": null\x7d, 18446744073709551615], " ++
    "\"b\": [\"register\", 0], \"b\" : \x7b\"index\":1, \"type\": \"mem_bcd\"\x7d\x7d, []]"

def tidied : Profile where
  rom := "a\x07\n"
  vars := .ofList [("b", ⟨.decimal, 1⟩), ("z", ⟨.register, 18446744073709551615⟩)]
  actions := some []

set_option maxRecDepth 4000 in
theorem untidy_round_trip :
    ofJson untidy = .ok tidied ∧ ofJson tidied.toJson = .ok tidied := by
  have huntidy : ofJson untidy = .ok tidied := rfl
  exact ⟨huntidy, ((round_trip tidied).2 untidy huntidy).1⟩

end Profile

end Chip8
