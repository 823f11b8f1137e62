import Chip8.Proofs.Names
import Chip8.Proofs.Snapshots

/-! # Variables in frames

A frame holds what reading each variable of the profile by its name gives. If one of them cannot be
read there is no frame: the first failure in the order of the names is reported, and since nothing
was taken yet, a change of the output waits for the next frame.
-/

namespace Chip8

/-! ## Single variables -/

theorem Memory.read_three {m : Memory} {addr : Nat} (h : addr + 3 ≤ Layout.memorySize) :
    m.read addr 3 = .ok [m.cells[addr], m.cells[addr + 1], m.cells[addr + 2]] := by
  rw [read_eq, dif_pos h]
  simp [List.ofFn_succ]

namespace Variable

theorem ofDigits_three (hundreds tens ones : UInt8) :
    (ofDigits [hundreds, tens, ones]).toNat =
      100 * hundreds.toNat + 10 * tens.toNat + ones.toNat := by
  have h := hundreds.toNat_lt
  have t := tens.toNat_lt
  have o := ones.toNat_lt
  simp [ofDigits, UInt32.toNat_add, UInt32.toNat_mul]
  omega

/-- Three bytes of memory as a decimal number, whether or not they are digits. -/
theorem read_decimal_eq_ok_iff {m : Machine} {index : UInt64} {value : UInt32} :
    (⟨.decimal, index⟩ : Variable).read m = .ok value ↔
      ∃ h : index.toNat + 3 ≤ Layout.memorySize, value.toNat =
        100 * m.memory.cells[index.toNat].toNat + 10 * m.memory.cells[index.toNat + 1].toNat +
          m.memory.cells[index.toNat + 2].toNat := by
  simp only [read]
  by_cases h : index.toNat + 3 ≤ Layout.memorySize
  · rw [Memory.read_three h]
    simp only [Except.map, Except.ok.injEq, exists_prop_of_true h]
    rw [← UInt32.toNat_inj, ofDigits_three, eq_comm]
  · rw [Memory.read_eq_error_iff.mpr ⟨Nat.not_le.mp h, rfl⟩]
    simp only [Except.map, reduceCtorEq, false_iff]
    exact fun ⟨hfits, _⟩ => h hfits

theorem read_decimal_eq_error_iff {m : Machine} {index : UInt64} {e : Error} :
    (⟨.decimal, index⟩ : Variable).read m = .error e ↔
      Layout.memorySize < index.toNat + 3 ∧ Error.outOfBounds index.toNat 3 = e := by
  rw [← Memory.read_eq_error_iff (m := m.memory), read]
  cases m.memory.read index.toNat 3 <;> simp [Except.map]

end Variable

/-! ## All variables -/

namespace Profile

theorem mem_of_readAll {profile : Profile} {m : Machine} {values : List (String × UInt32)}
    (h : profile.readAll m = .ok values) : values.map Prod.fst = profile.vars.names ∧
      ∀ name value, (name, value) ∈ values →
        ∃ var, (name, var) ∈ profile.vars.entries ∧ var.read m = .ok value := by
  unfold readAll at h
  unfold Named.names
  generalize profile.vars.entries = entries at h
  induction entries generalizing values with
  | nil =>
    cases h
    simp
  | cons entry entries ih =>
    rw [List.mapM_cons] at h
    obtain ⟨⟨name, value⟩, hentry, h⟩ := bind_eq_ok.mp h
    obtain ⟨value, hvalue, hentry⟩ := bind_eq_ok.mp hentry
    cases hentry
    obtain ⟨rest, hrest, h⟩ := bind_eq_ok.mp h
    cases h
    obtain ⟨hnames, hvalues⟩ := ih hrest
    refine ⟨by simp [hnames], ?_⟩
    intro other found hmem
    obtain heq | hmem := List.mem_cons.mp hmem
    · cases heq
      exact ⟨entry.2, List.mem_cons_self .., hvalue⟩
    · obtain ⟨var, hvar, hread⟩ := hvalues other found hmem
      exact ⟨var, List.mem_cons_of_mem _ hvar, hread⟩

theorem first_of_readAll {profile : Profile} {m : Machine} {e : Error}
    (h : profile.readAll m = .error e) : ∃ before name var after,
      profile.vars.entries = before ++ (name, var) :: after ∧ var.read m = .error e ∧
        ∀ entry ∈ before, ∃ value, entry.2.read m = .ok value := by
  unfold readAll at h
  generalize profile.vars.entries = entries at h
  induction entries with
  | nil => cases h
  | cons entry entries ih =>
    rw [List.mapM_cons] at h
    obtain hentry | ⟨⟨name, value⟩, hentry, h⟩ := bind_eq_error.mp h
    · obtain hread | ⟨value, -, hdone⟩ := bind_eq_error.mp hentry
      · exact ⟨[], entry.1, entry.2, entries, rfl, hread, by simp⟩
      · cases hdone
    · obtain ⟨value, hvalue, -⟩ := bind_eq_ok.mp hentry
      obtain hrest | ⟨rest, -, hdone⟩ := bind_eq_error.mp h
      · obtain ⟨before, name, var, after, rfl, hread, hbefore⟩ := ih hrest
        refine ⟨entry :: before, name, var, after, rfl, hread, ?_⟩
        exact List.forall_mem_cons.mpr ⟨⟨value, hvalue⟩, hbefore⟩
      · cases hdone

end Profile

namespace Vm

variable {σ : Type}

/-- The profile gives a name to a variable. -/
def Declares (vm : Vm σ) (name : String) (var : Variable) : Prop :=
  ∃ profile, vm.profile = some profile ∧ (name, var) ∈ profile.vars.entries

/-- The names that the profile gives to variables. -/
def declared (vm : Vm σ) : List String :=
  match vm.profile with
  | some profile => profile.vars.names
  | none => []

theorem mem_declared_iff {vm : Vm σ} {name : String} :
    name ∈ vm.declared ↔ ∃ var, vm.Declares name var := by
  unfold declared Declares
  cases vm.profile with
  | none => simp
  | some profile => simp [Named.names]

theorem readVariable_of_declares {vm : Vm σ} {name : String} {var : Variable}
    (h : vm.Declares name var) : vm.readVariable name = var.read vm.machine := by
  obtain ⟨profile, hprofile, hmem⟩ := h
  have hget := Named.get?_of_mem hmem
  simp only [readVariable, currentProfile, hprofile, Profile.lookup, bind, Except.bind, hget]

/-- Values of all declared variables, each as it is read by its name. -/
structure Shows (vm : Vm σ) (values : List (String × UInt32)) : Prop where
  names : values.map Prod.fst = vm.declared
  reads : ∀ name value, (name, value) ∈ values → vm.readVariable name = .ok value

/-- A declared variable cannot be read, and all whose names have smaller encodings can. -/
structure FirstFailing (vm : Vm σ) (name : String) (e : Error) : Prop where
  declared : name ∈ vm.declared
  fails : vm.readVariable name = .error e
  earlier : ∀ other ∈ vm.declared, other.toUTF8.data.toList < name.toUTF8.data.toList →
    ∃ value, vm.readVariable other = .ok value

theorem FirstFailing.unique {vm : Vm σ} {name other : String} {e e' : Error}
    (h : vm.FirstFailing name e) (h' : vm.FirstFailing other e') : e = e' := by
  obtain hlt | rfl | hgt := Std.lt_trichotomy name other
  · obtain ⟨value, hread⟩ := h'.earlier name h.declared (toUTF8_lt_toUTF8 hlt)
    cases h.fails.symm.trans hread
  · cases h.fails.symm.trans h'.fails
    rfl
  · obtain ⟨value, hread⟩ := h.earlier other h'.declared (toUTF8_lt_toUTF8 hgt)
    cases h'.fails.symm.trans hread

theorem shows_of_readVariables {vm : Vm σ} {values : List (String × UInt32)}
    (h : vm.readVariables = .ok values) : vm.Shows values := by
  unfold readVariables at h
  cases hprofile : vm.profile with
  | none =>
    rw [hprofile] at h
    cases h
    exact ⟨by simp [declared, hprofile], by simp⟩
  | some profile =>
    rw [hprofile] at h
    obtain ⟨hnames, hvalues⟩ := Profile.mem_of_readAll h
    refine ⟨by simp only [declared, hprofile, hnames], fun name value hmem => ?_⟩
    obtain ⟨var, hvar, hread⟩ := hvalues name value hmem
    exact (readVariable_of_declares ⟨profile, hprofile, hvar⟩).trans hread

theorem Shows.readable {vm : Vm σ} {values : List (String × UInt32)} (h : vm.Shows values)
    {name : String} (hname : name ∈ vm.declared) : ∃ value, vm.readVariable name = .ok value := by
  rw [← h.names] at hname
  obtain ⟨⟨_, value⟩, hmem, rfl⟩ := List.mem_map.mp hname
  exact ⟨value, h.reads _ value hmem⟩

theorem firstFailing_of_readVariables {vm : Vm σ} {e : Error}
    (h : vm.readVariables = .error e) : ∃ name, vm.FirstFailing name e := by
  unfold readVariables at h
  cases hprofile : vm.profile with
  | none =>
    rw [hprofile] at h
    cases h
  | some profile =>
    rw [hprofile] at h
    obtain ⟨before, name, var, after, hsplit, hread, hbefore⟩ := Profile.first_of_readAll h
    have hdeclares : vm.Declares name var := ⟨profile, hprofile, by simp [hsplit]⟩
    refine ⟨name, mem_declared_iff.mpr ⟨var, hdeclares⟩,
      (readVariable_of_declares hdeclares).trans hread, fun other hother hlt => ?_⟩
    obtain ⟨found, hfound⟩ := mem_declared_iff.mp hother
    rw [readVariable_of_declares hfound]
    obtain ⟨_, hsame, hmem⟩ := hfound
    cases hprofile.symm.trans hsame
    exact hbefore _ (Named.mem_before_of_lt hsplit hmem (lt_iff_toUTF8_lt.mpr hlt))

theorem readVariables_eq_error_iff {vm : Vm σ} {e : Error} :
    vm.readVariables = .error e ↔ ∃ name, vm.FirstFailing name e := by
  refine ⟨firstFailing_of_readVariables, ?_⟩
  rintro ⟨name, hfirst⟩
  cases hvalues : vm.readVariables with
  | ok values =>
    obtain ⟨value, hread⟩ := (shows_of_readVariables hvalues).readable hfirst.declared
    cases hfirst.fails.symm.trans hread
  | error other =>
    obtain ⟨_, hother⟩ := firstFailing_of_readVariables hvalues
    rw [hother.unique hfirst]

theorem readVariables_eq_ok_iff {vm : Vm σ} : (∃ values, vm.readVariables = .ok values) ↔
    ∀ name ∈ vm.declared, ∃ value, vm.readVariable name = .ok value := by
  constructor
  · rintro ⟨values, hvalues⟩ name hname
    exact (shows_of_readVariables hvalues).readable hname
  · intro hreads
    cases hvalues : vm.readVariables with
    | ok values => exact ⟨values, rfl⟩
    | error e =>
      obtain ⟨name, hfirst⟩ := firstFailing_of_readVariables hvalues
      obtain ⟨value, hread⟩ := hreads name hfirst.declared
      cases hfirst.fails.symm.trans hread

/-- Whether the next frame has a change to report. -/
def pending (vm : Vm σ) : Bool := vm.machine.soundChanged || vm.machine.display.changed

/-- The virtual machine with no change to report. -/
def told (vm : Vm σ) : Vm σ := vm.setMachine { vm.machine with
  display := { vm.machine.display with changed := false }
  soundChanged := false }

theorem frame_of_ok {vm : Vm σ} {values : List (String × UInt32)}
    (h : vm.readVariables = .ok values) : vm.frame =
      (.ok ⟨vm.cycles, vm.machine.display.screen, vm.machine.buzzer, vm.pending, values⟩,
        vm.told) := by
  rw [frame, h]
  rfl

theorem frame_of_error {vm : Vm σ} {e : Error} (h : vm.readVariables = .error e) :
    vm.frame = (.error e, vm) := by
  rw [frame, h]

theorem frame_eq_ok_iff {vm : Vm σ} {f : Frame} : vm.frame.1 = .ok f ↔
    ∃ values, vm.readVariables = .ok values ∧
      f = ⟨vm.cycles, vm.machine.display.screen, vm.machine.buzzer, vm.pending, values⟩ := by
  cases h : vm.readVariables with
  | ok values => simp [frame_of_ok h, eq_comm]
  | error e => simp [frame_of_error h]

theorem frame_eq_error_iff {vm : Vm σ} {e : Error} :
    vm.frame.1 = .error e ↔ vm.readVariables = .error e := by
  cases h : vm.readVariables with
  | ok values => simp [frame_of_ok h]
  | error other => simp [frame_of_error h]

/-! ## Waiting for the next frame -/

theorem ofFrame_eq_frame_iff {result : Except Error Frame} {f : Frame} :
    Reply.ofFrame result = .frame f ↔ result = .ok f := by
  cases result <;> simp [Reply.ofFrame]

/-- A session in which nothing runs, nothing is reset and no change is reported. -/
structure Idle (vm : Vm σ) (calls : List Call) : Prop where
  rests : ∀ call ∈ calls, call.runs = false
  quiet : vm.Quiet calls

theorem output_idle {calls : List Call} {vm : Vm σ} (h : vm.Idle calls) :
    (vm.session calls).2.machine.output = vm.machine.output := by
  induction calls generalizing vm with
  | nil => rfl
  | cons call calls ih =>
    obtain ⟨hrests, hresets, hreplies⟩ := h
    have hcall := output_call_rests (hrests call (List.mem_cons_self ..))
      (hresets call (List.mem_cons_self ..)) (hreplies _ (List.mem_cons_self ..))
    have hlater : (vm.call call).2.Idle calls :=
      ⟨fun other hother => hrests other (List.mem_cons_of_mem _ hother),
        fun other hother => hresets other (List.mem_cons_of_mem _ hother),
        fun reply hreply => hreplies reply (List.mem_cons_of_mem _ hreply)⟩
    exact (ih hlater).trans hcall

theorem pending_idle {calls : List Call} {vm : Vm σ} (h : vm.Idle calls) :
    (vm.session calls).2.pending = vm.pending :=
  congrArg (fun output : Output => output.soundChanged || output.display.changed) (output_idle h)

/-- A frame is taken exactly if each declared variable can be read by its name. Then it shows what
these readings give, and what is taken is the report of changes alone. Else its error is that of the
first failing name, nothing is taken, and the report waits for the next frame that there is. -/
theorem frame_agrees (vm : Vm σ) :
    ((∃ f, vm.frame.1 = .ok f) ↔
      ∀ name ∈ vm.declared, ∃ value, vm.readVariable name = .ok value) ∧
    (∀ f, vm.frame.1 = .ok f →
      vm.Shows f.values ∧ f.changed = vm.pending ∧ vm.frame.2 = vm.told) ∧
    (∀ e, vm.frame.1 = .error e ↔ ∃ name, vm.FirstFailing name e) ∧
    (∀ e, vm.frame.1 = .error e → vm.frame.2 = vm ∧ ∀ calls f, vm.frame.2.Idle calls →
      (vm.frame.2.session calls).2.frame.1 = .ok f → f.changed = vm.pending) ∧
    ∀ name index, vm.Declares name ⟨.decimal, index⟩ →
      (∀ value, vm.readVariable name = .ok value ↔
        ∃ h : index.toNat + 3 ≤ Layout.memorySize, value.toNat =
          100 * vm.machine.memory.cells[index.toNat].toNat +
            10 * vm.machine.memory.cells[index.toNat + 1].toNat +
            vm.machine.memory.cells[index.toNat + 2].toNat) ∧
      ∀ e, vm.readVariable name = .error e ↔
        4096 < index.toNat + 3 ∧ Error.outOfBounds index.toNat 3 = e := by
  refine ⟨?_, ?_, ?_, ?_, ?_⟩
  · rw [← readVariables_eq_ok_iff]
    simp only [frame_eq_ok_iff]
    exact ⟨fun ⟨_, values, hvalues, _⟩ => ⟨values, hvalues⟩,
      fun ⟨values, hvalues⟩ => ⟨_, values, hvalues, rfl⟩⟩
  · intro f hf
    obtain ⟨values, hvalues, rfl⟩ := frame_eq_ok_iff.mp hf
    exact ⟨shows_of_readVariables hvalues, rfl, congrArg Prod.snd (frame_of_ok hvalues)⟩
  · intro e
    rw [frame_eq_error_iff, readVariables_eq_error_iff]
  · intro e he
    have hsame := frame_eq_of_error he
    refine ⟨hsame, fun calls f hidle hf => ?_⟩
    rw [hsame] at hidle hf
    obtain ⟨values, -, rfl⟩ := frame_eq_ok_iff.mp hf
    exact pending_idle hidle
  · intro name index hdeclares
    rw [readVariable_of_declares hdeclares]
    exact ⟨fun value => Variable.read_decimal_eq_ok_iff,
      fun e => Variable.read_decimal_eq_error_iff⟩

/-! ## A change that waits -/

/-- Two of the variables lie outside the machine. -/
def scattered : Profile where
  rom := "r"
  vars := ⟨[("a", ⟨.decimal, 0xffd⟩), ("z", ⟨.decimal, 18446744073709551615⟩),
    ("é", ⟨.register, 16⟩)], by decide +kernel⟩
  actions := none

def mended : Profile := { scattered with vars := .ofList [("a", ⟨.decimal, 0xffd⟩)] }

/-- The buzzer has changed, and the last bytes of memory are no digits. -/
def beeping : Vm Unit :=
  ((ofRig .standard (.powerOn ⟨fun _ => 0, 0⟩ () (.empty .off))).setMachine { Machine.powerOn with
    memory := Memory.zero.overlay 0xffd [0xff, 0xff, 0xff]
    soundChanged := true }).setProfile scattered

theorem beeping_declared : beeping.declared = ["a", "z", "é"] := rfl

theorem beeping_declares : beeping.Declares "a" ⟨.decimal, 0xffd⟩ :=
  ⟨scattered, rfl, List.mem_cons_self ..⟩

theorem beeping_reads : beeping.readVariable "a" = .ok 28305 := by
  have hbytes : beeping.machine.memory.read 0xffd 3 = .ok [0xff, 0xff, 0xff] :=
    Memory.zero.read_overlay (by decide)
  rw [readVariable_of_declares beeping_declares]
  exact congrArg (Except.map Variable.ofDigits) hbytes

theorem beeping_firstFailing :
    beeping.FirstFailing "z" (.outOfBounds 18446744073709551615 3) where
  declared := by simp [beeping_declared]
  fails := by rfl
  earlier := by
    intro other hother hlt
    rw [beeping_declared] at hother
    obtain rfl | hother := List.mem_cons.mp hother
    · exact ⟨28305, beeping_reads⟩
    -- The other two do not come before the failing one.
    · refine absurd hlt ?_
      revert other
      decide +kernel

def beep : Frame := ⟨0, Display.blankScreen, false, true, [("a", 28305)]⟩

/-- A frame is tried once more before the profile is another one. -/
def mending : List Call := [.frame, .setProfile mended]

theorem beeping_idle : beeping.Idle mending where
  rests := by decide
  quiet := ⟨by decide, by decide +kernel⟩

theorem beeping_mended : (beeping.session mending).2.frame.1 = .ok beep :=
  ofFrame_eq_frame_iff.mp (by decide +kernel)

/-- The change that no frame could report is reported by the first frame that there is. -/
theorem beep_waits :
    beeping.FirstFailing "z" (.outOfBounds 18446744073709551615 3) ∧
    beeping.frame.1 = .error (.outOfBounds 18446744073709551615 3) ∧ beeping.frame.2 = beeping ∧
    beeping.frame.2.Idle mending ∧ (beeping.frame.2.session mending).2.frame.1 = .ok beep ∧
    beep.changed = beeping.pending ∧ (beeping.frame.2.session mending).2.Shows beep.values ∧
    beeping.Declares "a" ⟨.decimal, 0xffd⟩ ∧ beeping.readVariable "a" = .ok 28305 ∧
    ∃ h : (0xffd : UInt64).toNat + 3 ≤ Layout.memorySize, (28305 : UInt32).toNat =
      100 * beeping.machine.memory.cells[(0xffd : UInt64).toNat].toNat +
        10 * beeping.machine.memory.cells[(0xffd : UInt64).toNat + 1].toNat +
        beeping.machine.memory.cells[(0xffd : UInt64).toNat + 2].toNat := by
  obtain ⟨-, -, herror, hleaves, hdecimal⟩ := frame_agrees beeping
  have hfails := (herror _).mpr ⟨"z", beeping_firstFailing⟩
  obtain ⟨hsame, hwaits⟩ := hleaves _ hfails
  have hidle : beeping.frame.2.Idle mending := by
    rw [hsame]
    exact beeping_idle
  have hframe : (beeping.frame.2.session mending).2.frame.1 = .ok beep := by
    rw [hsame]
    exact beeping_mended
  have hshows := ((frame_agrees (beeping.frame.2.session mending).2).2.1 beep hframe).1
  have hvalue := ((hdecimal "a" 0xffd beeping_declares).1 28305).mp beeping_reads
  exact ⟨beeping_firstFailing, hfails, hsame, hidle, hframe, hwaits mending beep hidle hframe,
    hshows, beeping_declares, beeping_reads, hvalue⟩

end Vm

end Chip8
