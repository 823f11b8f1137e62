import Chip8.Proofs.Cycle
import Chip8.Proofs.Step

/-! # What a run executes

Where an instruction is hooked a handler runs in its place, before it or after it. The acts of a
run are all that it executes, instructions and handlers, each with the machine before and after
it, and they lead from the machine at which the run begins to the one that it leaves. An instruction
leaves the keypad alone, so a key that is down stays down until a handler lets it go.
-/

namespace Chip8

structure Act where
  hooked : Bool
  before : Machine
  after : Machine

def Act.LetsGo (key : Fin Layout.keyCount) (act : Act) : Prop :=
  act.hooked = true ∧ act.before.down key = true ∧ act.after.down key = false

/-- An instruction was executed, or it failed and left the machine as it was. -/
def Act.Executes (instr : Instr) (act : Act) : Prop := ∃ roll,
  act.before.exec roll instr = .ok act.after ∨
    (∃ e, act.before.exec roll instr = .error e) ∧ act.after = act.before

/-- A handler was run, whatever it remembered from before. -/
def Act.Handles {σ : Type} (hook? : Option (Hook σ)) (word : UInt16) (act : Act) : Prop :=
  ∃ hook memo, hook? = some hook ∧ (hook.handler word (act.before, memo)).2.1 = act.after

theorem Act.Executes.keypad {instr : Instr} {act : Act} (h : act.Executes instr) :
    act.after.keypad = act.before.keypad := by
  obtain ⟨roll, hexec | ⟨-, hafter⟩⟩ := h
  · exact (Machine.exec_leaves hexec).keypad
  · rw [hafter]

/-- A key is down for each of some acts, unless a handler among those before it has let it go. -/
def HeldIn (key : Fin Layout.keyCount) (acts : List Act) : Prop :=
  ∀ earlier act later, acts = earlier ++ act :: later →
    act.before.down key = true ∨ ∃ other ∈ earlier, other.LetsGo key

namespace HeldIn

variable {key : Fin Layout.keyCount}

theorem nil : HeldIn key [] := by
  intro earlier act later hacts
  simp at hacts

theorem cons {head : Act} {acts : List Act} (hdown : head.before.down key = true)
    (hacts : head.LetsGo key ∨ HeldIn key acts) : HeldIn key (head :: acts) := by
  intro earlier act later hsplit
  cases earlier with
  | nil =>
    obtain ⟨rfl, -⟩ := List.cons.inj hsplit
    exact .inl hdown
  | cons other earlier =>
    obtain ⟨rfl, hrest⟩ := List.cons.inj hsplit
    obtain hgone | hheld := hacts
    · exact .inr ⟨head, List.mem_cons_self, hgone⟩
    · obtain hact | ⟨other, hmem, hother⟩ := hheld earlier act later hrest
      · exact .inl hact
      · exact .inr ⟨other, List.mem_cons_of_mem _ hmem, hother⟩

theorem append {own acts : List Act} (hown : HeldIn key own)
    (hacts : (∃ other ∈ own, other.LetsGo key) ∨ HeldIn key acts) : HeldIn key (own ++ acts) := by
  intro earlier act later hsplit
  obtain ⟨rest, rfl, hrest⟩ | ⟨rest, hown', hrest⟩ := List.append_eq_append_iff.mp hsplit
  · obtain ⟨other, hmem, hother⟩ | hheld := hacts
    · exact .inr ⟨other, List.mem_append_left _ hmem, hother⟩
    · obtain hact | ⟨other, hmem, hother⟩ := hheld rest act later hrest
      · exact .inl hact
      · exact .inr ⟨other, List.mem_append_right _ hmem, hother⟩
  · cases rest with
    | nil =>
      obtain ⟨other, hmem, hother⟩ | hheld := hacts
      · exact .inr ⟨other, by simpa [hown'] using hmem, hother⟩
      · obtain hact | ⟨other, hmem, -⟩ := hheld [] act later (by simpa using hrest.symm)
        · exact .inl hact
        · cases hmem
    | cons head rest =>
      obtain ⟨rfl, -⟩ := List.cons.inj hrest
      exact hown earlier act rest hown'

end HeldIn

section Runs

variable {σ : Type} {hooks : HookTable σ}

/-- Acts that run for the instruction of a word lead from one machine to another: each finds the
machine as the one before has left it, and executes the instruction or runs its hook. -/
inductive Linked (hooks : HookTable σ) (word : UInt16) (instr : Instr) :
    Machine → List Act → Machine → Prop
  | nil (m : Machine) : Linked hooks word instr m [] m
  | cons {act : Act} {acts : List Act} {last : Machine}
      (hown : act.hooked = false → act.Executes instr)
      (hhook : act.hooked = true → act.Handles (hooks.hook? instr.opcode) word)
      (hacts : Linked hooks word instr act.after acts last) :
      Linked hooks word instr act.before (act :: acts) last

namespace Linked

variable {word : UInt16} {instr : Instr} {first last : Machine} {acts : List Act}

theorem held (h : Linked hooks word instr first acts last) {key : Fin Layout.keyCount}
    (hdown : first.down key = true) :
    HeldIn key acts ∧ (last.down key = true ∨ ∃ other ∈ acts, other.LetsGo key) := by
  induction h with
  | nil => exact ⟨.nil, .inl hdown⟩
  | @cons head rest _ hown _ _ ih =>
    -- The line passes the first act, or this is the handler that lets it go.
    cases hafter : head.after.down key with
    | true =>
      obtain ⟨hheld, hlast⟩ := ih hafter
      refine ⟨.cons hdown (.inr hheld), hlast.imp_right ?_⟩
      rintro ⟨other, hmem, hother⟩
      exact ⟨other, List.mem_cons_of_mem _ hmem, hother⟩
    | false =>
      have hhooked : head.hooked = true := by
        cases hplain : head.hooked with
        | true => rfl
        | false =>
          have hkept := Machine.ext_down.mp (hown hplain).keypad key
          exact absurd (hafter.symm.trans (hkept.trans hdown)) Bool.false_ne_true
      have hgone : head.LetsGo key := ⟨hhooked, hdown, hafter⟩
      exact ⟨.cons hdown (.inl hgone), .inr ⟨head, List.mem_cons_self, hgone⟩⟩

theorem plain (h : Linked hooks word instr first acts last)
    (hnone : hooks.hook? instr.opcode = none) : ∀ act ∈ acts, act.hooked = false := by
  induction h with
  | nil => simp
  | cons _ hhook _ ih =>
    refine List.forall_mem_cons.mpr ⟨?_, ih⟩
    apply Bool.eq_false_iff.mpr
    intro hhooked
    obtain ⟨hook, memo, hsome, -⟩ := hhook hhooked
    cases hnone.symm.trans hsome

end Linked

/-- A run leads from one machine to another: words are fetched one after the other, and acts run for
each of them that is an instruction. -/
inductive Leads (hooks : HookTable σ) : Machine → List Act → Machine → Prop
  | nil (m : Machine) : Leads hooks m [] m
  | skipped {m next last : Machine} {word : UInt16} {acts : List Act}
      (hword : m.fetch = .ok (word, next)) (hnone : Instr.decode? word = none)
      (hacts : Leads hooks next acts last) : Leads hooks m acts last
  | executed {m next middle last : Machine} {word : UInt16} {instr : Instr} {own acts : List Act}
      (hword : m.fetch = .ok (word, next)) (hinstr : Instr.decode? word = some instr)
      (hown : Linked hooks word instr next own middle) (hne : own ≠ [])
      (hacts : Leads hooks middle acts last) : Leads hooks m (own ++ acts) last

namespace Leads

variable {first middle last : Machine} {acts later : List Act}

theorem append (h : Leads hooks first acts middle) (hlater : Leads hooks middle later last) :
    Leads hooks first (acts ++ later) last := by
  induction h with
  | nil => exact hlater
  | skipped hword hnone _ ih => exact .skipped hword hnone (ih hlater)
  | executed hword hinstr hown hne _ ih =>
    rw [List.append_assoc]
    exact .executed hword hinstr hown hne (ih hlater)

theorem held (h : Leads hooks first acts last) {key : Fin Layout.keyCount}
    (hdown : first.down key = true) : HeldIn key acts := by
  induction h with
  | nil => exact .nil
  | skipped hword _ _ ih =>
    obtain ⟨-, rfl⟩ := Machine.fetch_eq_ok_iff.mp hword
    exact ih hdown
  | executed hword _ hown _ _ ih =>
    obtain ⟨-, rfl⟩ := Machine.fetch_eq_ok_iff.mp hword
    obtain ⟨hheld, hlast⟩ := hown.held hdown
    exact hheld.append (hlast.symm.imp_right ih)

theorem plain (h : Leads hooks first acts last) (hnone : ∀ op, hooks.hook? op = none) :
    ∀ act ∈ acts, act.hooked = false := by
  induction h with
  | nil => simp
  | skipped _ _ _ ih => exact ih
  | @executed _ _ _ _ _ instr _ _ _ _ hown _ _ ih =>
    exact List.forall_mem_append.mpr ⟨hown.plain (hnone instr.opcode), ih⟩

end Leads

end Runs

/-- One of the things that run for a word: the instruction itself, or its hook. -/
inductive Stage (σ : Type)
  | own (instr : Instr)
  | hook (handler : Handler σ)

namespace Stage

variable {σ : Type}

def hooked : Stage σ → Bool
  | own _ => false
  | hook _ => true

def run (word : UInt16) : Stage σ → Rig σ → Outcome (Rig σ)
  | own instr => Rig.runInstr instr
  | hook handler => Rig.runHandler handler word

def act (word : UInt16) (stage : Stage σ) (rig : Rig σ) : Act :=
  ⟨stage.hooked, rig.machine, (stage.run word rig).2.machine⟩

def runAll (word : UInt16) : List (Stage σ) → Rig σ → Outcome (Rig σ)
  | [], rig => (.ok (), rig)
  | stage :: stages, rig => (stage.run word rig).andThen (runAll word stages)

theorem runAll_cons (word : UInt16) (stage : Stage σ) (stages : List (Stage σ)) (rig : Rig σ) :
    runAll word (stage :: stages) rig = (stage.run word rig).andThen (runAll word stages) := rfl

theorem runAll_singleton (word : UInt16) (stage : Stage σ) :
    runAll word [stage] = stage.run word := by
  funext rig
  rw [runAll_cons]
  match stage.run word rig with
  | (.ok (), next) => rfl
  | (.error e, next) => rfl

/-- What stages execute, up to the first that fails and with it. -/
def acts (word : UInt16) : List (Stage σ) → Rig σ → List Act
  | [], _ => []
  | stage :: stages, rig =>
    stage.act word rig ::
      match stage.run word rig with
      | (.ok (), next) => acts word stages next
      | (.error _, _) => []

theorem run_leaves (word : UInt16) (stage : Stage σ) (rig : Rig σ) :
    ∃ machine dice memo, (stage.run word rig).2 = { rig with machine, dice, memo } := by
  cases stage with
  | hook handler => exact ⟨_, rig.dice, _, rfl⟩
  | own instr =>
    simp only [run, Rig.runInstr]
    cases rig.machine.exec rig.dice.top instr with
    | ok machine => exact ⟨machine, _, rig.memo, rfl⟩
    | error e => exact ⟨rig.machine, rig.dice, rig.memo, rfl⟩

theorem runAll_leaves (word : UInt16) (stages : List (Stage σ)) (rig : Rig σ) :
    ∃ machine dice memo, (runAll word stages rig).2 = { rig with machine, dice, memo } := by
  induction stages generalizing rig with
  | nil => exact ⟨rig.machine, rig.dice, rig.memo, rfl⟩
  | cons stage stages ih =>
    obtain ⟨machine, dice, memo, hfirst⟩ := run_leaves word stage rig
    rw [runAll_cons]
    generalize stage.run word rig = outcome at hfirst
    obtain ⟨result, next⟩ := outcome
    obtain rfl : next = _ := hfirst
    cases result with
    | ok _ => exact ih { rig with machine, dice, memo }
    | error e => exact ⟨machine, dice, memo, rfl⟩

/-- What may run for an instruction: the instruction, and the handler that hooks it. -/
def Serves (hooks : HookTable σ) (instr : Instr) : Stage σ → Prop
  | own other => other = instr
  | hook handler => ∃ kind, hooks.hook? instr.opcode = some ⟨kind, handler⟩

theorem executes_act {instr : Instr} (word : UInt16) (rig : Rig σ) :
    ((own instr).act word rig).Executes instr := by
  refine ⟨rig.dice.top, ?_⟩
  simp only [act, run, Rig.runInstr]
  cases rig.machine.exec rig.dice.top instr with
  | error e => exact .inr ⟨⟨e, rfl⟩, rfl⟩
  | ok next => exact .inl rfl

theorem linked_cons {hooks : HookTable σ} {word : UInt16} {instr : Instr} {stage : Stage σ}
    (hserves : stage.Serves hooks instr) {rig : Rig σ} {acts : List Act} {last : Machine}
    (hacts : Linked hooks word instr (stage.act word rig).after acts last) :
    Linked hooks word instr rig.machine (stage.act word rig :: acts) last := by
  cases stage with
  | own other =>
    obtain rfl : other = instr := hserves
    refine .cons ?_ ?_ hacts
    · exact fun _ => executes_act word rig
    · intro hhooked
      cases hhooked
  | hook handler =>
    obtain ⟨kind, hkind⟩ := hserves
    refine .cons ?_ ?_ hacts
    · intro hplain
      cases hplain
    · exact fun _ => ⟨⟨kind, handler⟩, rig.memo, hkind, rfl⟩

theorem linked_acts {hooks : HookTable σ} {word : UInt16} {instr : Instr} {stages : List (Stage σ)}
    (hstages : ∀ stage ∈ stages, stage.Serves hooks instr) (rig : Rig σ) :
    Linked hooks word instr rig.machine (acts word stages rig)
      (runAll word stages rig).2.machine := by
  induction stages generalizing rig with
  | nil => exact .nil _
  | cons stage stages ih =>
    obtain ⟨hserves, hrest⟩ := List.forall_mem_cons.mp hstages
    rw [acts, runAll]
    apply linked_cons hserves
    rw [act]
    generalize stage.run word rig = outcome
    obtain ⟨result, next⟩ := outcome
    cases result with
    | ok _ => exact ih hrest next
    | error e => exact .nil _

end Stage

namespace Rig

variable {σ : Type}

def stages (rig : Rig σ) (instr : Instr) : List (Stage σ) :=
  match rig.hooks.hook? instr.opcode with
  | none => [.own instr]
  | some ⟨.replace, handler⟩ => [.hook handler]
  | some ⟨.before, handler⟩ => [.hook handler, .own instr]
  | some ⟨.after, handler⟩ => [.own instr, .hook handler]

theorem execute_eq_runAll {word : UInt16} {instr : Instr} (hinstr : Instr.decode? word = some instr)
    (rig : Rig σ) : rig.execute word = Stage.runAll word (rig.stages instr) rig := by
  simp only [execute, hinstr, stages]
  match rig.hooks.hook? instr.opcode with
  | none | some ⟨.replace, _⟩ => simp only [Stage.runAll_singleton, Stage.run]
  | some ⟨.before, _⟩ | some ⟨.after, _⟩ =>
    simp only [Stage.runAll_cons, Stage.runAll_singleton, Stage.run]

theorem serves_stages {rig : Rig σ} {instr : Instr} :
    ∀ stage ∈ rig.stages instr, stage.Serves rig.hooks instr := by
  intro stage hstage
  cases hhook : rig.hooks.hook? instr.opcode with
  | none =>
    simp only [stages, hhook, List.mem_singleton] at hstage
    exact hstage ▸ rfl
  | some hook =>
    obtain ⟨kind, handler⟩ := hook
    have hmem : stage = .own instr ∨ stage = .hook handler := by
      cases kind <;> simp [stages, hhook] at hstage <;> simp [hstage, or_comm]
    obtain rfl | rfl := hmem
    · rfl
    · exact ⟨kind, hhook⟩

theorem acts_stages_ne_nil (word : UInt16) (instr : Instr) (rig : Rig σ) :
    Stage.acts word (rig.stages instr) rig ≠ [] := by
  unfold stages
  split <;> exact List.cons_ne_nil _ _

/-- Where a step stands when it has fetched a word. -/
def begun (rig : Rig σ) (word : UInt16) : Rig σ :=
  { rig with machine := rig.machine.fetched }.record (.executing rig.machine.pc word)

theorem execute_leaves (word : UInt16) (rig : Rig σ) :
    ∃ machine dice memo, (rig.execute word).2 = { rig with machine, dice, memo } := by
  cases hinstr : Instr.decode? word with
  | none => exact ⟨rig.machine, rig.dice, rig.memo, by simp only [execute, hinstr]⟩
  | some instr =>
    rw [execute_eq_runAll hinstr]
    exact Stage.runAll_leaves word _ rig

/-- A step leaves what executing its word leaves, but for what it notes in the journal. -/
theorem step_leaves_executed {rig : Rig σ} {word : UInt16}
    (hword : rig.machine.fetch = .ok (word, rig.machine.fetched)) : ∃ journal,
    rig.step.2 = { ((rig.begun word).execute word).2 with journal } := by
  simp only [step, hword, begun]
  match execute word ({ rig with machine := rig.machine.fetched }.record
    (.executing rig.machine.pc word)) with
  | (.ok (), next) => exact ⟨next.journal, next.checkBreak_snd⟩
  | (.error e, next) =>
    cases e with
    | unknownOpcode other => exact ⟨_, checkBreak_snd _⟩
    | _ => exact ⟨next.journal, rfl⟩

theorem step_leaves (rig : Rig σ) : ∃ machine dice memo journal,
    rig.step.2 = { rig with machine, dice, memo, journal } := by
  cases hword : rig.machine.fetch with
  | error e =>
    refine ⟨rig.machine, rig.dice, rig.memo, rig.journal, ?_⟩
    simp only [step, hword]
  | ok result =>
    obtain ⟨word, next⟩ := result
    obtain ⟨-, rfl⟩ := Machine.fetch_eq_ok_iff.mp hword
    obtain ⟨journal, hstep⟩ := step_leaves_executed hword
    obtain ⟨machine, dice, memo, hexec⟩ := (rig.begun word).execute_leaves word
    refine ⟨machine, dice, memo, journal, ?_⟩
    rw [hstep, hexec]
    rfl

theorem hooks_step (rig : Rig σ) : rig.step.2.hooks = rig.hooks := by
  obtain ⟨machine, dice, memo, journal, hstep⟩ := rig.step_leaves
  rw [hstep]

def stepActs (rig : Rig σ) : List Act :=
  match rig.machine.fetch with
  | .error _ => []
  | .ok (word, _) =>
    match Instr.decode? word with
    | none => []
    | some instr => Stage.acts word ((rig.begun word).stages instr) (rig.begun word)

/-- What a number of steps execute, up to the first that fails and with it. -/
def acts : Nat → Rig σ → List Act
  | 0, _ => []
  | count + 1, rig =>
    rig.stepActs ++
      match rig.step with
      | (.ok (), next) => acts count next
      | (.error _, _) => []

theorem leads_stepActs (rig : Rig σ) :
    Leads rig.hooks rig.machine rig.stepActs rig.step.2.machine := by
  unfold stepActs
  cases hword : rig.machine.fetch with
  | error e =>
    simp only [step, hword]
    exact .nil _
  | ok result =>
    obtain ⟨word, next⟩ := result
    obtain ⟨-, rfl⟩ := Machine.fetch_eq_ok_iff.mp hword
    obtain ⟨journal, hstep⟩ := step_leaves_executed hword
    rw [hstep]
    cases hinstr : Instr.decode? word with
    | none =>
      simp only [hinstr, execute]
      exact .skipped hword hinstr (.nil _)
    | some instr =>
      simp only [hinstr, execute_eq_runAll hinstr]
      have hown : Linked rig.hooks word instr rig.machine.fetched
          (Stage.acts word ((rig.begun word).stages instr) (rig.begun word)) _ :=
        Stage.linked_acts serves_stages (rig.begun word)
      have hne := (rig.begun word).acts_stages_ne_nil word instr
      rw [← List.append_nil (Stage.acts word _ _)]
      exact .executed hword hinstr hown hne (.nil _)

theorem leads_acts (count : Nat) (rig : Rig σ) :
    Leads rig.hooks rig.machine (rig.acts count) (steps count rig).2.machine := by
  induction count generalizing rig with
  | zero => exact .nil _
  | succ count ih =>
    have hstep := rig.leads_stepActs
    have hhooks := rig.hooks_step
    rw [acts, steps]
    generalize rig.step = outcome at hstep hhooks ⊢
    obtain ⟨result, next⟩ := outcome
    cases result with
    | ok _ =>
      have hlater := ih next
      rw [hhooks] at hlater
      exact hstep.append hlater
    | error e => exact hstep.append (.nil _)

end Rig

end Chip8
