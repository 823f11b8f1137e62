import Chip8.Proofs.Calls
import Chip8.Proofs.Hooks

/-! # Hooks that only observe

A hook that runs before or after its instruction, never fails and leaves the machine alone changes
nothing that can be seen: a session goes as it does where nothing is hooked. What the handlers have
in memory at its end is what they have noted of the steps of the session, one after the other.
-/

namespace Chip8

/-- A hook that runs beside its instruction, never fails, and leaves the machine as it is. -/
structure Hook.Observes {σ : Type} (hook : Hook σ) : Prop where
  kind : hook.kind ≠ .replace
  passive : ∀ word m memo, ∃ after, hook.handler word (m, memo) = (.ok (), m, after)

namespace HookTable

variable {σ : Type}

def Observing (table : HookTable σ) : Prop :=
  ∀ op hook, table.hook? op = some hook → hook.Observes

theorem empty_observing : (empty : HookTable σ).Observing := by
  intro op hook hhook
  cases hhook

theorem Observing.set {table : HookTable σ} (htable : table.Observing) (op : Opcode)
    {hook : Hook σ} (hhook : hook.Observes) : (table.set op hook).Observing := by
  intro other found hfound
  rw [hook?_set] at hfound
  split at hfound
  case isTrue =>
    cases hfound
    exact hhook
  case isFalse => exact htable other found hfound

end HookTable

/-- A call of the handler that is set on an opcode. -/
structure Notice (σ : Type) where
  op : Opcode
  handler : Handler σ
  word : UInt16
  machine : Machine

namespace Notice

variable {σ : Type}

def tell (memo : σ) (notice : Notice σ) : σ :=
  (notice.handler notice.word (notice.machine, memo)).2.2

def tellAll (notices : List (Notice σ)) (memo : σ) : σ := notices.foldl tell memo

theorem tellAll_append (notices later : List (Notice σ)) (memo : σ) :
    tellAll (notices ++ later) memo = tellAll later (tellAll notices memo) :=
  List.foldl_append

end Notice

namespace Machine

variable {m : Machine} {w : UInt16} {op : Opcode}

/-- Whether nothing keeps the next instruction from being done. -/
def completes (m : Machine) : Bool := (m.step 0).1.isOk

theorem Upcoming.fault_iff {roll : UInt8} {e : Error} (h : m.Upcoming w op) :
    m.Fault e ↔ m.fetched.exec roll (.ofOpcode w op) = .error e :=
  ⟨fun hfault => exec_eq_error_iff.mpr (h.fault?_of_fault hfault),
    fun hexec => h.fault_of_fault? (exec_eq_error_iff.mp hexec)⟩

theorem Upcoming.completes_eq (h : m.Upcoming w op) (roll : UInt8) :
    m.completes = (m.fetched.exec roll (.ofOpcode w op)).isOk := by
  have hfault : ∀ e, (m.step 0).1 = .error e ↔ m.fetched.exec roll (.ofOpcode w op) = .error e :=
    fun _ => step_eq_error_iff.trans h.fault_iff
  unfold completes
  cases hstep : (m.step 0).1 with
  | error e =>
    rw [(hfault e).mp hstep]
    rfl
  | ok _ =>
    cases hexec : m.fetched.exec roll (.ofOpcode w op) with
    | ok _ => rfl
    | error e => cases hstep.symm.trans ((hfault e).mpr hexec)

end Machine

namespace Hook

variable {σ : Type}

def isDue (m : Machine) (hook : Hook σ) : Bool := hook.kind ≠ .after || m.completes

end Hook

namespace HookTable

variable {σ : Type}

/-- The opcode whose hook is run in the next step. -/
def due? (table : HookTable σ) (m : Machine) : Option Opcode :=
  m.opcode?.filter fun op => (table.hook? op).any (·.isDue m)

theorem due?_eq_some_iff {table : HookTable σ} {op : Opcode} {hook : Hook σ} {m : Machine}
    (hhook : table.hook? op = some hook) :
    table.due? m = some op ↔ m.opcode? = some op ∧ hook.isDue m = true := by
  rw [due?, Option.filter_eq_some_iff, hhook]
  rfl

end HookTable

namespace Rig

variable {σ : Type}

def watched (table : HookTable σ) (memo : σ) (rig : Rig σ) : Rig σ :=
  { rig with hooks := table, memo }

/-- What a handler is told when a word is executed. -/
def executeNotice? (table : HookTable σ) (word : UInt16) (rig : Rig σ) : Option (Notice σ) :=
  match Opcode.decode? word with
  | none => none
  | some op =>
    match table.hook? op with
    | some ⟨.before, handler⟩ => some ⟨op, handler, word, rig.machine⟩
    | some ⟨.after, handler⟩ =>
      match runInstr (.ofOpcode word op) rig with
      | (.ok (), next) => some ⟨op, handler, word, next.machine⟩
      | (.error _, _) => none
    | _ => none

def notice? (table : HookTable σ) (rig : Rig σ) : Option (Notice σ) :=
  match rig.machine.fetch with
  | .error _ => none
  | .ok (word, _) => executeNotice? table word (rig.begun word)

/-- The first rig is the second one, which has no hooks, with hooks set on it. -/
structure Watches (table : HookTable σ) (memo : σ) (r s : Rig σ) : Prop where
  eq : r = s.watched table memo
  bare : s.hooks = .empty

variable {table : HookTable σ} {memo : σ} {r s : Rig σ}

theorem Watches.machine (h : Watches table memo r s) : r.machine = s.machine := by
  rw [h.eq]
  rfl

theorem watches_likeness (table : HookTable σ) (memo : σ) : Likeness (Watches table memo) id := by
  constructor
  case change =>
    rintro _ s ⟨rfl, hbare⟩ c
    refine ⟨?_, (s.hooks_change c).trans hbare⟩
    cases c with
    | setBreak addr =>
      by_cases haddr : addr ∈ s.breakpoints <;> simp [change, setBreak, watched, haddr]
    | powerOn => simp only [change, watched]
    | _ => rfl
  all_goals
    rintro _ s ⟨rfl, -⟩
    intros
    rfl

theorem runInstr_both (h : Watches table memo r s) (instr : Instr) :
    Outcome.Both (Watches table memo) (runInstr instr r) (runInstr instr s) := by
  obtain ⟨rfl, hbare⟩ := h
  simp only [runInstr, watched]
  cases s.machine.exec s.dice.top instr with
  | ok machine => exact ⟨rfl, rfl, hbare⟩
  | error e => exact ⟨rfl, rfl, hbare⟩

theorem runHandler_of_watches (htable : table.Observing) {op : Opcode} {kind : HookKind}
    {handler : Handler σ} (hhook : table.hook? op = some ⟨kind, handler⟩)
    (h : Watches table memo r s) (word : UInt16) :
    ∃ next, runHandler handler word r = (.ok (), next) ∧
      Watches table (Notice.tell memo ⟨op, handler, word, s.machine⟩) next s := by
  obtain ⟨rfl, hbare⟩ := h
  obtain ⟨after, hafter⟩ := (htable _ _ hhook).passive word s.machine memo
  have hcalled : handler word (s.machine, memo) = (.ok (), s.machine, after) := hafter
  refine ⟨s.watched table after, ?_, ?_, hbare⟩
  · simp only [runHandler, watched, hcalled]
  · simp only [Notice.tell, hcalled]

theorem execute_both (htable : table.Observing) (h : Watches table memo r s) (word : UInt16) :
    Outcome.Both (Watches table (Notice.tellAll (s.executeNotice? table word).toList memo))
      (r.execute word) (s.execute word) := by
  cases hop : Opcode.decode? word with
  | none =>
    rw [execute_of_unknown hop, execute_of_unknown hop]
    simp only [executeNotice?, hop]
    exact ⟨rfl, h⟩
  | some op =>
    have hown : s.execute word = runInstr (.ofOpcode word op) s := by
      rw [execute_eq_iff hop, h.bare]
      exact .own s
    have hset : r.hooks.hook? op = table.hook? op := by
      rw [h.eq]
      rfl
    have hexec : Executes word op (table.hook? op) r (r.execute word) :=
      hset ▸ (execute_eq_iff hop).mp rfl
    rw [hown]
    simp only [executeNotice?, hop]
    generalize r.execute word = outcome at hexec
    -- The instruction runs once on either side; what is left is what the handler has noted of it.
    match hhook : table.hook? op, hexec with
    | _, .own _ => exact runInstr_both h _
    | _, .replaced handler _ => exact absurd rfl (htable _ _ hhook).kind
    | _, .before hhandler =>
      obtain ⟨next, hnext, hwatches⟩ := runHandler_of_watches htable hhook h word
      cases hnext.symm.trans hhandler
      exact runInstr_both hwatches _
    | _, .refused hhandler =>
      obtain ⟨next, hnext, -⟩ := runHandler_of_watches htable hhook h word
      cases hnext.symm.trans hhandler
    | some ⟨_, handler⟩, .after hown =>
      obtain ⟨result, _, next, hr, hs, hwatches⟩ := (runInstr_both h (.ofOpcode word op)).exists_eq
      cases hown.symm.trans hr
      obtain ⟨last, hlast, hafter⟩ := runHandler_of_watches htable hhook hwatches word
      rw [hs, hlast]
      exact ⟨rfl, hafter⟩
    | _, .failed hown =>
      obtain ⟨result, _, next, hr, hs, hwatches⟩ := (runInstr_both h (.ofOpcode word op)).exists_eq
      cases hown.symm.trans hr
      rw [hs]
      exact ⟨rfl, hwatches⟩

theorem step_of_watches (htable : table.Observing) (h : Watches table memo r s) :
    Outcome.Both (Watches table (Notice.tellAll (s.notice? table).toList memo)) r.step s.step := by
  rw [notice?]
  cases hfetch : s.machine.fetch with
  | error e =>
    simp only [step, h.machine, hfetch]
    exact ⟨rfl, h⟩
  | ok fetched =>
    obtain ⟨word, machine⟩ := fetched
    obtain ⟨-, rfl⟩ := Machine.fetch_eq_ok_iff.mp hfetch
    have hbegun : Watches table memo (r.begun word) (s.begun word) := by
      obtain ⟨rfl, hbare⟩ := h
      exact ⟨rfl, hbare⟩
    have hfetch' : r.machine.fetch = .ok (word, r.machine.fetched) := by rw [h.machine, hfetch]
    obtain ⟨result, left, right, hr, hs, heq, hbare⟩ :=
      (execute_both htable hbegun word).exists_eq
    subst heq
    rw [step_of_fetch hfetch, step_of_fetch hfetch', h.machine, hr, hs]
    cases result with
    | ok _ => exact checkBreak_both ⟨rfl, hbare⟩ rfl rfl rfl
    | error e =>
      cases e with
      | unknownOpcode other => exact checkBreak_both ⟨rfl, hbare⟩ rfl rfl rfl
      | _ => exact ⟨rfl, rfl, hbare⟩

theorem map_op_notice? (htable : table.Observing) (rig : Rig σ) :
    (rig.notice? table).map Notice.op = table.due? rig.machine := by
  unfold notice? HookTable.due?
  cases hfetch : rig.machine.fetch with
  | error e =>
    obtain ⟨hpc, -⟩ := Machine.fetch_eq_error_iff.mp hfetch
    rw [Machine.opcode?_of_outside hpc]
    rfl
  | ok fetched =>
    obtain ⟨word, machine⟩ := fetched
    obtain ⟨hword, rfl⟩ := Machine.fetch_eq_ok_iff.mp hfetch
    cases hop : Opcode.decode? word with
    | none =>
      simp only [executeNotice?, hop, Machine.opcode?_of_unknown hword hop]
      rfl
    | some op =>
      have hnext : rig.machine.Upcoming word op := ⟨hword, Opcode.decode_eq_ok_iff.mpr hop⟩
      simp only [executeNotice?, hop, hnext.opcode?_eq, Option.filter_some]
      match hhook : table.hook? op with
      | none => rfl
      | some ⟨.before, handler⟩ => rfl
      | some ⟨.replace, handler⟩ => exact absurd rfl (htable _ _ hhook).kind
      | some ⟨.after, handler⟩ =>
        have hcompletes := hnext.completes_eq rig.dice.top
        simp only [Option.any_some, Hook.isDue, hcompletes, runInstr, begun, record]
        cases rig.machine.fetched.exec rig.dice.top (.ofOpcode word op) <;> rfl

theorem hook?_of_executeNotice? {word : UInt16} {rig : Rig σ} {notice : Notice σ}
    (h : rig.executeNotice? table word = some notice) :
    ∃ kind, table.hook? notice.op = some ⟨kind, notice.handler⟩ := by
  cases hop : Opcode.decode? word with
  | none =>
    simp only [executeNotice?, hop] at h
    cases h
  | some op =>
    simp only [executeNotice?, hop] at h
    split at h
    case h_1 hhook =>
      cases h
      exact ⟨.before, hhook⟩
    case h_2 hhook =>
      generalize runInstr (.ofOpcode word op) rig = outcome at h
      obtain ⟨_ | _, next⟩ := outcome
      · cases h
      · cases h
        exact ⟨.after, hhook⟩
    case h_3 => cases h

theorem hook?_of_notice? {rig : Rig σ} {notice : Notice σ}
    (h : rig.notice? table = some notice) :
    ∃ kind, table.hook? notice.op = some ⟨kind, notice.handler⟩ := by
  unfold notice? at h
  split at h
  case h_1 => cases h
  case h_2 => exact hook?_of_executeNotice? h

theorem tellAll_cons (rig : Rig σ) (rigs : List (Rig σ)) (memo : σ) :
    Notice.tellAll ((rig :: rigs).filterMap (notice? table)) memo =
      Notice.tellAll (rigs.filterMap (notice? table))
        (Notice.tellAll (rig.notice? table).toList memo) := by
  rw [List.filterMap_cons]
  cases rig.notice? table <;> rfl

theorem steps_of_watches (htable : table.Observing) (count : Nat) (h : Watches table memo r s) :
    Outcome.Both
      (Watches table (Notice.tellAll ((starts count s).filterMap (notice? table)) memo))
      (steps count r) (steps count s) ∧
    visited count r = visited count s := by
  induction count generalizing r s memo with
  | zero => exact ⟨⟨rfl, h⟩, rfl⟩
  | succ count ih =>
    obtain ⟨result, left, right, hr, hs, hnext⟩ := (step_of_watches htable h).exists_eq
    rw [steps, steps, visited_succ, visited_succ, starts, h.machine, hr, hs]
    cases result with
    | ok _ =>
      obtain ⟨hsteps, hvisited⟩ := ih hnext
      rw [tellAll_cons]
      exact ⟨hsteps, congrArg (s.machine :: ·) hvisited⟩
    | error e =>
      rw [tellAll_cons]
      exact ⟨⟨rfl, hnext⟩, rfl⟩

end Rig

namespace Vm

variable {σ : Type}

def watched (table : HookTable σ) (memo : σ) (vm : Vm σ) : Vm σ :=
  { vm with rig := vm.rig.watched table memo }

/-- What the handlers of a table are told in the course of a session. -/
def notices (table : HookTable σ) (calls : List Call) (vm : Vm σ) : List (Notice σ) :=
  (vm.starts calls).filterMap (Rig.notice? table)

variable {table : HookTable σ} {memo : σ} {v w : Vm σ}

theorem cycle_of_watches (htable : table.Observing) (h : Alike (Rig.Watches table memo) v w) :
    Outcome.Both (Alike (Rig.Watches table
        (Notice.tellAll (w.cycleStarts.filterMap (Rig.notice? table)) memo))) v.cycle w.cycle ∧
      v.cycleVisited = w.cycleVisited := by
  have hpressed : ∀ {key? queue}, Pops w.queue key? queue →
      Rig.Watches table memo (v.rig.hold key? true) (w.rig.hold key? true) :=
    fun _ => (Rig.watches_likeness table memo).change h.rig (.hold _ true)
  constructor
  · refine h.cycle_of_steps (Rig.watches_likeness _ _) ?_ ?_
    · intro key? queue hpop
      rw [cycleStarts, pressed?_of_pops hpop]
      exact (Rig.steps_of_watches htable _ (hpressed hpop)).1
    · intro hnone
      rw [cycleStarts, hnone]
      exact h.rig
  · obtain ⟨key?, queue, hpop⟩ | ⟨key, queue, hqueue, hkey⟩ := pops_or_refused w.queue
    · have hpop' : Pops v.queue key? queue := h.queue ▸ hpop
      rw [cycleVisited_of_pops hpop, cycleVisited_of_pops hpop', h.flags]
      exact (Rig.steps_of_watches htable _ (hpressed hpop)).2
    · have hqueue' : v.queue = key :: queue := h.queue.trans hqueue
      rw [cycleVisited_of_refused hqueue hkey, cycleVisited_of_refused hqueue' hkey]

theorem call_of_watches (htable : table.Observing) (h : Alike (Rig.Watches table memo) v w)
    (call : Call) : AlikeReplies (Rig.Watches table
        (Notice.tellAll ((w.callStarts call).filterMap (Rig.notice? table)) memo)) id
      (v.call call) (w.call call) ∧
      v.callVisited call = w.callVisited call := by
  cases call with
  | cycle =>
    obtain ⟨hcycle, hvisited⟩ := cycle_of_watches htable h
    exact ⟨alikeReplies_of_both hcycle, hvisited⟩
  | nextFrame =>
    obtain ⟨hcycle, hvisited⟩ := cycle_of_watches htable h
    exact ⟨Alike.nextFrame (Rig.watches_likeness _ _) hcycle, hvisited⟩
  | _ => exact ⟨h.call (Rig.watches_likeness _ _) rfl, rfl⟩

theorem Alike.eq_watched (h : Alike (Rig.Watches table memo) v w) : v = w.watched table memo := by
  obtain ⟨hrig, hflags, hprofile, hqueue, hcycles⟩ := h
  cases v
  cases w
  cases hflags
  cases hprofile
  cases hqueue
  cases hcycles
  cases hrig.eq
  rfl

theorem session_of_watches (htable : table.Observing) (h : Alike (Rig.Watches table memo) v w)
    (calls : List Call) :
    (v.session calls).1 = (w.session calls).1 ∧
      Alike (Rig.Watches table (Notice.tellAll (w.notices table calls) memo))
        (v.session calls).2 (w.session calls).2 ∧
      v.visited calls = w.visited calls := by
  unfold notices
  induction calls generalizing v w memo with
  | nil => exact ⟨rfl, h, rfl⟩
  | cons call calls ih =>
    obtain ⟨⟨hreply, hafter⟩, hhere⟩ := call_of_watches htable h call
    obtain ⟨hreplies, hlast, hlater⟩ := ih hafter
    rw [starts, List.filterMap_append, visited_cons, visited_cons, hhere, hlater,
      Notice.tellAll_append]
    exact ⟨List.cons_eq_cons.mpr ⟨hreply, hreplies⟩, hlast, rfl⟩

theorem map_op_notices (htable : table.Observing) (calls : List Call) (vm : Vm σ) :
    (vm.notices table calls).map Notice.op =
      (vm.visited calls).filterMap table.due? := by
  rw [notices, visited, List.map_filterMap, List.filterMap_map]
  exact congrArg (List.filterMap · _) (funext (Rig.map_op_notice? htable))

/-- What a session with observers comes to, beside the same session without them. -/
structure Observed (table : HookTable σ) (memo : σ) (vm : Vm σ) (calls : List Call) : Prop where
  replies : ((vm.watched table memo).session calls).1 = (vm.session calls).1
  machines : (vm.watched table memo).visited calls = vm.visited calls
  after : ((vm.watched table memo).session calls).2 =
    (vm.session calls).2.watched table (Notice.tellAll (vm.notices table calls) memo)
  handlers : ∀ notice ∈ vm.notices table calls, ∃ kind,
    table.hook? notice.op = some ⟨kind, notice.handler⟩
  /-- The handlers are called one for each step that they are due in, and in this order. -/
  told : (vm.notices table calls).map Notice.op = (vm.visited calls).filterMap table.due?
  counted : ∀ op hook, table.hook? op = some hook →
    (vm.notices table calls).countP (·.op = op) =
      (vm.visited calls).countP fun m => m.opcode? = some op && hook.isDue m

theorem session_observed {vm : Vm σ} (hbare : vm.rig.hooks = .empty) (htable : table.Observing)
    (memo : σ) (calls : List Call) : vm.Observed table memo calls := by
  have hwatches : Alike (Rig.Watches table memo) (vm.watched table memo) vm :=
    ⟨⟨rfl, hbare⟩, rfl, rfl, rfl, rfl⟩
  obtain ⟨hreplies, hafter, hmachines⟩ := session_of_watches htable hwatches calls
  have htold := map_op_notices htable calls vm
  constructor
  · exact hreplies
  · exact hmachines
  · exact hafter.eq_watched
  · intro notice hnotice
    obtain ⟨rig, -, htells⟩ := List.mem_filterMap.mp hnotice
    exact Rig.hook?_of_notice? htells
  · exact htold
  · intro op hook hhook
    calc (vm.notices table calls).countP (·.op = op)
      _ = ((vm.notices table calls).map Notice.op).countP (· = op) := by
        rw [List.countP_map]
        rfl
      _ = ((vm.visited calls).filterMap table.due?).countP (· = op) := by rw [htold]
      _ = (vm.visited calls).countP fun m => m.opcode? = some op && hook.isDue m := by
        rw [List.countP_filterMap]
        refine List.countP_congr fun m _ => ?_
        rw [Bool.and_eq_true, decide_eq_true_iff, ← HookTable.due?_eq_some_iff hhook]
        cases table.due? m <;> simp

def counting : HookTable Nat :=
  ((HookTable.empty.set .loadByte ⟨.before, tally⟩).set .addByte ⟨.after, tally⟩).set .ret
    ⟨.after, tally⟩

/-- Loads a constant, adds another, and returns from nowhere. -/
def returning : Vm Nat :=
  { bench with rig := { bench.rig with machine := { Machine.powerOn with
    memory := Memory.powerOn.overlay Layout.programStart [0x60, 5, 0x70, 1, 0x00, 0xee] } } }

theorem returning_counted : returning.rig.hooks = .empty ∧ counting.Observing ∧
    ((returning.watched counting 0).session [.cycle]).1 = [.failed (.stackUnderflow 0x206)] ∧
    ((returning.watched counting 0).session [.cycle]).2.rig.memo = 2 := by
  have htally : ∀ kind, kind ≠ .replace → (Hook.mk kind tally).Observes :=
    fun _ hkind => ⟨hkind, fun _ _ count => ⟨count + 1, rfl⟩⟩
  have hcounting : counting.Observing :=
    ((HookTable.empty_observing.set .loadByte (htally .before (by decide))).set
      .addByte (htally .after (by decide))).set .ret (htally .after (by decide))
  have hobserved : returning.Observed counting 0 [.cycle] :=
    session_observed rfl hcounting 0 [.cycle]
  rw [hobserved.replies, hobserved.after]
  refine ⟨rfl, hcounting, ?_⟩
  decide +kernel

end Vm

end Chip8
