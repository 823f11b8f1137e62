import Chip8.Proofs.Session

/-! # Bounds of the program counter and the call stack

An instruction is only fetched inside memory, so what a call saves lies just behind an instruction,
and the program counter never gets farther than an indexed jump takes it. This is why no sum on the
program counter ever wraps.
-/

namespace Chip8

namespace Machine

structure Bounded (m : Machine) : Prop where
  /-- The farthest jump goes to `fff` plus `ff`. -/
  pc : m.pc.toNat ≤ 0x10fe
  depth : m.stack.depth ≤ 16
  returns : ∀ addr ∈ m.stack.toList, 2 ≤ addr.toNat ∧ addr.toNat ≤ 0x1000

/-- Fetching and running the next instruction computes the program counter as in unbounded
numbers, and the index register too unless `Fx1E` passes its end. -/
structure Exact (m : Machine) : Prop where
  fetch : ∀ word next, m.fetch = .ok (word, next) → next.pc.toNat = m.pc.toNat + 2
  pc : ∀ word fetched instr roll next, m.fetch = .ok (word, fetched) →
    Instr.decode? word = some instr → fetched.exec roll instr = .ok next →
    (next.pc.toNat : Int) = instr.nextPc fetched
  index : ∀ word fetched instr roll next, m.fetch = .ok (word, fetched) →
    Instr.decode? word = some instr → fetched.exec roll instr = .ok next →
    (next.i.toNat ≠ instr.nextIndex fetched ↔
      ∃ x, instr = .addIndex x ∧ 0x10000 ≤ fetched.i.toNat + (fetched.v.get x).toNat)

theorem bounded_powerOn : Bounded .powerOn := by
  refine ⟨by decide, by decide, ?_⟩
  simp [powerOn, CallStack.toList, CallStack.empty]

/-- A machine between fetching an instruction and running it. -/
structure Fetched (m : Machine) : Prop where
  pc_ge : 2 ≤ m.pc.toNat
  pc_le : m.pc.toNat ≤ 0x1000
  returns : ∀ addr ∈ m.stack.toList, 2 ≤ addr.toNat ∧ addr.toNat ≤ 0x1000

theorem fetch_eq_ok {m next : Machine} {word : UInt16} (h : m.fetch = .ok (word, next)) :
    m.fetched = next ∧ next.pc.toNat = m.pc.toNat + 2 ∧ next.pc.toNat ≤ 0x1000 := by
  obtain ⟨hword, rfl⟩ := fetch_eq_ok_iff.mp h
  unfold Memory.readWord at hword
  split at hword
  case isTrue hrange =>
    have hend : m.pc.toNat + 1 < 0x1000 := hrange
    have hpc : m.fetched.pc.toNat = m.pc.toNat + 2 := by
      simp [fetched, UInt16.toNat_add, Layout.instructionSize]
      omega
    exact ⟨rfl, hpc, by omega⟩
  case isFalse => cases hword

theorem Bounded.fetched {m next : Machine} {word : UInt16} (hm : m.Bounded)
    (h : m.fetch = .ok (word, next)) : next.Fetched := by
  obtain ⟨rfl, hpc, hle⟩ := fetch_eq_ok h
  exact ⟨by omega, hle, hm.returns⟩

theorem Fetched.bounded {m : Machine} (hm : m.Fetched) : m.Bounded :=
  ⟨Nat.le_trans hm.pc_le (by decide), m.stack.depth_le, hm.returns⟩

theorem Fetched.nextPc_mem {m : Machine} (hm : m.Fetched) (instr : Instr) :
    0 ≤ instr.nextPc m ∧ instr.nextPc m ≤ 0x10fe := by
  obtain ⟨hge, hle, hreturns⟩ := hm
  have hpast : ∀ (condition : Prop) [Decidable condition],
      0 ≤ Instr.nextPc.past m condition ∧ Instr.nextPc.past m condition ≤ 0x10fe := by
    intro condition _
    unfold Instr.nextPc.past
    split <;> omega
  cases instr with
  | ret =>
    simp only [Instr.nextPc]
    cases hpop : m.stack.pop? with
    | none => exact ⟨by simp only; omega, by simp only; omega⟩
    | some top =>
      have hlist : m.stack.toList = top.2.toList ++ [top.1] := CallStack.toList_pop? hpop
      obtain ⟨-, haddr⟩ := hreturns top.1 (by simp [hlist])
      exact ⟨by simp only; omega, by simp only; omega⟩
  | jump addr | call addr =>
    have haddr : addr.val < 0x1000 := addr.isLt
    exact ⟨by simp only [Instr.nextPc]; omega, by simp only [Instr.nextPc]; omega⟩
  | jumpOffset addr =>
    have haddr : addr.val < 0x1000 := addr.isLt
    have hoffset := (m.v.get Reg.first).toNat_lt
    exact ⟨by simp only [Instr.nextPc]; omega, by simp only [Instr.nextPc]; omega⟩
  | skipEqualByte | skipUnequalByte | skipEqual | skipUnequal | skipKeyDown | skipKeyUp =>
    exact hpast _
  | waitKey =>
    simp only [Instr.nextPc]
    split <;> omega
  | _ => exact ⟨by simp only [Instr.nextPc]; omega, by simp only [Instr.nextPc]; omega⟩

theorem Fetched.nextStack_returns {m : Machine} (hm : m.Fetched) (instr : Instr) :
    ∀ addr ∈ (instr.nextStack m).toList, 2 ≤ addr.toNat ∧ addr.toNat ≤ 0x1000 := by
  cases instr with
  | ret =>
    simp only [Instr.nextStack]
    cases hpop : m.stack.pop? with
    | none => exact hm.returns
    | some top =>
      have hlist : m.stack.toList = top.2.toList ++ [top.1] := CallStack.toList_pop? hpop
      intro addr haddr
      exact hm.returns addr (by simp [hlist, haddr])
  | call target =>
    simp only [Instr.nextStack]
    cases hpush : m.stack.push? m.pc with
    | none => exact hm.returns
    | some stack =>
      intro addr haddr
      rw [Option.getD_some, CallStack.toList_push? hpush, List.mem_append,
        List.mem_singleton] at haddr
      obtain hold | rfl := haddr
      · exact hm.returns addr hold
      · exact ⟨hm.pc_ge, hm.pc_le⟩
  | _ => exact hm.returns

theorem Fetched.pc_exec {m next : Machine} {roll : UInt8} {instr : Instr} (hm : m.Fetched)
    (h : m.exec roll instr = .ok next) : (next.pc.toNat : Int) = instr.nextPc m := by
  obtain ⟨hnonneg, hle⟩ := hm.nextPc_mem instr
  rw [(exec_leaves h).pc]
  exact Int.emod_eq_of_lt hnonneg (by omega)

theorem Fetched.bounded_exec {m next : Machine} {roll : UInt8} {instr : Instr} (hm : m.Fetched)
    (h : m.exec roll instr = .ok next) : next.Bounded := by
  have hpc := hm.pc_exec h
  have hle := (hm.nextPc_mem instr).2
  refine ⟨by omega, next.stack.depth_le, ?_⟩
  rw [(exec_leaves h).stack]
  exact hm.nextStack_returns instr

theorem bounded_step {m : Machine} (roll : UInt8) (hm : m.Bounded) : (m.step roll).2.Bounded := by
  apply step_induction
  · intro word hfetch
    exact (hm.fetched hfetch).bounded
  · intro word instr next hfetch _ hexec
    exact (hm.fetched hfetch).bounded_exec hexec
  · exact hm

theorem nextIndex_wraps_iff {m next : Machine} {roll : UInt8} {instr : Instr}
    (h : m.exec roll instr = .ok next) : next.i.toNat ≠ instr.nextIndex m ↔
      ∃ x, instr = .addIndex x ∧ 0x10000 ≤ m.i.toNat + (m.v.get x).toNat := by
  have hi := m.i.toNat_lt
  rw [(exec_leaves h).index]
  cases instr with
  | loadIndex addr =>
    have haddr : addr.val < 0x1000 := addr.isLt
    simp [Instr.nextIndex]
    omega
  | addIndex x => simp [Instr.nextIndex]
  | glyph x =>
    have hdigit := (m.v.get x).toNat_lt
    simp [Instr.nextIndex, Layout.fontStart, Layout.glyphSize]
    omega
  | _ => simp [Instr.nextIndex, Nat.mod_eq_of_lt hi]

theorem Bounded.exact {m : Machine} (hm : m.Bounded) : m.Exact where
  fetch _ _ hfetch := (fetch_eq_ok hfetch).2.1
  pc _ _ _ _ _ hfetch _ hexec := (hm.fetched hfetch).pc_exec hexec
  index _ _ _ _ _ _ _ hexec := nextIndex_wraps_iff hexec

theorem kept_bounded : Kept Bounded where
  powerOn := bounded_powerOn
  loaded _ _ hm := ⟨hm.pc, hm.depth, hm.returns⟩
  stepped _ roll hm := bounded_step roll hm
  held m key? _ hm := by
    cases key? with
    | none => exact hm
    | some key => exact ⟨hm.pc, hm.depth, hm.returns⟩
  timed _ hm := ⟨hm.pc, hm.depth, hm.returns⟩
  asked _ hm := ⟨hm.pc, hm.depth, hm.returns⟩

end Machine

namespace Vm

/-- In a session that begins with a new machine all bounds hold at all times, and no step of it
wraps the program counter. -/
theorem session_bounded {σ : Type} (flags : Flags) (dice : Dice) (memo : σ) (journal : Journal)
    (calls : List Call) :
    let vm := ofRig flags (.powerOn dice memo journal)
    (vm.session calls).2.machine.Bounded ∧ ∀ m ∈ vm.visited calls, m.Bounded ∧ m.Exact := by
  intro vm
  have hvm : vm.Plain Machine.Bounded := ⟨rfl, Machine.bounded_powerOn⟩
  obtain ⟨hlast, hvisited⟩ := plain_session Machine.kept_bounded calls hvm
  exact ⟨hlast.machine, fun m hm => ⟨hvisited m hm, (hvisited m hm).exact⟩⟩

end Vm

end Chip8
