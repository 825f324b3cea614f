import LearnK.GlobalFifo.Stream

/-! The `memcpy` of `hello_read` moves the bytes behind the read ones to the front.  Its ranges are
apart, and the order of its copies does not matter, exactly when the read takes at least half of
what is stored. -/

namespace LearnK.GlobalFifo

open ByteMemory StepMachine

/-- The compaction after `count` bytes were read meets the contract of `memcpy`: the two ranges are
apart, and the memory afterwards is the same for every order of the copies. -/
def CopiesInAnyOrder (dev : HelloDev) (count : Nat) : Prop :=
  Apart 0 count (dev.currentLen - count) ∧
    ∀ order, order.Perm (List.range (dev.currentLen - count)) →
      copyInOrder dev.mem 0 count order = copyForward dev.mem 0 count (dev.currentLen - count)

def Compacts (state : State) : Prop :=
  ∀ self call count data,
    (state.tasks self).activity = .transfer .read call (.update count data) →
      CopiesInAnyOrder state.dev count

def TakesHalf (state : State) : Action → Prop
  | .run self copied => ∀ call, (state.tasks self).activity = .transfer .read call .copy →
      helloRead.clamp call.count state.dev.currentLen ≤ copied →
        state.dev.currentLen ≤ 2 * call.count
  | _ => True

theorem copiesInAnyOrder_iff (dev : HelloDev) (count : Nat) :
    CopiesInAnyOrder dev (helloRead.clamp count dev.currentLen) ↔ dev.currentLen ≤ 2 * count := by
  have clamped := helloRead_clamp_le count dev.currentLen
  have half : dev.currentLen - helloRead.clamp count dev.currentLen ≤
      helloRead.clamp count dev.currentLen ↔ dev.currentLen ≤ 2 * count := by
    simp only [helloRead]
    split <;> omega
  rw [CopiesInAnyOrder, apart_iff (Nat.zero_le _), Nat.sub_zero, half]
  refine ⟨fun both => both.1, fun enough => ⟨enough, fun order all => ?_⟩⟩
  refine copyInOrder_eq_copyForward (Nat.zero_le _) ?_ all
  rw [apart_iff (Nat.zero_le _), Nat.sub_zero]
  exact half.mpr enough

theorem taskStep_update {self copied : Nat} {dev : HelloDev} {task : Task} {effect : Effect}
    {kind : Kind} {call : Call} {count : Nat} {data : List UInt8}
    (stepped : taskStep self copied dev task = some effect)
    (there : effect.task.activity = .transfer kind call (.update count data)) :
    task.activity = .transfer kind call .copy ∧
      count = kind.ops.clamp call.count dev.currentLen ∧ count ≤ copied ∧
      effect.dev = (kind.ops.copy dev call count copied).1 := by
  unfold taskStep at stepped
  cases activity : task.activity with
  | idle => simp [activity] at stepped
  | transfer kind' call' pc =>
      rw [activity] at stepped
      cases pc with
      | copy =>
          simp only [transferStep] at stepped
          split_ifs at stepped with failed
          · cases stepped
            simp [Task.goto] at there
          · cases stepped
            simp only [Task.goto, Activity.transfer.injEq, Pc.update.injEq] at there
            obtain ⟨rfl, rfl, rfl, -⟩ := there
            exact ⟨rfl, rfl, by omega, rfl⟩
      | lock | relock =>
          obtain ⟨locked, -, rfl⟩ := Option.map_eq_some_iff.mp stepped
          simp [Task.goto] at there
      | test | schedule | signal =>
          simp only [transferStep] at stepped
          split_ifs at stepped <;> cases stepped <;> simp [Task.goto] at there
      | addWait | setState | unlockLoop | update | wake | out | out2 | leave =>
          cases stepped
          simp [Task.goto, Task.finish] at there
  | ioctl pc =>
      rw [activity] at stepped
      cases pc with
      | lock =>
          obtain ⟨locked, -, rfl⟩ := Option.map_eq_some_iff.mp stepped
          simp at there
      | clear | unlock | leave =>
          cases stepped
          simp [Task.finish] at there
  | poll pc =>
      rw [activity] at stepped
      cases pc with
      | lock | relock =>
          obtain ⟨locked, -, rfl⟩ := Option.map_eq_some_iff.mp stepped
          simp at there
      | mask | leave =>
          cases stepped
          simp [Task.finish] at there

theorem Operation.start_not_update (operation : Operation) (kind : Kind) (call : Call) (count : Nat)
    (data : List UInt8) : operation.start ≠ .transfer kind call (.update count data) := by
  intro same
  have critical := operation.start_not_critical
  rw [same] at critical
  simp [Activity.critical, Pc.critical] at critical

theorem CopiesInAnyOrder.congr {dev other : HelloDev} {count : Nat}
    (copies : CopiesInAnyOrder dev count) (sameLen : other.currentLen = dev.currentLen)
    (sameMem : other.mem = dev.mem) : CopiesInAnyOrder other count := by
  rw [CopiesInAnyOrder, sameLen, sameMem]
  exact copies

theorem compacts_run_iff {state : State} {self copied : Nat} {effect : Effect}
    (exclusive : Exclusive state) (compacts : Compacts state)
    (ran : taskStep self copied state.dev (state.tasks self) = some effect) :
    Compacts (state.apply self effect) ↔ TakesHalf state (.run self copied) := by
  constructor
  · intro after call here enough
    have stepped : taskStep self copied state.dev (state.tasks self) = some
        ⟨state.dev, (state.tasks self).goto .read call (.update
          (helloRead.clamp call.count state.dev.currentLen)
          (slice state.dev.mem 0 (helloRead.clamp call.count state.dev.currentLen))),
          [.access 0 (helloRead.clamp call.count state.dev.currentLen)], none⟩ := by
      have complete : ¬helloRead.clamp call.count state.dev.currentLen - copied ≠ 0 := by omega
      simp only [taskStep, here, transferStep, Kind.ops, complete, if_false]
      rfl
    obtain rfl := Option.some.inj (ran.symm.trans stepped)
    exact (copiesInAnyOrder_iff state.dev call.count).mp
      (after self call _ _ (by rw [State.apply_self]; rfl))
  · intro half id call count data there
    by_cases same : id = self
    · subst id
      rw [State.apply_self] at there
      obtain ⟨here, rfl, enough, dev⟩ := taskStep_update ran there
      have copies := (copiesInAnyOrder_iff state.dev call.count).mpr (half call here enough)
      rw [State.apply, dev]
      exact copies
    · rw [State.apply_other state effect same, wakeUp_activity] at there
      have critical : (state.tasks id).critical = true := by
        simp [Task.critical, there, Activity.critical, Pc.critical]
      have outside : (state.tasks self).critical = false := by
        by_contra inside
        exact same (exclusive_unique exclusive critical (by simpa using inside))
      obtain ⟨sameLen, sameMem⟩ := taskStep_outside outside ran
      exact (compacts id call count data there).congr sameLen sameMem

theorem compacts_step_iff {state next : State} {action : Action} (exclusive : Exclusive state)
    (compacts : Compacts state) (stepped : step state action = some next) :
    Compacts next ↔ TakesHalf state action := by
  obtain ⟨self, operation, rfl, -, rfl⟩ | ⟨self, rfl, rfl⟩ | ⟨self, copied, effect, rfl, ran, rfl⟩ :=
    step_cases stepped
  · refine iff_of_true ?_ trivial
    intro id call count data there
    rw [State.setTask_tasks] at there
    split at there
    · exact absurd there (operation.start_not_update .read call count data)
    · exact compacts id call count data there
  · refine iff_of_true ?_ trivial
    intro id call count data there
    rw [State.setTask_tasks] at there
    split at there
    · exact compacts self call count data there
    · exact compacts id call count data there
  · exact compacts_run_iff exclusive compacts ran

theorem compacts_initial : Compacts initial := by
  intro self call count data there
  simp [initial, Task.fresh] at there

/-- In a whole run every compaction may copy in any order exactly when every read that gets its
bytes out takes at least half of those stored. -/
theorem helloRead_anyOrder_iff (actions : List Action) :
    Always step Compacts initial actions ↔ EachStep step TakesHalf initial actions := by
  have exclusives : Always step Exclusive initial actions :=
    always_invariant (fun _ _ _ exclusive stepped => exclusive_step exclusive stepped)
      exclusive_initial actions
  refine always_iff_eachStep ?_ exclusives compacts_initial
  intro state action next compacts exclusive stepped _
  exact compacts_step_iff exclusive compacts stepped

def shortRead : List Action :=
  [.enter 0 (.write ⟨false, fun index => UInt8.ofNat (index + 7), 3⟩)] ++
    List.replicate 9 (.run 0 3) ++ [.enter 1 (.read ⟨false, fun _ => 0, 1⟩)] ++
    List.replicate 4 (.run 1 1)

theorem helloRead_shortRead_depends_on_order : ∃ state, run step initial shortRead = some state ∧
    slice (copyInOrder state.dev.mem 0 1 [0, 1]) 0 2 = [8, 9] ∧
    slice (copyInOrder state.dev.mem 0 1 [1, 0]) 0 2 = [9, 9] ∧ ¬Compacts state := by
  refine ⟨_, rfl, by decide, by decide, fun compacts => ?_⟩
  have apart := (compacts 1 _ _ _ rfl).1
  exact apart 1 (by decide)

end LearnK.GlobalFifo
