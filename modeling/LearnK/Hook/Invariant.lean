import LearnK.Hook.Pool

/-! The invariant is kept by every effect of a statement. -/

namespace LearnK.Hook

open SearchTree Function StepMachine
open LearnK.RbTree (Addr RbNode RbRoot RbRoutines addrs)

theorem State.goto_get {state : State} {self index : Nat} {call other : Call}
    (present : (state.goto self call).calls[index]? = some other) :
    index = self ∧ other = call ∨ index ≠ self ∧ state.calls[index]? = some other :=
  Numbered.set_cases present

theorem State.goto_self {state : State} {self : Nat} {before call : Call}
    (found : state.calls[self]? = some before) :
    (state.goto self call).calls[self]? = some call :=
  Numbered.set_self found

theorem State.goto_other {state : State} {self index : Nat} {call : Call} (apart : index ≠ self) :
    (state.goto self call).calls[index]? = state.calls[index]? :=
  List.getElem?_set_ne (Ne.symm apart)

variable {routines : RbRoutines} {state next : State} {self : Nat} {call moved : Call}

theorem Apart.alone (apart : Apart state) {first second : Nat} {call other : Call}
    (found : state.calls[first]? = some call) (found' : state.calls[second]? = some other)
    (inside : call.pc.critical = true) (inside' : other.pc.critical = true) : second = first := by
  have mine := apart.locked first call found inside
  rw [apart.locked second other found' inside', Option.some.injEq] at mine
  exact mine

theorem Apart.goto (apart : Apart state) (found : state.calls[self]? = some call)
    (calls : next.calls = (state.goto self moved).calls)
    (lock : LockMove self call.pc moved.pc state.lock next.lock) (ri : moved.ri = call.ri)
    (flight : moved.pc.inFlight = true → call.pc.inFlight = true)
    (block : moved.pc.owns = true → ∀ (index : Nat) (other : Call), index ≠ self →
      state.calls[index]? = some other → other.pc.owns = true → other.params ≠ moved.params) :
    Apart next := by
  refine ⟨?_, ?_, ?_⟩
  · intro index other present inside
    rw [calls] at present
    generalize next.lock = after at lock ⊢
    cases lock with
    | keep same =>
        rcases State.goto_get present with ⟨rfl, rfl⟩ | ⟨-, before⟩
        · exact apart.locked index call found (same ▸ inside)
        · exact apart.locked index other before inside
    | acquire free =>
        rcases State.goto_get present with ⟨rfl, rfl⟩ | ⟨-, before⟩
        · rfl
        · have held := apart.locked index other before inside
          simp [free] at held
    | release holding outside =>
        rcases State.goto_get present with ⟨rfl, rfl⟩ | ⟨different, before⟩
        · exact absurd (outside.symm.trans inside) Bool.false_ne_true
        · exact absurd (apart.alone found before holding inside) different
  · intro first second one two present present' flying flying' same
    rw [calls] at present present'
    rcases State.goto_get present with ⟨rfl, rfl⟩ | ⟨-, before⟩
    · rcases State.goto_get present' with ⟨rfl, rfl⟩ | ⟨-, before'⟩
      · rfl
      · exact apart.instances _ _ _ _ found before' (flight flying) flying' (ri.symm.trans same)
    · rcases State.goto_get present' with ⟨rfl, rfl⟩ | ⟨-, before'⟩
      · exact apart.instances _ _ _ _ before found flying (flight flying') (same.trans ri)
      · exact apart.instances _ _ _ _ before before' flying flying' same
  · intro first second one two present present' owns owns' same
    rw [calls] at present present'
    rcases State.goto_get present with ⟨rfl, rfl⟩ | ⟨different, before⟩
    · rcases State.goto_get present' with ⟨rfl, rfl⟩ | ⟨different', before'⟩
      · rfl
      · exact absurd same.symm (block owns _ _ different' before' owns')
    · rcases State.goto_get present' with ⟨rfl, rfl⟩ | ⟨-, before'⟩
      · exact absurd same (block owns' _ _ different before owns)
      · exact apart.blocks _ _ _ _ before before' owns owns' same

theorem Apart.block_kept (apart : Apart state) (found : state.calls[self]? = some call)
    (owned : call.pc.owns = true) (params : moved.params = call.params) (index : Nat) (other : Call)
    (different : index ≠ self) (before : state.calls[index]? = some other)
    (owns : other.pc.owns = true) : other.params ≠ moved.params := by
  intro same
  exact different (apart.blocks _ _ _ _ before found owns owned (same.trans params))

theorem apart_effect (paired : Paired state) (found : state.calls[self]? = some call)
    (effect : Effect routines state self call next) : Apart next := by
  have apart := paired.apart
  cases effect with
  | quiet pc ret lock like located moved =>
      refine apart.goto found rfl moved rfl (fun flying => like.inFlight ▸ flying) ?_
      exact fun owns => apart.block_kept found (like.owns ▸ owns) rfl
  | allocate params here fresh =>
      refine apart.goto found rfl (.keep (by simp [here])) rfl (by simp [here]) ?_
      intro _ index other _ before owns same
      obtain ⟨block, held, live, -⟩ := (paired.good index other before).owned owns
      rw [held] at same
      exact fresh (Option.some.inj same ▸ live)
  | copy params record here owned =>
      refine apart.goto found rfl (.keep (by simp [here])) rfl (by simp [here]) ?_
      exact fun _ => apart.block_kept found (by simp [here]) rfl
  | insert params entry slot here owned fresh free =>
      refine apart.goto found rfl (.keep (by simp [here])) rfl (by simp [here]) ?_
      exact fun _ => apart.block_kept found (by simp [here]) rfl
  | pop entry here met =>
      refine apart.goto found rfl (.keep (by simp [here])) rfl (by simp [here]) ?_
      exact fun _ => apart.block_kept found (by simp [here]) rfl
  | print params here popped =>
      refine apart.goto found rfl (.keep (by simp [here])) rfl (by simp [here]) ?_
      exact fun _ => apart.block_kept found (by simp [here]) rfl
  | free params here popped =>
      refine apart.goto found rfl (.keep (by simp [here])) rfl (by simp [here]) ?_
      intro owns
      simp at owns

theorem Pc.located_of_outside {pc : Pc} (outside : pc.critical = false) (pool : ProbePool)
    (ri : UInt64) : pc.Located pool ri := by
  cases pc with
  | link new => simp at outside
  | erase entry => simp at outside
  | _ => trivial

theorem Call.Good.frame (good : call.Good state) (located : call.pc.Located next.pool call.ri)
    (block : ∀ params, call.params = some params → call.pc.owns = true → params ∈ state.live →
      params ∉ addrs state.pool.root → params ∈ next.live ∧ params ∉ addrs next.pool.root)
    (heap : ∀ params, call.params = some params → call.pc.owns = true →
      next.heap params = state.heap params) : call.Good next := by
  refine ⟨located, good.flight, fun owns => ?_, fun filled => ?_, good.popped, good.seen⟩
  · obtain ⟨params, held, live, outside⟩ := good.owned owns
    exact ⟨params, held, block params held owns live outside⟩
  · obtain ⟨params, held, copied⟩ := good.filled filled
    have owns : call.pc.owns = true := by
      cases pc : call.pc <;> simp [pc, Pc.filled] at filled <;> rfl
    exact ⟨params, held, by rw [heap params held owns, copied]⟩

theorem insert_separate (paired : Paired state) {entry block : Addr} {slot : List Turn}
    (fresh : entry ∉ state.live) (free : findNew call.ri state.pool = some slot)
    (live : block ∈ state.live) (outside : block ∉ addrs state.pool.root) :
    block ∉ addrs (routines.rbInsertColor entry (linkAt ⟨entry, .red⟩ slot state.pool.root)) := by
  obtain ⟨before, after, shape, inserted, -, -⟩ := RbTree.insert_addrs routines
    paired.pooled.ordered free fun member => fresh (paired.pooled.live entry member)
  rw [inserted, List.mem_append, List.mem_cons]
  rw [shape, List.mem_append] at outside
  rintro (first | rfl | second)
  · exact outside (.inl first)
  · exact fresh live
  · exact outside (.inr second)

theorem pop_separate (paired : Paired state) {entry block : Addr}
    (member : entry ∈ addrs state.pool.root) (live : block ∈ state.live)
    (separate : block ∉ addrs state.pool.root) :
    block ∈ state.live.erase entry ∧ block ∉ addrs (routines.rbErase entry state.pool.root) := by
  have different : block ≠ entry := fun same => separate (same ▸ member)
  rw [routines.rbErase_addrs entry state.pool.root paired.pooled.ordered.nodup member]
  exact ⟨(List.mem_erase_of_ne different).mpr live,
    fun inside => separate (List.mem_of_mem_erase inside)⟩

theorem good_moved (paired : Paired state) (found : state.calls[self]? = some call)
    (effect : Effect routines state self call next) (present : next.calls[self]? = some moved) :
    moved.Good next := by
  have good := paired.good self call found
  have goes {other : Call} (here : (state.goto self other).calls[self]? = some moved) :
      moved = other :=
    Option.some.inj (here.symm.trans (State.goto_self found))
  cases effect with
  | quiet pc ret lock like located _ =>
      obtain rfl := goes present
      exact ⟨located, fun flying => good.flight (like.inFlight ▸ flying),
        fun owns => good.owned (like.owns ▸ owns), fun filled => good.filled (like.filled ▸ filled),
        fun popped => good.popped (like.hasPopped ▸ popped),
        fun seen => good.seen (like.hasSeen ▸ seen)⟩
  | allocate params here fresh =>
      obtain rfl := goes present
      refine ⟨trivial, fun _ => good.flight (by simp [here]), fun _ => ⟨params, rfl, by simp, ?_⟩,
        by simp, by simp, by simp⟩
      intro member
      exact fresh (paired.pooled.live params member)
  | copy params record here owned =>
      obtain rfl := goes present
      exact ⟨trivial, fun _ => good.flight (by simp [here]), fun _ => good.owned (by simp [here]),
        fun _ => ⟨params, owned, by simp⟩, by simp, by simp⟩
  | insert params entry slot here owned fresh free =>
      obtain rfl := goes present
      obtain ⟨block, held, live, separate⟩ := good.owned (by simp [here])
      exact ⟨trivial, fun _ => good.flight (by simp [here]),
        fun _ => ⟨block, held, List.mem_cons_of_mem _ live,
          insert_separate paired fresh free live separate⟩,
        fun _ => good.filled (by simp [here]), by simp, by simp⟩
  | pop entry here met =>
      obtain rfl := goes present
      obtain ⟨member, key⟩ := searchNode_some met
      obtain ⟨block, held, live, separate⟩ := good.owned (by simp [here])
      have mine :=
        (paired.pooled.stored_of_mem paired.apart found (by simp [here]) member key).2
      rw [held, Option.getD_some] at mine
      exact ⟨trivial, fun _ => good.flight (by simp [here]),
        fun _ => ⟨block, held, pop_separate paired member live separate⟩,
        fun _ => good.filled (by simp [here]), fun _ => ⟨by simp [held], by simp [held, mine]⟩,
        by simp⟩
  | print params here popped =>
      obtain rfl := goes present
      obtain ⟨owned, same⟩ := good.popped (by simp [here])
      obtain ⟨block, held, copied⟩ := good.filled (by simp [here])
      have mine : params = block := by
        rw [popped, held] at same
        exact Option.some.inj same
      refine ⟨trivial, fun _ => good.flight (by simp [here]), fun _ => good.owned (by simp [here]),
        fun _ => ⟨block, held, copied⟩, fun _ => ⟨owned, same⟩, fun _ => ⟨by simp [copied], ?_⟩⟩
      simp [copied, mine]
  | free params here popped =>
      obtain rfl := goes present
      exact ⟨trivial, by simp, by simp, by simp, fun _ => good.popped (by simp [here]),
        fun _ => good.seen (by simp [here])⟩

theorem good_others (paired : Paired state) (found : state.calls[self]? = some call)
    (effect : Effect routines state self call next) {index : Nat} {other : Call}
    (different : index ≠ self) (present : state.calls[index]? = some other) : other.Good next := by
  have apart := paired.apart
  have kept := paired.good index other present
  have outside (inside : call.pc.critical = true) (pool : ProbePool) :
      other.pc.Located pool other.ri := by
    refine Pc.located_of_outside ?_ pool other.ri
    by_contra critical
    exact different (apart.alone found present inside (by simpa using critical))
  have blocks (owns : call.pc.owns = true) {params block : Addr} (mine : call.params = some params)
      (held : other.params = some block) (owns' : other.pc.owns = true) : block ≠ params := by
    rintro rfl
    exact different (apart.blocks _ _ _ _ present found owns' owns (held.trans mine.symm))
  cases effect with
  | quiet _ _ _ _ _ _ | print _ _ _ =>
      exact ⟨kept.located, kept.flight, kept.owned, kept.filled, kept.popped, kept.seen⟩
  | allocate params here fresh =>
      refine kept.frame kept.located ?_ fun _ _ _ => rfl
      exact fun block _ _ live free => ⟨List.mem_cons_of_mem _ live, free⟩
  | copy params record here owned =>
      refine kept.frame kept.located (fun _ _ _ live free => ⟨live, free⟩) ?_
      intro block held owns
      exact update_of_ne (blocks (by simp [here]) owned held owns) _ _
  | insert params entry slot here owned fresh free =>
      refine kept.frame (outside (by simp [here]) _) ?_ fun _ _ _ => rfl
      exact fun block _ _ live separate =>
        ⟨List.mem_cons_of_mem _ live, insert_separate paired fresh free live separate⟩
  | pop entry here met =>
      refine kept.frame (outside (by simp [here]) _) ?_ fun _ _ _ => rfl
      exact fun block _ _ live separate =>
        pop_separate paired (searchNode_some met).1 live separate
  | free params here popped =>
      have same := ((paired.good self call found).popped (by simp [here])).2
      rw [popped] at same
      refine kept.frame kept.located ?_ fun _ _ _ => rfl
      intro block held owns live separate
      have apart := blocks (by simp [here]) same.symm held owns
      exact ⟨(List.mem_erase_of_ne apart).mpr live, separate⟩

theorem Effect.others (effect : Effect routines state self call next) {index : Nat}
    (different : index ≠ self) : next.calls[index]? = state.calls[index]? := by
  cases effect <;> exact State.goto_other different

theorem good_effect (paired : Paired state) (found : state.calls[self]? = some call)
    (effect : Effect routines state self call next) (index : Nat) (other : Call)
    (present : next.calls[index]? = some other) : other.Good next := by
  by_cases same : index = self
  · subst same
    exact good_moved paired found effect present
  · rw [effect.others same] at present
    exact good_others paired found effect same present

theorem Pooled.goto (pooled : Pooled state) (found : state.calls[self]? = some call)
    (calls : next.calls = (state.goto self moved).calls) (pool : next.pool = state.pool)
    (live : ∀ entry ∈ addrs state.pool.root, entry ∈ next.live)
    (kept : call.pc.stored = true → moved.pc.stored = true ∧ moved.params = call.params)
    (same : moved.pc.stored = true → call.pc.stored = true) (ri : moved.ri = call.ri) :
    Pooled next := by
  refine ⟨?_, ?_, ?_, ?_⟩
  · rw [pool]
    exact pooled.ordered
  · rw [pool]
    exact live
  · rw [pool, calls]
    intro entry member
    obtain ⟨index, other, present, stored, content⟩ := pooled.sound entry member
    by_cases mine : index = self
    · subst index
      obtain rfl := Option.some.inj (present.symm.trans found)
      obtain ⟨still, params⟩ := kept stored
      exact ⟨self, moved, State.goto_self found, still, by rw [content, ri, params]⟩
    · exact ⟨index, other, (State.goto_other mine).trans present, stored, content⟩
  · rw [pool, calls]
    intro index other present stored
    rcases State.goto_get present with ⟨rfl, rfl⟩ | ⟨-, before⟩
    · rw [ri]
      exact pooled.complete index call found (same stored)
    · exact pooled.complete index other before stored

theorem pooled_insert (paired : Paired state) (found : state.calls[self]? = some call)
    {params entry : Addr} {slot : List Turn} (here : call.pc = .link (some slot))
    (owned : call.params = some params) (fresh : entry ∉ state.live)
    (free : findNew call.ri state.pool = some slot) :
    Pooled { state.goto self { call with pc := .unlockInsert } with
      pool :=
        { root := routines.rbInsertColor entry (linkAt ⟨entry, .red⟩ slot state.pool.root)
          entries := update state.pool.entries entry ⟨call.ri, params⟩ }
      live := entry :: state.live } := by
  have pooled := paired.pooled
  obtain ⟨before, after, shape, inserted, kept, linked⟩ := @link_entry routines _ _ _ _
    pooled.ordered free (fun member => fresh (pooled.live entry member)) params
  have member_iff (other : Addr) : other ∈ before ++ entry :: after ↔
      other = entry ∨ other ∈ addrs state.pool.root := by
    rw [shape, List.mem_append, List.mem_cons, List.mem_append]
    grind
  refine ⟨?_, ?_, ?_, ?_⟩
  · rw [← inserted] at linked
    exact linked
  · simp only [inserted, member_iff]
    rintro other (rfl | old)
    · simp
    · exact List.mem_cons_of_mem _ (pooled.live other old)
  · simp only [inserted, member_iff]
    rintro other (rfl | old)
    · exact ⟨self, _, State.goto_self found, by simp, by simp [owned]⟩
    · obtain ⟨index, call', present, stored, content⟩ := pooled.sound other old
      have different : index ≠ self := by
        rintro rfl
        obtain rfl := Option.some.inj (present.symm.trans found)
        simp [here] at stored
      exact ⟨index, call', (State.goto_other different).trans present, stored,
        (kept other old).trans content⟩
  · simp only [inserted, member_iff]
    intro index other present stored
    rcases State.goto_get present with ⟨rfl, rfl⟩ | ⟨-, earlier⟩
    · exact ⟨entry, .inl rfl, by simp [ProbePool.keyAt]⟩
    · obtain ⟨old, member, key⟩ := pooled.complete index other earlier stored
      exact ⟨old, .inr member, (congrArg MyEntry.key (kept old member)).trans key⟩

theorem pooled_pop (paired : Paired state) (found : state.calls[self]? = some call) {entry : Addr}
    (here : call.pc = .erase (some entry)) (met : searchNode call.ri state.pool = some entry) :
    Pooled { state.goto self { call with popped := some (state.pool.entries entry).params,
                                         pc := .unlockPop } with
      pool := { state.pool with root := routines.rbErase entry state.pool.root }
      live := state.live.erase entry } := by
  have pooled := paired.pooled
  have nodup := pooled.ordered.nodup
  obtain ⟨member, key⟩ := searchNode_some met
  have erased := routines.rbErase_addrs entry state.pool.root nodup member
  refine ⟨?_, ?_, ?_, ?_⟩
  · simp only [erased]
    exact pooled.ordered.sublist List.erase_sublist
  · simp only [erased]
    intro other remains
    obtain ⟨different, old⟩ := nodup.mem_erase_iff.mp remains
    exact (List.mem_erase_of_ne different).mpr (pooled.live other old)
  · simp only [erased]
    intro other remains
    obtain ⟨different, old⟩ := nodup.mem_erase_iff.mp remains
    obtain ⟨index, call', present, stored, content⟩ := pooled.sound other old
    refine ⟨index, call', (State.goto_other ?_).trans present, stored, content⟩
    -- the popped instance has no second entry
    rintro rfl
    obtain rfl := Option.some.inj (present.symm.trans found)
    refine different (pooled.ordered.injective old member ?_)
    rw [key, ProbePool.keyAt, content]
  · simp only [erased]
    intro index other present stored
    rcases State.goto_get present with ⟨rfl, rfl⟩ | ⟨different, earlier⟩
    · simp at stored
    · obtain ⟨old, inside, sameKey⟩ := pooled.complete index other earlier stored
      refine ⟨old, nodup.mem_erase_iff.mpr ⟨?_, inside⟩, sameKey⟩
      rintro rfl
      have flying : other.pc.inFlight = true := by
        cases pc : other.pc <;> simp [pc] at stored ⊢
      exact different (paired.apart.instances _ _ _ _ earlier found flying (by simp [here])
        (sameKey.symm.trans key))

theorem pooled_effect (paired : Paired state) (found : state.calls[self]? = some call)
    (effect : Effect routines state self call next) : Pooled next := by
  have pooled := paired.pooled
  cases effect with
  | quiet pc ret lock like located moved =>
      exact pooled.goto found rfl rfl pooled.live (fun stored => ⟨like.stored.trans stored, rfl⟩)
        (fun stored => like.stored ▸ stored) rfl
  | allocate params here fresh =>
      refine pooled.goto found rfl rfl ?_ (by simp [here]) (by simp) rfl
      exact fun entry member => List.mem_cons_of_mem _ (pooled.live entry member)
  | copy params record here owned =>
      exact pooled.goto found rfl rfl pooled.live (by simp [here]) (by simp) rfl
  | insert params entry slot here owned fresh free =>
      exact pooled_insert paired found here owned fresh free
  | pop entry here met => exact pooled_pop paired found here met
  | print params here popped =>
      exact pooled.goto found rfl rfl pooled.live (by simp [here]) (by simp) rfl
  | free params here popped =>
      refine pooled.goto found rfl rfl ?_ (by simp [here]) (by simp) rfl
      intro entry member
      have good := paired.good self call found
      obtain ⟨block, held, -, separate⟩ := good.owned (by simp [here])
      have same := (good.popped (by simp [here])).2
      rw [popped, held, Option.some.injEq] at same
      have different : entry ≠ params := fun equal => separate (same ▸ equal ▸ member)
      exact (List.mem_erase_of_ne different).mpr (pooled.live entry member)

theorem paired_effect (paired : Paired state) (found : state.calls[self]? = some call)
    (effect : Effect routines state self call next) : Paired next :=
  ⟨good_effect paired found effect, apart_effect paired found effect,
    pooled_effect paired found effect⟩

end LearnK.Hook
