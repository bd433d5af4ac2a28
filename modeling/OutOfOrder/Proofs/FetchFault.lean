import OutOfOrder.Proofs.Accounting
import OutOfOrder.Proofs.InstructionSet

/-!
# When nothing can be fetched

Fetching comes after the core and has no way back to it, so an attempt to fetch that fails leaves
the core as its own cycle has left it. Nothing that fetching keeps for itself has changed either,
but for the mailbox, which it has looked into; so the next attempt is made at the same address, with
the same serial number, and fails in the same way, unless a store that is still in flight changes
the word there. In the meantime the core goes on with what has been fetched before, and as none of
this ends the program, it does not halt; after a time nothing is left in it.

## Main definitions

* `SimError.address?` — the address that an error is about
* `Simulator.Jammed` — fetching runs, but cannot fetch what is next
* `Simulator.FailsToFetch` — a cycle fails in fetching, and leaves everything else alone
* `Simulator.Undisturbed` — for so many cycles nothing else fails, and the word does not change
* `Simulator.IsIdle` — nothing is in flight, and nothing waits

## Main results

* `Simulator.jammed_of_fault` — after a cycle that fails in fetching, fetching is jammed
* `Simulator.Jammed.tick`, `Simulator.Jammed.repeats` — and it stays so, cycle after cycle
* `Simulator.Jammed.ahead_or_idle`, `Simulator.Jammed.drained` — meanwhile the core is at work,
  until nothing is left in it
* `Simulator.fetch_fault_repeats` — a fault of fetching does not disturb the core, and repeats
  itself
-/

namespace OutOfOrder

/-! ### What a fault is about -/

/-- The address that an error is about, if it is about one. -/
def SimError.address? : SimError → Option Word
  | .decode (.unknownOpcode _ _ pc) | .decode (.unknownOperation _ _ _ _ pc) => some pc
  | .memory (.outOfBounds addr _) | .memory (.misaligned addr _) => some addr
  | _ => none

theorem Memory.fetch_error_address? {m : Memory} {pc : Word} {e : MemoryError}
    (h : m.fetch pc = .error e) : (SimError.memory e).address? = some pc := by
  rw [fetch, read, check] at h
  split at h
  · rw [locate] at h
    split at h
    · cases h
    · obtain rfl := Except.error.inj h
      rfl
  · obtain rfl := Except.error.inj h
    rfl

/-- Where memory lies does not change, so only a store to it changes what can be fetched from an
address. -/
theorem Memory.fetch_eq_of_check {m n : Memory} {pc : Word}
    (hcheck : n.check pc .word = m.check pc .word)
    (hword : ∀ w, m.fetch pc = .ok w → n.fetch pc = .ok w) : n.fetch pc = m.fetch pc := by
  cases h : m.fetch pc with
  | ok w => exact hword w h
  | error e =>
    rw [fetch, read] at h ⊢
    rw [hcheck]
    cases hm : m.check pc .word with
    | ok i => rw [hm] at h; cases h
    | error d => rw [hm] at h; exact h

theorem decode_error_address? {w pc : Word} {uuid : Nat} {e : DecodeError}
    (h : decode w pc uuid = .error e) : (SimError.decode e).address? = some pc := by
  rw [decode_eq] at h
  split at h
  · obtain rfl := Except.error.inj h
    rfl
  · split at h
    · obtain rfl := Except.error.inj h
      rfl
    · cases h

/-! ### What a cycle of the core leaves alone -/

namespace Snapshot

variable {s t : Snapshot}

theorem Step.check (h : s.Step t) (pc : Word) (w : Width) :
    t.memory.check pc w = s.memory.check pc w := by
  cases h with
  | start _ _ _ _ _ heffect =>
    rcases Instruction.memory_of_compute heffect with hsame | ⟨addr, width, value, -, hwrite⟩
    · exact congrArg (·.check pc w) hsame
    · exact Memory.check_of_write hwrite pc w
  | _ => rfl

/-- Where memory lies does not change. -/
theorem check_tick (s : Snapshot) (pc : Word) (w : Width) :
    s.tick.memory.check pc w = s.memory.check pc w :=
  tick_keeps (P := fun u => u.memory.check pc w = s.memory.check pc w)
    (fun hstep hs => (hstep.check pc w).trans hs) rfl

theorem Step.isFull (h : s.Step t) (hroom : s.queue.isFull = false) : t.queue.isFull = false := by
  cases h with
  | issue hpop _ _ =>
    rw [IssueQueue.pop?] at hpop
    split at hpop
    · cases hpop
    · next i rest hq =>
      obtain ⟨-, rfl⟩ := Prod.mk.inj (Option.some.inj hpop)
      rw [IssueQueue.isFull, IssueQueue.length, decide_eq_false_iff_not] at hroom ⊢
      rw [hq, List.length_cons] at hroom
      dsimp only
      omega
  | _ => exact hroom

/-- A queue that has room keeps it. -/
theorem isFull_tick (hroom : s.queue.isFull = false) : s.tick.queue.isFull = false :=
  tick_keeps (P := fun u => u.queue.isFull = false) (fun hstep hs => hstep.isFull hs) hroom

end Snapshot

/-! ### Fetching fails -/

namespace Simulator

variable {s t start : Simulator} {init : Sequential} {is : List Instruction} {e : SimError}
  {k n : Nat}

theorem fetchWord_error_address? (h : s.fetchWord = .error e) : e.address? = some s.pc := by
  rw [fetchWord] at h
  split at h
  · next d hd =>
    obtain rfl := Except.error.inj h
    exact Memory.fetch_error_address? hd
  · split at h
    · next d hd =>
      obtain rfl := Except.error.inj h
      exact decode_error_address? hd
    · cases h

theorem fetchWord_congr (hmemory : t.memory.fetch s.pc = s.memory.fetch s.pc) (hpc : t.pc = s.pc)
    (huuid : t.nextUuid = s.nextUuid) : t.fetchWord = s.fetchWord := by
  rw [fetchWord, fetchWord, hpc, huuid, hmemory]

/-- Fetching runs and there is room in the queue, but what is next cannot be fetched. -/
structure Jammed (s : Simulator) (e : SimError) : Prop where
  fetch : s.fetch = .running
  room : s.queue.isFull = false
  word : s.fetchWord = .error e

/-- The mailbox is emptied in any case. -/
theorem followRedirect_core (s : Simulator) :
    s.followRedirect.core = { s.core with redirect := none } := by
  rw [followRedirect, Core.takeRedirect]
  cases hredirect : s.core.redirect with
  | none =>
    dsimp only
    rw [← hredirect]
  | some target =>
    dsimp only
    split
    · rfl
    · rfl

/-- Unless fetching waits, it does not care what is in the mailbox. -/
theorem followRedirect_of_ne (h : s.fetch ≠ .awaitRedirect) :
    s.followRedirect = { s with core := { s.core with redirect := none } } := by
  have hcore := s.followRedirect_core
  rw [followRedirect] at hcore ⊢
  split at hcore
  · exact congrArg (fun c : Core => { s with core := c }) hcore
  · rw [if_neg h] at hcore ⊢
    exact congrArg (fun c : Core => { s with core := c }) hcore

/-- An attempt to fetch that cannot succeed leaves it at taking note of the mailbox. -/
theorem fetchNext_of_jammed (h : s.followRedirect.Jammed e) :
    s.fetchNext = { next := s.followRedirect, fault := some e } := by
  rw [fetchNext, if_neg (by rw [h.fetch, h.room]; decide), h.word]

/-- A cycle that fails, but not in the core, has come upon something that cannot be fetched. -/
theorem jammed_of_fault (hcore : s.tick.core.fault = none) (h : s.tick.fault = some e) :
    s.beforeFetch.followRedirect.Jammed e := by
  rw [tick_core] at hcore
  rw [tick_eq_of_ok hcore, fetchNext] at h
  dsimp only at h
  split at h
  · cases h
  · next hgo =>
    rw [not_or, ne_eq, Decidable.not_not] at hgo
    split at h
    · next e' hword =>
      obtain rfl := Option.some.inj h
      exact ⟨hgo.1, Bool.of_not_eq_true hgo.2, hword⟩
    · cases h

/-- A cycle fails in fetching. It leaves the core, the queue and the memory as the cycle of the core
has left them, which has counted, with the mailbox emptied; it takes no serial number, and fetching
still runs, and stands where it has failed. -/
structure FailsToFetch (s : Simulator) (e : SimError) : Prop where
  fault : s.tick.fault = some e
  fetched : s.tick.fetched = none
  core : s.tick.next.core = { (s.core.tick s.queue s.memory).core with redirect := none }
  queue : s.tick.next.queue = (s.core.tick s.queue s.memory).queue
  memory : s.tick.next.memory = (s.core.tick s.queue s.memory).memory
  statistics : s.tick.next.statistics =
    s.statistics.recordAll (s.core.tick s.queue s.memory).events
  cycle : s.tick.next.core.cycle = s.core.cycle + 1
  nextUuid : s.tick.next.nextUuid = s.nextUuid
  fetch : s.tick.next.fetch = .running
  word : s.tick.next.fetchWord = .error e
  address : e.address? = some s.tick.next.pc

/-- When fetching is jammed after the cycle of the core, the cycle fails in fetching. -/
theorem failsToFetch (hrun : s.core.halted = false) (hcore : s.tick.core.fault = none)
    (h : s.beforeFetch.followRedirect.Jammed e) :
    s.FailsToFetch e ∧ s.tick.next = s.beforeFetch.followRedirect := by
  rw [tick_core] at hcore
  have htick := tick_eq_of_ok hcore
  rw [fetchNext_of_jammed h] at htick
  have hfollowed := s.beforeFetch.followRedirect_core
  obtain ⟨_, _, _, heq⟩ := s.beforeFetch.followRedirect_eq
  have hnext : s.tick.next = s.beforeFetch.followRedirect := by rw [htick]
  refine ⟨⟨by rw [htick], by rw [htick], ?_, ?_, ?_, ?_, ?_, ?_, ?_, ?_, ?_⟩, hnext⟩
  all_goals rw [hnext]
  · exact hfollowed
  · rw [heq]
    rfl
  · rw [heq]
    rfl
  · rw [heq]
    rfl
  · rw [hfollowed]
    exact (Core.counts_tick_of_ok hrun hcore).1
  · rw [heq]
    rfl
  · exact h.fetch
  · exact h.word
  · exact fetchWord_error_address? h.word

/-- As long as the word does not change, fetching stays jammed. -/
theorem Jammed.tick (h : s.Jammed e)
    (hsame : s.tick.next.memory.fetch s.pc = s.memory.fetch s.pc) :
    s.beforeFetch.followRedirect.Jammed e ∧ s.beforeFetch.followRedirect.pc = s.pc := by
  have hfetch : s.beforeFetch.fetch ≠ .awaitRedirect := by
    rw [show s.beforeFetch.fetch = s.fetch from rfl, h.fetch]
    decide
  have hsame : s.beforeFetch.memory.fetch s.pc = s.memory.fetch s.pc := by
    obtain ⟨-, -, hmemory, -⟩ := s.tick_next_eq
    rw [hmemory, tick_core] at hsame
    exact hsame
  rw [followRedirect_of_ne hfetch]
  refine ⟨⟨h.fetch, Snapshot.isFull_tick (s := s.snapshot) h.room, ?_⟩, rfl⟩
  exact (fetchWord_congr hsame rfl rfl).trans h.word

/-! ### Cycle after cycle -/

/-- For so many cycles no load or store fails, and no store changes the word at the fetch address,
if there is one. -/
structure Undisturbed (s : Simulator) (n : Nat) : Prop where
  core : ∀ k, k < n → (s.after k).tick.core.fault = none
  word : ∀ w, s.memory.fetch s.pc = .ok w → ∀ k, k ≤ n → (s.after k).memory.fetch s.pc = .ok w

theorem check_after (s : Simulator) (n : Nat) (pc : Word) (w : Width) :
    (s.after n).memory.check pc w = s.memory.check pc w := by
  induction n with
  | zero => rfl
  | succ n ih =>
    obtain ⟨-, -, hmemory, -⟩ := (s.after n).tick_next_eq
    rw [after, hmemory, tick_core]
    exact ((s.after n).snapshot.check_tick pc w).trans ih

/-- Then the same is fetched from there, or the same fault. -/
theorem Undisturbed.fetch_eq (h : s.Undisturbed n) (hk : k ≤ n) :
    (s.after k).memory.fetch s.pc = s.memory.fetch s.pc :=
  Memory.fetch_eq_of_check (s.check_after k s.pc .word) fun w hw => h.word w hw k hk

theorem Undisturbed.mono (h : s.Undisturbed n) (hk : k ≤ n) : s.Undisturbed k :=
  ⟨fun j hj => h.core j (Nat.lt_of_lt_of_le hj hk),
    fun w hw j hj => h.word w hw j (Nat.le_trans hj hk)⟩

/-- When the core has halted, fetching has stopped. -/
theorem Underway.stopped_of_halted (h : s.Underway init is) (hhalted : s.core.halted = true) :
    s.fetch = .stopped := by
  obtain ⟨-, -, i, hi, hexit⟩ := h.inStep.retired_of_halted hhalted
  exact (h.inStep.stopped (List.getElem?_eq_some_iff.mp hi).1 hi hexit).2

/-- So it has not halted when fetching runs, -/
theorem Underway.halted_of_running (h : s.Underway init is) (hrun : s.fetch = .running) :
    s.core.halted = false := by
  refine Bool.of_not_eq_true fun hhalted => ?_
  rw [h.stopped_of_halted hhalted] at hrun
  cases hrun

/-- nor before a cycle that fails in fetching. -/
theorem Underway.halted_of_jammed (h : s.Underway init is)
    (hjammed : s.beforeFetch.followRedirect.Jammed e) : s.core.halted = false := by
  refine Bool.of_not_eq_true fun hhalted => ?_
  have hstopped : s.beforeFetch.fetch = .stopped := h.stopped_of_halted hhalted
  have hfetch := hjammed.fetch
  rw [followRedirect_fetch (by rw [hstopped]; decide), hstopped] at hfetch
  cases hfetch

/-- Nothing is in flight, and nothing waits. -/
def IsIdle (s : Simulator) : Prop := s.core.window.isEmpty = true ∧ s.queue.isEmpty = true

/-- When nothing is left to do and nothing is fetched, nothing is left to do afterwards. -/
theorem Underway.isIdle_tick (h : s.Underway init is) (hnext : s.tick.next.Underway init is)
    (hidle : s.IsIdle) : s.tick.next.IsIdle := by
  refine not_not.mp fun hbusy => ?_
  have hleft : s.tick.next.core.window.departed < is.length :=
    hnext.inStep.onTrack.busy_iff.mp hbusy
  -- what has retired stays so
  have hle : s.core.retired ≤ s.tick.next.core.retired := by
    obtain ⟨_, hcore, -⟩ := s.tick_next_eq
    rw [hcore, tick_core]
    rcases s.snapshot.steps_tick.retired_le with ⟨heq, -⟩ | hlt
    · exact Nat.le_of_eq heq.symm
    · exact Nat.le_of_lt hlt
  have hbefore : s.core.retired = s.core.window.departed := h.inStep.onTrack.follows.retired
  have hafter : s.tick.next.core.retired = s.tick.next.core.window.departed :=
    hnext.inStep.onTrack.follows.retired
  exact h.inStep.onTrack.busy_iff.mpr (show s.core.window.departed < is.length by omega) hidle

/-- As long as there is something to do, a cycle of the core that does not fail gets ahead. -/
theorem Underway.ahead_lt (h : s.Underway init is) (hrun : s.core.halted = false)
    (hok : s.tick.core.fault = none) (hbusy : ¬s.IsIdle) :
    s.tick.next.core.ahead is.length < s.core.ahead is.length := by
  rw [ahead_tick_next]
  exact Snapshot.tick_works h.inStep.onTrack h.numbered (Nat.le_refl _) h.equipped.roomy hrun
    (tick_core s ▸ hok) hbusy

section Jammed

variable (hstart : start.Fresh init) (h : (start.after n).Jammed e)
  (hcalm : (start.after n).Undisturbed k)

include hstart h hcalm

/-- As long as nothing disturbs it, a fault of fetching repeats itself, and nothing is fetched. -/
theorem Jammed.repeats :
    let u := start.after n
    (∀ j, j < k → (u.after j).FailsToFetch e) ∧ (u.after k).Jammed e ∧
      (u.after k).pc = u.pc ∧ (u.after k).nextUuid = u.nextUuid ∧
      (u.after k).core.cycle = u.core.cycle + k ∧ (u.after k).core.halted = false ∧
      start.fetched (n + k) = start.fetched n := by
  intro u
  induction k with
  | zero =>
    refine ⟨fun j hj => absurd hj (Nat.not_lt_zero j), h, rfl, rfl, rfl, ?_, rfl⟩
    exact (hstart.underway (start.cycles_after n)).halted_of_running h.fetch
  | succ k ih =>
    obtain ⟨hfails, hjammed, hpc, huuid, hcycle, hrun, hfetched⟩ := ih (hcalm.mono (Nat.le_succ k))
    have hsame : (u.after k).tick.next.memory.fetch (u.after k).pc =
        (u.after k).memory.fetch (u.after k).pc := by
      rw [hpc]
      exact (hcalm.fetch_eq (Nat.le_refl (k + 1))).trans (hcalm.fetch_eq (Nat.le_succ k)).symm
    obtain ⟨hjammed', hpc'⟩ := hjammed.tick hsame
    obtain ⟨hlast, hnext⟩ := failsToFetch hrun (hcalm.core k (Nat.lt_succ_self k)) hjammed'
    rw [← hnext] at hjammed' hpc'
    have hfetched' : start.fetched (n + (k + 1)) = start.fetched n := by
      rw [← Nat.add_assoc, fetched_succ, after_add, hlast.fetched, Option.toList_none,
        List.append_nil, hfetched]
    have hunder := hstart.underway (start.cycles_after (n + (k + 1)))
    rw [after_add] at hunder
    refine ⟨fun j hj => ?_, hjammed', hpc'.trans hpc, hlast.nextUuid.trans huuid, ?_,
      hunder.halted_of_running hjammed'.fetch, hfetched'⟩
    · rcases Nat.lt_succ_iff_lt_or_eq.mp hj with hlt | rfl
      · exact hfails j hlt
      · exact hlast
    · rw [after, hlast.cycle, hcycle, Nat.add_assoc]

/-- Meanwhile every cycle gets ahead, until nothing is left to do. -/
theorem Jammed.ahead_or_idle :
    let u := start.after n
    (u.after k).core.ahead (start.fetched n).length + k ≤ u.core.ahead (start.fetched n).length ∨
      (u.after k).IsIdle := by
  intro u
  induction k with
  | zero => exact .inl (Nat.le_refl _)
  | succ k ih =>
    have hcalm' := hcalm.mono (Nat.le_succ k)
    obtain ⟨-, -, -, -, -, hrun, hfetched⟩ := h.repeats hstart hcalm'
    obtain ⟨-, -, -, -, -, -, hfetched'⟩ := h.repeats hstart hcalm
    have hunder := hstart.underway (start.cycles_after (n + k))
    have hunder' := hstart.underway (start.cycles_after (n + (k + 1)))
    rw [after_add, hfetched] at hunder
    rw [after_add, hfetched'] at hunder'
    by_cases hidle : (u.after k).IsIdle
    · exact .inr (hunder.isIdle_tick hunder' hidle)
    · have hle := (ih hcalm').resolve_right hidle
      have hlt := hunder.ahead_lt hrun (hcalm.core k (Nat.lt_succ_self k)) hidle
      change (u.after k).tick.next.core.ahead _ < (u.after k).core.ahead _ at hlt
      exact .inl (by rw [after]; omega)

/-- In the end nothing is in flight, nothing waits, and everything has retired. -/
theorem Jammed.drained (hk : (start.after n).core.ahead (start.fetched n).length < k) :
    let v := (start.after n).after k
    v.core.isIdle = true ∧ v.queue.isEmpty = true ∧ v.core.retired = v.nextUuid ∧
      v.core.retired = (start.fetched n).length := by
  intro v
  obtain ⟨-, -, -, -, -, -, hfetched⟩ := h.repeats hstart hcalm
  have hunder := hstart.underway (start.cycles_after (n + k))
  rw [after_add, hfetched] at hunder
  have hidle : v.IsIdle := (h.ahead_or_idle hstart hcalm).resolve_left (by omega)
  have hall : v.core.window.departed = (start.fetched n).length := by
    refine Nat.le_antisymm ?_ (Nat.le_of_not_lt fun hlt => ?_)
    · exact Nat.le_trans (Nat.le_add_right _ _) hunder.inStep.onTrack.follows.next_le
    · exact hunder.inStep.onTrack.busy_iff.mpr hlt hidle
  have hretired : v.core.retired = (start.fetched n).length :=
    hunder.inStep.onTrack.follows.retired.trans hall
  exact ⟨hunder.inStep.onTrack.sound.consistent.isIdle hidle.1, hidle.2,
    hretired.trans hunder.inStep.nextUuid.symm, hretired⟩

end Jammed

/-- **A fault of fetching does not disturb the core, and repeats itself.** Let a new simulator, with
any contents of memory, run for any number of cycles, of which any may fail, and let the next cycle
fail, but not in the core. Then this cycle has left the core, the queue and the memory as the core
alone leaves them in a cycle that counts, but for the mailbox, which is empty; no serial number has
been used up, fetching runs, and it stands at the address that the error is about.

As long as no load or store fails, and no store changes the word at this address if there is one,
the same is true of every further cycle, with the same error at the same address. The core counts
all these cycles and does not halt. There is a number of cycles after which nothing is in flight any
more, nothing waits in the queue, and everything that has been fetched has been reported as
committed. -/
theorem fetch_fault_repeats {c : Config} (hnew : Simulator.new c = .ok s) (m : Memory) (n : Nat)
    (hcore : (({ s with memory := m } : Simulator).after n).tick.core.fault = none)
    (hfault : (({ s with memory := m } : Simulator).after n).tick.fault = some e) :
    let start : Simulator := { s with memory := m }
    let u := start.after (n + 1)
    (start.after n).FailsToFetch e ∧
    (∀ k, u.Undisturbed k → (∀ j, j < k → (u.after j).FailsToFetch e) ∧
      (u.after k).pc = u.pc ∧ (u.after k).nextUuid = u.nextUuid ∧
      (u.after k).core.cycle = u.core.cycle + k ∧ (u.after k).core.halted = false) ∧
    ∃ cycles, ∀ k, cycles ≤ k → u.Undisturbed k →
      (u.after k).core.isIdle = true ∧ (u.after k).queue.isEmpty = true ∧
        (u.after k).core.retired = u.nextUuid ∧
        (start.reported (n + 1 + k)).filterMap Event.committed? = start.fetched n := by
  intro start u
  have hstart := fresh_new hnew m s.maxCycles
  have hunder := hstart.underway (start.cycles_after n)
  have hjammed := jammed_of_fault hcore hfault
  obtain ⟨hfails, hnext⟩ := failsToFetch (hunder.halted_of_jammed hjammed) hcore hjammed
  rw [← hnext] at hjammed
  have hu : u.Jammed e := hjammed
  have hfetched : start.fetched (n + 1) = start.fetched n := by
    rw [fetched_succ, hfails.fetched, Option.toList_none, List.append_nil]
  refine ⟨hfails, fun k hcalm => ?_, u.core.ahead (start.fetched (n + 1)).length + 1,
    fun k hk hcalm => ?_⟩
  · obtain ⟨hrepeats, -, hpc, huuid, hcycle, hrun, -⟩ := hu.repeats hstart hcalm
    exact ⟨hrepeats, hpc, huuid, hcycle, hrun⟩
  · obtain ⟨-, -, -, huuid, -, -, hnone⟩ := hu.repeats hstart hcalm
    obtain ⟨hidle, hempty, hretired, hall⟩ := hu.drained hstart hcalm hk
    refine ⟨hidle, hempty, hretired.trans huuid, ?_⟩
    have hcommitted := (hstart.reported (n + 1 + k)).2
    rw [after_add] at hcommitted
    refine hcommitted.trans ?_
    rw [hall]
    change (start.fetched (n + 1 + k)).take _ = _
    rw [hnone, List.take_length, hfetched]

/-- A program that loads a constant and goes on to a word that is no instruction. -/
def garbled : Memory :=
  (Memory.empty 0 1048576).poke 0 ([0x00500093, 0xFFFFFFFF].flatMap (Word.bytes 4))

/-- Fetching fails in the second cycle and in the next three, in which the constant is loaded. -/
theorem fetch_fault_repeats_garbled : ∃ s, Simulator.new {} = .ok s ∧
    let u := ({ s with memory := garbled } : Simulator).after 2
    u.Undisturbed 3 ∧
      (∀ k, k < 3 → (u.after k).FailsToFetch (.decode (.unknownOpcode 0xFFFFFFFF 0x7F 4))) ∧
      (u.after 3).pc = u.pc ∧ (u.after 3).core.halted = false ∧ (u.after 3).core.retired = 1 := by
  obtain ⟨s, hnew, hcore, hfault, hcores, hwords, hretired⟩ : ∃ s, Simulator.new {} = .ok s ∧
      (({ s with memory := garbled } : Simulator).after 1).tick.core.fault = none ∧
      (({ s with memory := garbled } : Simulator).after 1).tick.fault =
        some (.decode (.unknownOpcode 0xFFFFFFFF 0x7F 4)) ∧
      (∀ k, k < 3 →
        ((({ s with memory := garbled } : Simulator).after 2).after k).tick.core.fault = none) ∧
      (∀ k, k ≤ 3 → ((({ s with memory := garbled } : Simulator).after 2).after k).memory.fetch
        (({ s with memory := garbled } : Simulator).after 2).pc = .ok 0xFFFFFFFF) ∧
      ((({ s with memory := garbled } : Simulator).after 2).after 3).core.retired = 1 :=
    ⟨_, rfl, rfl, rfl, by decide +kernel, fun
      | 0, _ | 1, _ | 2, _ | 3, _ => rfl
      | k + 4, hk => absurd hk (by omega), rfl⟩
  have hcalm : (({ s with memory := garbled } : Simulator).after 2).Undisturbed 3 := by
    refine ⟨hcores, fun w hw k hk => ?_⟩
    obtain rfl := Except.ok.inj ((hwords 0 (Nat.zero_le 3)).symm.trans hw)
    exact hwords k hk
  obtain ⟨-, hrepeats, -⟩ := fetch_fault_repeats hnew garbled 1 hcore hfault
  obtain ⟨hfails, hpc, -, -, hrun⟩ := hrepeats 3 hcalm
  exact ⟨s, hnew, hcalm, hfails, hpc, hrun, hretired⟩

end Simulator

end OutOfOrder
