import OutOfOrder.Proofs.Precision

/-!
# Fetching along the program

The simulator feeds the core with instructions, and the core tells the simulator where control goes.
Between the two stands a mailbox with room for one address and no name on it. That the address is
always meant for the instruction that fetching waits for is a matter of counting: at any time all
control-flow instructions but the last instruction fetched have been resolved, so there is only one
from which an address can still come.

It follows that every instruction is fetched from where the sequential machine would fetch it. What
was found there is another matter: the memory was that before some earlier instruction, since stores
on the way may not have happened yet.

## Main definitions

* `Core.Steered` — which control-flow instructions have been resolved, and what the mailbox means
* `Simulator.Cycles` — any number of cycles, whether they fail or not, with the instructions fetched
  and the events of the core
* `Simulator.after`, `Simulator.fetched`, `Simulator.reported` — the same by the number of cycles
* `Simulator.Fetches`, `Simulator.Ends` — the runs of a simulator, in which no cycle fails, and how
  they end
* `Simulator.InStep` — everything that holds of a simulator between two cycles

## Main results

* `Core.Steered.step` — what a step does to the mailbox
* `Simulator.tick_cases` — how far fetching gets in a cycle
* `Simulator.InStep.tick`, `Simulator.Cycles.inStep` — simulators stay in step
* `Simulator.fetches_of_run`, `Simulator.fetches_of_run_fault` — a run that ends well is a run of
  the kind considered, and so is one that fails, up to its last cycle
* `Simulator.tick_of_fault` — a cycle fails in the core, or in fetching
-/

namespace OutOfOrder

/-! ### The mailbox -/

namespace Core

/-- Entry number `n` has entered the window and has its result, if it is still there. -/
def Resolved (c : Core) (n : Nat) : Prop :=
  n < c.window.next ∧ ∀ e, c.window.nth? n = some e → e.ready = true

/-- Every control-flow instruction before number `j` has been resolved, and an address in the
mailbox is that after number `j`, which then has been resolved as well. -/
structure Steered (c : Core) (start : Sequential) (is : List Instruction) (j : Nat) : Prop where
  resolved : ∀ {n i}, n < j → is[n]? = some i → i.isControlFlow = true → c.Resolved n
  target : ∀ {pc}, c.redirect = some pc →
    c.Resolved j ∧ (CounterFree is (j + 1) → (start.after is (j + 1)).pc = pc)

variable {s t : Snapshot} {start : Sequential} {is : List Instruction} {j k n : Nat}

/-- What has been resolved stays so. -/
theorem Resolved.step (h : s.Step t) (hc : s.core.Consistent) (hn : s.core.Resolved n) :
    t.core.Resolved n := by
  obtain ⟨hlt, hready⟩ := hn
  cases h with
  | count csrs arbiter cycle hcells => exact ⟨hlt, hready⟩
  | issue hpop hwindow hstations =>
    have hw := ReorderBuffer.entered_of_allocate? hwindow
    refine ⟨Nat.lt_of_lt_of_eq (Nat.lt_succ_of_lt hlt) hw.next.symm, fun e he => ?_⟩
    rcases hw.before he with ⟨rfl, -⟩ | he
    · exact absurd hlt (Nat.lt_irrefl _)
    · exact hready e he
  | advance => exact ⟨hlt, hready⟩
  | publish hbus hdone => exact ⟨hlt, hready⟩
  | start ht hfree hentry ha hb heffect => exact ⟨hlt, hready⟩
  | deliver hbus =>
    obtain ⟨_, m, _, -, -, -, hw⟩ := hc.delivering_completes hbus
    refine ⟨Nat.lt_of_lt_of_eq hlt hw.next.symm, fun e he => ?_⟩
    obtain ⟨f, hf, -, hsame, hnew⟩ := hw.before he
    by_cases hnm : n = m
    · exact (hnew hnm).1
    · rw [← hsame hnm]
      exact hready f hf
  | retire hcommit =>
    have hw := ReorderBuffer.left_of_commit? hcommit
    refine ⟨by rw [retiring_window, hw.next]; exact hlt, fun e he => hready e ?_⟩
    rw [retiring_window] at he
    exact hw.before he

/-- The only control-flow instruction in flight that has not been resolved is number `j`. -/
theorem Steered.number_eq (hj : s.core.Steered start is j) (hf : s.Follows is k) (hk : k ≤ j + 1)
    {e : Entry} (hn : s.core.window.nth? n = some e) (hready : e.ready = false)
    (hflow : e.instruction.isControlFlow = true) : n = j := by
  by_contra hne
  have hb := ReorderBuffer.bounds_of_nth? hn
  have hle := hf.next_le
  have := (hj.resolved (by omega) (hf.entry hn) hflow).2 e hn
  rw [hready] at this
  simp at this

/-- Only a delivery writes to the mailbox, and it writes where control goes after number `j`: that
is the only control-flow instruction in flight which has not been resolved. -/
theorem Steered.step (h : s.Step t) (hs : s.OnTrack start is k) (hk : k ≤ j + 1)
    (hj : s.core.Steered start is j) : t.core.Steered start is j := by
  have hc := hs.sound.consistent
  refine ⟨fun hn hi hflow => (hj.resolved hn hi hflow).step h hc, fun {pc} hpc => ?_⟩
  have hold : s.core.redirect = some pc →
      t.core.Resolved j ∧ (CounterFree is (j + 1) → (start.after is (j + 1)).pc = pc) := by
    intro hpc
    obtain ⟨hresolved, htarget⟩ := hj.target hpc
    exact ⟨hresolved.step h hc, htarget⟩
  cases h with
  | @deliver r hbus =>
    obtain ⟨t₀, n, e, hserve, -, -, hw⟩ := hc.delivering_completes hbus
    have hcarries : s.core.carries .bus = some r := hbus
    have hi := hs.follows.entry hserve.entry
    have hb := ReorderBuffer.bounds_of_nth? hserve.entry
    have hpc : r.redirect.or s.core.redirect = some pc := hpc
    cases hredirect : r.redirect with
    | none =>
      rw [hredirect, Option.none_or] at hpc
      exact hold hpc
    | some pc' =>
      rw [hredirect, Option.some_or] at hpc
      obtain rfl := Option.some.inj hpc
      -- the result comes from a control-flow instruction, which has not been resolved
      have hflow : e.instruction.isControlFlow = true := by
        rw [← hs.precise.steering hcarries hserve, hredirect]
        rfl
      obtain rfl : n = j := hj.number_eq hs.follows hk hserve.entry (hserve.unready hc) hflow
      refine ⟨⟨Nat.lt_of_lt_of_eq hb.2 hw.next.symm, fun f hf => ?_⟩, fun hfree => ?_⟩
      · obtain ⟨_, -, -, -, hnew⟩ := hw.before hf
        exact (hnew rfl).1
      · obtain ⟨x, hx, -, hxr⟩ := hs.precise.carried hcarries hserve hfree
        exact Sequential.pc_after_succ hi hx (hxr.trans hredirect)
  | count csrs arbiter cycle hcells => exact hold hpc
  | issue hpop hwindow hstations => exact hold hpc
  | advance => exact hold hpc
  | publish hbus hdone => exact hold hpc
  | start ht hfree hentry ha hb heffect => exact hold hpc
  | retire hcommit =>
    rw [retiring_redirect] at hpc
    exact hold hpc

/-- A cycle keeps both what is on track and what is steered. -/
theorem Steered.tick (hnum : Numbered is) (hs : s.OnTrack start is k) (hk : k ≤ j + 1)
    (hj : s.core.Steered start is j) :
    s.tick.OnTrack start is k ∧ s.tick.core.Steered start is j :=
  Snapshot.tick_keeps (P := fun s => s.OnTrack start is k ∧ s.core.Steered start is j)
    (fun h ⟨hs, hj⟩ => ⟨hs.step hnum h, hj.step h hs hk⟩) ⟨hs, hj⟩

end Core

/-! ### Runs of the simulator -/

namespace Simulator

/-- A new simulator comes from a configuration that is not refused. -/
theorem new_eq_ok {c : Config} {s : Simulator} (h : Simulator.new c = .ok s) :
    c.error? = none ∧ s =
      { core := .new c.core, memory := .empty c.memory.base c.memory.size.toNat
        queue := .empty c.core.queueSize.toNat, statistics := {}, pc := c.run.startPc
        nextUuid := 0, fetch := .running, maxCycles := c.run.maxCycles.toNat } := by
  rw [Simulator.new, Config.check] at h
  split at h
  · cases h
  · next hok => exact ⟨hok, (Except.ok.inj h).symm⟩

/-- The core, the queue and the memory of a simulator. -/
def snapshot (s : Simulator) : Snapshot := { core := s.core, queue := s.queue, memory := s.memory }

/-- The simulator after a cycle of the core, before it fetches. -/
def beforeFetch (s : Simulator) : Simulator :=
  let t := s.core.tick s.queue s.memory
  { s with
    core := t.core, queue := t.queue, memory := t.memory
    statistics := s.statistics.recordAll t.events }

/-- From `start`, a number of cycles lead to another simulator. The instructions fetched on the way
are those of a list, and another list holds what the core has reported. Any of the cycles may have
failed. -/
inductive Cycles (start : Simulator) : List Instruction → List Event → Simulator → Prop where
  | refl : Cycles start [] [] start
  | tick {is : List Instruction} {es : List Event} {s : Simulator} (h : Cycles start is es s) :
      Cycles start (is ++ s.tick.fetched.toList) (es ++ s.tick.core.events) s.tick.next

/-- The simulator after so many cycles, whether they fail or not. -/
def after (s : Simulator) : Nat → Simulator
  | 0 => s
  | n + 1 => (s.after n).tick.next

/-- What has been fetched after so many cycles. -/
def fetched (s : Simulator) (n : Nat) : List Instruction :=
  (List.range n).flatMap fun k => (s.after k).tick.fetched.toList

/-- What the core has reported after so many cycles. -/
def reported (s : Simulator) (n : Nat) : List Event :=
  (List.range n).flatMap fun k => (s.after k).tick.core.events

/-- From `start`, a number of cycles without fault lead to another simulator, and the instructions
fetched on the way are those of a list. -/
inductive Fetches (start : Simulator) : List Instruction → Simulator → Prop where
  | refl : Fetches start [] start
  | tick {is : List Instruction} {s : Simulator} (h : Fetches start is s)
      (hok : s.tick.fault = none) : Fetches start (is ++ s.tick.fetched.toList) s.tick.next

variable {s : Simulator} {start : Simulator} {is : List Instruction} {es : List Event}
  {i : Instruction}

theorem after_add (s : Simulator) (n k : Nat) : s.after (n + k) = (s.after n).after k := by
  induction k with
  | zero => rfl
  | succ k ih => rw [← Nat.add_assoc, after, ih, after]

theorem fetched_succ (s : Simulator) (n : Nat) :
    s.fetched (n + 1) = s.fetched n ++ (s.after n).tick.fetched.toList := by
  rw [fetched, List.range_succ, List.flatMap_append, List.flatMap_singleton, fetched]

theorem reported_succ (s : Simulator) (n : Nat) :
    s.reported (n + 1) = s.reported n ++ (s.after n).tick.core.events := by
  rw [reported, List.range_succ, List.flatMap_append, List.flatMap_singleton, reported]

/-- Any number of cycles are so many cycles. -/
theorem cycles_after (s : Simulator) (n : Nat) :
    s.Cycles (s.fetched n) (s.reported n) (s.after n) := by
  induction n with
  | zero => exact .refl
  | succ n ih =>
    rw [fetched_succ, reported_succ]
    exact ih.tick

theorem Fetches.cycles (h : start.Fetches is s) : ∃ es, start.Cycles is es s := by
  induction h with
  | refl => exact ⟨_, .refl⟩
  | tick _ _ ih =>
    obtain ⟨es, hcycles⟩ := ih
    exact ⟨_, hcycles.tick⟩

/-- How a run from `start` ends. -/
inductive Ends {α : Type} (start : Simulator) (r : Run α) : Prop where
  /-- The core has halted. -/
  | halted {is : List Instruction} (h : start.Fetches is r.final)
      (hhalted : r.final.core.halted = true) (hok : r.fault = none)
  /-- There are no cycles left. -/
  | exhausted {is : List Instruction} {limit : Nat} (h : start.Fetches is r.final)
      (hfault : r.fault = some (.cycleLimit limit))
  /-- The last cycle fails. -/
  | failed {is : List Instruction} {last : Simulator} {e : SimError} (h : start.Fetches is last)
      (hlast : last.tick.fault = some e) (hfault : r.fault = some e)
      (hfinal : r.final = last.tick.next)

theorem ends_runFor {α : Type} (gather : α → Simulator → Tick → α) (n : Nat) (a : α)
    (h : start.Fetches is s) : start.Ends (runFor gather n s a) := by
  induction n generalizing is s a with
  | zero =>
    rw [runFor]
    split
    · next hhalted => exact .halted h hhalted rfl
    · exact .exhausted h rfl
  | succ n ih =>
    rw [runFor]
    split
    · next hhalted => exact .halted h hhalted rfl
    · dsimp only
      split
      · next e he => exact .failed h he rfl rfl
      · next hok => exact ih (gather a s s.tick) (h.tick hok)

theorem ends_run (s : Simulator) : s.Ends s.run := ends_runFor _ _ () .refl

/-- A run without fault ends with a halted core. -/
theorem fetches_of_run (hok : s.run.fault = none) :
    ∃ js, s.Fetches js s.run.final ∧ s.run.final.core.halted = true := by
  cases s.ends_run with
  | halted h hhalted _ => exact ⟨_, h, hhalted⟩
  | exhausted _ hfault => rw [hfault] at hok; cases hok
  | failed _ _ hfault _ => rw [hfault] at hok; cases hok

/-- A run with a fault, unless it is for want of cycles, ends with a cycle that has this fault. -/
theorem fetches_of_run_fault {e : SimError} (hfault : s.run.fault = some e)
    (hcycles : ∀ limit, e ≠ .cycleLimit limit) :
    ∃ js last, s.Fetches js last ∧ last.tick.fault = some e ∧ s.run.final = last.tick.next := by
  cases s.ends_run with
  | halted _ _ hok => rw [hok] at hfault; cases hfault
  | exhausted _ hlimit =>
    rw [hlimit] at hfault
    exact absurd (Option.some.inj hfault).symm (hcycles _)
  | @failed js last e' h hlast hfault' hfinal =>
    obtain rfl := Option.some.inj (hfault'.symm.trans hfault)
    exact ⟨js, last, h, hlast, hfinal⟩

/-- Fetching either leaves it at taking note of the mailbox, perhaps because it fails, or accepts an
instruction as well. -/
theorem fetchNext_cases (s : Simulator) :
    (∃ fault, s.fetchNext = { next := s.followRedirect, fault } ∧ ∀ e, fault = some e →
        s.followRedirect.fetch = .running ∧ s.followRedirect.fetchWord = .error e) ∨
      ∃ i, s.followRedirect.fetch = .running ∧ s.followRedirect.queue.isFull = false ∧
        s.followRedirect.fetchWord = .ok i ∧
        s.fetchNext = { next := s.followRedirect.accept i, instruction := some i } := by
  rw [fetchNext]
  split
  · exact .inl ⟨none, rfl, nofun⟩
  · next hgo =>
    rw [not_or, ne_eq, Decidable.not_not] at hgo
    split
    · next e he =>
      refine .inl ⟨some e, rfl, fun e' he' => ?_⟩
      obtain rfl := Option.some.inj he'
      exact ⟨hgo.1, he⟩
    · next i hi => exact .inr ⟨i, hgo.1, Bool.of_not_eq_true hgo.2, hi, rfl⟩

/-- A cycle is over when the core fails. -/
theorem tick_eq_of_fault {f : MemoryError} (h : (s.core.tick s.queue s.memory).fault = some f) :
    s.tick = { next := s.beforeFetch, core := s.core.tick s.queue s.memory
               fault := some (.memory f) } := by
  rw [tick]
  dsimp only
  rw [h]
  rfl

/-- Otherwise an attempt to fetch follows. -/
theorem tick_eq_of_ok (h : (s.core.tick s.queue s.memory).fault = none) :
    s.tick = { next := s.beforeFetch.fetchNext.next, core := s.core.tick s.queue s.memory
               fetched := s.beforeFetch.fetchNext.instruction
               fault := s.beforeFetch.fetchNext.fault } := by
  rw [tick]
  dsimp only
  rw [h]
  rfl

theorem tick_core (s : Simulator) : s.tick.core = s.core.tick s.queue s.memory := by
  rw [tick]
  dsimp only
  split <;> rfl

/-- After a cycle in which the core fails, nothing is fetched. After any other one fetching takes
note of the mailbox, and gets as far as accepting an instruction or not. -/
theorem tick_cases (s : Simulator) :
    (∃ f, s.tick.core.fault = some f) ∧ s.tick.next = s.beforeFetch ∧ s.tick.fetched = none ∨
      s.tick.next = s.beforeFetch.followRedirect ∧ s.tick.fetched = none ∨
      ∃ i, s.beforeFetch.followRedirect.fetch = .running ∧
        s.beforeFetch.followRedirect.queue.isFull = false ∧
        s.beforeFetch.followRedirect.fetchWord = .ok i ∧
        s.tick.next = s.beforeFetch.followRedirect.accept i ∧ s.tick.fetched = some i := by
  rw [tick]
  dsimp only
  split
  · next f hf => exact .inl ⟨⟨f, hf⟩, rfl, rfl⟩
  · refine .inr ?_
    rcases fetchNext_cases s.beforeFetch with ⟨fault, heq, -⟩ | ⟨i, hrun, hroom, hi, heq⟩
    · exact .inl ⟨congrArg Fetched.next heq, congrArg Fetched.instruction heq⟩
    · exact .inr ⟨i, hrun, hroom, hi, congrArg Fetched.next heq, congrArg Fetched.instruction heq⟩

/-- In a cycle without fault neither the core nor fetching fails. -/
theorem tick_of_ok (hok : s.tick.fault = none) :
    s.tick.core.fault = none ∧ s.beforeFetch.fetchNext.fault = none ∧
      s.tick.fetched = s.beforeFetch.fetchNext.instruction := by
  rw [tick] at hok ⊢
  dsimp only at hok ⊢
  split at hok
  · cases hok
  · next hcore => exact ⟨hcore, hok, rfl⟩

/-- A cycle with a fault fails in the core, or else in fetching. -/
theorem tick_of_fault {fault : SimError} (h : s.tick.fault = some fault) :
    (∃ f, s.tick.core.fault = some f ∧ fault = .memory f ∧ s.tick.next = s.beforeFetch) ∨
      s.tick.core.fault = none ∧ s.beforeFetch.followRedirect.fetch = .running ∧
        s.beforeFetch.followRedirect.fetchWord = .error fault ∧
        s.tick.next = s.beforeFetch.followRedirect := by
  rw [tick] at h ⊢
  dsimp only at h ⊢
  split at h
  · next f hf => exact .inl ⟨f, hf, (Option.some.inj h).symm, rfl⟩
  · next hok =>
    have h : s.beforeFetch.fetchNext.fault = some fault := h
    rcases fetchNext_cases s.beforeFetch with ⟨fault', heq, hfault⟩ | ⟨i, -, -, -, heq⟩
    · rw [heq] at h
      obtain ⟨hrun, hword⟩ := hfault fault h
      exact .inr ⟨hok, hrun, hword, congrArg Fetched.next heq⟩
    · rw [heq] at h
      cases h

/-- Reading what is at the fetch address, and decoding it. -/
theorem fetchWord_eq_ok (h : s.fetchWord = .ok i) :
    ∃ w, s.memory.fetch s.pc = .ok w ∧ decode w s.pc s.nextUuid = .ok i := by
  rw [fetchWord] at h
  split at h
  · simp at h
  · next w hw =>
    split at h
    · simp at h
    · next hi =>
      obtain rfl := Except.ok.inj h
      exact ⟨w, hw, hi⟩

/-- Taking note of the mailbox changes the mailbox and what fetching does next. -/
theorem followRedirect_eq (s : Simulator) : ∃ redirect pc fetch,
    s.followRedirect = { s with core := { s.core with redirect }, pc, fetch } := by
  rw [followRedirect]
  split
  · exact ⟨_, _, _, rfl⟩
  · next htake =>
    obtain ⟨-, rfl⟩ := Prod.mk.inj htake
    split
    · exact ⟨_, _, _, rfl⟩
    · exact ⟨_, _, _, rfl⟩

/-- Of what the core leaves behind, fetching changes nothing but the mailbox. -/
theorem tick_next_eq (s : Simulator) :
    ∃ redirect, s.tick.next.core = { s.tick.core.core with redirect } ∧
      s.tick.next.memory = s.tick.core.memory ∧
      s.tick.next.statistics = s.statistics.recordAll s.tick.core.events ∧
      s.tick.next.maxCycles = s.maxCycles := by
  obtain ⟨redirect, _, _, heq⟩ := s.beforeFetch.followRedirect_eq
  rw [tick_core]
  rcases tick_cases s with ⟨-, hnext, -⟩ | ⟨hnext, -⟩ | ⟨i, -, -, -, hnext, -⟩
  · rw [hnext]
    exact ⟨_, rfl, rfl, rfl, rfl⟩
  · rw [hnext, heq]
    exact ⟨redirect, rfl, rfl, rfl, rfl⟩
  · rw [hnext, heq]
    exact ⟨redirect, rfl, rfl, rfl, rfl⟩

/-! ### Serial numbers -/

/-- Instructions are numbered in the order in which they are fetched. -/
theorem Cycles.uuid (h : start.Cycles is es s) (hstart : start.nextUuid = 0) :
    s.nextUuid = is.length ∧ ∀ (n : Nat) (i : Instruction), is[n]? = some i → i.uuid = n := by
  induction h with
  | refl => exact ⟨hstart, fun n i hi => by cases hi⟩
  | @tick is es s h ih =>
    have hbefore : s.beforeFetch.followRedirect.nextUuid = is.length := by
      obtain ⟨_, _, _, heq⟩ := s.beforeFetch.followRedirect_eq
      rw [heq]
      exact ih.1
    rcases tick_cases s with ⟨-, hnext, hnone⟩ | ⟨hnext, hnone⟩ | ⟨i, -, -, hi, hnext, hsome⟩
    · rw [hnext, hnone, Option.toList_none, List.append_nil]
      exact ih
    · rw [hnext, hnone, Option.toList_none, List.append_nil]
      exact ⟨hbefore, ih.2⟩
    · rw [hnext, hsome, Option.toList_some]
      obtain ⟨w, -, hdecode⟩ := fetchWord_eq_ok hi
      have huuid : i.uuid = is.length := (of_decode hdecode).2.2.1.trans hbefore
      refine ⟨?_, fun n j hj => ?_⟩
      · rw [accept, hbefore]
        simp
      · rw [List.getElem?_append] at hj
        split at hj
        · exact ih.2 n j hj
        · next hn =>
          rw [List.getElem?_singleton] at hj
          split at hj
          · next hzero =>
            obtain rfl := Option.some.inj hj
            omega
          · simp at hj

theorem Cycles.numbered (h : start.Cycles is es s) (hstart : start.nextUuid = 0) :
    Numbered is := by
  have huuid := (h.uuid hstart).2
  refine List.pairwise_iff_getElem.mpr fun m n hm hn hmn => ?_
  rw [huuid m _ (List.getElem?_eq_getElem hm), huuid n _ (List.getElem?_eq_getElem hn)]
  exact hmn

theorem Fetches.uuid (h : start.Fetches is s) (hstart : start.nextUuid = 0) :
    s.nextUuid = is.length ∧ ∀ (n : Nat) (i : Instruction), is[n]? = some i → i.uuid = n := by
  obtain ⟨_, h⟩ := h.cycles
  exact h.uuid hstart

theorem Fetches.numbered (h : start.Fetches is s) (hstart : start.nextUuid = 0) :
    Numbered is := by
  obtain ⟨_, h⟩ := h.cycles
  exact h.numbered hstart

/-! ### In step with the sequential machine -/

section InStep

variable {init : Sequential} {k : Nat}

/-- How many of the first `k` instructions have to be resolved: all, unless fetching waits for the
last one. -/
def settled (s : Simulator) (k : Nat) : Nat := if s.fetch = .awaitRedirect then k - 1 else k

/-- After fetching the first `k` instructions of a list, the simulator is in step with the
sequential machine. -/
structure InStep (s : Simulator) (init : Sequential) (is : List Instruction) (k : Nat) : Prop where
  onTrack : s.snapshot.OnTrack init is k
  steered : s.core.Steered init is (s.settled k)
  nextUuid : s.nextUuid = k
  /-- The next instruction is fetched from where the sequential machine goes. -/
  pc : s.fetch = .running → CounterFree is k → (init.after is k).pc = s.pc
  /-- Fetching stops at an instruction that ends the program. -/
  stopped : ∀ {n i}, n < k → is[n]? = some i → i.isExit = true → n + 1 = k ∧ s.fetch = .stopped
  /-- Every instruction has been fetched from the right place, but from the memory before an earlier
  instruction. -/
  fetched : ∀ {n i}, n < k → is[n]? = some i → CounterFree is n → ∃ l w, l ≤ n ∧
    (init.after is l).memory.fetch (init.after is n).pc = .ok w ∧
    decode w (init.after is n).pc n = .ok i

namespace InStep

theorem le_settled (s : Simulator) (k : Nat) : k ≤ s.settled k + 1 := by
  rw [settled]
  split <;> omega

theorem beforeFetch (hnum : Numbered is) (hs : s.InStep init is k) :
    s.beforeFetch.InStep init is k := by
  obtain ⟨htrack, hsteered⟩ := hs.steered.tick hnum hs.onTrack (le_settled s k)
  exact ⟨htrack, hsteered, hs.nextUuid, hs.pc, hs.stopped, hs.fetched⟩

/-- Taking an address out of the mailbox. -/
theorem onTrack_redirect {r : Option Word} (h : s.snapshot.OnTrack init is k) :
    ({ s.snapshot with core := { s.core with redirect := r } } : Snapshot).OnTrack init is k := by
  obtain ⟨⟨hconsistent, hrenamed, hdecoded, hwaiting⟩, hfollows, hprecise⟩ := h
  exact ⟨⟨hconsistent.congr (fun hs => hs.congr rfl rfl) id rfl (fun _ => rfl) rfl,
    hrenamed.congr rfl rfl rfl, hdecoded, hwaiting⟩, hfollows.congr rfl rfl rfl rfl,
    hprecise.congr rfl rfl rfl rfl fun hr => ⟨_, hr⟩⟩

/-- An address in the mailbox is for a fetch that waits for the last instruction. -/
theorem awaits_redirect (hs : s.InStep init is k) {target : Word}
    (h : s.core.redirect = some target) : s.fetch = .awaitRedirect ∧ s.settled k + 1 = k := by
  -- something is resolved only once it has entered the window
  have hk := Nat.lt_of_lt_of_le (hs.steered.target h).1.1 hs.onTrack.follows.next_le
  have hwait : s.fetch = .awaitRedirect := by
    by_contra hne
    rw [settled, if_neg hne] at hk
    exact Nat.lt_irrefl k hk
  rw [settled, if_pos hwait] at hk ⊢
  exact ⟨hwait, by omega⟩

/-- It is where the sequential machine goes after this instruction. -/
theorem followRedirect (hs : s.InStep init is k) : s.followRedirect.InStep init is k := by
  rw [Simulator.followRedirect, Core.takeRedirect]
  cases hredirect : s.core.redirect with
  | none => exact hs
  | some target =>
    dsimp only
    obtain ⟨hresolved, htarget⟩ := hs.steered.target hredirect
    obtain ⟨hwait, hlast⟩ := hs.awaits_redirect hredirect
    rw [hlast] at htarget
    rw [if_pos hwait]
    refine ⟨onTrack_redirect hs.onTrack, ⟨fun {n i} hn hi hflow => ?_, nofun⟩, hs.nextUuid,
      fun _ => htarget, fun hn hi hexit => ?_, hs.fetched⟩
    · by_cases hn' : n = s.settled k
      · rw [hn']
        exact hresolved
      · refine hs.steered.resolved ?_ hi hflow
        have hn : n < k := hn
        omega
    · obtain ⟨-, hstopped⟩ := hs.stopped hn hi hexit
      rw [hwait] at hstopped
      simp at hstopped

/-- After an instruction of control flow, fetching waits for it and for no other one. -/
theorem settled_accept (s : Simulator) (i : Instruction) (k : Nat) :
    (s.accept i).settled (k + 1) = if i.isControlFlow then k else k + 1 := by
  rw [settled, show (s.accept i).fetch = fetchStateAfter i from rfl, fetchStateAfter]
  split
  · rw [if_pos rfl, Nat.add_sub_cancel]
  · split <;> rfl

theorem steered_accept (hs : s.InStep init is k) (hrun : s.fetch = .running)
    (hk : is[k]? = some i) :
    (s.accept i).core.Steered init is ((s.accept i).settled (k + 1)) := by
  have hsteered := hs.steered
  rw [settled, if_neg (by rw [hrun]; nofun)] at hsteered
  rw [settled_accept]
  split
  · exact hsteered
  · next hflow =>
    refine ⟨?_, ?_⟩
    · intro n j hn hj hjflow
      rcases Nat.lt_succ_iff_lt_or_eq.mp hn with hlt | rfl
      · exact hsteered.resolved hlt hj hjflow
      · obtain rfl := Option.some.inj (hk.symm.trans hj)
        exact absurd hjflow hflow
    · intro pc hpc
      -- nothing has been resolved that has not been fetched
      have hlt := (hsteered.target hpc).1.1
      exact absurd hs.onTrack.follows.next_le (Nat.not_le_of_lt hlt)

/-- Memory is as it was before some instruction. -/
theorem exists_memory_eq (hs : s.InStep init is k) (hfree : CounterFree is k) :
    ∃ l, l ≤ k ∧ s.memory = (init.after is l).memory := by
  obtain ⟨l, hfront, hagree⟩ := hs.onTrack.precise.ordered .memory rfl
  have hl := Nat.le_trans hfront.le_next hs.onTrack.follows.next_le
  exact ⟨l, hl, hagree (hfree.mono hl)⟩

/-- Accepting an instruction that has been fetched. -/
theorem accept (hs : s.InStep init is k) (hrun : s.fetch = .running)
    (hroom : s.queue.isFull = false) (hword : s.fetchWord = .ok i) (hk : is[k]? = some i) :
    (s.accept i).InStep init is (k + 1) := by
  obtain ⟨w, hw, hdecode⟩ := fetchWord_eq_ok hword
  obtain ⟨-, hipc, -, -⟩ := of_decode hdecode
  have hi := decoded_of_decode hdecode
  obtain ⟨q, hq⟩ : ∃ q, s.queue.push? i = some q := ⟨_, if_neg (by rw [hroom]; nofun)⟩
  have hqueue : (s.accept i).queue = q := by
    rw [Simulator.accept]
    dsimp only
    rw [hq]
    rfl
  have hstate : (s.accept i).fetch = fetchStateAfter i := rfl
  refine ⟨?_, hs.steered_accept hrun hk, congrArg (· + 1) hs.nextUuid, ?_, ?_, ?_⟩
  · have hpushed := hs.onTrack.push hi hq hk
    rw [← hqueue] at hpushed
    exact hpushed
  · intro hgoes _
    rw [hstate] at hgoes
    have hflow : i.isControlFlow = false := by
      cases hflow : i.isControlFlow with
      | false => rfl
      | true =>
        rw [fetchStateAfter, if_pos hflow] at hgoes
        simp at hgoes
    rw [Sequential.after_succ hk, Sequential.pc_advance hi hflow, Simulator.accept, if_pos hgoes,
      Instruction.fallThrough, hipc]
  · intro n j hn hj hexit
    rcases Nat.lt_succ_iff_lt_or_eq.mp hn with hlt | rfl
    · obtain ⟨-, hstopped⟩ := hs.stopped hlt hj hexit
      rw [hrun] at hstopped
      simp at hstopped
    · obtain rfl := Option.some.inj (hk.symm.trans hj)
      refine ⟨rfl, ?_⟩
      rw [hstate, fetchStateAfter, hi.not_isControlFlow hexit, if_neg Bool.false_ne_true,
        if_pos hexit]
  · intro n j hn hj hfree
    rcases Nat.lt_succ_iff_lt_or_eq.mp hn with hlt | rfl
    · exact hs.fetched hlt hj hfree
    · obtain rfl := Option.some.inj (hk.symm.trans hj)
      obtain ⟨l, hl, hmemory⟩ := hs.exists_memory_eq hfree
      rw [hs.nextUuid] at hdecode
      rw [hs.pc hrun hfree]
      exact ⟨l, w, hl, hmemory ▸ hw, hdecode⟩

/-- A cycle keeps the simulator in step, also if it fails. -/
theorem tick (hnum : Numbered is) (hs : s.InStep init is k)
    (hfetched : ∀ i, s.tick.fetched = some i → is[k]? = some i) :
    s.tick.next.InStep init is (k + s.tick.fetched.toList.length) := by
  have hbefore := hs.beforeFetch hnum
  rcases tick_cases s with ⟨-, hnext, hnone⟩ | ⟨hnext, hnone⟩ | ⟨i, hrun, hroom, hi, hnext, hsome⟩
  · rw [hnext, hnone]
    exact hbefore
  · rw [hnext, hnone]
    exact hbefore.followRedirect
  · rw [hnext, hsome]
    exact hbefore.followRedirect.accept hrun hroom hi (hfetched i hsome)

end InStep

/-- What is fetched in a cycle is the next instruction of every list that begins with what has been
fetched after it. -/
theorem getElem?_of_fetched {js : List Instruction} (his : is ++ s.tick.fetched.toList <+: js)
    (hi : s.tick.fetched = some i) : js[is.length]? = some i := by
  rw [hi] at his
  obtain ⟨rest, rfl⟩ := his
  simp

/-- Cycles of a simulator stay in step with the execution of any list that begins with what they
fetch. -/
theorem Cycles.inStep {js : List Instruction} (h : start.Cycles is es s) (his : is <+: js)
    (hnum : Numbered js) (hstart : start.InStep init js 0) : s.InStep init js is.length := by
  induction h with
  | refl => exact hstart
  | tick _ ih =>
    rw [List.length_append]
    exact (ih ((List.prefix_append _ _).trans his)).tick hnum fun _ => getElem?_of_fetched his

theorem Fetches.inStep {js : List Instruction} (h : start.Fetches is s) (his : is <+: js)
    (hnum : Numbered js) (hstart : start.InStep init js 0) : s.InStep init js is.length := by
  obtain ⟨_, h⟩ := h.cycles
  exact h.inStep his hnum hstart

/-- A new simulator is in step, whatever is in its memory. -/
theorem inStep_new {c : Config} {s : Simulator} (h : Simulator.new c = .ok s) (m : Memory)
    (is : List Instruction) :
    ({ s with memory := m } : Simulator).InStep { memory := m, pc := c.run.startPc } is 0 := by
  obtain ⟨-, rfl⟩ := new_eq_ok h
  exact ⟨.new _ _ m _ is, ⟨fun hn => absurd hn (Nat.not_lt_zero _), nofun⟩, rfl, fun _ _ => rfl,
    fun hn => absurd hn (Nat.not_lt_zero _), fun hn => absurd hn (Nat.not_lt_zero _)⟩

end InStep

end Simulator

end OutOfOrder
