import OutOfOrder.Proofs.Handshake
import Mathlib.Logic.ExistsUnique

/-!
# The budget of a run

A run is a loop: it ends when the core has halted, it gives up when the core has counted as many
cycles as the budget allows, and otherwise it makes a cycle and goes on unless this fails. Whatever
a cycle does, it does not look at the budget. So runs with different budgets make the same cycles,
and differ only in how many. A program that comes to an end does so after a number of cycles of its
own; every run with a budget of at least that number ends in the same way, and every other one
is cut off, after as many cycles as its budget allows.

## Main definitions

* `Simulator.passes` — the simulators that a run passes through
* `Simulator.Lasts` — so many cycles are made, and none of them fails
* `Simulator.Concludes` — the program comes to an end after so many cycles
* `Simulator.within` — the same simulator with another budget
* `Simulator.Stops` — with such a budget, a run stops after so many cycles

## Main results

* `Simulator.run_eq` — a run is a loop
* `Simulator.tick_within` — a cycle does not look at the budget
* `Simulator.Concludes.runFor_eq`, `Simulator.Lasts.runFor_eq` — a run with budget enough, and one
  without
* `Simulator.lasts_or_concludes` — there are no other runs
* `Simulator.run_truncates` — the budget does nothing but cut a run off
-/

namespace OutOfOrder

namespace Simulator

variable {s t : Simulator} {n b : Nat} {fault : Option SimError}

/-! ### The loop -/

/-- A cycle that counts takes one from the budget. -/
theorem budget_tick (hrun : s.core.halted = false) (hok : s.tick.fault = none)
    (hbudget : s.budget = b + 1) : s.tick.next.budget = b := by
  have hcore := (tick_of_ok hok).1
  obtain ⟨redirect, hnext, -, -, hmax⟩ := s.tick_next_eq
  rw [tick_core] at hcore hnext
  rw [budget] at hbudget ⊢
  rw [hmax, hnext]
  have hcycle := (Core.counts_tick_of_ok hrun hcore).1
  dsimp only
  omega

/-- A run ends when the core has halted, gives up at the end of the budget, and otherwise makes a
cycle and goes on, unless this cycle fails. -/
theorem run_eq (s : Simulator) : s.run =
    if s.core.halted then { final := s, fault := none, gathered := () }
    else if s.maxCycles ≤ s.core.cycle then
      { final := s, fault := some (.cycleLimit s.maxCycles), gathered := () }
    else
      match s.tick.fault with
      | some e => { final := s.tick.next, fault := some e, gathered := () }
      | none => s.tick.next.run := by
  rw [run, runGathering]
  cases hbudget : s.budget with
  | zero =>
    rw [runFor]
    split
    · rfl
    · rw [if_pos (Nat.le_of_sub_eq_zero hbudget)]
  | succ b =>
    rw [runFor]
    split
    · rfl
    · next hrun =>
      have hlt : ¬s.maxCycles ≤ s.core.cycle := fun hle => by
        rw [budget, Nat.sub_eq_zero_of_le hle] at hbudget
        cases hbudget
      rw [if_neg hlt]
      dsimp only
      cases hfault : s.tick.fault with
      | some e => rfl
      | none =>
        dsimp only
        rw [run, runGathering, budget_tick (Bool.of_not_eq_true hrun) hfault hbudget]

/-- The simulators that a run passes through, from the first to the last. -/
def passes (s : Simulator) : List Simulator :=
  (s.runGathering (fun ts t _ => ts ++ [t]) []).gathered ++ [s.run.final]

/-! ### Cycle by cycle -/

/-- So many cycles of a run are made, and none of them fails. -/
def Lasts (s : Simulator) (n : Nat) : Prop :=
  ∀ k, k < n → (s.after k).core.halted = false ∧ (s.after k).tick.fault = none

/-- The program comes to an end after so many cycles: the core has halted, or the last of these
cycles fails. -/
inductive Concludes (s : Simulator) : Nat → Option SimError → Prop where
  | halted {n : Nat} (h : s.Lasts n) (hhalted : (s.after n).core.halted = true) :
      Concludes s n none
  | failed {n : Nat} {e : SimError} (h : s.Lasts n) (hrun : (s.after n).core.halted = false)
      (hfault : (s.after n).tick.fault = some e) : Concludes s (n + 1) (some e)

theorem Lasts.succ (h : s.Lasts n) (hrun : (s.after n).core.halted = false)
    (hok : (s.after n).tick.fault = none) : s.Lasts (n + 1) := by
  intro k hk
  rcases Nat.lt_succ_iff_lt_or_eq.mp hk with hlt | rfl
  · exact h k hlt
  · exact ⟨hrun, hok⟩

theorem Lasts.mono (h : s.Lasts n) (hb : b ≤ n) : s.Lasts b :=
  fun k hk => h k (Nat.lt_of_lt_of_le hk hb)

theorem maxCycles_after (s : Simulator) (n : Nat) : (s.after n).maxCycles = s.maxCycles := by
  induction n with
  | zero => rfl
  | succ n ih =>
    obtain ⟨-, -, -, -, hmax⟩ := (s.after n).tick_next_eq
    exact hmax.trans ih

/-- Every cycle that does not fail counts. -/
theorem Lasts.cycle (h : s.Lasts n) : (s.after n).core.cycle = s.core.cycle + n := by
  induction n with
  | zero => rfl
  | succ n ih =>
    obtain ⟨hrun, hok⟩ := h n (Nat.lt_succ_self n)
    have hcore := (tick_of_ok hok).1
    obtain ⟨redirect, hnext, -⟩ := (s.after n).tick_next_eq
    rw [tick_core] at hcore hnext
    have hcycle := (Core.counts_tick_of_ok hrun hcore).1
    have hbefore := ih (h.mono (Nat.le_succ n))
    rw [after, hnext]
    dsimp only
    omega

/-- Either so many cycles can be made and there are more to come, or the program comes to an end. -/
theorem lasts_or_concludes (s : Simulator) (b : Nat) :
    (s.Lasts b ∧ (s.after b).core.halted = false) ∨
      ∃ n fault, n ≤ b ∧ s.Concludes n fault := by
  induction b with
  | zero =>
    have hnone : s.Lasts 0 := fun k hk => absurd hk (Nat.not_lt_zero k)
    cases hrun : (s.after 0).core.halted with
    | false => exact .inl ⟨hnone, rfl⟩
    | true => exact .inr ⟨0, none, Nat.le_refl 0, .halted hnone hrun⟩
  | succ b ih =>
    rcases ih with ⟨h, hrun⟩ | ⟨n, fault, hn, h⟩
    · cases hfault : (s.after b).tick.fault with
      | some e => exact .inr ⟨b + 1, some e, Nat.le_refl _, .failed h hrun hfault⟩
      | none =>
        have hlasts := h.succ hrun hfault
        cases hhalted : (s.after (b + 1)).core.halted with
        | false => exact .inl ⟨hlasts, rfl⟩
        | true => exact .inr ⟨b + 1, none, Nat.le_refl _, .halted hlasts hhalted⟩
    · exact .inr ⟨n, fault, Nat.le_succ_of_le hn, h⟩

/-- Before the end of the program there are more cycles to come. -/
theorem Concludes.lasts (h : s.Concludes n fault) (hb : b < n) :
    s.Lasts b ∧ (s.after b).core.halted = false := by
  cases h with
  | halted h hhalted => exact ⟨h.mono (Nat.le_of_lt hb), (h b hb).1⟩
  | @failed n e h hrun hfault =>
    refine ⟨h.mono (Nat.le_of_lt_succ hb), ?_⟩
    rcases Nat.lt_succ_iff_lt_or_eq.mp hb with hlt | rfl
    · exact (h b hlt).1
    · exact hrun

/-- A cycle never fails for want of cycles. -/
theorem tick_fault_ne (s : Simulator) (limit : Nat) : s.tick.fault ≠ some (.cycleLimit limit) := by
  intro h
  rcases tick_of_fault h with ⟨f, -, heq, -⟩ | ⟨-, -, hword, -⟩
  · cases heq
  · rw [fetchWord] at hword
    split at hword
    · cases hword
    · split at hword
      · cases hword
      · cases hword

theorem Concludes.fault_ne (h : s.Concludes n fault) (limit : Nat) :
    fault ≠ some (.cycleLimit limit) := by
  cases h with
  | halted => nofun
  | failed _ _ hfault => exact hfault ▸ tick_fault_ne _ limit

/-! ### What a run comes to -/

section RunFor

variable {α : Type} {gather : α → Simulator → Tick → α} {a : α}

/-- What is gathered from so many cycles. -/
def gathering (gather : α → Simulator → Tick → α) (s : Simulator) (n : Nat) (a : α) : α :=
  (List.range n).foldl (fun a k => gather a (s.after k) (s.after k).tick) a

theorem gathering_succ (gather : α → Simulator → Tick → α) (s : Simulator) (n : Nat) (a : α) :
    gathering gather s (n + 1) a =
      gather (gathering gather s n a) (s.after n) (s.after n).tick := by
  rw [gathering, List.range_succ, List.foldl_append]
  rfl

/-- A run makes its first cycles, and goes on with what is left of its budget. -/
theorem Lasts.runFor_add (h : s.Lasts n) (b : Nat) (a : α) :
    runFor gather (n + b) s a = runFor gather b (s.after n) (gathering gather s n a) := by
  induction n generalizing b with
  | zero =>
    rw [Nat.zero_add]
    rfl
  | succ n ih =>
    obtain ⟨hrun, hok⟩ := h n (Nat.lt_succ_self n)
    rw [Nat.add_right_comm, Nat.add_assoc, ih (h.mono (Nat.le_succ n)), runFor,
      if_neg (by rw [hrun]; exact Bool.false_ne_true), gathering_succ]
    dsimp only
    rw [hok]
    rfl

/-- With budget enough, a run goes on to the end of the program. -/
theorem Concludes.runFor_eq (h : s.Concludes n fault) (hb : n ≤ b) (a : α) :
    runFor gather b s a =
      { final := s.after n, fault, gathered := gathering gather s n a } := by
  obtain ⟨b, rfl⟩ := Nat.exists_eq_add_of_le hb
  cases h with
  | halted h hhalted =>
    rw [h.runFor_add]
    cases b with
    | zero => rw [runFor, if_pos hhalted]
    | succ b => rw [runFor, if_pos hhalted]
  | @failed n e h hrun hfault =>
    rw [Nat.add_assoc, Nat.add_comm 1, h.runFor_add, runFor,
      if_neg (by rw [hrun]; exact Bool.false_ne_true), gathering_succ]
    dsimp only
    rw [hfault]
    rfl

/-- Without, it is cut off. -/
theorem Lasts.runFor_eq (h : s.Lasts b) (hrun : (s.after b).core.halted = false) (a : α) :
    runFor gather b s a =
      { final := s.after b, fault := some (.cycleLimit s.maxCycles)
        gathered := gathering gather s b a } := by
  have hsplit : runFor gather (b + 0) s a = _ := h.runFor_add 0 a
  rw [Nat.add_zero] at hsplit
  rw [hsplit, runFor, if_neg (by rw [hrun]; exact Bool.false_ne_true), maxCycles_after]

end RunFor

/-! ### Other budgets -/

/-- The same simulator with another budget. -/
def within (s : Simulator) (limit : Nat) : Simulator := { s with maxCycles := limit }

variable {limit : Nat}

theorem followRedirect_within (s : Simulator) (limit : Nat) :
    (s.within limit).followRedirect = s.followRedirect.within limit := by
  rw [followRedirect, followRedirect, Core.takeRedirect, Core.takeRedirect, within]
  dsimp only
  cases s.core.redirect with
  | none => rfl
  | some target =>
    dsimp only
    split
    · rfl
    · rfl

theorem fetchNext_within (s : Simulator) (limit : Nat) :
    (s.within limit).fetchNext = { s.fetchNext with next := s.fetchNext.next.within limit } := by
  have hword : (s.followRedirect.within limit).fetchWord = s.followRedirect.fetchWord := rfl
  have hgo : ((s.followRedirect.within limit).fetch ≠ .running ∨
      (s.followRedirect.within limit).queue.isFull) =
      (s.followRedirect.fetch ≠ .running ∨ s.followRedirect.queue.isFull) := rfl
  rw [fetchNext, fetchNext, followRedirect_within]
  simp only [hgo, hword]
  split
  · rfl
  · split
    · rfl
    · rfl

/-- A cycle does not look at the budget. -/
theorem tick_within (s : Simulator) (limit : Nat) :
    (s.within limit).tick = { s.tick with next := s.tick.next.within limit } := by
  have hbefore : (s.within limit).beforeFetch = s.beforeFetch.within limit := rfl
  cases hcore : (s.core.tick s.queue s.memory).fault with
  | some f =>
    rw [tick_eq_of_fault (s := s.within limit) hcore, tick_eq_of_fault hcore]
    rfl
  | none =>
    rw [tick_eq_of_ok (s := s.within limit) hcore, tick_eq_of_ok hcore, hbefore, fetchNext_within]
    rfl

theorem after_within (s : Simulator) (limit n : Nat) :
    (s.within limit).after n = (s.after n).within limit := by
  induction n with
  | zero => rfl
  | succ n ih => rw [after, ih, tick_within, after]

theorem Lasts.within (h : s.Lasts n) (limit : Nat) : (s.within limit).Lasts n := by
  intro k hk
  rw [after_within, tick_within]
  exact h k hk

theorem Concludes.within (h : s.Concludes n fault) (limit : Nat) :
    (s.within limit).Concludes n fault := by
  cases h with
  | halted h hhalted => exact .halted (h.within limit) (by rw [after_within]; exact hhalted)
  | failed h hrun hfault =>
    refine .failed (h.within limit) ?_ ?_
    · rw [after_within]
      exact hrun
    · rw [after_within, tick_within]
      exact hfault

/-! ### What a run comes to -/

/-- With a budget, a run stops after so many cycles, with a fault or without. -/
structure Stops (s : Simulator) (limit n : Nat) (fault : Option SimError) : Prop where
  final : (s.within limit).run.final = (s.after n).within limit
  fault : (s.within limit).run.fault = fault
  passes : (s.within limit).passes =
    (List.range (n + 1)).map fun k => (s.after k).within limit

theorem stops_of_runGathering
    (h : ∀ {α : Type} (gather : α → Simulator → Tick → α) (a : α),
      (s.within limit).runGathering gather a =
        { final := (s.within limit).after n, fault
          gathered := gathering gather (s.within limit) n a }) : s.Stops limit n fault := by
  have htrail : ∀ n, gathering (fun ts t _ => ts ++ [t]) (s.within limit) n [] =
      (List.range n).map fun k => (s.after k).within limit := by
    intro n
    induction n with
    | zero => rfl
    | succ n ih =>
      rw [gathering_succ, ih, List.range_succ, List.map_append, List.map_singleton, after_within]
  have hrun : (s.within limit).run = _ := h _ _
  rw [after_within] at hrun
  refine ⟨by rw [hrun], by rw [hrun], ?_⟩
  rw [passes, h, hrun, htrail, List.range_succ, List.map_append, List.map_singleton]

section Start

variable (hcycle : s.core.cycle = 0)

include hcycle

theorem budget_within (limit : Nat) : (s.within limit).budget = limit := by
  rw [budget]
  exact (congrArg (limit - ·) hcycle).trans (Nat.sub_zero limit)

/-- With budget enough, a run goes on to the end of the program. -/
theorem Concludes.stops (h : s.Concludes n fault) (hn : n ≤ limit) : s.Stops limit n fault := by
  refine stops_of_runGathering fun gather a => ?_
  rw [runGathering, budget_within hcycle]
  exact (h.within limit).runFor_eq hn a

/-- Without, it is cut off. -/
theorem Lasts.stops (h : s.Lasts limit) (hrun : (s.after limit).core.halted = false) :
    s.Stops limit limit (some (.cycleLimit limit)) := by
  refine stops_of_runGathering fun gather a => ?_
  rw [runGathering, budget_within hcycle]
  exact (h.within limit).runFor_eq (by rw [after_within]; exact hrun) a

/-- There are no other runs. -/
theorem exists_stops (limit : Nat) : ∃ n fault, n ≤ limit ∧ s.Stops limit n fault ∧
    (n = limit ∨ s.Concludes n fault) := by
  rcases s.lasts_or_concludes limit with ⟨h, hrun⟩ | ⟨n, fault, hn, h⟩
  · exact ⟨limit, _, Nat.le_refl limit, h.stops hcycle hrun, .inl rfl⟩
  · exact ⟨n, fault, hn, h.stops hcycle hn, .inr h⟩

/-- A run that gives up has made all its cycles, and the program has not come to an end. -/
theorem lasts_of_cycleLimit (h : (s.within limit).run.fault = some (.cycleLimit limit)) :
    s.Lasts limit ∧ (s.after limit).core.halted = false := by
  rcases s.lasts_or_concludes limit with hlasts | ⟨n, fault, hn, hend⟩
  · exact hlasts
  · exact absurd ((hend.stops hcycle hn).fault.symm.trans h) (hend.fault_ne limit)

/-- Any other run has come to the end of the program. -/
theorem concludes_of_ne (h : (s.within limit).run.fault ≠ some (.cycleLimit limit)) :
    ∃ n, n ≤ limit ∧ s.Concludes n (s.within limit).run.fault := by
  rcases s.lasts_or_concludes limit with ⟨hlasts, hrun⟩ | ⟨n, fault, hn, hend⟩
  · exact absurd (hlasts.stops hcycle hrun).fault h
  · exact ⟨n, hn, (hend.stops hcycle hn).fault ▸ hend⟩

/-- With a larger budget, a run that has come to the end of the program comes to the same end. -/
theorem run_of_le {n n' : Nat} (hn : n ≤ n')
    (hne : (s.within n).run.fault ≠ some (.cycleLimit n)) :
    (s.within n').run.fault = (s.within n).run.fault ∧
      (s.within n').run.final = (s.within n).run.final.within n' := by
  obtain ⟨k, hk, hend⟩ := concludes_of_ne hcycle hne
  have hshort := hend.stops hcycle hk
  have hlong := hend.stops hcycle (Nat.le_trans hk hn)
  refine ⟨hlong.fault, hlong.final.trans ?_⟩
  rw [hshort.final]
  rfl

/-- A run that has been cut off passes through the same simulators as one with a larger budget. -/
theorem passes_of_le {n n' : Nat} (hn : n ≤ n')
    (hlimit : (s.within n).run.fault = some (.cycleLimit n)) :
    (s.within n).passes.length = n + 1 ∧
      (s.within n').passes[n]? = some ((s.within n).run.final.within n') := by
  obtain ⟨hlasts, hrun⟩ := lasts_of_cycleLimit hcycle hlimit
  have hcut := hlasts.stops hcycle hrun
  obtain ⟨k, fault, -, hstops, hk⟩ := exists_stops hcycle n'
  -- the longer run makes at least as many cycles, as the program ends later if at all
  have hle : n ≤ k := by
    rcases hk with rfl | hend
    · exact hn
    · refine Nat.le_of_not_lt fun hlt => ?_
      exact hend.fault_ne n ((hend.stops hcycle (Nat.le_of_lt hlt)).fault.symm.trans hlimit)
  rw [hcut.passes, hcut.final, hstops.passes, List.length_map, List.length_range,
    List.getElem?_map, List.getElem?_range (Nat.lt_succ_of_le hle)]
  exact ⟨rfl, rfl⟩

/-- The budgets that a program runs into are all, or those below one number of cycles. -/
theorem exists_threshold (hends : s.Concludes n fault) :
    ∃! cycles, (∀ n, n < cycles → (s.within n).run.fault = some (.cycleLimit n)) ∧
      ∃ (fault : Option SimError) (final : Simulator),
        (∀ limit, fault ≠ some (.cycleLimit limit)) ∧ ∀ n, cycles ≤ n →
          (s.within n).run.fault = fault ∧ (s.within n).run.final = final.within n := by
  have hbelow : ∀ b, b < n → (s.within b).run.fault = some (.cycleLimit b) := fun b hb => by
    obtain ⟨hlasts, hrun⟩ := hends.lasts hb
    exact (hlasts.stops hcycle hrun).fault
  refine ⟨n, ⟨hbelow, fault, s.after n, hends.fault_ne, fun b hb => ?_⟩, ?_⟩
  · exact ⟨(hends.stops hcycle hb).fault, (hends.stops hcycle hb).final⟩
  · rintro c ⟨hbelow', fault', final, hne, habove⟩
    rcases Nat.lt_trichotomy c n with hlt | heq | hgt
    · exact absurd ((habove c (Nat.le_refl c)).1.symm.trans (hbelow c hlt)) (hne c)
    · exact heq
    · exact absurd ((hends.stops hcycle (Nat.le_refl n)).fault.symm.trans (hbelow' n hgt))
        (hends.fault_ne n)

end Start

/-- A new simulator gets its budget from the configuration, and nothing else depends on that. -/
theorem new_of_maxCycles {c : Config} (h : Simulator.new c = .ok s) (budget : BitVec 64) :
    Simulator.new { c with run := { c.run with maxCycles := budget } } =
      .ok { s with maxCycles := budget.toNat } := by
  obtain ⟨hok, rfl⟩ := new_eq_ok h
  have hok' : ({ c with run := { c.run with maxCycles := budget } } : Config).error? = none := hok
  rw [Simulator.new, Config.check, hok']
  rfl

/-- **The budget of a run only cuts it off.** Take new simulators, with the same contents of memory,
that have different budgets but nothing else to tell them apart. Then

* a run that does not give up for want of cycles ends with any larger budget in the same way and
  with the same simulator, but for the budget;
* a run that does give up has made as many cycles as its budget allows, they have all been counted,
  and the core has not halted; and with any larger budget, a run passes through the same simulator
  after the same number of cycles;
* so either the program runs into every budget, or there is exactly one number of cycles such that
  it runs into every budget below, and comes to one and the same end with all others;
* a run makes no more cycles than its budget allows, and it is the loop that it is meant to be. -/
theorem run_truncates {c : Config} (hnew : Simulator.new c = .ok s) (m : Memory) :
    let start (limit : Nat) : Simulator := { s with memory := m, maxCycles := limit }
    (∀ budget : BitVec 64, Simulator.new { c with run := { c.run with maxCycles := budget } } =
      .ok { s with maxCycles := budget.toNat }) ∧
    (∀ n n', n ≤ n' → (start n).run.fault ≠ some (.cycleLimit n) →
      (start n').run.fault = (start n).run.fault ∧
        (start n').run.final = { (start n).run.final with maxCycles := n' }) ∧
    (∀ n n', n ≤ n' → (start n).run.fault = some (.cycleLimit n) →
      (start n).run.final.core.cycle = n ∧ (start n).run.final.core.halted = false ∧
        (start n).passes.length = n + 1 ∧
        (start n').passes[n]? = some { (start n).run.final with maxCycles := n' }) ∧
    ((∀ n, (start n).run.fault = some (.cycleLimit n)) ∨
      ∃! cycles, (∀ n, n < cycles → (start n).run.fault = some (.cycleLimit n)) ∧
        ∃ (fault : Option SimError) (final : Simulator),
          (∀ limit, fault ≠ some (.cycleLimit limit)) ∧ ∀ n, cycles ≤ n →
            (start n).run.fault = fault ∧ (start n).run.final = { final with maxCycles := n }) ∧
    (∀ n, (start n).passes.length ≤ n + 1) ∧
    ∀ t : Simulator, t.run =
      if t.core.halted then { final := t, fault := none, gathered := () }
      else if t.maxCycles ≤ t.core.cycle then
        { final := t, fault := some (.cycleLimit t.maxCycles), gathered := () }
      else
        match t.tick.fault with
        | some e => { final := t.tick.next, fault := some e, gathered := () }
        | none => t.tick.next.run := by
  intro start
  have hcycle : ({ s with memory := m } : Simulator).core.cycle = 0 := by
    rw [(new_eq_ok hnew).2]
    rfl
  refine ⟨new_of_maxCycles hnew, fun n n' hn hne => run_of_le hcycle hn hne,
    fun n n' hn hlimit => ?_, ?_, fun n => ?_, run_eq⟩
  · obtain ⟨hlasts, hrun⟩ := lasts_of_cycleLimit hcycle hlimit
    have hfinal : (start n).run.final = _ := (hlasts.stops hcycle hrun).final
    refine ⟨?_, ?_, passes_of_le hcycle hn hlimit⟩
    · rw [hfinal]
      exact hlasts.cycle.trans ((congrArg (· + n) hcycle).trans (Nat.zero_add n))
    · rw [hfinal]
      exact hrun
  -- the program may come to no end at all, and then nothing but the budget stops a run
  · by_cases hends : ∃ k fault, ({ s with memory := m } : Simulator).Concludes k fault
    · obtain ⟨k, fault, hend⟩ := hends
      exact .inr (exists_threshold hcycle hend)
    · refine .inl fun n => ?_
      rcases lasts_or_concludes { s with memory := m } n with ⟨hlasts, hrun⟩ | ⟨k, fault, -, hend⟩
      · exact (hlasts.stops hcycle hrun).fault
      · exact absurd ⟨k, fault, hend⟩ hends
  · obtain ⟨k, fault, hk, hstops, -⟩ := exists_stops hcycle n
    have hpasses : (start n).passes = _ := hstops.passes
    rw [hpasses, List.length_map, List.length_range]
    exact Nat.succ_le_succ hk

/-- A jump to itself runs into every budget, and with a larger one it only runs longer. -/
theorem run_truncates_spinning : ∃ s, Simulator.new {} = .ok s ∧
    ({ s with memory := spinning, maxCycles := 5 } : Simulator).run.final.core.cycle = 5 ∧
    ({ s with memory := spinning, maxCycles := 9 } : Simulator).passes[5]? =
      some { ({ s with memory := spinning, maxCycles := 5 } : Simulator).run.final with
        maxCycles := 9 } := by
  obtain ⟨s, hnew, hlimit⟩ : ∃ s, Simulator.new {} = .ok s ∧
      ({ s with memory := spinning, maxCycles := 5 } : Simulator).run.fault =
        some (.cycleLimit 5) := ⟨_, rfl, rfl⟩
  obtain ⟨-, -, hcut, -⟩ := run_truncates hnew spinning
  obtain ⟨hcycle, -, -, hpasses⟩ := hcut 5 9 (by decide) hlimit
  exact ⟨s, hnew, hcycle, hpasses⟩

end Simulator

end OutOfOrder
