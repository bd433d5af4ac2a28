import OutOfOrder.Proofs.Dispatching
import OutOfOrder.Proofs.Guards
import Mathlib.Data.List.Induction

/-!
# The counters move forward in program order

An access to a control and status register sees the counters as they stand when it starts, and it
starts out of program order, between instructions that have not retired. Still the counters never
seem to go back. The system unit takes its instructions in program order, and two of them never
start while the counters stand still: they show the cycles and the retirements at the beginning of a
cycle, in one cycle only one access starts, and cycles that fail, in which the cycle counter does
not move, deliver no result; so the access that started first keeps its station, and locks the
others. And no more instructions have retired than stand in front of the access, since what retires
has left the window, and the access is in it.

## Main definitions

* `Sample` — an access, with the counters and the time
* `Recording` — a system with a clock, and the samples taken so far
* `Core.Holds` — a station for a unit has a serial number
* `Sample.Fits`, `Recording.Punctual` — what is kept

## Main results

* `System.Reachable.among_dispatched` — the accesses are the starts on the system unit
* `Snapshot.Round.samples` — one round of dispatch takes one sample at most
* `Sample.fits_of_serves`, `Sample.Fits.published`, `Sample.Fits.tick` — what is known about a new
  sample, and that a cycle keeps it
* `Recording.Punctual.perform` — whatever is done keeps the samples in order
* `Recording.counters_in_order` — the counters in the order of the program
-/

namespace OutOfOrder

/-! ### Samples -/

/-- An access to a control and status register, and how the counters stood when it started. -/
structure Sample where
  instruction : Instruction
  cycle : Nat
  instret : Nat
  /-- How many cycles had ended without a fault by then. -/
  elapsed : Nat
deriving Repr

namespace Event

/-- The sample that an event amounts to at a given time. -/
def sample? (elapsed : Nat) : Event → Option Sample
  | csrAccess i number instret => some { instruction := i, cycle := number, instret, elapsed }
  | _ => none

/-- The instruction that an event says has started. -/
def dispatched? : Event → Option Instruction
  | dispatch i _ => some i
  | _ => none

theorem map_instruction_samples (n : Nat) (es : List Event) :
    (es.filterMap (sample? n)).map Sample.instruction = es.filterMap csrAccessed? := by
  rw [List.map_filterMap]
  congr 1
  funext e
  cases e <;> rfl

theorem filterMap_sample?_eq_nil {n : Nat} {es : List Event}
    (h : ∀ e ∈ es, e.unit? ≠ some .system) : es.filterMap (sample? n) = [] := by
  rw [← List.map_eq_nil_iff (f := Sample.instruction), map_instruction_samples,
    filterMap_csrAccessed?_eq_nil h]

end Event

/-- A system with a clock that counts the cycles without a fault, and the samples taken so far. -/
structure Recording where
  system : System
  elapsed : Nat := 0
  samples : List Sample := []

namespace Recording

/-- A recording that has not begun. -/
def new (st : CoreSettings) (n : Nat) (m : Memory) : Recording := { system := .new st n m }

/-- Do something, and record the samples that it takes. -/
def perform (r : Recording) : Action → Recording
  | .offer word pc uuid => { r with system := r.system.offer word pc uuid }
  | .cycle =>
    let t := r.system.core.tick r.system.queue r.system.memory
    { system := r.system.tick
      elapsed := if t.fault.isNone then r.elapsed + 1 else r.elapsed
      samples := r.samples ++ t.events.filterMap (Event.sample? r.elapsed) }

/-- Do one thing after the other. -/
def performAll (r : Recording) (actions : List Action) : Recording := actions.foldl perform r

theorem system_perform (r : Recording) (a : Action) :
    (r.perform a).system = r.system.perform a := by
  cases a <;> rfl

theorem system_performAll (r : Recording) (actions : List Action) :
    (r.performAll actions).system = r.system.performAll actions := by
  induction actions generalizing r with
  | nil => rfl
  | cons a actions ih => exact (ih (r.perform a)).trans (by rw [system_perform]; rfl)

theorem performAll_concat (r : Recording) (actions : List Action) (a : Action) :
    r.performAll (actions ++ [a]) = (r.performAll actions).perform a := List.foldl_append

end Recording

/-! ### Starts and accesses -/

namespace Snapshot

/-- Every start of an access reports an access, and nothing else does. -/
theorem Reports.among_dispatched {s t : Snapshot} {es : List Event} (h : s.Reports es t) :
    UnitKind.system.among (es.filterMap Event.dispatched?) = es.filterMap Event.csrAccessed? := by
  cases h with
  | remark hes =>
    have hnone : es.filterMap Event.dispatched? = [] := List.filterMap_eq_nil_iff.mpr fun e he => by
      have hremark := hes e he
      cases e <;> first | rfl | cases hremark
    rw [hnone, Event.filterMap_csrAccessed?_eq_nil fun e he => by
      rw [Event.unit?_of_isRemark (hes e he)]
      exact (Option.some_ne_none _).symm]
    rfl
  | count | issue | advance | publish | deliver | retire => rfl
  | @start slot st e a b x h hx =>
    rw [List.filterMap_append, List.filterMap_append, Core.sideEffects]
    cases hunit : e.instruction.unit with
    | system => exact UnitKind.among_singleton hunit
    | alu | branch | memory =>
      exact UnitKind.among_eq_nil (List.forall_mem_singleton.mpr (by rw [hunit]; decide))
  | fail h hfault =>
    rw [Core.sideEffects_of_memory (Instruction.compute_eq_error_iff.mp hfault).1]
    rfl

end Snapshot

/-- The accesses are the starts of instructions for the system unit. -/
theorem System.Reachable.among_dispatched {st : CoreSettings} {n : Nat} {m : Memory} {s : System}
    (h : Reachable st n m s) :
    UnitKind.system.among (s.events.filterMap Event.dispatched?) = s.csrAccesses :=
  h.keeps_journal
    (P := fun _ es _ => UnitKind.system.among (es.filterMap Event.dispatched?) =
      es.filterMap Event.csrAccessed?)
    (List.prefix_refl _) rfl (fun _ _ _ ht => ht) fun hr ht => by
      rw [List.filterMap_append, List.filterMap_append, UnitKind.among_append, ht,
        hr.among_dispatched]

/-! ### One round of dispatch -/

/-- A station in the pool is for a unit and has a serial number. -/
def Core.Holds (c : Core) (u : UnitKind) (n : Nat) : Prop :=
  ∃ k t, c.stations.get? k = some t ∧ t.unit = u ∧ t.uuid = n

namespace Snapshot

variable {s : Snapshot} {ks : List Slot} {d : Core.Dispatched} {start : Sequential}
  {is : List Instruction} {k n : Nat} {u : UnitKind}

/-- Dispatch removes no station. -/
theorem Round.holds (h : s.Round ks d) (hu : s.core.Holds u n) : d.core.Holds u n := by
  induction h with
  | nil => exact hu
  | stall ht hbusy hlater ih => exact ih hu
  | fail h hunit hfault => exact hu
  | start h hunit hx hnot hlater ih =>
    obtain ⟨j, v, hv, hvunit, hvuuid⟩ := hu
    obtain ⟨w, hw, hwunit, hwuuid⟩ := (Stations.get?_of_markRunning h.eligible.get).1 hv
    exact ih ⟨j, w, hw, hwunit.trans hvunit, hwuuid.trans hvuuid⟩

/-- Neither does anything before it. -/
theorem holds_published (hu : s.core.Holds u n) : s.published.core.Holds u n := by
  obtain ⟨j, v, hv, hvunit, hvuuid⟩ := hu
  refine ⟨j, v, ?_, hvunit, hvuuid⟩
  rw [stations_published]
  rcases s.core.beginCycle.issue_cases s.queue with
    heq | ⟨_, _, _, slot, _, stations, -, -, hstations, heq⟩
  · rw [heq]
    exact hv
  · obtain ⟨hfree, hget⟩ := Stations.get?_allocate hstations
    have hne : j ≠ slot := by
      rintro rfl
      cases hfree.symm.trans hv
    rw [heq]
    exact (hget j).trans ((if_neg hne).trans hv)

/-- **One round of dispatch takes one sample at most**: of the accesses that might start there is
only one, and it does not move the counters. -/
theorem Round.samples (h : s.Round ks d) (hs : s.OnTrack start is k) (hnum : Numbered is) (n : Nat) :
    d.events.filterMap (Event.sample? n) = [] ∨
      ∃ l t e, s.core.stations.Eligible l t ∧ t.unit = .system ∧
        s.core.window.get? t.tag = some e ∧
        d.events.filterMap (Event.sample? n) =
          [{ instruction := e.instruction, cycle := s.core.csrs.cycle
             instret := s.core.csrs.instret, elapsed := n }] := by
  induction h with
  | nil => exact .inl rfl
  | stall ht hbusy hlater ih => exact ih hs
  | fail h hunit hfault =>
    refine .inl (Event.filterMap_sample?_eq_nil fun f hf => ?_)
    rw [Core.unit?_of_mem_sideEffects hf, (Instruction.compute_eq_error_iff.mp hfault).1]
    decide
  | @start s l ks t e a b x d h hunit hx hnot hlater ih =>
    have ht := h.eligible
    specialize ih (hs.step hnum (.start ht h.free h.entry h.src1 h.src2 hx))
    dsimp only
    rw [List.filterMap_append, List.filterMap_append]
    by_cases hsystem : t.unit = .system
    · -- whatever else might access the registers is locked
      have hnone : d.events.filterMap (Event.sample? n) = [] := by
        refine ih.resolve_right ?_
        rintro ⟨j, v, f, hv, hvunit, -⟩
        obtain ⟨hne, hv⟩ := hv.of_markRunning ht.get
        exact hne (hs.eligible_inj hnum hv ht (hsystem.trans hvunit.symm) (by rw [hvunit]; rfl))
      refine .inr ⟨l, t, e, ht, hsystem, h.entry, ?_⟩
      rw [hnone, Core.sideEffects_of_system (hunit.trans hsystem)]
      rfl
    · rw [Event.filterMap_sample?_eq_nil fun f hf => by
        rw [Core.unit?_of_mem_sideEffects hf, hunit]
        exact fun heq => hsystem (Option.some.inj heq)]
      refine ih.imp id ?_
      rintro ⟨j, v, f, hv, hvunit, hentry, hsample⟩
      have hcsrs : x.csrs = s.core.csrs :=
        (Instruction.compute_frame hx).2 fun heq => hsystem (hunit.symm.trans heq)
      rw [← hcsrs]
      exact ⟨j, v, f, (hv.of_markRunning ht.get).2, hvunit, hentry, hsample⟩

/-! ### A cycle -/

theorem counts_published (s : Snapshot) : s.published.core.cycle = s.core.cycle ∧
    s.published.core.retired = s.core.retired := by
  obtain ⟨_, _, _, hissue⟩ := s.core.beginCycle.issue_eq s.queue
  obtain ⟨_, _, _, hpublish⟩ := (s.core.beginCycle.issue s.queue).core.advanceUnits.publish_eq
  rw [published, hpublish, hissue]
  exact ⟨rfl, rfl⟩

/-- The counters are set before dispatch. -/
theorem counters_published (s : Snapshot) : s.published.core.csrs.cycle = s.core.cycle ∧
    s.published.core.csrs.instret = s.core.retired := by
  rw [csrs_published]
  exact ⟨rfl, rfl⟩

/-- The samples of a cycle are taken in dispatch. -/
theorem samples_tick (hrun : s.core.halted = false) (n : Nat) :
    (s.core.tick s.queue s.memory).events.filterMap (Event.sample? n) =
      (s.published.core.dispatch s.memory).events.filterMap (Event.sample? n) := by
  have hquiet : ∀ {es : List Event}, (∀ e ∈ es, e.unit? = none) →
      es.filterMap (Event.sample? n) = [] := fun hes => Event.filterMap_sample?_eq_nil fun e he => by
    rw [hes e he]
    exact (Option.some_ne_none _).symm
  change _ = (s.core.dispatched s.queue s.memory).events.filterMap (Event.sample? n)
  cases hfault : (s.core.dispatched s.queue s.memory).fault with
  | some fault =>
    rw [Core.tick_eq_of_fault hrun hfault]
    dsimp only
    rw [List.filterMap_append, hquiet fun e => unit?_of_mem_published, List.nil_append]
  | none =>
    rw [Core.tick_eq_of_ok hrun hfault]
    dsimp only
    rw [List.filterMap_append, List.filterMap_append, List.filterMap_append,
      hquiet fun e => unit?_of_mem_published, hquiet fun e => Core.unit?_of_mem_wakeUp,
      hquiet fun e => Core.unit?_of_mem_retire, List.nil_append, List.append_nil, List.append_nil]

end Snapshot

/-- What is known about a sample, if `k` cycles have run so far and `is` has been accepted. -/
structure Sample.Fits (a : Sample) (c : Core) (is : List Instruction) (k : Nat) : Prop where
  /-- The cycle counter agrees with the clock. -/
  clock : a.cycle = a.elapsed
  elapsed_lt : a.elapsed < k
  instret_le_cycle : a.instret ≤ a.cycle
  /-- Since then the counters have not gone back, -/
  cycle_le : a.cycle ≤ c.cycle
  instret_le : a.instret ≤ c.retired
  /-- and if no cycle has been counted, the access still has its station. -/
  holds : a.cycle = c.cycle → c.Holds .system a.instruction.uuid
  /-- No more has retired than stands in front of the access. -/
  place : ∃ p, is[p]? = some a.instruction ∧ a.instret ≤ p

namespace Sample

variable {a : Sample} {s : Snapshot} {start : Sequential} {is js : List Instruction} {k l : Nat}

theorem Fits.mono {c : Core} (h : a.Fits c is k) (his : is <+: js) (hk : k ≤ l) :
    a.Fits c js l := by
  obtain ⟨p, hp, hle⟩ := h.place
  obtain ⟨rest, rfl⟩ := his
  exact
    { h with
      elapsed_lt := Nat.lt_of_lt_of_le h.elapsed_lt hk
      place := ⟨p, (List.getElem?_append_left (List.getElem?_eq_some_iff.mp hp).1).trans hp, hle⟩ }

/-- Nothing before dispatch makes a difference. -/
theorem Fits.published (h : a.Fits s.core is k) : a.Fits s.published.core is k := by
  obtain ⟨hcycle, hretired⟩ := s.counts_published
  exact
    { h with
      cycle_le := Nat.le_trans h.cycle_le (Nat.le_of_eq hcycle.symm)
      instret_le := Nat.le_trans h.instret_le (Nat.le_of_eq hretired.symm)
      holds := fun heq => Snapshot.holds_published (h.holds (heq.trans hcycle)) }

/-- A new sample: the counters have just been set, and what the access belongs to is in the
window. -/
theorem fits_of_serves (hs : s.published.OnTrack start is l) {j : Slot} {t : Station} {p : Nat}
    {e : Entry} (hserve : s.published.core.Serves j t p e) (hunit : t.unit = .system)
    (hle : s.core.retired ≤ s.core.cycle) (hk : s.core.cycle < k) :
    Fits
      { instruction := e.instruction, cycle := s.published.core.csrs.cycle
        instret := s.published.core.csrs.instret, elapsed := s.core.cycle }
      s.published.core is k := by
  obtain ⟨hcycle, hretired⟩ := s.counts_published
  obtain ⟨hnumber, hinstret⟩ := s.counters_published
  rw [hnumber, hinstret]
  exact
    { clock := rfl
      elapsed_lt := hk
      instret_le_cycle := hle
      cycle_le := Nat.le_of_eq hcycle.symm
      instret_le := Nat.le_of_eq hretired.symm
      holds := fun _ => ⟨j, t, hserve.station, hunit, (hserve.describes hs.sound.consistent).1⟩
      place := by
        refine ⟨p, hs.follows.entry hserve.entry, ?_⟩
        rw [← hretired, hs.follows.retired]
        exact (ReorderBuffer.bounds_of_nth? hserve.entry).1 }

/-- What is known before dispatch is known at the end of the cycle: either the cycle fails and
nothing leaves the pool, or it counts. -/
theorem Fits.tick (h : a.Fits s.published.core is k) (hrun : s.core.halted = false)
    (hround : s.published.Round s.published.core.stations.dispatchable
      (s.published.core.dispatch s.memory)) : a.Fits s.tick.core is k := by
  obtain ⟨hcycle, hretired⟩ := s.counts_published
  have hinstret : a.instret ≤ s.tick.core.retired := by
    have hle := hretired ▸ h.instret_le
    rcases s.steps_tick.retired_le with ⟨heq, -⟩ | hlt
    · exact heq ▸ hle
    · exact Nat.le_trans hle (Nat.le_of_lt hlt)
  have hle : a.cycle ≤ s.core.cycle := hcycle ▸ h.cycle_le
  cases hfault : (s.core.tick s.queue s.memory).fault with
  | some fault =>
    have hsame : s.tick.core.cycle = s.core.cycle := (Core.counts_tick_of_fault hrun hfault).1
    have hcore : s.tick.core = (s.published.core.dispatch s.memory).core :=
      (Core.tick_of_fault hrun ((Core.fault_tick hrun).symm.trans hfault)).2
    exact
      { h with
        cycle_le := Nat.le_trans hle (Nat.le_of_eq hsame.symm)
        instret_le := hinstret
        holds := fun heq => by
          rw [hcore]
          exact hround.holds (h.holds (heq.trans (hsame.trans hcycle.symm))) }
  | none =>
    have hnext : s.tick.core.cycle = s.core.cycle + 1 := (Core.counts_tick_of_ok hrun hfault).1
    have hlt : a.cycle < s.tick.core.cycle := hnext ▸ Nat.lt_succ_of_le hle
    exact
      { h with
        cycle_le := Nat.le_of_lt hlt
        instret_le := hinstret
        holds := fun heq => absurd heq (Nat.ne_of_lt hlt) }

end Sample

/-! ### Recordings -/

namespace Recording

variable {st : CoreSettings} {n : Nat} {m : Memory} {r : Recording} {k : Nat}

/-- What is kept in a recording with `k` cycles. -/
structure Punctual (r : Recording) (k : Nat) : Prop where
  /-- The core counts the cycles that have ended without a fault, until it halts. -/
  clock : r.system.core.halted = false → r.system.core.cycle = r.elapsed
  elapsed_le : r.elapsed ≤ k
  retired_le : r.system.core.retired ≤ r.system.core.cycle
  /-- There is a sample of every access. -/
  accesses : r.samples.map Sample.instruction = r.system.csrAccesses
  fits : ∀ a ∈ r.samples, a.Fits r.system.core r.system.accepted k
  /-- The counters have moved on between any two samples. -/
  ordered : r.samples.Pairwise fun a b => a.cycle < b.cycle ∧ a.instret ≤ b.instret

theorem punctual_new (st : CoreSettings) (n : Nat) (m : Memory) : (new st n m).Punctual 0 :=
  ⟨fun _ => rfl, Nat.le_refl 0, Nat.le_refl 0, rfl, List.forall_mem_nil _, .nil⟩

theorem accesses_perform (h : r.samples.map Sample.instruction = r.system.csrAccesses)
    (a : Action) : (r.perform a).samples.map Sample.instruction =
      (r.perform a).system.csrAccesses := by
  cases a with
  | offer word pc uuid =>
    obtain ⟨_, _, -, heq⟩ := r.system.offer_eq word pc uuid
    rw [perform, heq]
    exact h
  | cycle =>
    rw [perform, System.csrAccesses, System.tick]
    dsimp only
    rw [List.map_append, List.filterMap_append, Event.map_instruction_samples, h]
    rfl

/-- Samples are taken in program order. -/
theorem pairwise_uuid (h : r.samples.map Sample.instruction = r.system.csrAccesses)
    (hr : System.Reachable st n m r.system) (hnum : Numbered r.system.accepted) :
    r.samples.Pairwise fun a b => a.instruction.uuid < b.instruction.uuid := by
  have hprefix := hr.csrAccesses_prefix hnum
  have hsorted : (r.samples.map Sample.instruction).Pairwise fun i j => i.uuid < j.uuid := by
    rw [h]
    exact (hnum.sublist List.filter_sublist).sublist hprefix.sublist
  rwa [List.pairwise_map] at hsorted

theorem Punctual.offer (h : r.Punctual k) (word pc : Word) (uuid : Nat) :
    (r.perform (.offer word pc uuid)).Punctual k := by
  have haccesses := accesses_perform h.accesses (.offer word pc uuid)
  obtain ⟨_, _, hbegins, heq⟩ := r.system.offer_eq word pc uuid
  rw [perform, heq] at haccesses ⊢
  exact ⟨h.clock, h.elapsed_le, h.retired_le, haccesses,
    fun a ha => (h.fits a ha).mono hbegins (Nat.le_refl k), h.ordered⟩

/-- The station of an earlier access would lock a new one, if it had not been given up in a cycle
that counts. -/
theorem Punctual.lt_cycle (h : r.Punctual k) {l : Slot} {t : Station} {a : Sample}
    (ha : a ∈ r.samples) (ht : r.system.snapshot.published.core.stations.Eligible l t)
    (hunit : t.unit = .system) (huuid : a.instruction.uuid < t.uuid) :
    a.cycle < r.system.core.cycle := by
  have hfits := h.fits a ha
  refine Nat.lt_of_le_of_ne hfits.cycle_le fun heq => ?_
  obtain ⟨j, v, hv, hvunit, hvuuid⟩ :=
    Snapshot.holds_published (s := r.system.snapshot) (hfits.holds heq)
  have hle := ht.uuid_le hv (hvunit.trans hunit.symm) (by rw [hunit]; rfl)
  exact Nat.not_le_of_lt (hvuuid ▸ huuid) hle

/-- A cycle of a halted machine takes no sample. -/
theorem Punctual.cycle_of_halted (h : r.Punctual k) (hhalted : r.system.core.halted = true) :
    (r.perform .cycle).Punctual (k + 1) := by
  have hevents : (r.system.core.tick r.system.queue r.system.memory).events = [] := by
    rw [Core.tick, if_pos hhalted]
  rw [perform, hevents, System.tick_of_halted hhalted, List.filterMap_nil, List.append_nil]
  refine ⟨fun hrun => ?_, ?_, h.retired_le, h.accesses,
    fun a ha => (h.fits a ha).mono (List.prefix_refl _) (Nat.le_succ k), h.ordered⟩
  · rw [hhalted] at hrun
    cases hrun
  · have hle := h.elapsed_le
    dsimp only
    split <;> omega

/-- A cycle takes one sample at most, and this one is later than all others. -/
theorem Punctual.samples_cycle (h : r.Punctual k) (hr : System.Reachable st n m r.system)
    (hnum : Numbered r.system.accepted) (hrun : r.system.core.halted = false)
    (hs : r.system.snapshot.published.OnTrack { memory := m } r.system.accepted
      r.system.accepted.length)
    (hround : r.system.snapshot.published.Round
      r.system.snapshot.published.core.stations.dispatchable
      (r.system.snapshot.published.core.dispatch r.system.memory)) :
    (r.perform .cycle).samples = r.samples ∨
      ∃ b, (r.perform .cycle).samples = r.samples ++ [b] ∧
        b.Fits r.system.tick.core r.system.accepted (k + 1) ∧
        ∀ a ∈ r.samples, a.cycle < b.cycle ∧ a.instret ≤ b.instret := by
  have htick : (r.perform .cycle).samples = r.samples ++ _ :=
    congrArg (r.samples ++ ·) (Snapshot.samples_tick (s := r.system.snapshot) hrun r.elapsed)
  rcases hround.samples hs hnum r.elapsed with hnone | ⟨l, t, e, ht, hunit, he, hone⟩
  · exact .inl (htick.trans ((congrArg (r.samples ++ ·) hnone).trans (List.append_nil _)))
  · have hc := hs.sound.consistent
    have hclock := h.clock hrun
    obtain ⟨p, f, hserve, -⟩ := hc.serves ht.get
    obtain rfl := Option.some.inj (hserve.get?_tag.symm.trans he)
    obtain ⟨hnumber, hinstret⟩ := r.system.snapshot.counters_published
    have hsamples := htick.trans (congrArg (r.samples ++ ·) hone)
    refine .inr ⟨_, hsamples, ?_, fun a ha => ?_⟩
    · rw [← hclock]
      exact (Sample.fits_of_serves hs hserve hunit h.retired_le
        (Nat.lt_succ_of_le (hclock ▸ h.elapsed_le))).tick hrun hround
    · have hpairwise := pairwise_uuid (accesses_perform h.accesses .cycle) hr.tick hnum
      rw [hsamples] at hpairwise
      have huuid := (List.pairwise_append.mp hpairwise).2.2 a ha _ List.mem_cons_self
      dsimp only
      rw [hnumber, hinstret]
      exact ⟨h.lt_cycle ha ht hunit ((hserve.describes hc).1 ▸ huuid), (h.fits a ha).instret_le⟩

/-- The core counts the cycles that do not fail, and no more instructions retire than there are. -/
theorem Punctual.clock_cycle (h : r.Punctual k) (hrun : r.system.core.halted = false) :
    (r.perform .cycle).system.core.cycle = (r.perform .cycle).elapsed ∧
      (r.perform .cycle).elapsed ≤ k + 1 ∧
      (r.perform .cycle).system.core.retired ≤ (r.perform .cycle).system.core.cycle := by
  have hclock := h.clock hrun
  have hle := h.elapsed_le
  have hretired := h.retired_le
  rw [perform, System.tick]
  dsimp only
  cases hfault : (r.system.core.tick r.system.queue r.system.memory).fault with
  | some fault =>
    obtain ⟨hcycle, hsame⟩ := Core.counts_tick_of_fault hrun hfault
    rw [hcycle, hsame, Option.isNone_some, if_neg Bool.false_ne_true]
    exact ⟨hclock, Nat.le_succ_of_le hle, hretired⟩
  | none =>
    obtain ⟨hcycle, hnext⟩ := Core.counts_tick_of_ok hrun hfault
    rw [hcycle, Option.isNone_none, if_pos rfl]
    exact ⟨congrArg (· + 1) hclock, Nat.succ_le_succ hle,
      Nat.le_trans hnext (Nat.succ_le_succ hretired)⟩

theorem Punctual.cycle (h : r.Punctual k) (hr : System.Reachable st n m r.system)
    (hnum : Numbered r.system.accepted) : (r.perform .cycle).Punctual (k + 1) := by
  cases hrun : r.system.core.halted with
  | true => exact h.cycle_of_halted hrun
  | false =>
    have hs := (hr.onTrack (List.prefix_refl _) hnum).published hnum
    have hround := Snapshot.round_dispatch hs.sound.consistent
    have hold : ∀ a ∈ r.samples, a.Fits r.system.tick.core r.system.accepted (k + 1) :=
      fun a ha => (((h.fits a ha).published (s := r.system.snapshot)).tick hrun hround).mono
        (List.prefix_refl _) (Nat.le_succ k)
    have hsamples : (∀ a ∈ (r.perform .cycle).samples,
        a.Fits r.system.tick.core r.system.accepted (k + 1)) ∧
        (r.perform .cycle).samples.Pairwise fun a b => a.cycle < b.cycle ∧ a.instret ≤ b.instret := by
      rcases h.samples_cycle hr hnum hrun hs hround with hsame | ⟨b, hmore, hb, hlast⟩
      · rw [hsame]
        exact ⟨hold, h.ordered⟩
      · rw [hmore]
        refine ⟨List.forall_mem_append.mpr ⟨hold, List.forall_mem_singleton.mpr hb⟩,
          List.pairwise_append.mpr ⟨h.ordered, List.pairwise_singleton _ _, fun a ha c hc => ?_⟩⟩
        obtain rfl := List.mem_singleton.mp hc
        exact hlast a ha
    obtain ⟨hclock, helapsed, hretired⟩ := h.clock_cycle hrun
    exact ⟨fun _ => hclock, helapsed, hretired, accesses_perform h.accesses .cycle, hsamples.1,
      hsamples.2⟩

/-- Whatever is done keeps the samples in order. -/
theorem Punctual.perform (h : r.Punctual k) (hr : System.Reachable st n m r.system)
    (hnum : Numbered r.system.accepted) (a : Action) :
    (r.perform a).Punctual (k + [a].count .cycle) := by
  cases a with
  | offer word pc uuid => exact h.offer word pc uuid
  | cycle => exact h.cycle hr hnum

theorem accepted_perform (r : Recording) (a : Action) :
    r.system.accepted <+: (r.perform a).system.accepted := by
  cases a with
  | offer word pc uuid =>
    obtain ⟨_, _, hbegins, heq⟩ := r.system.offer_eq word pc uuid
    rw [Recording.perform, heq]
    exact hbegins
  | cycle => exact List.prefix_refl _

theorem reachable_performAll (st : CoreSettings) (n : Nat) (m : Memory) (actions : List Action) :
    System.Reachable st n m ((new st n m).performAll actions).system := by
  rw [system_performAll]
  exact System.Reachable.new.performAll actions

theorem punctual_performAll {actions : List Action}
    (hnum : Numbered ((new st n m).performAll actions).system.accepted) :
    ((new st n m).performAll actions).Punctual (actions.count .cycle) := by
  induction actions using List.reverseRecOn with
  | nil => exact punctual_new st n m
  | append_singleton actions a ih =>
    rw [performAll_concat] at hnum ⊢
    have hnum := hnum.sublist (accepted_perform _ a).sublist
    rw [List.count_append]
    exact (ih hnum).perform (reachable_performAll st n m actions) hnum a

/-- An earlier one in the program has been sampled at an earlier time. -/
theorem Punctual.before (h : r.Punctual k) (hr : System.Reachable st n m r.system)
    (hnum : Numbered r.system.accepted) {a b : Sample} (ha : a ∈ r.samples) (hb : b ∈ r.samples)
    (huuid : a.instruction.uuid < b.instruction.uuid) :
    a.cycle < b.cycle ∧ a.instret ≤ b.instret := by
  have hforth : r.samples.Pairwise fun c d => c.instruction.uuid < d.instruction.uuid →
      c.cycle < d.cycle ∧ c.instret ≤ d.instret := by
    refine h.ordered.imp ?_
    exact fun hlater _ => hlater
  have hback : r.samples.Pairwise fun c d => d.instruction.uuid < c.instruction.uuid →
      d.cycle < c.cycle ∧ d.instret ≤ c.instret :=
    (pairwise_uuid h.accesses hr hnum).imp fun hlt hgt => absurd hgt (Nat.lt_asymm hlt)
  exact hforth.forall_of_forall_of_flip (fun c _ hlt => absurd hlt (Nat.lt_irrefl _)) hback ha hb
    huuid

/-- **The counters move forward in program order.** Whatever instructions are offered, as long as
their serial numbers go up, and however many cycles run in between, whether they fail or not: there
is one sample of every access to a control and status register that has started. Of two samples the
one that comes first in the program shows an earlier cycle, and no more retired instructions. The
cycle that a sample shows is the number of cycles that had ended without a fault by then; so it is
below the number of all cycles, and a 64-bit counter can hold it if it can count those. It shows no
more retired instructions than cycles, and no more than have been accepted before its own. And no
instruction changes the counters. -/
theorem counters_in_order (st : CoreSettings) (n : Nat) (m : Memory) (actions : List Action)
    (hnum : ((System.new st n m).performAll actions).accepted.Pairwise
      fun i j => i.uuid < j.uuid) :
    let s := (System.new st n m).performAll actions
    let r := (Recording.new st n m).performAll actions
    r.system = s ∧
      r.samples.map Sample.instruction =
        UnitKind.system.among (s.events.filterMap Event.dispatched?) ∧
      r.samples.map Sample.instruction <+: UnitKind.system.among s.accepted ∧
      (∀ (p q : Nat) (a b : Sample), a ∈ r.samples → b ∈ r.samples →
        s.accepted[p]? = some a.instruction → s.accepted[q]? = some b.instruction → p < q →
          a.cycle < b.cycle ∧ a.instret ≤ b.instret) ∧
      (∀ a ∈ r.samples, a.cycle = a.elapsed ∧ a.elapsed < actions.count .cycle ∧
        a.instret ≤ a.cycle ∧ ∃ p, s.accepted[p]? = some a.instruction ∧ a.instret ≤ p) ∧
      ∀ (i : Instruction) (a b : Word) (m : Memory) (f : CsrFile) (x : Effect),
        i.compute a b m f = .ok x → x.csrs.cycle = f.cycle ∧ x.csrs.instret = f.instret := by
  intro s r
  have hsystem : r.system = s := system_performAll _ actions
  have hreach : System.Reachable st n m r.system := reachable_performAll st n m actions
  have hnum : Numbered r.system.accepted := hsystem ▸ hnum
  have hr : r.Punctual (actions.count .cycle) := punctual_performAll hnum
  refine ⟨hsystem, ?_, ?_, fun p q a b ha hb hp hq hpq => ?_, fun a ha => ?_,
    fun _ _ _ _ _ _ hx => Instruction.compute_counters hx⟩
  · rw [← hsystem, hreach.among_dispatched]
    exact hr.accesses
  · rw [← hsystem, hr.accesses]
    exact hreach.csrAccesses_prefix hnum
  · rw [← hsystem] at hp hq
    exact hr.before hreach hnum ha hb (Numbered.lt hnum hp hq hpq)
  · have hfits := hr.fits a ha
    rw [← hsystem]
    exact ⟨hfits.clock, hfits.elapsed_lt, hfits.instret_le_cycle, hfits.place⟩

/-- A sum, and then the two counters are read: the second time both have moved on, the sum and the
first access having retired meanwhile. -/
theorem counters_in_order_sum :
    let actions : List Action := [.offer 0x00500093 0 0, .offer 0xC00022F3 4 1,
      .offer 0xC0202373 8 2, .cycle, .cycle, .cycle, .cycle]
    let s := (System.new {} 4 (.empty 0 16)).performAll actions
    let r := (Recording.new {} 4 (.empty 0 16)).performAll actions
    r.samples.map (fun a => (a.cycle, a.instret)) = [(1, 0), (3, 2)] ∧
      (∀ a ∈ r.samples, ∀ b ∈ r.samples, s.accepted[1]? = some a.instruction →
        s.accepted[2]? = some b.instruction → a.cycle < b.cycle ∧ a.instret ≤ b.instret) ∧
      ∀ a ∈ r.samples, a.cycle = a.elapsed ∧
        ∃ p, s.accepted[p]? = some a.instruction ∧ a.instret ≤ p := by
  intro actions s r
  have hnum : s.accepted.Pairwise fun i j => i.uuid < j.uuid := by decide
  obtain ⟨-, -, -, hordered, hfits, -⟩ := counters_in_order {} 4 (.empty 0 16) actions hnum
  refine ⟨by decide, fun a ha b hb ha' hb' => hordered 1 2 a b ha hb ha' hb' (by decide),
    fun a ha => ?_⟩
  obtain ⟨hclock, -, -, hplace⟩ := hfits a ha
  exact ⟨hclock, hplace⟩

end Recording

end OutOfOrder
