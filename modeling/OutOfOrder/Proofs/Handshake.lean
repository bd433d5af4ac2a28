import OutOfOrder.Proofs.Fetching
import OutOfOrder.Proofs.InOrder

/-!
# The handshake of fetching and the core

The state of fetching says how things stand with the instructions in flight. While fetching waits,
the instruction that it waits for is still unresolved, and nothing else is; while it runs,
everything has been resolved, and it stands where the last instruction has led; and once it has
stopped, the program ends with the last instruction fetched. Between two cycles nothing lies in the
mailbox, because fetching looks into it whenever the core has got far enough to write to it.

Where an instruction of control flow leads is known from the events alone: the unit that computes it
reports it as it starts. The report is made once, the result that travels through unit and bus is
the one reported, and what arrives in the mailbox is what the result says. So none of this needs the
sequential machine, and it holds of programs that read performance counters as well.

## Main definitions

* `LeadsTo` — according to the events, control goes from an instruction to an address
* `Core.Answers`, `Core.Told` — what the core says about where control goes has been reported, and
  it says so in time
* `Simulator.Handshake` — what the state of fetching means
* `Simulator.pipeline`, `Simulator.unresolved` — the instructions in flight, and those of control
  flow among them that have no result yet

## Main results

* `Core.Answers.report`, `Core.Told.step` — what a step does to the answers
* `Simulator.Handshake.tick`, `Simulator.Cycles.handshake` — the state of fetching always means what
  it should
* `Simulator.Cycles.fetches_on` — everything fetched is accounted for, and fetching waits, runs or
  has stopped exactly when it has reason to
-/

namespace OutOfOrder

/-- According to the events, control goes from an instruction to an address: an instruction of
control flow was computed, and every time this was the result; all others fall through. -/
def LeadsTo (es : List Event) (i : Instruction) (pc : Word) : Prop :=
  if i.isControlFlow = true then
    (∃ x, Event.dispatch i x ∈ es) ∧ ∀ x, Event.dispatch i x ∈ es → x.redirect = some pc
  else pc = i.fallThrough

/-! ### What the core says -/

namespace Core

theorem dispatch_notMem_sideEffects {c : Core} {m : Memory} {i j : Instruction} {a b : Word}
    {x : Completion} : Event.dispatch i x ∉ c.sideEffects m j a b := by
  rw [sideEffects]
  cases j.unit <;> simp

/-- What has been resolved after a step had been resolved before, unless its result has just
arrived. -/
theorem Resolved.before {s t : Snapshot} {n : Nat} (h : s.Step t) (hc : s.core.Consistent)
    (hn : t.core.Resolved n) : s.core.Resolved n ∨ ∃ r u e, s.core.bus.current = some r ∧
      s.core.Serves r.slot u n e ∧ t.core = s.core.delivering r := by
  obtain ⟨hlt, hready⟩ := hn
  cases h with
  | count csrs arbiter cycle hcells => exact .inl ⟨hlt, hready⟩
  | issue hpop hwindow hstations =>
    have hw := ReorderBuffer.entered_of_allocate? hwindow
    have hne : n ≠ s.core.window.next := by
      rintro rfl
      cases hready _ hw.newest
    have hlt := Nat.lt_of_lt_of_eq hlt hw.next
    exact .inl ⟨by omega, fun e he => hready e (hw.kept he)⟩
  | advance => exact .inl ⟨hlt, hready⟩
  | publish hbus hdone => exact .inl ⟨hlt, hready⟩
  | start ht hfree hentry ha hb heffect => exact .inl ⟨hlt, hready⟩
  | @deliver r hbus =>
    obtain ⟨u, m, e, hserve, -, -, hw⟩ := hc.delivering_completes hbus
    by_cases hnm : n = m
    · subst hnm
      exact .inr ⟨r, u, e, hbus, hserve, rfl⟩
    · refine .inl ⟨Nat.lt_of_lt_of_eq hlt hw.next, fun f hf => hready f ?_⟩
      rw [hw.nth?, if_neg hnm, hf]
  | retire hcommit =>
    have hw := ReorderBuffer.left_of_commit? hcommit
    rw [retiring_window, hw.next] at hlt
    refine .inl ⟨hlt, fun f hf => ?_⟩
    by_cases hn : n = s.core.window.departed
    · subst hn
      obtain rfl := Option.some.inj (hf.symm.trans hw.oldest)
      exact hw.ready
    · refine hready f ?_
      rw [retiring_window, hw.nth?, if_neg hn, hf]

/-- As soon as number `j` is resolved, if it is an instruction of control flow, there is an address
in the mailbox. -/
def Told (c : Core) (is : List Instruction) (j : Nat) : Prop :=
  ∀ i, is[j]? = some i → i.isControlFlow = true → c.Resolved j → c.redirect.isSome = true

/-- Everything that the core says about where control goes has been reported, and an address in the
mailbox is that after number `j`. -/
structure Answers (c : Core) (is : List Instruction) (es : List Event) (j : Nat) : Prop where
  /-- What was dispatched has entered the window, and does not wait any more. -/
  dispatched : ∀ {i x}, Event.dispatch i x ∈ es →
    ∃ n, n < c.window.next ∧ is[n]? = some i ∧ ¬c.Waiting n
  /-- It was dispatched once. -/
  once : ∀ {i x y}, Event.dispatch i x ∈ es → Event.dispatch i y ∈ es → x = y
  /-- A result on its way is the one reported. -/
  carried : ∀ {h r t n e}, c.carries h = some r → c.Serves r.slot t n e →
    ∃ x, Event.dispatch e.instruction x ∈ es ∧ x.redirect = r.redirect
  /-- An address in the mailbox is the one reported of number `j`. -/
  mailbox : ∀ {pc}, c.redirect = some pc →
    ∃ i x, is[j]? = some i ∧ Event.dispatch i x ∈ es ∧ x.redirect = some pc

/-- The only way to be resolved is to have one's result delivered, and this writes to the
mailbox. -/
theorem Told.step {s t : Snapshot} {start : Sequential} {is : List Instruction} {j k : Nat}
    (h : s.Step t) (hs : s.OnTrack start is k) (htold : s.core.Told is j) :
    t.core.Told is j := by
  intro i hi hflow hresolved
  rcases hresolved.before h hs.sound.consistent with hold | ⟨r, u, e, hbus, hserve, heq⟩
  · have hsome := htold i hi hflow hold
    cases h with
    | @deliver r hbus =>
      change (r.redirect.or s.core.redirect).isSome = true
      rw [Option.isSome_or, hsome, Bool.or_true]
    | retire hcommit =>
      rw [retiring_redirect]
      exact hsome
    | _ => exact hsome
  · have hsteering := hs.precise.steering (h := .bus) hbus hserve
    obtain rfl := Option.some.inj (hi.symm.trans (hs.follows.entry hserve.entry))
    rw [heq]
    change (r.redirect.or s.core.redirect).isSome = true
    rw [Option.isSome_or, hsteering, hflow, Bool.true_or]

namespace Answers

variable {s t : Snapshot} {c d : Core} {start : Sequential} {is : List Instruction}
  {es fs : List Event} {i : Instruction} {j k : Nat} {pc : Word}

/-- Further events that dispatch nothing change nothing. -/
theorem append (h : c.Answers is es j) (hfs : ∀ i x, Event.dispatch i x ∉ fs) :
    c.Answers is (es ++ fs) j := by
  have hold : ∀ {i x}, Event.dispatch i x ∈ es ++ fs → Event.dispatch i x ∈ es :=
    fun hmem => (List.mem_append.mp hmem).resolve_right (hfs _ _)
  refine ⟨fun hi => h.dispatched (hold hi), fun hx hy => h.once (hold hx) (hold hy),
    fun hr hs => ?_, fun hpc => ?_⟩
  · obtain ⟨x, hx, hredirect⟩ := h.carried hr hs
    exact ⟨x, List.mem_append_left _ hx, hredirect⟩
  · obtain ⟨i, x, hi, hx, hredirect⟩ := h.mailbox hpc
    exact ⟨i, x, hi, List.mem_append_left _ hx, hredirect⟩

/-- Nothing but the window, the stations, the holders and the mailbox matters. -/
theorem congr (h : c.Answers is es j) (hwindow : d.window = c.window)
    (hstations : d.stations = c.stations)
    (hredirect : ∀ {pc}, d.redirect = some pc → c.redirect = some pc)
    (hcarries : ∀ {h r}, d.carries h = some r → ∃ i, c.carries i = some r) :
    d.Answers is es j := by
  refine ⟨fun hi => ?_, h.once, fun hr hs => ?_, fun hpc => h.mailbox (hredirect hpc)⟩
  · obtain ⟨n, hn, hi, hwaiting⟩ := h.dispatched hi
    exact ⟨n, hwindow ▸ hn, hi, fun hw => hwaiting (hw.congr hwindow.symm hstations.symm)⟩
  · obtain ⟨_, hr⟩ := hcarries hr
    exact h.carried hr (hs.congr hwindow.symm hstations.symm)

/-- With an empty mailbox the number does not matter. -/
theorem move (h : c.Answers is es j) (hempty : c.redirect = none) : c.Answers is es k := by
  refine ⟨h.dispatched, h.once, h.carried, fun hpc => ?_⟩
  rw [hempty] at hpc
  cases hpc

/-- Where control goes does not change when more is reported. -/
theorem leadsTo (h : c.Answers is (es ++ fs) j) (hpc : LeadsTo es i pc) :
    LeadsTo (es ++ fs) i pc := by
  rw [LeadsTo] at hpc ⊢
  split
  · next hflow =>
    rw [if_pos hflow] at hpc
    obtain ⟨⟨x, hx⟩, hall⟩ := hpc
    refine ⟨⟨x, List.mem_append_left _ hx⟩, fun y hy => ?_⟩
    rw [← h.once (List.mem_append_left _ hx) hy]
    exact hall x hx
  · next hflow => rwa [if_neg hflow] at hpc

/-! ### The steps -/

theorem issuing (h : s.core.Answers is es j) (hc : s.core.Consistent) {tag : Tag}
    {w : ReorderBuffer} {l : Slot} {p : Stations} (hw : s.core.window.Entered i tag w)
    (hp : s.core.stations.allocate? (s.core.stationFor i tag) = some (l, p)) :
    (s.core.issuing i tag w p).Answers is es j := by
  refine ⟨fun hi => ?_, h.once, fun {o r t n e} hr hs => ?_, h.mailbox⟩
  · obtain ⟨n, hn, hi, hwaiting⟩ := h.dispatched hi
    refine ⟨n, Nat.lt_of_lt_of_eq (Nat.lt_succ_of_lt hn) hw.next.symm, hi, fun hnew => ?_⟩
    rcases (Frontier.waiting_issuing_iff hc hw hp).mp hnew with rfl | hold
    · exact Nat.lt_irrefl _ hn
    · exact hwaiting hold
  · -- the new slot was free, so nobody has a result for it
    rcases (hc.serves_issuing_iff hw hp).mp hs with ⟨hslot, -⟩ | hs
    · obtain ⟨u, hu, -⟩ := hc.running_of_carries (h := o) hr
      rw [hslot, (Stations.get?_allocate hp).1] at hu
      cases hu
    · exact h.carried (h := o) hr hs

theorem starting (h : s.core.Answers is es j) (hs : s.OnTrack start is k) (hnum : Numbered is)
    {l : Slot} {u : Station} {e : Entry} {a b : Word} {y : Effect}
    (hu : s.Startable l u e a b) : (s.core.starting l u y).Answers is
      (es ++ (s.core.sideEffects s.memory e.instruction a b ++
        [.dispatch e.instruction (completion l u y)])) j := by
  have hc := hs.sound.consistent
  have hfs : ∀ {i x}, Event.dispatch i x ∈ s.core.sideEffects s.memory e.instruction a b ++
      [.dispatch e.instruction (completion l u y)] ↔
        i = e.instruction ∧ x = completion l u y := by
    intro i x
    rw [List.mem_append, List.mem_singleton, Event.dispatch.injEq]
    exact or_iff_right dispatch_notMem_sideEffects
  obtain ⟨p, f, hserve, -⟩ := hc.serves hu.eligible.get
  obtain rfl := Option.some.inj (hserve.get?_tag.symm.trans hu.entry)
  have hp := hs.follows.entry hserve.entry
  have hwaiting : s.core.Waiting p := ⟨l, u, f, hserve, hu.eligible.waiting⟩
  -- serial numbers tell instructions apart, so what still waits has not been dispatched
  have hfirst : ∀ {x}, Event.dispatch f.instruction x ∉ es := by
    intro x hx
    obtain ⟨n, -, hn, hnot⟩ := h.dispatched hx
    obtain rfl : n = p := by
      rcases Nat.lt_trichotomy n p with hlt | heq | hgt
      · exact absurd (hnum.lt hn hp hlt) (Nat.lt_irrefl _)
      · exact heq
      · exact absurd (hnum.lt hp hn hgt) (Nat.lt_irrefl _)
    exact hnot hwaiting
  refine ⟨fun hi => ?_, fun hx hy => ?_, fun hr hs => ?_, fun hpc => ?_⟩
  · rcases List.mem_append.mp hi with hi | hi
    · obtain ⟨n, hn, hi, hnot⟩ := h.dispatched hi
      exact ⟨n, hn, hi, fun hw => hnot ((Frontier.waiting_starting_iff hc hserve).mp hw).2⟩
    · obtain ⟨rfl, -⟩ := hfs.mp hi
      exact ⟨p, (ReorderBuffer.bounds_of_nth? hserve.entry).2, hp,
        fun hw => ((Frontier.waiting_starting_iff hc hserve).mp hw).1 rfl⟩
  · rcases List.mem_append.mp hx with hx | hx <;> rcases List.mem_append.mp hy with hy | hy
    · exact h.once hx hy
    · obtain ⟨rfl, -⟩ := hfs.mp hy
      exact absurd hx hfirst
    · obtain ⟨rfl, -⟩ := hfs.mp hx
      exact absurd hy hfirst
    · rw [(hfs.mp hx).2, (hfs.mp hy).2]
  · obtain ⟨u', hu', -⟩ := (hc.serves_starting_iff hserve.station).mp hs
    rcases carries_starting hr with ⟨-, rfl⟩ | ⟨-, hr⟩
    · obtain ⟨-, -, rfl⟩ := hu'.inj hserve
      exact ⟨_, List.mem_append_right _ (hfs.mpr ⟨rfl, rfl⟩), rfl⟩
    · obtain ⟨x, hx, hredirect⟩ := h.carried hr hu'
      exact ⟨x, List.mem_append_left _ hx, hredirect⟩
  · obtain ⟨i, x, hi, hx, hredirect⟩ := h.mailbox hpc
    exact ⟨i, x, hi, List.mem_append_left _ hx, hredirect⟩

theorem delivering (h : s.core.Answers is es j) (hs : s.OnTrack start is k) (hk : k ≤ j + 1)
    (hj : s.core.Steered start is j) {r : Broadcast} (hr : s.core.bus.current = some r) :
    (s.core.delivering r).Answers is es j := by
  have hc := hs.sound.consistent
  obtain ⟨u, n, e, hserve, -, -, hw⟩ := hc.delivering_completes hr
  refine ⟨fun hi => ?_, h.once, fun ho hs => ?_, fun {pc} hpc => ?_⟩
  · obtain ⟨n, hn, hi, hnot⟩ := h.dispatched hi
    exact ⟨n, Nat.lt_of_lt_of_eq hn hw.next.symm, hi,
      fun hw => hnot ((Frontier.waiting_delivering_iff hc hr).mp hw)⟩
  · obtain ⟨-, u', hu', -⟩ := (hc.serves_delivering_iff hr).mp hs
    exact h.carried (carries_delivering ho).2 hu'
  · have hpc : r.redirect.or s.core.redirect = some pc := hpc
    cases hredirect : r.redirect with
    | none =>
      rw [hredirect, Option.none_or] at hpc
      exact h.mailbox hpc
    | some pc' =>
      rw [hredirect, Option.some_or] at hpc
      -- only one instruction can have written an address
      have hflow : e.instruction.isControlFlow = true := by
        rw [← hs.precise.steering (h := .bus) hr hserve, hredirect]
        rfl
      obtain rfl : n = j := hj.number_eq hs.follows hk hserve.entry (hserve.unready hc) hflow
      obtain ⟨x, hx, hxr⟩ := h.carried (h := .bus) hr hserve
      exact ⟨_, x, hs.follows.entry hserve.entry, hx, (hxr.trans hredirect).trans hpc⟩

theorem retiring (h : c.Answers is es j) (hc : c.Consistent) {tag : Tag} {e : Entry}
    {w : ReorderBuffer} (hw : c.window.Left tag e w) : (c.retiring tag e w).Answers is es j := by
  refine ⟨fun hi => ?_, h.once, fun hr hs => ?_, fun hpc => ?_⟩
  · obtain ⟨n, hn, hi, hnot⟩ := h.dispatched hi
    refine ⟨n, ?_, hi, fun h => hnot ((Frontier.waiting_retiring_iff hc hw).mp h)⟩
    rw [retiring_window, hw.next]
    exact hn
  · rw [carries_retiring] at hr
    exact h.carried hr ((hc.serves_retiring_iff hw).mp hs)
  · rw [retiring_redirect] at hpc
    exact h.mailbox hpc

/-- What a step does, together with its events. -/
theorem report (hr : s.Reports fs t) (hnum : Numbered is) (hs : s.OnTrack start is k)
    (hk : k ≤ j + 1) (hj : s.core.Steered start is j) (h : s.core.Answers is es j) :
    t.core.Answers is (es ++ fs) j := by
  have hc := hs.sound.consistent
  cases hr with
  | remark hes => exact h.append fun i x hx => Bool.false_ne_true (hes _ hx)
  | count csrs arbiter cycle hcells =>
    exact append (h.congr rfl rfl id fun hr => ⟨_, hr⟩) fun _ _ => List.not_mem_nil
  | issue hpop hwindow hstations =>
    refine (h.issuing hc (ReorderBuffer.entered_of_allocate? hwindow) hstations).append
      fun _ _ hx => ?_
    cases List.mem_singleton.mp hx
  | advance =>
    refine append (h.congr rfl rfl id fun {o r} hr => ⟨o, ?_⟩) fun _ _ => List.not_mem_nil
    cases o with
    | unit k => rwa [carries, completion?_advanceUnits] at hr
    | bus => exact hr
  | publish hbus hdone =>
    refine append (h.congr rfl rfl id fun hr => ?_) fun _ _ => List.not_mem_nil
    rcases carries_publishing hr with ⟨-, rfl⟩ | ⟨-, -, hr⟩
    · exact ⟨_, carries_unit (completion?_of_output? hdone)⟩
    · exact ⟨_, hr⟩
  | start hu hx => exact h.starting hs hnum hu
  | fail => exact h.append fun _ _ => dispatch_notMem_sideEffects
  | deliver hbus => exact (h.delivering hs hk hj hbus).append fun _ _ => List.not_mem_nil
  | retire hcommit =>
    refine (h.retiring hc (ReorderBuffer.left_of_commit? hcommit)).append fun _ _ hx => ?_
    cases List.mem_singleton.mp hx

end Answers

end Core

/-- A cycle that fails does not write to the mailbox. -/
theorem Core.redirect_of_fault {c : Core} {q : IssueQueue} {m : Memory} {f : MemoryError}
    (h : (c.tick q m).fault = some f) : (c.tick q m).core.redirect = c.redirect := by
  cases hrun : c.halted with
  | true =>
    rw [tick, if_pos hrun] at h
    cases h
  | false =>
    obtain ⟨_, _, _, _, _, _, _, heq⟩ := c.dispatched_eq q m
    rw [(tick_of_fault hrun ((fault_tick hrun).symm.trans h)).2, heq]

/-! ### The state of fetching -/

namespace Simulator

variable {s t start : Simulator} {init : Sequential} {is js : List Instruction} {es : List Event}
  {i : Instruction} {j k : Nat}

/-- What the state of fetching means, after the first `k` instructions of a list have been
fetched. -/
structure Handshake (s : Simulator) (is : List Instruction) (es : List Event) (k : Nat) :
    Prop where
  answers : s.core.Answers is es (s.settled k)
  told : s.core.Told is (s.settled k)
  /-- What has been reported as committed is what has left the window. -/
  committed : es.filterMap Event.committed? = is.take s.core.window.departed
  /-- What ends the program ends it at once. -/
  exits : s.snapshot.ExitsLast is
  /-- Fetching waits for the last instruction, and stands there. -/
  awaiting : s.fetch = .awaitRedirect →
    ∃ j i, k = j + 1 ∧ is[j]? = some i ∧ i.isControlFlow = true ∧ i.pc = s.pc
  /-- It goes on where the last instruction leads. -/
  running : s.fetch = .running → ∀ j i, k = j + 1 → is[j]? = some i → LeadsTo es i s.pc
  /-- It has stopped at the last instruction, which ends the program. -/
  stopped : s.fetch = .stopped → ∃ j i, k = j + 1 ∧ is[j]? = some i ∧ i.isExit = true ∧ i.pc = s.pc

namespace Handshake

theorem beforeFetch (h : s.Handshake is es k) (hs : s.InStep init is k) (hnum : Numbered is) :
    s.beforeFetch.Handshake is (es ++ s.tick.core.events) k := by
  obtain ⟨-, -, hanswers, htold, hcommitted⟩ := s.snapshot.journal_tick.keeps
    (P := fun es u => u.OnTrack init is k ∧ u.core.Steered init is (s.settled k) ∧
      u.core.Answers is es (s.settled k) ∧ u.core.Told is (s.settled k) ∧
      es.filterMap Event.committed? = is.take u.core.window.departed)
    (fun hr ⟨hs, hj, ha, ht, hcommitted⟩ => by
      refine ⟨hs.report hnum hr, ?_, ha.report hr hnum hs (InStep.le_settled _ _) hj, ?_, ?_⟩
      · rcases hr.step with rfl | hstep
        · exact hj
        · exact hj.step hstep hs (InStep.le_settled _ _)
      · rcases hr.step with rfl | hstep
        · exact ht
        · exact ht.step hstep hs
      · rw [List.filterMap_append, hcommitted]
        exact hs.follows.reported hr hs.sound.consistent)
    ⟨hs.onTrack, hs.steered, h.answers, h.told, h.committed⟩
  rw [tick_core]
  exact ⟨hanswers, htold, hcommitted,
    h.exits.tick hs.onTrack.sound.consistent hs.onTrack.follows, h.awaiting,
    fun hrun j i hk hi => hanswers.leadsTo (h.running hrun j i hk hi), h.stopped⟩

/-- Nothing that has not been fetched has been resolved. -/
theorem told_of_le (hs : s.InStep init is k) (hj : k ≤ j) : s.core.Told is j := by
  intro i _ _ hresolved
  have := hresolved.1
  have := hs.onTrack.follows.next_le
  have hnext : s.core.window.next ≤ k := this
  omega

/-- After fetching has looked into the mailbox, the mailbox is empty. -/
theorem followRedirect (h : s.Handshake is es k) (hs : s.InStep init is k) :
    s.followRedirect.Handshake is es k ∧ s.followRedirect.core.redirect = none := by
  have hs' := hs.followRedirect
  rw [Simulator.followRedirect, Core.takeRedirect] at hs' ⊢
  cases hredirect : s.core.redirect with
  | none => exact ⟨h, hredirect⟩
  | some target =>
    obtain ⟨hwait, hlast⟩ := hs.awaits_redirect hredirect
    rw [hredirect] at hs'
    dsimp only at hs' ⊢
    rw [if_pos hwait] at hs' ⊢
    have hempty : { s.core with redirect := none }.Answers is es (s.settled k) :=
      h.answers.congr rfl rfl (fun hpc => by cases hpc) fun hr => ⟨_, hr⟩
    refine ⟨⟨hempty.move rfl, told_of_le hs' (Nat.le_refl k), h.committed, h.exits,
      fun hwait => (by cases hwait), fun _ j i hk hi => ?_, fun hstop => (by cases hstop)⟩, rfl⟩
    -- the address was reported of the instruction that fetching has waited for
    obtain ⟨i', x, hi', hx, hxr⟩ := h.answers.mailbox hredirect
    obtain ⟨j', i'', hk', hi'', hflow, -⟩ := h.awaiting hwait
    obtain rfl : s.settled k = j := by omega
    obtain rfl : j' = s.settled k := by omega
    obtain rfl := Option.some.inj (hi'.symm.trans hi)
    obtain rfl := Option.some.inj (hi''.symm.trans hi)
    rw [LeadsTo, if_pos hflow]
    exact ⟨⟨x, hx⟩, fun y hy => h.answers.once hx hy ▸ hxr⟩

/-- What fetching does after an instruction is what this instruction asks for. -/
theorem accept (h : s.Handshake is es k) (hs : s.InStep init is k) (hempty : s.core.redirect = none)
    (hword : s.fetchWord = .ok i) (hk : is[k]? = some i) :
    (s.accept i).Handshake is es (k + 1) := by
  obtain ⟨w, hw, hdecode⟩ := fetchWord_eq_ok hword
  have hpc : i.pc = s.pc := (of_decode hdecode).2.1
  have hstate : (s.accept i).fetch = fetchStateAfter i := rfl
  have hstay : fetchStateAfter i ≠ .running → (s.accept i).pc = s.pc := fun hne => if_neg hne
  refine ⟨h.answers.move hempty, ?_, h.committed, h.exits, fun hwait => ?_, fun hrun => ?_,
    fun hstop => ?_⟩
  · refine told_of_le (s := s) hs ?_
    rw [InStep.settled_accept]
    split <;> omega
  · rw [hstate] at hwait
    refine ⟨k, i, rfl, hk, ?_, hpc.trans (hstay (by rw [hwait]; decide)).symm⟩
    rw [fetchStateAfter] at hwait
    split at hwait
    · assumption
    · split at hwait <;> cases hwait
  · rintro j i' hj hi'
    obtain rfl : j = k := by omega
    obtain rfl := Option.some.inj (hi'.symm.trans hk)
    rw [hstate] at hrun
    have hflow : ¬i'.isControlFlow = true := by
      intro hflow
      rw [fetchStateAfter, if_pos hflow] at hrun
      cases hrun
    rw [LeadsTo, if_neg hflow, Simulator.accept, if_pos hrun, Instruction.fallThrough, hpc]
  · rw [hstate] at hstop
    refine ⟨k, i, rfl, hk, ?_, hpc.trans (hstay (by rw [hstop]; decide)).symm⟩
    rw [fetchStateAfter] at hstop
    split at hstop
    · cases hstop
    · split at hstop
      · assumption
      · cases hstop

/-- A cycle, whether it fails or not, leaves the mailbox empty. -/
theorem tick (h : s.Handshake is es k) (hempty : s.core.redirect = none) (hs : s.InStep init is k)
    (hnum : Numbered is) (hfetched : ∀ i, s.tick.fetched = some i → is[k]? = some i) :
    s.tick.next.Handshake is (es ++ s.tick.core.events) (k + s.tick.fetched.toList.length) ∧
      s.tick.next.core.redirect = none := by
  have hbefore := h.beforeFetch hs hnum
  have hs' := hs.beforeFetch hnum
  rcases tick_cases s with
    ⟨⟨f, hf⟩, hnext, hnone⟩ | ⟨hnext, hnone⟩ | ⟨i, hrun, hroom, hi, hnext, hsome⟩
  · rw [hnext, hnone]
    rw [tick_core] at hf
    exact ⟨hbefore, (Core.redirect_of_fault hf).trans hempty⟩
  · rw [hnext, hnone]
    exact hbefore.followRedirect hs'
  · rw [hnext, hsome]
    obtain ⟨hfollowed, hempty⟩ := hbefore.followRedirect hs'
    exact ⟨hfollowed.accept hs'.followRedirect hempty hi (hfetched i hsome), hempty⟩

end Handshake

/-- The state of fetching always means what it should, and there is nothing in the mailbox. -/
theorem Cycles.handshake (h : start.Cycles is es s) (his : is <+: js) (hnum : Numbered js)
    (hstart : start.InStep init js 0) (hshake : start.Handshake js [] 0)
    (hempty : start.core.redirect = none) :
    s.Handshake js es is.length ∧ s.core.redirect = none := by
  induction h with
  | refl => exact ⟨hshake, hempty⟩
  | tick h ih =>
    have his' := (List.prefix_append _ _).trans his
    obtain ⟨hshake, hempty⟩ := ih his'
    rw [List.length_append]
    exact hshake.tick hempty (h.inStep his' hnum hstart) hnum fun _ => getElem?_of_fetched his

theorem handshake_new {c : Config} {s : Simulator} (h : Simulator.new c = .ok s) (m : Memory)
    (is : List Instruction) : ({ s with memory := m } : Simulator).Handshake is [] 0 ∧
      s.core.redirect = none := by
  have hs := inStep_new h m is
  obtain ⟨-, rfl⟩ := new_eq_ok h
  have hnone : ∀ {i : Instruction} {x : Completion}, Event.dispatch i x ∉ ([] : List Event) :=
    List.not_mem_nil
  refine ⟨⟨⟨fun hx => absurd hx hnone, fun hx => absurd hx hnone, fun _ ht => ?_,
    fun hpc => (by cases hpc)⟩, Handshake.told_of_le hs (Nat.le_refl 0), rfl,
    fun _ _ hn => absurd hn (Nat.not_lt_zero _), fun hwait => (by cases hwait),
    fun _ _ _ hk => absurd hk.symm (Nat.succ_ne_zero _), fun hstop => (by cases hstop)⟩, rfl⟩
  have hentry := ht.entry
  rw [ReorderBuffer.nth?_of_isEmpty rfl] at hentry
  cases hentry

/-! ### What is in flight -/

/-- The instructions in flight, in program order: those in the window, and after them those in the
queue. -/
def pipeline (s : Simulator) : List Instruction :=
  s.core.window.entries.map Entry.instruction ++ s.queue.waiting

/-- The instructions of control flow in flight that have no result yet. -/
def unresolved (s : Simulator) : List Instruction :=
  ((s.core.window.entries.filter fun e => !e.ready).map Entry.instruction
    ++ s.queue.waiting).filter Instruction.isControlFlow

theorem unresolved_sublist (s : Simulator) : s.unresolved.Sublist s.pipeline :=
  List.filter_sublist.trans ((List.filter_sublist.map _).append_right _)

theorem mem_unresolved_iff (hf : s.snapshot.Follows is k) : i ∈ s.unresolved ↔
    i.isControlFlow = true ∧ ∃ n, n < k ∧ is[n]? = some i ∧ ¬s.core.Resolved n := by
  rw [unresolved, List.mem_filter, and_comm, List.mem_append]
  refine and_congr_right fun _ => ⟨?_, ?_⟩
  · rintro (hwindow | hqueue)
    · obtain ⟨e, he, rfl⟩ := List.mem_map.mp hwindow
      obtain ⟨hmem, hready⟩ := List.mem_filter.mp he
      obtain ⟨n, hn⟩ := ReorderBuffer.mem_entries_iff.mp hmem
      refine ⟨n, Nat.lt_of_lt_of_le (ReorderBuffer.bounds_of_nth? hn).2 hf.next_le, hf.entry hn,
        fun hresolved => ?_⟩
      rw [hresolved.2 e hn] at hready
      cases hready
    · obtain ⟨n, hle, hlt, hi⟩ := hf.mem_waiting_iff.mp hqueue
      exact ⟨n, hlt, hi, fun hresolved => Nat.not_lt_of_le hle hresolved.1⟩
  · rintro ⟨n, hlt, hi, hnot⟩
    by_cases hn : n < s.core.window.next
    · rw [Core.Resolved, not_and] at hnot
      have hentry := hnot hn
      push Not at hentry
      obtain ⟨e, he, hready⟩ := hentry
      obtain rfl := Option.some.inj ((hf.entry he).symm.trans hi)
      refine .inl (List.mem_map_of_mem (List.mem_filter.mpr
        ⟨ReorderBuffer.mem_entries_iff.mpr ⟨n, he⟩, ?_⟩))
      rw [Bool.of_not_eq_true hready]
      rfl
    · exact .inr (hf.mem_waiting_iff.mpr ⟨n, Nat.le_of_not_lt hn, hlt, hi⟩)

/-- What is in flight has been fetched and has not left. -/
theorem pipeline_eq (hf : s.snapshot.Follows is is.length) :
    s.pipeline = is.drop s.core.window.departed := by
  obtain ⟨hentries, hwaiting⟩ := hf.partition
  rw [← hentries, List.take_length, List.append_assoc] at hwaiting
  exact List.append_cancel_left (hwaiting.trans (List.take_append_drop _ is).symm)

/-- When each instruction has its place for a serial number, those in flight follow the number of
the oldest one without a gap. -/
theorem map_uuid_pipeline (hf : s.snapshot.Follows is is.length)
    (huuid : ∀ (n : Nat) (i : Instruction), is[n]? = some i → i.uuid = n) :
    s.pipeline.map Instruction.uuid =
      List.range' s.core.window.departed (is.length - s.core.window.departed) := by
  rw [pipeline_eq hf]
  refine List.ext_getElem? fun n => ?_
  rw [List.getElem?_map, List.getElem?_drop]
  cases hi : is[s.core.window.departed + n]? with
  | some i =>
    have hlt := (List.getElem?_eq_some_iff.mp hi).1
    rw [List.getElem?_range' (by omega), Option.map_some, huuid _ _ hi, Nat.one_mul]
  | none =>
    have hge := List.getElem?_eq_none_iff.mp hi
    rw [List.getElem?_eq_none (by rw [List.length_range']; omega)]
    rfl

/-- What has left, what is in the window and what is in the queue are all that has been fetched. -/
theorem length_fetched (hf : s.snapshot.Follows is is.length) :
    s.core.window.departed + s.core.window.length + s.queue.length = is.length := by
  have hle : s.core.window.departed ≤ is.length :=
    Nat.le_trans (Nat.le_add_right _ _) hf.next_le
  have hlength := congrArg List.length (pipeline_eq hf)
  rw [pipeline, List.length_append, List.length_map, List.length_drop] at hlength
  rw [ReorderBuffer.length, IssueQueue.length]
  omega

/-- Fetching waits exactly as long as an instruction of control flow has no result, and this is the
last one fetched. -/
theorem Handshake.unresolved_eq (h : s.Handshake is es is.length)
    (hs : s.InStep init is is.length) (hempty : s.core.redirect = none) (hnum : Numbered is) :
    (s.fetch = .awaitRedirect →
        ∃ i, is.getLast? = some i ∧ i.pc = s.pc ∧ s.unresolved = [i]) ∧
      (s.fetch ≠ .awaitRedirect → s.unresolved = []) := by
  have hf := hs.onTrack.follows
  have hmem : ∀ {i}, i ∈ s.unresolved → ∃ n, n < is.length ∧ s.settled is.length ≤ n ∧
      is[n]? = some i := by
    intro i hi
    obtain ⟨hflow, n, hn, hi, hnot⟩ := (mem_unresolved_iff hf).mp hi
    exact ⟨n, hn, Nat.le_of_not_lt fun hlt => hnot (hs.steered.resolved hlt hi hflow), hi⟩
  refine ⟨fun hwait => ?_, fun hne => ?_⟩
  · obtain ⟨j, i, hk, hi, hflow, hpc⟩ := h.awaiting hwait
    have hj : s.settled is.length = j := by rw [settled, if_pos hwait, hk, Nat.add_sub_cancel]
    refine ⟨i, by rw [List.getLast?_eq_getElem?, hk, Nat.add_sub_cancel, hi], hpc, ?_⟩
    have hdistinct : s.unresolved.Nodup := by
      refine s.unresolved_sublist.nodup ?_
      rw [pipeline_eq hf]
      exact hnum.nodup.sublist (List.drop_sublist _ _)
    refine List.perm_singleton.mp ((List.perm_ext_iff_of_nodup hdistinct
      (List.pairwise_singleton _ i)).mpr fun i' => ?_)
    rw [List.mem_singleton]
    constructor
    · intro hi'
      obtain ⟨n, hn, hle, hi'⟩ := hmem hi'
      obtain rfl : n = j := by omega
      exact Option.some.inj (hi'.symm.trans hi)
    · rintro rfl
      refine (mem_unresolved_iff hf).mpr ⟨hflow, j, by omega, hi, fun hresolved => ?_⟩
      have htold := h.told i' (hj.symm ▸ hi) hflow (hj.symm ▸ hresolved)
      rw [hempty] at htold
      cases htold
  · rw [settled, if_neg hne] at hmem
    refine List.eq_nil_iff_forall_not_mem.mpr fun i hi => ?_
    obtain ⟨n, hn, hle, -⟩ := hmem hi
    exact Nat.not_lt_of_le hle hn

/-- There is something unresolved exactly when fetching waits, and it is the last one fetched. -/
theorem Handshake.waits_iff (h : s.Handshake is es is.length) (hs : s.InStep init is is.length)
    (hempty : s.core.redirect = none) (hnum : Numbered is) :
    s.unresolved.length ≤ 1 ∧ (s.unresolved ≠ [] ↔ s.fetch = .awaitRedirect) ∧
      ∀ i ∈ s.unresolved, is.getLast? = some i ∧ i.pc = s.pc := by
  obtain ⟨hawaiting, hsettled⟩ := h.unresolved_eq hs hempty hnum
  by_cases hwait : s.fetch = .awaitRedirect
  · obtain ⟨i, hlast, hpc, heq⟩ := hawaiting hwait
    rw [heq]
    exact ⟨Nat.le_refl 1, iff_of_true (List.cons_ne_nil i []) hwait,
      List.forall_mem_singleton.mpr ⟨hlast, hpc⟩⟩
  · rw [hsettled hwait]
    exact ⟨Nat.zero_le 1, iff_of_false (fun hne => hne rfl) hwait, List.forall_mem_nil _⟩

/-- While fetching runs, the program has not ended. -/
theorem InStep.isExit_of_running (hs : s.InStep init is is.length) (hrun : s.fetch = .running) :
    ∀ i ∈ is, i.isExit = false := by
  intro i hi
  obtain ⟨n, hn⟩ := List.mem_iff_getElem?.mp hi
  refine Bool.of_not_eq_true fun hexit => ?_
  have hstop := (hs.stopped (List.getElem?_eq_some_iff.mp hn).1 hn hexit).2
  rw [hrun] at hstop
  cases hstop

/-- No instruction ends the program but the last one fetched. -/
theorem InStep.isExit_of_mem_dropLast (hs : s.InStep init is is.length) :
    ∀ i ∈ is.dropLast, i.isExit = false := by
  intro i hi
  obtain ⟨n, hn⟩ := List.mem_iff_getElem?.mp hi
  rw [List.getElem?_dropLast] at hn
  split at hn
  · next hlt =>
    refine Bool.of_not_eq_true fun hexit => ?_
    have hlast := (hs.stopped (List.getElem?_eq_some_iff.mp hn).1 hn hexit).1
    omega
  · cases hn

theorem Handshake.leadsTo_last (h : s.Handshake is es is.length) (hrun : s.fetch = .running)
    (hi : is.getLast? = some i) : LeadsTo es i s.pc := by
  rw [List.getLast?_eq_getElem?] at hi
  have hlt := (List.getElem?_eq_some_iff.mp hi).1
  exact h.running hrun _ i (Nat.sub_add_cancel (Nat.one_le_of_lt hlt)).symm hi

theorem Handshake.exists_last (h : s.Handshake is es is.length) (hstop : s.fetch = .stopped) :
    ∃ i, is.getLast? = some i ∧ i.isExit = true ∧ i.pc = s.pc := by
  obtain ⟨j, i, hj, hi, hexit, hpc⟩ := h.stopped hstop
  exact ⟨i, by rw [List.getLast?_eq_getElem?, hj, Nat.add_sub_cancel, hi], hexit, hpc⟩

/-- Only a fetch that waits goes where the mailbox says. -/
theorem followRedirect_fetch (h : s.fetch ≠ .awaitRedirect) : s.followRedirect.fetch = s.fetch := by
  rw [followRedirect]
  split
  · rfl
  · rw [if_neg h]

/-- Once fetching has stopped, it stays so. -/
theorem tick_of_stopped (h : s.fetch = .stopped) :
    s.tick.fetched = none ∧ s.tick.next.fetch = .stopped := by
  have hbefore : s.beforeFetch.fetch = .stopped := h
  have hfollowed : s.beforeFetch.followRedirect.fetch = .stopped :=
    (followRedirect_fetch (by rw [hbefore]; decide)).trans hbefore
  rcases tick_cases s with ⟨-, hnext, hnone⟩ | ⟨hnext, hnone⟩ | ⟨_, hrun, -⟩
  · exact ⟨hnone, by rw [hnext, hbefore]⟩
  · exact ⟨hnone, by rw [hnext, hfollowed]⟩
  · rw [hfollowed] at hrun
    cases hrun

/-- **Fetching and the core agree at all times.** Let a new simulator, with any contents of memory,
run for any number of cycles, of which any may fail, and let `is` be what it has fetched and `es`
what has been reported. Then

* what has retired and what is in flight, in this order, is what was fetched, the serial numbers in
  flight are all those from the number of instructions retired up to the next one to be given, and
  so nothing is dropped;
* the mailbox is empty;
* one instruction of control flow at most has not been resolved; there is one exactly when fetching
  waits, and this is the last one fetched, where fetching stands;
* when fetching runs, nothing is unresolved, no instruction that ends the program has been fetched,
  and fetching stands where the last instruction fetched leads to;
* when it has stopped, nothing is unresolved, the last instruction fetched ends the program, it is
  the only one to do so, fetching stands there, and it stays so. -/
theorem Cycles.fetches_on {c : Config} {s t : Simulator} (hnew : Simulator.new c = .ok s)
    (m : Memory) (h : ({ s with memory := m } : Simulator).Cycles is es t) :
    (es.filterMap Event.committed? ++ t.pipeline = is ∧
      (es.filterMap Event.committed?).length = t.core.retired ∧ is.length = t.nextUuid ∧
      t.pipeline.map Instruction.uuid =
        List.range' t.core.retired (t.nextUuid - t.core.retired) ∧
      t.core.retired + t.core.window.length + t.queue.length = t.nextUuid) ∧
    t.core.redirect = none ∧
    (t.unresolved.length ≤ 1 ∧ (t.unresolved ≠ [] ↔ t.fetch = .awaitRedirect) ∧
      ∀ i ∈ t.unresolved, is.getLast? = some i ∧ i.pc = t.pc) ∧
    (t.fetch = .running → t.unresolved = [] ∧ (∀ i ∈ is, i.isExit = false) ∧
      ∀ i, is.getLast? = some i → LeadsTo es i t.pc) ∧
    (t.fetch = .stopped → t.unresolved = [] ∧
      (∃ i, is.getLast? = some i ∧ i.isExit = true ∧ i.pc = t.pc) ∧
      (∀ i ∈ is.dropLast, i.isExit = false) ∧
      t.tick.fetched = none ∧ t.tick.next.fetch = .stopped) := by
  have hstart := inStep_new hnew m is
  obtain ⟨hnextUuid, huuid⟩ := h.uuid hstart.nextUuid
  have hnum := h.numbered hstart.nextUuid
  have hs := h.inStep (List.prefix_refl is) hnum hstart
  obtain ⟨hshake, hempty⟩ := h.handshake (List.prefix_refl is) hnum hstart
    (handshake_new hnew m is).1 (handshake_new hnew m is).2
  have hf := hs.onTrack.follows
  have hretired : t.core.retired = t.core.window.departed := hf.retired
  have hle : t.core.window.departed ≤ is.length :=
    Nat.le_trans (Nat.le_add_right _ _) hf.next_le
  have hsettled := (hshake.unresolved_eq hs hempty hnum).2
  refine ⟨⟨?_, ?_, hnextUuid.symm, ?_, ?_⟩, hempty, hshake.waits_iff hs hempty hnum,
    fun hrun => ⟨hsettled (by rw [hrun]; decide), hs.isExit_of_running hrun,
      fun _ => hshake.leadsTo_last hrun⟩,
    fun hstop => ⟨hsettled (by rw [hstop]; decide), hshake.exists_last hstop,
      hs.isExit_of_mem_dropLast, tick_of_stopped hstop⟩⟩
  · rw [hshake.committed, pipeline_eq hf, List.take_append_drop]
  · rw [hshake.committed, List.length_take_of_le hle, hretired]
  · rw [hretired, hnextUuid, map_uuid_pipeline hf huuid]
  · rw [hretired, hnextUuid, length_fetched hf]

/-- A jump to itself. -/
def spinning : Memory := (Memory.empty 0 1048576).poke 0 (Word.bytes 4 0x0000006F)

/-- Fetching waits for the jump after one cycle, and still does so after the next one. -/
theorem fetches_on_spinning : ∃ s, Simulator.new {} = .ok s ∧
    let t := ({ s with memory := spinning } : Simulator).tick.next.tick.next
    t.fetch = .awaitRedirect ∧ (∃ i, t.unresolved = [i] ∧ i.pc = t.pc) ∧
      t.core.retired + t.core.window.length + t.queue.length = t.nextUuid := by
  obtain ⟨s, hnew, hwait⟩ : ∃ s, Simulator.new {} = .ok s ∧
      ({ s with memory := spinning } : Simulator).tick.next.tick.next.fetch = .awaitRedirect :=
    ⟨_, rfl, rfl⟩
  obtain ⟨⟨-, -, -, -, hcount⟩, -, ⟨hone, hiff, hstands⟩, -⟩ :=
    Cycles.fetches_on hnew spinning (Cycles.refl.tick.tick)
  refine ⟨s, hnew, hwait, ?_, hcount⟩
  obtain ⟨i, rest, hi⟩ := List.exists_cons_of_ne_nil (hiff.mpr hwait)
  have hrest : rest = [] := by
    rw [hi, List.length_cons] at hone
    exact List.eq_nil_of_length_eq_zero (by omega)
  exact ⟨i, hi.trans (congrArg _ hrest), (hstands i (hi ▸ List.mem_cons_self)).2⟩

end Simulator

end OutOfOrder
