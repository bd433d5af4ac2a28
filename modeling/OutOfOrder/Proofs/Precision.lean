import OutOfOrder.Proofs.Order
import OutOfOrder.Proofs.Trajectory

/-!
# Every value in flight is the right one

The sequential machine has a state before each instruction of the program, and says what everything
in the core has to be: the registers are those of the state before the oldest instruction in flight;
an operand is what the state before its own instruction has in the source register; a result, in a
unit, on the bus or in the window, is the result that the instruction has in its state; and memory
is as in the state before the first load or store that has not started. `Core.Precise` says all this
at once, since each of them is needed for another one.

A performance counter depends on the cycle, so an instruction that reads one has no result that the
sequential machine could name. Everything said about an instruction is therefore said on condition
that no earlier one has touched a counter.

## Main definitions

* `CounterFree` — the first instructions of a list leave the counters alone
* `Core.Precise` — what is in flight is what the sequential machine says

## Main results

* `Core.Precise.step` — every step keeps this
* `System.Reachable.committed_precisely` — the committed state is always a sequential one
-/

namespace OutOfOrder

/-! ### Counters -/

/-- None of the first `n` instructions accesses a performance counter. -/
def CounterFree (is : List Instruction) (n : Nat) : Prop :=
  ∀ i ∈ is.take n, i.touchesCounter = false

theorem CounterFree.mono {is : List Instruction} {m n : Nat} (h : CounterFree is n) (hmn : m ≤ n) :
    CounterFree is m :=
  fun i hi => h i (List.take_subset_take_left is hmn hi)

theorem CounterFree.touchesCounter {is : List Instruction} {m n : Nat} {i : Instruction}
    (h : CounterFree is n) (hi : is[m]? = some i) (hmn : m < n) : i.touchesCounter = false := by
  refine h i (List.mem_iff_getElem?.mpr ⟨m, ?_⟩)
  rw [List.getElem?_take, if_pos hmn, hi]

theorem CounterFree.succ {is : List Instruction} {n : Nat} {i : Instruction}
    (h : CounterFree is n) (hi : is[n]? = some i) (hcount : i.touchesCounter = false) :
    CounterFree is (n + 1) := by
  intro j hj
  rw [List.take_add_one, hi, List.mem_append, Option.toList_some, List.mem_singleton] at hj
  rcases hj with hj | rfl
  · exact h j hj
  · exact hcount

namespace Core

/-- Where the value of a source register can come from. -/
theorem operand_eq_ready {c : Core} {used : Bool} {r : Reg} {v : Word}
    (h : c.operand used r = .ready v) :
    used = false ∧ v = 0 ∨
      used = true ∧ (c.aliases.get r = none ∧ v = c.registers.read r ∨
        ∃ tag, c.aliases.get r = some tag ∧ c.window.readyValue? tag = some v) := by
  rw [operand] at h
  split at h
  · next hused =>
    refine .inr ⟨hused, ?_⟩
    split at h
    · next halias => exact .inl ⟨halias, (Operand.ready.inj h).symm⟩
    · next tag halias =>
      split at h
      · next value hvalue =>
        obtain rfl := Operand.ready.inj h
        exact .inr ⟨tag, halias, hvalue⟩
      · simp at h
  · next hused => exact .inl ⟨Bool.of_not_eq_true hused, (Operand.ready.inj h).symm⟩

/-! ### The invariant -/

/-- With memory `m`, everything in the core is what the sequential machine says that executes the
instructions of a list one by one. -/
structure Precise (c : Core) (m : Memory) (start : Sequential) (is : List Instruction) : Prop where
  /-- What has left has executed. -/
  done : ∀ {n i}, n < c.window.departed → is[n]? = some i → CounterFree is (n + 1) →
    ∃ x, (start.after is n).effect i = .ok x
  /-- The registers are those before the oldest instruction in flight. -/
  registers : CounterFree is c.window.departed →
    c.registers = (start.after is c.window.departed).registers
  /-- A result in the window is the result of the instruction. -/
  result : ∀ {n e}, c.window.nth? n = some e → e.ready = true → CounterFree is (n + 1) →
    ∃ x, (start.after is n).effect e.instruction = .ok x ∧ x.result = e.result
  /-- An operand is what the source register holds before the instruction. -/
  operand : ∀ {k t n e x v}, c.Serves k t n e → t.operand x = .ready v → CounterFree is n →
    v = (start.after is n).operand (e.instruction.uses x) (e.instruction.source x)
  /-- What is on its way says where control goes if its instruction is one of control flow. -/
  steering : ∀ {h r t n e}, c.carries h = some r → c.Serves r.slot t n e →
    r.redirect.isSome = e.instruction.isControlFlow
  /-- A result on its way is the result of the instruction, and so is where control goes. -/
  carried : ∀ {h r t n e}, c.carries h = some r → c.Serves r.slot t n e → CounterFree is (n + 1) →
    ∃ x, (start.after is n).effect e.instruction = .ok x ∧ x.result = r.result ∧
      x.redirect = r.redirect
  /-- What an ordered unit works with is as it was before its first instruction that has not
  started. -/
  ordered : ∀ u : UnitKind, u.isOrdered = true → ∃ n, c.Frontier u n ∧
    (CounterFree is n → (start.after is n).Agrees u m c.csrs)

namespace Precise

variable {s : Snapshot} {start : Sequential} {is : List Instruction} {k m n p : Nat} {e : Entry}
  {r : Reg} {t : Station} {l : Slot} {tag : Tag} {x : Effect}

/-- Before number `p` of the program, a register holds the result of its last writer. -/
theorem read_of_lastWriter (hs : s.Sound) (hf : s.Follows is k)
    (hlast : s.core.window.LastWriter p r n) (hp : p ≤ s.core.window.next)
    (he : s.core.window.nth? n = some e) (hx : (start.after is n).effect e.instruction = .ok x) :
    (start.after is p).registers.read r = x.result := by
  obtain ⟨e', he', hdest⟩ := hlast.writes
  obtain rfl := Option.some.inj (he'.symm.trans he)
  have hr : r ≠ 0 := by
    rintro rfl
    exact (hs.decoded he).dest_ne_zero hdest
  rw [← Sequential.read_after_succ (hf.entry he) hx hdest hr]
  have hdn := (ReorderBuffer.bounds_of_nth? he).1
  refine Sequential.read_after hlast.lt
    (hf.forall_between (Nat.le_succ_of_le hdn) hp fun hnl hlp hl hwrites => ?_)
  exact hlast.between _ hnl hlp ⟨_, hl, hwrites⟩

/-- A source register that resolves to a value resolves to what the next instruction would read. -/
theorem operand_of_ready (hp : s.core.Precise s.memory start is) (hs : s.Sound)
    (hf : s.Follows is k) {used : Bool} {v : Word} (h : s.core.operand used r = .ready v)
    (hfree : CounterFree is s.core.window.next) :
    v = (start.after is s.core.window.next).operand used r := by
  have hle : s.core.window.departed ≤ s.core.window.next := Nat.le_add_right _ _
  rw [Sequential.operand]
  rcases operand_eq_ready h with ⟨rfl, rfl⟩ | ⟨rfl, ⟨halias, rfl⟩ | ⟨tag, halias, hvalue⟩⟩
  · rfl
  · -- nobody in flight writes the register
    rw [if_pos rfl, hp.registers (hfree.mono hle)]
    refine (Sequential.read_after hle fun l i hdl hln hi hdest => ?_).symm
    obtain ⟨e, he, rfl⟩ := hf.exists_entry hdl hln hi
    obtain ⟨n, hlast⟩ := ReorderBuffer.exists_lastWriter ⟨e, he, hdest⟩ hln
    rw [hs.renamed.alias_iff.mpr ⟨n, hlast, rfl⟩] at halias
    simp at halias
  · -- the last writer has its result
    obtain ⟨n, hlast, rfl⟩ := hs.renamed.alias_iff.mp halias
    obtain ⟨e, he, -⟩ := hlast.writes
    rw [ReorderBuffer.readyValue?_place he] at hvalue
    split at hvalue
    · next hready =>
      obtain ⟨x, hx, hresult⟩ := hp.result he hready (hfree.mono hlast.lt)
      rw [if_pos rfl, read_of_lastWriter hs hf hlast (Nat.le_refl _) he hx, hresult]
      exact (Option.some.inj hvalue).symm
    · simp at hvalue

/-- What has left, what a unit does that cannot fail, and what the memory unit has started, is
executed by the sequential machine without a fault. -/
theorem effect_of_frontier (hp : s.core.Precise s.memory start is) (hs : s.Sound)
    (hf : s.Follows is k) (hfront : s.core.Frontier .memory m) {i : Instruction}
    (hi : is[n]? = some i) (hn : i.unit = .memory → n < m) (hfree : CounterFree is (n + 1)) :
    ∃ x, (start.after is n).effect i = .ok x := by
  by_cases hunit : i.unit = .memory
  · have hn := hn hunit
    by_cases hd : n < s.core.window.departed
    · exact hp.done hd hi hfree
    · obtain ⟨e, he, rfl⟩ :=
        hf.exists_entry (Nat.le_of_not_lt hd) (Nat.lt_of_lt_of_le hn hfront.le_next) hi
      cases hready : e.ready with
      | true =>
        obtain ⟨x, hx, -⟩ := hp.result he hready hfree
        exact ⟨x, hx⟩
      | false =>
        -- it has a station, and this has started, so that the result is somewhere
        obtain ⟨l, t, hserve⟩ := hs.consistent.served he hready
        have hrun : t.running = true := by
          cases hrun : t.running with
          | true => rfl
          | false =>
            have := (hfront.waiting_iff he hunit).mp ⟨l, t, e, hserve, hrun⟩
            omega
        obtain ⟨h, r, hr, rfl⟩ := hs.consistent.carries_of_running hserve.station hrun
        obtain ⟨x, hx, -⟩ := hp.carried hr hserve hfree
        exact ⟨x, hx⟩
  · exact Instruction.exists_compute hunit

/-- Nothing but the window, the stations, the registers, the holders, memory and the cells of the
control and status registers matters. -/
theorem congr {c d : Core} {m : Memory} (hp : c.Precise m start is)
    (hwindow : d.window = c.window) (hstations : d.stations = c.stations)
    (hregisters : d.registers = c.registers) (hcells : d.csrs.cells = c.csrs.cells)
    (hcarries : ∀ {h r}, d.carries h = some r → ∃ i, c.carries i = some r) :
    d.Precise m start is := by
  refine ⟨?_, ?_, ?_, ?_, ?_, ?_, ?_⟩
  · rw [hwindow]
    exact hp.done
  · rw [hwindow, hregisters]
    exact hp.registers
  · rw [hwindow]
    exact hp.result
  · intro k t n e x v hs
    exact hp.operand (hs.congr hwindow.symm hstations.symm)
  · intro h r t n e hr hs
    obtain ⟨i, hi⟩ := hcarries hr
    exact hp.steering hi (hs.congr hwindow.symm hstations.symm)
  · intro h r t n e hr hs
    obtain ⟨i, hi⟩ := hcarries hr
    exact hp.carried hi (hs.congr hwindow.symm hstations.symm)
  · intro u hu
    obtain ⟨n, hfront, hagree⟩ := hp.ordered u hu
    refine ⟨n, hfront.congr hwindow hstations, fun hfree => ?_⟩
    have h := hagree hfree
    cases u with
    | memory => exact h
    | system => exact hcells.trans h
    | _ => trivial

theorem issuing (hp : s.core.Precise s.memory start is) (hs : s.Sound) (hf : s.Follows is k)
    {i : Instruction} {w : ReorderBuffer} {q : Stations} (hw : s.core.window.Entered i tag w)
    (hq : s.core.stations.allocate? (s.core.stationFor i tag) = some (l, q)) :
    (s.core.issuing i tag w q).Precise s.memory start is := by
  have hc := hs.consistent
  have hdeparted : (s.core.issuing i tag w q).window.departed = s.core.window.departed :=
    hw.departed
  -- the new slot was free, so nobody has a result for it
  have hold : ∀ {h r t n e}, s.core.carries h = some r →
      (s.core.issuing i tag w q).Serves r.slot t n e → s.core.Serves r.slot t n e := by
    intro h r t n e hr ht
    rcases (hc.serves_issuing_iff hw hq).mp ht with ⟨hslot, -, -, -⟩ | ht
    · obtain ⟨s', hs', -⟩ := hc.running_of_carries hr
      rw [hslot, (Stations.get?_allocate hq).1] at hs'
      cases hs'
    · exact ht
  refine ⟨?_, ?_, ?_, ?_, ?_, ?_, ?_⟩
  · rw [hdeparted]
    exact hp.done
  · rw [hdeparted]
    exact hp.registers
  · intro n e hn hready
    rcases hw.before hn with ⟨-, rfl⟩ | hn
    · simp at hready
    · exact hp.result hn hready
  · intro k t n e x v ht hx hfree
    rcases (hc.serves_issuing_iff hw hq).mp ht with ⟨-, rfl, rfl, rfl⟩ | ht
    · rw [operand_stationFor] at hx
      exact hp.operand_of_ready hs hf hx hfree
    · exact hp.operand ht hx hfree
  · intro h r t n e hr ht
    exact hp.steering (h := h) hr (hold (h := h) hr ht)
  · intro h r t n e hr ht
    exact hp.carried (h := h) hr (hold (h := h) hr ht)
  · intro u hu
    obtain ⟨n, hfront, hagree⟩ := hp.ordered u hu
    exact ⟨n, hfront.issuing hc hw hq, hagree⟩

/-! ### Start -/

theorem uuid_lt (hf : s.Follows is k) (hnum : Numbered is) {a b : Nat} {f g : Entry}
    (ha : s.core.window.nth? a = some f) (hb : s.core.window.nth? b = some g) (hab : a < b) :
    f.instruction.uuid < g.instruction.uuid :=
  hnum.lt (hf.entry ha) (hf.entry hb) hab

/-- When an instruction may start, its unit finds what it works with as it was before it. -/
theorem agrees_of_eligible (hp : s.core.Precise s.memory start is) (hs : s.Sound)
    (hf : s.Follows is k) (hnum : Numbered is) (ht : s.core.stations.Eligible l t)
    (hserve : s.core.Serves l t p e) (hfree : CounterFree is p) :
    (start.after is p).Agrees t.unit s.memory s.core.csrs := by
  by_cases hord : t.unit.isOrdered = true
  · obtain ⟨n, hfront, hagree⟩ := hp.ordered t.unit hord
    obtain ⟨hnp, hskip⟩ :=
      hfront.skips_nothing hs.consistent (uuid_lt hf hnum) ht hserve rfl hord
    have hpnext := Nat.le_of_lt (ReorderBuffer.bounds_of_nth? hserve.entry).2
    have hothers : ∀ l i, n ≤ l → l < p → is[l]? = some i → i.unit ≠ t.unit :=
      hf.forall_between hfront.departed_le hpnext hskip
    exact (Sequential.agrees_after_iff hnp hothers).mpr (hagree (hfree.mono hnp))
  · cases hunit : t.unit with
    | memory => rw [hunit] at hord; exact absurd rfl hord
    | system => rw [hunit] at hord; exact absurd rfl hord
    | _ => trivial

/-- So it computes what the sequential machine computes. -/
theorem effect_of_start (hp : s.core.Precise s.memory start is) (hs : s.Sound)
    (hf : s.Follows is k) (hnum : Numbered is) (ht : s.core.stations.Eligible l t)
    (hserve : s.core.Serves l t p e) {a b : Word} (ha : t.src1 = .ready a) (hb : t.src2 = .ready b)
    (hx : e.instruction.compute a b s.memory s.core.csrs = .ok x) (hfree : CounterFree is (p + 1)) :
    ∃ y, (start.after is p).effect e.instruction = .ok y ∧ y.result = x.result ∧
      y.redirect = x.redirect ∧ (start.after is (p + 1)).Agrees t.unit x.memory x.csrs := by
  have hi := hf.entry hserve.entry
  have hbefore := hfree.mono (Nat.le_succ p)
  have hunit := (hserve.describes hs.consistent).2
  have hagree := hp.agrees_of_eligible hs hf hnum ht hserve hbefore
  rw [hunit] at hagree ⊢
  obtain ⟨y, hy, hresult, hredirect, hafter⟩ := Sequential.effect_of_compute
    (hp.operand (x := .first) hserve ha hbefore) (hp.operand (x := .second) hserve hb hbefore)
    hx hagree (hfree.touchesCounter hi (Nat.lt_succ_self p))
  refine ⟨y, hy, hresult, hredirect, ?_⟩
  rw [Sequential.after_succ hi, Sequential.advance_of_ok hy]
  exact hafter

theorem starting (hp : s.core.Precise s.memory start is) (hs : s.Sound) (hf : s.Follows is k)
    (hnum : Numbered is) (ht : s.core.stations.Eligible l t) (hserve : s.core.Serves l t p e)
    {a b : Word} (ha : t.src1 = .ready a) (hb : t.src2 = .ready b)
    (hx : e.instruction.compute a b s.memory s.core.csrs = .ok x) :
    (s.core.starting l t x).Precise x.memory start is := by
  have hc := hs.consistent
  have heffect := hp.effect_of_start hs hf hnum ht hserve ha hb hx
  refine ⟨hp.done, hp.registers, hp.result, ?_, ?_, ?_, ?_⟩
  · intro k u n f y v hu hy hfree
    obtain ⟨u', hu', hoperand⟩ := hc.operand_starting ht.get hu
    exact hp.operand hu' ((hoperand y).symm.trans hy) hfree
  · intro h r u n f hr hu
    obtain ⟨u', hu', -⟩ := (hc.serves_starting_iff ht.get).mp hu
    rcases carries_starting hr with ⟨-, rfl⟩ | ⟨-, hr⟩
    · obtain ⟨rfl, rfl, rfl⟩ := hu'.inj hserve
      exact Instruction.compute_redirect (hs.decoded hserve.entry) hx
    · exact hp.steering hr hu'
  · intro h r u n f hr hu hfree
    obtain ⟨u', hu', -⟩ := (hc.serves_starting_iff ht.get).mp hu
    rcases carries_starting hr with ⟨-, rfl⟩ | ⟨-, hr⟩
    · -- the new result
      obtain ⟨rfl, rfl, rfl⟩ := hu'.inj hserve
      obtain ⟨y, hy, hresult, hredirect, -⟩ := heffect hfree
      exact ⟨y, hy, hresult, hredirect⟩
    · exact hp.carried hr hu' hfree
  · intro u hu
    obtain ⟨n, hfront, hagree⟩ := hp.ordered u hu
    by_cases hunit : t.unit = u
    · obtain ⟨hnp, hskip⟩ := hfront.skips_nothing hc (uuid_lt hf hnum) ht hserve hunit hu
      refine ⟨p + 1, hfront.starting hc hserve hnp hskip, fun hfree => ?_⟩
      obtain ⟨y, -, -, -, hafter⟩ := heffect hfree
      rw [hunit] at hafter
      exact hafter
    · refine ⟨n, hfront.starting_of_ne hc hserve hunit, fun hfree => ?_⟩
      refine (hagree hfree).of_compute hx ?_
      rw [← (hserve.describes hc).2]
      exact hunit

/-! ### Delivery -/

theorem delivering (hp : s.core.Precise s.memory start is) (hs : s.Sound) (hf : s.Follows is k)
    {v : Broadcast} (hv : s.core.bus.current = some v) :
    (s.core.delivering v).Precise s.memory start is := by
  have hc := hs.consistent
  obtain ⟨t₀, n₀, e₀, hserve₀, htag₀, -, hw⟩ := hc.delivering_completes hv
  refine ⟨?_, ?_, ?_, ?_, ?_, ?_, ?_⟩
  · rw [hw.departed]
    exact hp.done
  · rw [hw.departed]
    exact hp.registers
  · intro n e hn hready hfree
    obtain ⟨f, hf', hinstr, hsame, hnew⟩ := hw.before hn
    rw [← hinstr]
    by_cases hn₀ : n = n₀
    · -- the result that has just arrived
      subst hn₀
      obtain rfl := Option.some.inj (hserve₀.entry.symm.trans hf')
      obtain ⟨x, hx, hresult, -⟩ := hp.carried (h := .bus) hv hserve₀ hfree
      exact ⟨x, hx, hresult.trans (hnew rfl).2.symm⟩
    · obtain rfl := hsame hn₀
      exact hp.result hf' hready hfree
  · intro k t n e x w ht hx hfree
    obtain ⟨-, u, hu, rfl⟩ := (hc.serves_delivering_iff hv).mp ht
    rw [Station.operand_wake] at hx
    rcases Operand.wake_eq_ready_iff.mp hx with hold | ⟨hpending, rfl⟩
    · exact hp.operand hu hold hfree
    · -- the last writer that the operand has waited for is the one whose result arrives
      obtain ⟨hused, m, f, hlast, hm, -, hplace⟩ := hs.renamed.pending hu hpending
      obtain rfl : m = n₀ := by
        refine ReorderBuffer.place_inj hm hserve₀.entry ?_
        rw [hplace, ← htag₀, hserve₀.tag]
      obtain rfl := Option.some.inj (hserve₀.entry.symm.trans hm)
      obtain ⟨y, hy, hresult, -⟩ := hp.carried (h := .bus) hv hserve₀ (hfree.mono hlast.lt)
      have hle := Nat.le_of_lt (ReorderBuffer.bounds_of_nth? hu.entry).2
      rw [Sequential.operand, if_pos hused, read_of_lastWriter hs hf hlast hle hm hy, hresult]
  · intro h r t n e hr ht
    obtain ⟨-, u, hu, -⟩ := (hc.serves_delivering_iff hv).mp ht
    exact hp.steering (carries_delivering hr).2 hu
  · intro h r t n e hr ht hfree
    obtain ⟨-, u, hu, -⟩ := (hc.serves_delivering_iff hv).mp ht
    exact hp.carried (carries_delivering hr).2 hu hfree
  · intro u hu
    obtain ⟨n, hfront, hagree⟩ := hp.ordered u hu
    exact ⟨n, hfront.delivering hc hv, hagree⟩

/-! ### Retirement -/

theorem retiring (hp : s.core.Precise s.memory start is) (hs : s.Sound) (hf : s.Follows is k)
    {w : ReorderBuffer} (hw : s.core.window.Left tag e w) :
    (s.core.retiring tag e w).Precise s.memory start is := by
  have hc := hs.consistent
  have hi := hf.entry hw.oldest
  have hexec : CounterFree is (s.core.window.departed + 1) →
      ∃ x, (start.after is s.core.window.departed).effect e.instruction = .ok x ∧
        x.result = e.result := hp.result hw.oldest hw.ready
  refine ⟨?_, ?_, ?_, ?_, ?_, ?_, ?_⟩
  · intro n i hn hi' hfree
    rw [retiring_window, hw.departed] at hn
    rcases Nat.lt_succ_iff_lt_or_eq.mp hn with hlt | rfl
    · exact hp.done hlt hi' hfree
    · obtain rfl := Option.some.inj (hi.symm.trans hi')
      obtain ⟨x, hx, -⟩ := hexec hfree
      exact ⟨x, hx⟩
  · intro hfree
    rw [retiring_window, hw.departed] at hfree ⊢
    obtain ⟨x, hx, hresult⟩ := hexec hfree
    rw [Sequential.after_succ hi, Sequential.advance_of_ok hx, registers_retiring, ← hresult,
      hp.registers (hfree.mono (Nat.le_succ _))]
    rfl
  · intro n f hn
    rw [retiring_window] at hn
    exact hp.result (hw.before hn)
  · intro k t n f x v ht
    exact hp.operand ((hc.serves_retiring_iff hw).mp ht)
  · intro h r t n f hr ht
    rw [carries_retiring] at hr
    exact hp.steering hr ((hc.serves_retiring_iff hw).mp ht)
  · intro h r t n f hr ht
    rw [carries_retiring] at hr
    exact hp.carried hr ((hc.serves_retiring_iff hw).mp ht)
  · intro u hu
    obtain ⟨n, hfront, hagree⟩ := hp.ordered u hu
    obtain ⟨hother, hfront'⟩ := hfront.retiring hc hw
    refine ⟨_, hfront', fun hfree => ?_⟩
    have hd := hfront.departed_le
    rw [retiring_csrs]
    refine (Sequential.agrees_after_iff (Nat.le_max_left _ _) fun l j hnl hlm hj => ?_).mpr
      (hagree (hfree.mono (Nat.le_max_left _ _)))
    -- if the frontier moves at all, it moves past the instruction that leaves
    obtain rfl : l = s.core.window.departed := by omega
    obtain rfl := Option.some.inj (hi.symm.trans hj)
    exact hother (by omega)

/-! ### All steps -/

/-- Every step keeps everything precise. -/
theorem step {t : Snapshot} (h : s.Step t) (hp : s.core.Precise s.memory start is) (hs : s.Sound)
    (hf : s.Follows is k) (hnum : Numbered is) : t.core.Precise t.memory start is := by
  cases h with
  | count csrs arbiter cycle hcells => exact hp.congr rfl rfl rfl hcells fun hr => ⟨_, hr⟩
  | issue hpop hwindow hstations =>
    exact hp.issuing hs hf (ReorderBuffer.entered_of_allocate? hwindow) hstations
  | advance =>
    refine hp.congr rfl rfl rfl rfl fun {h r} hr => ⟨h, ?_⟩
    cases h with
    | unit j => rwa [carries, completion?_advanceUnits] at hr
    | bus => exact hr
  | publish hbus hdone =>
    refine hp.congr rfl rfl rfl rfl fun hr => ?_
    rcases carries_publishing hr with ⟨-, rfl⟩ | ⟨-, -, hr⟩
    · exact ⟨_, carries_unit (completion?_of_output? hdone)⟩
    · exact ⟨_, hr⟩
  | start ht hfree hentry ha hb heffect =>
    obtain ⟨p, e, hserve, -⟩ := hs.consistent.serves ht.get
    obtain rfl := Option.some.inj (hserve.get?_tag.symm.trans hentry)
    exact hp.starting hs hf hnum ht hserve ha hb heffect
  | deliver hbus => exact hp.delivering hs hf hbus
  | retire hcommit => exact hp.retiring hs hf (ReorderBuffer.left_of_commit? hcommit)

theorem new (st : CoreSettings) (m : Memory) (pc : Word) (is : List Instruction) :
    (Core.new st).Precise m { memory := m, pc } is := by
  have hwindow : ∀ n, (Core.new st).window.nth? n = none := ReorderBuffer.nth?_of_isEmpty rfl
  have hserves : ∀ {k t n e}, ¬(Core.new st).Serves k t n e := by
    intro k t n e ht
    have hn := ht.entry
    rw [hwindow] at hn
    simp at hn
  refine ⟨fun hn => absurd hn (Nat.not_lt_zero _), fun _ => rfl, ?_, fun ht => absurd ht hserves,
    fun _ ht => absurd ht hserves, fun _ ht => absurd ht hserves, ?_⟩
  · intro n e hn
    rw [hwindow] at hn
    simp at hn
  · intro u _
    refine ⟨0, ⟨Nat.le_refl 0, Nat.le_refl 0, fun {n e} hn => ?_⟩, fun _ => ?_⟩
    · rw [hwindow] at hn
      simp at hn
    · cases u <;> first | rfl | trivial

end Precise

end Core

/-! ### The committed state -/

/-- Everything that holds of a snapshot on the way through a program, of which `k` instructions have
been accepted so far. -/
structure Snapshot.OnTrack (start : Sequential) (is : List Instruction) (k : Nat) (s : Snapshot) :
    Prop where
  sound : s.Sound
  follows : s.Follows is k
  precise : s.core.Precise s.memory start is

namespace Snapshot.OnTrack

variable {s t : Snapshot} {start : Sequential} {is : List Instruction} {k : Nat}

/-- At the beginning nothing has been accepted, and everything is on track. -/
theorem new (st : CoreSettings) (n : Nat) (m : Memory) (pc : Word) (is : List Instruction) :
    OnTrack { memory := m, pc } is 0 ⟨.new st, .empty n, m⟩ := by
  have hnew : System.Reachable st n m (.new st n m) := .new
  refine ⟨hnew.sound, ⟨fun {l e} hl => ?_, rfl, Nat.le_refl 0, Nat.zero_le _, rfl, nofun⟩,
    .new st m pc is⟩
  rw [ReorderBuffer.nth?_of_isEmpty rfl l] at hl
  simp at hl

theorem step (hnum : Numbered is) (h : s.Step t) (hs : s.OnTrack start is k) :
    t.OnTrack start is k :=
  ⟨hs.sound.step h, hs.follows.step h hs.sound.consistent,
    hs.precise.step h hs.sound hs.follows hnum⟩

theorem report {es : List Event} (hnum : Numbered is) (h : s.Reports es t)
    (hs : s.OnTrack start is k) : t.OnTrack start is k := by
  rcases h.step with rfl | hstep
  · exact hs
  · exact hs.step hnum hstep

theorem steps (hnum : Numbered is) (h : s.Steps t) (hs : s.OnTrack start is k) :
    t.OnTrack start is k :=
  h.keeps (fun hstep hs => hs.step hnum hstep) hs

theorem push (hs : s.OnTrack start is k) {i : Instruction} {q : IssueQueue} (hi : i.Decoded)
    (hq : s.queue.push? i = some q) (hk : is[k]? = some i) :
    ({ s with queue := q } : Snapshot).OnTrack start is (k + 1) :=
  ⟨hs.sound.push hi hq, hs.follows.push hq hk, hs.precise⟩

/-- The registers are those of the sequential machine before the oldest instruction in flight, and
once nothing is in flight, so are memory and the control and status registers. -/
theorem after_departed (hs : s.OnTrack start is k) (hfree : CounterFree is s.core.window.departed) :
    (start.after is s.core.window.departed).registers = s.core.registers ∧
      (s.core.window.isEmpty = true →
        (start.after is s.core.window.departed).memory = s.memory ∧
          (start.after is s.core.window.departed).csrs.cells = s.core.csrs.cells) := by
  refine ⟨(hs.precise.registers hfree).symm, fun hempty => ?_⟩
  -- with an empty window there is only one place for a frontier
  have hagree : ∀ u : UnitKind, u.isOrdered = true →
      (start.after is s.core.window.departed).Agrees u s.memory s.core.csrs := by
    intro u hu
    obtain ⟨n, hfront, hagree⟩ := hs.precise.ordered u hu
    have hn := hfront.le_next
    rw [ReorderBuffer.next, List.isEmpty_iff.mp hempty] at hn
    obtain rfl := Nat.le_antisymm hn hfront.departed_le
    exact hagree hfree
  exact ⟨(hagree .memory rfl).symm, (hagree .system rfl).symm⟩

/-- Executing what has retired succeeds. -/
theorem executeAll_departed (hs : s.OnTrack start is k)
    (hfree : CounterFree is s.core.window.departed) :
    start.executeAll (is.take s.core.window.departed) =
      .ok (start.after is s.core.window.departed) :=
  Sequential.executeAll_take fun _ _ hl hi => hs.precise.done hl hi (hfree.mono hl)

end Snapshot.OnTrack

namespace System.Reachable

variable {st : CoreSettings} {n : Nat} {m : Memory} {s : System}

/-- A history is on the track of every program that begins with what has been accepted. -/
theorem onTrack (h : Reachable st n m s) {is : List Instruction} (his : s.accepted <+: is)
    (hnum : Numbered is) : s.snapshot.OnTrack { memory := m } is s.accepted.length :=
  h.keeps_journal (P := fun k _ s => s.OnTrack { memory := m } is k) his (.new st n m 0 is)
    (fun hi hq hk hs => hs.push hi hq hk) fun h hs => hs.report hnum h

/-- What has been committed is what has left the window. -/
theorem committed_eq (h : Reachable st n m s) (hnum : Numbered s.accepted) :
    s.committed = s.accepted.take s.core.window.departed :=
  (h.keeps_journal
    (P := fun k es t => t.OnTrack { memory := m } s.accepted k ∧
      es.filterMap Event.committed? = s.accepted.take t.core.window.departed)
    (List.prefix_refl _) ⟨.new st n m 0 _, rfl⟩
    (fun hi hq hk ⟨hs, ht⟩ => ⟨hs.push hi hq hk, ht⟩) fun hr ⟨hs, ht⟩ => by
      rw [List.filterMap_append, ht]
      exact ⟨hs.report hnum hr, hs.follows.reported hr hs.sound.consistent⟩).2

/-- **The committed state is precise.** Whenever a cycle ends, also by a fault, the sequential
machine executes the instructions that have retired, in the order in which they were accepted,
without a fault, and gets the registers of the core; and whenever nothing is in flight it gets the
memory and the control and status registers as well. -/
theorem committed_precisely (h : Reachable st n m s)
    (hnum : s.accepted.Pairwise fun i j => i.uuid < j.uuid)
    (hfree : ∀ i ∈ s.accepted, i.touchesCounter = false) :
    ∃ t, ({ memory := m } : Sequential).executeAll (s.accepted.take s.core.retired) = .ok t ∧
      t.registers = s.core.registers ∧
      (s.core.window.isEmpty = true → t.memory = s.memory ∧
        ∀ a : Csr, a.isCounter = false → t.csrs.read a = s.core.csrs.read a) := by
  have htrack := h.onTrack (List.prefix_refl _) hnum
  have hfree : CounterFree s.accepted s.core.window.departed :=
    fun i hi => hfree i (List.mem_of_mem_take hi)
  have hretired : s.core.retired = s.core.window.departed := htrack.follows.retired
  obtain ⟨hregisters, hrest⟩ := htrack.after_departed hfree
  rw [hretired]
  refine ⟨_, htrack.executeAll_departed hfree, hregisters, fun hempty => ?_⟩
  obtain ⟨hmemory, hcells⟩ := hrest hempty
  refine ⟨hmemory, fun a ha => ?_⟩
  rw [CsrFile.read_of_not_isCounter _ ha, CsrFile.read_of_not_isCounter _ ha, hcells]
  rfl

/-- A constant is loaded and stored: after seven cycles both instructions have retired. -/
theorem committed_precisely_stored :
    let s := (((System.new {} 4 (.empty 0 16)).offer 0x00500093 0 0).offer
      0x00102023 4 1).tick.tick.tick.tick.tick.tick.tick
    s.core.retired = 2 ∧
      ∃ t, ({ memory := .empty 0 16 } : Sequential).executeAll s.accepted = .ok t ∧
        t.registers = s.core.registers ∧ t.memory = s.memory := by
  intro s
  have h : Reachable {} 4 (.empty 0 16) s :=
    ((Reachable.new.offer 0x00500093 0 0).offer 0x00102023 4 1).tick.tick.tick.tick.tick.tick.tick
  obtain ⟨t, ht, hregisters, hrest⟩ := committed_precisely h (by decide) (by decide)
  exact ⟨rfl, t, ht, hregisters, (hrest rfl).1⟩

end System.Reachable

end OutOfOrder
