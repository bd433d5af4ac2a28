import OutOfOrder.Proofs.Renaming

/-!
# Program order

What is in flight is a stretch of a program, given as the list of its instructions: entry number `n`
of the window is number `n` of the list. Most instructions start when they can. Loads and stores,
and accesses to control and status registers, start in program order instead; so of the entries for
such a unit, those that have started come before those that have not, and a single number says how
far the unit has come.

## Main definitions

* `Snapshot.Follows` — window and queue are a stretch of a list of instructions
* `Core.Waiting` — an entry has a station that has not started
* `Core.Frontier` — a unit has started its entries before a number, and no others

## Main results

* `Snapshot.Follows.step` — the window moves along the list
* `Snapshot.Follows.reported` — what leaves the window is reported as committed
* `Core.Frontier.issuing`, `starting`, `starting_of_ne`, `delivering`, `retiring` — how the frontier
  of a unit moves
-/

namespace OutOfOrder

/-! ### Along a list of instructions -/

/-- What has entered the window and what waits in the queue are the first `k` instructions of a
list, in order. -/
structure Snapshot.Follows (is : List Instruction) (k : Nat) (s : Snapshot) : Prop where
  /-- The entry of a number is the instruction of this number. -/
  entry : ∀ {n e}, s.core.window.nth? n = some e → is[n]? = some e.instruction
  /-- What waits in the queue comes next. -/
  waiting : s.queue.waiting = (is.take k).drop s.core.window.next
  next_le : s.core.window.next ≤ k
  le_length : k ≤ is.length
  /-- What has left has retired. -/
  retired : s.core.retired = s.core.window.departed
  /-- The machine halts because an instruction has retired that ends the program. -/
  halted : s.core.halted = true →
    ∃ n i, n < s.core.window.departed ∧ is[n]? = some i ∧ i.isExit = true

/-- Serial numbers go up. -/
abbrev Numbered (is : List Instruction) : Prop := is.Pairwise fun i j => i.uuid < j.uuid

theorem Numbered.lt {is : List Instruction} (h : Numbered is) {m n : Nat} {i j : Instruction}
    (hi : is[m]? = some i) (hj : is[n]? = some j) (hmn : m < n) : i.uuid < j.uuid := by
  obtain ⟨hm, rfl⟩ := List.getElem?_eq_some_iff.mp hi
  obtain ⟨hn, rfl⟩ := List.getElem?_eq_some_iff.mp hj
  exact List.pairwise_iff_getElem.mp h m n hm hn hmn

theorem Numbered.nodup {is : List Instruction} (h : Numbered is) : is.Nodup := by
  refine List.Pairwise.imp (fun {i j} hlt => ?_) h
  rintro rfl
  exact Nat.lt_irrefl _ hlt

namespace Snapshot

variable {is : List Instruction} {k : Nat} {s t : Snapshot}

theorem Follows.push (hf : s.Follows is k) {q : IssueQueue} {i : Instruction}
    (hq : s.queue.push? i = some q) (hi : is[k]? = some i) :
    ({ s with queue := q } : Snapshot).Follows is (k + 1) := by
  have hk : k < is.length := (List.getElem?_eq_some_iff.mp hi).1
  refine ⟨hf.entry, ?_, Nat.le_succ_of_le hf.next_le, hk, hf.retired, hf.halted⟩
  have hlength : (is.take k).length = k := by
    rw [List.length_take, Nat.min_eq_left hf.le_length]
  rw [IssueQueue.waiting_of_push? hq, hf.waiting, List.take_add_one, hi,
    List.drop_append_of_le_length (by rw [hlength]; exact hf.next_le)]
  rfl

/-- The instruction in front of the queue is the one that comes next. -/
theorem Follows.front (hf : s.Follows is k) {i : Instruction} {rest : IssueQueue}
    (hpop : s.queue.pop? = some (i, rest)) :
    is[s.core.window.next]? = some i ∧ s.core.window.next < k ∧
      rest.waiting = (is.take k).drop (s.core.window.next + 1) := by
  have hwaiting : (is.take k).drop s.core.window.next = i :: rest.waiting := by
    rw [← hf.waiting, IssueQueue.waiting_of_pop? hpop]
  have hfirst : (is.take k)[s.core.window.next]? = some i := by
    have h : ((is.take k).drop s.core.window.next)[0]? = (is.take k)[s.core.window.next]? :=
      List.getElem?_drop
    rw [hwaiting] at h
    exact h.symm
  rw [List.getElem?_take] at hfirst
  split at hfirst
  · next hlt =>
    refine ⟨hfirst, hlt, ?_⟩
    rw [← List.tail_drop, hwaiting]
    rfl
  · simp at hfirst

/-- What waits in the queue is what has not entered the window. -/
theorem Follows.mem_waiting_iff (hf : s.Follows is k) {i : Instruction} :
    i ∈ s.queue.waiting ↔ ∃ n, s.core.window.next ≤ n ∧ n < k ∧ is[n]? = some i := by
  rw [hf.waiting, List.mem_iff_getElem?]
  simp only [List.getElem?_drop, List.getElem?_take]
  constructor
  · rintro ⟨l, hl⟩
    split at hl
    · next hlt => exact ⟨_, Nat.le_add_right _ l, hlt, hl⟩
    · cases hl
  · rintro ⟨n, hle, hlt, hn⟩
    refine ⟨n - s.core.window.next, ?_⟩
    rw [Nat.add_sub_cancel' hle, if_pos hlt, hn]

/-- An instruction of the list whose number is in use is in flight. -/
theorem Follows.exists_entry (hf : s.Follows is k) {n : Nat} {i : Instruction}
    (hlo : s.core.window.departed ≤ n) (hhi : n < s.core.window.next) (hi : is[n]? = some i) :
    ∃ e, s.core.window.nth? n = some e ∧ e.instruction = i := by
  obtain ⟨e, he⟩ := ReorderBuffer.exists_nth? hlo hhi
  exact ⟨e, he, Option.some.inj ((hf.entry he).symm.trans hi)⟩

/-- What holds of all entries in a part of the window holds of this part of the program. -/
theorem Follows.forall_between (hf : s.Follows is k) {P : Instruction → Prop} {m p : Nat}
    (hm : s.core.window.departed ≤ m) (hp : p ≤ s.core.window.next)
    (h : ∀ {l e}, m ≤ l → l < p → s.core.window.nth? l = some e → P e.instruction) (l : Nat)
    (i : Instruction) (hml : m ≤ l) (hlp : l < p) (hi : is[l]? = some i) : P i := by
  obtain ⟨e, he, rfl⟩ :=
    hf.exists_entry (Nat.le_trans hm hml) (Nat.lt_of_lt_of_le hlp hp) hi
  exact h hml hlp he

/-- Nothing but the window, the queue and what has retired matters. -/
theorem Follows.congr (hf : s.Follows is k) (hwindow : t.core.window = s.core.window)
    (hqueue : t.queue = s.queue) (hretired : t.core.retired = s.core.retired)
    (hhalted : t.core.halted = s.core.halted) : t.Follows is k := by
  refine ⟨?_, ?_, ?_, hf.le_length, ?_, ?_⟩
  · rw [hwindow]
    exact hf.entry
  · rw [hqueue, hwindow]
    exact hf.waiting
  · rw [hwindow]
    exact hf.next_le
  · rw [hretired, hwindow]
    exact hf.retired
  · rw [hhalted, hwindow]
    exact hf.halted

/-- The window moves along the list. -/
theorem Follows.step (h : s.Step t) (hc : s.core.Consistent) (hf : s.Follows is k) :
    t.Follows is k := by
  cases h with
  | count csrs arbiter cycle hcells => exact hf.congr rfl rfl rfl rfl
  | issue hpop hwindow hstations =>
    have hw := ReorderBuffer.entered_of_allocate? hwindow
    obtain ⟨hi, hlt, hrest⟩ := hf.front hpop
    refine ⟨?_, ?_, ?_, hf.le_length, hf.retired.trans hw.departed.symm, ?_⟩
    · intro n e hn
      rcases hw.before hn with ⟨rfl, rfl⟩ | hn
      · exact hi
      · exact hf.entry hn
    · exact hrest.trans (congrArg ((is.take k).drop ·) hw.next.symm)
    · exact Nat.le_trans (Nat.le_of_eq hw.next) hlt
    · intro hh
      obtain ⟨n, j, hn, hj⟩ := hf.halted hh
      exact ⟨n, j, Nat.lt_of_lt_of_eq hn hw.departed.symm, hj⟩
  | advance => exact hf.congr rfl rfl rfl rfl
  | publish hbus hdone => exact hf.congr rfl rfl rfl rfl
  | start ht hfree hentry ha hb heffect => exact hf.congr rfl rfl rfl rfl
  | deliver hbus =>
    obtain ⟨_, _, _, -, -, -, hw⟩ := hc.delivering_completes hbus
    refine ⟨?_, hf.waiting.trans (congrArg ((is.take k).drop ·) hw.next.symm),
      Nat.le_trans (Nat.le_of_eq hw.next) hf.next_le, hf.le_length,
      hf.retired.trans hw.departed.symm, ?_⟩
    · intro n e hn
      obtain ⟨f, hm, heq, -⟩ := hw.before hn
      rw [← heq]
      exact hf.entry hm
    · intro hh
      obtain ⟨n, j, hn, hj⟩ := hf.halted hh
      exact ⟨n, j, Nat.lt_of_lt_of_eq hn hw.departed.symm, hj⟩
  | retire hcommit =>
    have hw := ReorderBuffer.left_of_commit? hcommit
    refine ⟨?_, ?_, ?_, hf.le_length, ?_, ?_⟩
    · intro n e hn
      rw [Core.retiring_window] at hn
      exact hf.entry (hw.before hn)
    · rw [Core.retiring_window, hw.next]
      exact hf.waiting
    · rw [Core.retiring_window, hw.next]
      exact hf.next_le
    · rw [Core.retiring_window, Core.retiring_retired, hw.departed, hf.retired]
    · intro hh
      rw [Core.retiring_window, hw.departed]
      rw [Core.retiring_halted, Bool.or_eq_true] at hh
      rcases hh with hh | hexit
      · obtain ⟨n, j, hn, hj⟩ := hf.halted hh
        exact ⟨n, j, Nat.lt_succ_of_lt hn, hj⟩
      · exact ⟨_, _, Nat.lt_succ_self _, hf.entry hw.oldest, hexit⟩

/-- What leaves the window is reported as committed, and nothing else is. -/
theorem Follows.reported {es : List Event} (h : s.Reports es t) (hc : s.core.Consistent)
    (hf : s.Follows is k) :
    is.take s.core.window.departed ++ es.filterMap Event.committed? =
      is.take t.core.window.departed := by
  have hstay : ∀ {d : Nat}, d = s.core.window.departed → es.filterMap Event.committed? = [] →
      is.take s.core.window.departed ++ es.filterMap Event.committed? = is.take d := by
    intro d hd hes
    rw [hes, List.append_nil, hd]
  cases h with
  | remark hes =>
    refine hstay rfl (List.filterMap_eq_nil_iff.mpr fun e he => ?_)
    exact Event.committed?_of_isRemark (hes e he)
  | count csrs arbiter cycle hcells => exact hstay rfl rfl
  | issue hpop hwindow hstations =>
    exact hstay (ReorderBuffer.entered_of_allocate? hwindow).departed rfl
  | advance => exact hstay rfl rfl
  | publish hbus hdone => exact hstay rfl rfl
  | start h hx =>
    refine hstay rfl ?_
    rw [List.filterMap_append, Core.filterMap_committed?_sideEffects]
    rfl
  | fail h hfault => exact hstay rfl Core.filterMap_committed?_sideEffects
  | deliver hbus =>
    obtain ⟨_, _, _, -, -, -, hw⟩ := hc.delivering_completes hbus
    exact hstay hw.departed rfl
  | retire hcommit =>
    have hw := ReorderBuffer.left_of_commit? hcommit
    rw [Core.retiring_window, hw.departed, List.take_add_one, hf.entry hw.oldest]
    rfl

end Snapshot

/-! ### How far a unit has come -/

namespace Core

variable {c : Core} {k l : Slot} {s t : Station} {m n p : Nat} {e : Entry} {u : UnitKind}
  {tag : Tag} {is : List Instruction}

/-- Entry number `n` has a station that has not started. -/
def Waiting (c : Core) (n : Nat) : Prop := ∃ k s e, c.Serves k s n e ∧ s.running = false

theorem Waiting.congr {d : Core} (h : c.Waiting n) (hwindow : d.window = c.window)
    (hstations : d.stations = c.stations) : d.Waiting n := by
  obtain ⟨k, s, e, hs, hrun⟩ := h
  exact ⟨k, s, e, hs.congr hwindow hstations, hrun⟩

/-- Of the entries for unit `u`, those before number `n` have started, and no others. -/
structure Frontier (c : Core) (u : UnitKind) (n : Nat) : Prop where
  departed_le : c.window.departed ≤ n
  le_next : n ≤ c.window.next
  waiting_iff : ∀ {m e}, c.window.nth? m = some e → e.instruction.unit = u →
    (c.Waiting m ↔ n ≤ m)

namespace Frontier

/-- Nothing but the window and the stations matters. -/
theorem congr {d : Core} (h : c.Frontier u n) (hwindow : d.window = c.window)
    (hstations : d.stations = c.stations) : d.Frontier u n := by
  refine ⟨by rw [hwindow]; exact h.departed_le, by rw [hwindow]; exact h.le_next,
    fun {m e} hm hu => ?_⟩
  rw [hwindow] at hm
  rw [← h.waiting_iff hm hu]
  exact ⟨fun hw => hw.congr hwindow.symm hstations.symm, fun hw => hw.congr hwindow hstations⟩

/-- Two numbers can only be frontiers of the same unit if no entry for it stands between them. -/
theorem unit_ne (h : c.Frontier u n) (h' : c.Frontier u p) (hnm : n ≤ m) (hmp : m < p)
    (hm : c.window.nth? m = some e) : e.instruction.unit ≠ u := fun hu =>
  Nat.not_le_of_lt hmp ((h'.waiting_iff hm hu).mp ((h.waiting_iff hm hu).mpr hnm))

theorem waiting_issuing_iff (hc : c.Consistent) {i : Instruction} {w : ReorderBuffer}
    {p : Stations} (hw : c.window.Entered i tag w)
    (hp : c.stations.allocate? (c.stationFor i tag) = some (l, p)) :
    (c.issuing i tag w p).Waiting m ↔ m = c.window.next ∨ c.Waiting m := by
  constructor
  · rintro ⟨k, s, f, hs, hrun⟩
    rcases (hc.serves_issuing_iff hw hp).mp hs with ⟨-, -, hm, -⟩ | hs
    · exact .inl hm
    · exact .inr ⟨k, s, f, hs, hrun⟩
  · rintro (rfl | ⟨k, s, f, hs, hrun⟩)
    · exact ⟨_, _, _, (hc.serves_issuing_iff hw hp).mpr (.inl ⟨rfl, rfl, rfl, rfl⟩), rfl⟩
    · exact ⟨k, s, f, (hc.serves_issuing_iff hw hp).mpr (.inr hs), hrun⟩

/-- A new entry has not started, and does not move the frontier. -/
theorem issuing (h : c.Frontier u n) (hc : c.Consistent) {i : Instruction} {w : ReorderBuffer}
    {p : Stations} (hw : c.window.Entered i tag w)
    (hp : c.stations.allocate? (c.stationFor i tag) = some (l, p)) :
    (c.issuing i tag w p).Frontier u n := by
  have hnext : w.next = c.window.next + 1 := hw.next
  refine ⟨Nat.le_trans (Nat.le_of_eq hw.departed) h.departed_le,
    Nat.le_trans h.le_next (by rw [Core.issuing]; dsimp only; omega), fun {m e} hm hu => ?_⟩
  have hm := (hw.nth? m).symm.trans hm
  rw [waiting_issuing_iff hc hw hp]
  split at hm
  · next heq =>
    have := h.le_next
    exact ⟨fun _ => by omega, fun _ => .inl heq⟩
  · next hne =>
    rw [h.waiting_iff hm hu]
    exact ⟨fun h => h.resolve_left hne, .inr⟩

theorem waiting_starting_iff (hc : c.Consistent) {x : Effect} (hp : c.Serves l s p e) :
    (c.starting l s x).Waiting m ↔ m ≠ p ∧ c.Waiting m := by
  have hs := hp.station
  constructor
  · rintro ⟨k, t, f, ht, hrun⟩
    obtain ⟨u, hu, rfl⟩ := (hc.serves_starting_iff hs).mp ht
    by_cases hk : k = l
    · rw [if_pos hk] at hrun
      simp at hrun
    · rw [if_neg hk] at hrun
      refine ⟨?_, k, u, f, hu, hrun⟩
      rintro rfl
      exact hk (hc.slot_inj hu.station hs (hu.tag.trans hp.tag.symm))
  · rintro ⟨hm, k, t, f, ht, hrun⟩
    have hk : k ≠ l := by
      rintro rfl
      exact hm (ht.inj hp).2.1
    refine ⟨k, t, f, (hc.serves_starting_iff hs).mpr ⟨t, ht, (if_neg hk).symm⟩, hrun⟩

/-- A unit does not move the frontier of another one. -/
theorem starting_of_ne (h : c.Frontier u n) (hc : c.Consistent) {x : Effect}
    (hp : c.Serves l s p e) (hne : s.unit ≠ u) : (c.starting l s x).Frontier u n := by
  refine ⟨h.departed_le, h.le_next, fun {m f} hm hu => ?_⟩
  rw [waiting_starting_iff hc hp, ← h.waiting_iff hm hu]
  refine ⟨And.right, fun hw => ⟨?_, hw⟩⟩
  rintro rfl
  obtain rfl := Option.some.inj (hp.entry.symm.trans hm)
  exact hne ((hp.describes hc).2.trans hu)

/-- An ordered unit skips nothing: when one of its instructions may start, no other one stands
between the frontier and this instruction. -/
theorem skips_nothing (h : c.Frontier u n) (hc : c.Consistent)
    (hnum : ∀ {a b f g}, c.window.nth? a = some f → c.window.nth? b = some g → a < b →
      f.instruction.uuid < g.instruction.uuid) (hs : c.stations.Eligible l s)
    (hp : c.Serves l s p e) (hu : s.unit = u) (hord : u.isOrdered = true) :
    n ≤ p ∧ ∀ {m f}, n ≤ m → m < p → c.window.nth? m = some f → f.instruction.unit ≠ u := by
  refine ⟨?_, fun {m f} hnm hmp hm hunit => ?_⟩
  · refine (h.waiting_iff hp.entry ((hp.describes hc).2.symm.trans hu)).mp ?_
    exact ⟨l, s, e, hp, hs.waiting⟩
  · obtain ⟨k, t, g, ht, -⟩ := (h.waiting_iff hm hunit).mpr hnm
    obtain rfl := Option.some.inj (ht.entry.symm.trans hm)
    have hlt : t.uuid < s.uuid := by
      rw [(ht.describes hc).1, (hp.describes hc).1]
      exact hnum ht.entry hp.entry hmp
    exact Nat.not_le_of_lt hlt (hs.uuid_le ht.station
      (by rw [(ht.describes hc).2, hunit, hu]) (by rw [hu, hord]))

/-- Its frontier then moves behind this instruction. -/
theorem starting (h : c.Frontier u n) (hc : c.Consistent) {x : Effect} (hp : c.Serves l s p e)
    (hnp : n ≤ p)
    (hskip : ∀ {m f}, n ≤ m → m < p → c.window.nth? m = some f → f.instruction.unit ≠ u) :
    (c.starting l s x).Frontier u (p + 1) := by
  have hb := ReorderBuffer.bounds_of_nth? hp.entry
  refine ⟨Nat.le_succ_of_le hb.1, hb.2, fun {m f} hm hu => ?_⟩
  rw [waiting_starting_iff hc hp, h.waiting_iff hm hu]
  constructor
  · rintro ⟨hmp, hnm⟩
    by_contra hlt
    exact hskip hnm (by omega) hm hu
  · intro hpm
    exact ⟨by omega, by omega⟩

/-- A result that arrives comes from an entry that has started. -/
theorem waiting_delivering_iff (hc : c.Consistent) {r : Broadcast}
    (hr : c.bus.current = some r) : (c.delivering r).Waiting m ↔ c.Waiting m := by
  obtain ⟨s₀, n₀, e₀, hserve₀, -, hrun₀, -⟩ := hc.delivering_completes hr
  constructor
  · rintro ⟨k, t, g, ht, hrun⟩
    obtain ⟨-, v, hv, rfl⟩ := (hc.serves_delivering_iff hr).mp ht
    exact ⟨k, v, g, hv, hrun⟩
  · rintro ⟨k, t, g, ht, hrun⟩
    have hk : k ≠ r.slot := by
      rintro rfl
      obtain ⟨rfl, -, -⟩ := ht.inj hserve₀
      rw [hrun₀] at hrun
      simp at hrun
    exact ⟨k, _, g, (hc.serves_delivering_iff hr).mpr ⟨hk, t, ht, rfl⟩, hrun⟩

theorem delivering (h : c.Frontier u n) (hc : c.Consistent) {r : Broadcast}
    (hr : c.bus.current = some r) : (c.delivering r).Frontier u n := by
  obtain ⟨_, _, _, -, -, -, hw⟩ := hc.delivering_completes hr
  refine ⟨Nat.le_trans (Nat.le_of_eq hw.departed) h.departed_le,
    Nat.le_trans h.le_next (Nat.le_of_eq hw.next.symm), fun {m e} hm hu => ?_⟩
  obtain ⟨f, hf, heq, -⟩ := hw.before hm
  rw [waiting_delivering_iff hc hr, h.waiting_iff hf (by rw [heq, hu])]

theorem waiting_retiring_iff (hc : c.Consistent) {w : ReorderBuffer}
    (hw : c.window.Left tag e w) : (c.retiring tag e w).Waiting m ↔ c.Waiting m := by
  constructor
  · rintro ⟨k, s, g, hs, hrun⟩
    exact ⟨k, s, g, (hc.serves_retiring_iff hw).mp hs, hrun⟩
  · rintro ⟨k, s, g, hs, hrun⟩
    exact ⟨k, s, g, (hc.serves_retiring_iff hw).mpr hs, hrun⟩

/-- The instruction that leaves has started. If the frontier stood right there, it is one of another
unit. -/
theorem retiring (h : c.Frontier u n) (hc : c.Consistent) {w : ReorderBuffer}
    (hw : c.window.Left tag e w) :
    (n = c.window.departed → e.instruction.unit ≠ u) ∧
      (c.retiring tag e w).Frontier u (max n (c.window.departed + 1)) := by
  have hnot : ¬c.Waiting c.window.departed := by
    rintro ⟨k, s, f, hs, -⟩
    obtain rfl := Option.some.inj (hs.entry.symm.trans hw.oldest)
    have := hs.unready hc
    rw [hw.ready] at this
    simp at this
  have hb := ReorderBuffer.bounds_of_nth? hw.oldest
  refine ⟨fun heq hu => hnot ((h.waiting_iff hw.oldest hu).mpr (Nat.le_of_eq heq)), ?_, ?_, ?_⟩
  · rw [retiring_window, hw.departed]
    exact Nat.le_max_right _ _
  · rw [retiring_window, hw.next]
    exact Nat.max_le.mpr ⟨h.le_next, hb.2⟩
  · intro m f hm hu
    rw [retiring_window] at hm
    have hmb := ReorderBuffer.bounds_of_nth? hm
    rw [hw.departed] at hmb
    rw [waiting_retiring_iff hc hw, h.waiting_iff (hw.before hm) hu]
    omega

end Frontier

end Core

end OutOfOrder
