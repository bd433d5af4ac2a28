import OutOfOrder.Proofs.Journal
import OutOfOrder.Proofs.Window

/-!
# Who holds what

An instruction in flight without a result occupies an entry of the window and a station of the pool.
Once it has started, its result is carried by a functional unit or by the bus. Four structures are
involved, each recycles its places on its own, and each of them is changed at another point of the
cycle. `Core.Consistent` says that they agree all the same; every step keeps it, so it holds at the
end of every cycle, also of one that failed half-way.

## Main definitions

* `Holder`, `Core.carries` — where a result can be, and the result that is there
* `Core.Serves` — a station belongs to an entry of the window
* `Core.Consistent` — stations, entries and holders agree
* `Snapshot.Visit` — what a visit to a station that may start leaves behind

## Main results

* `Core.Consistent.serves_issuing_iff`, `serves_starting_iff`, `serves_delivering_iff`,
  `serves_retiring_iff` — to which entries the stations belong after a step
* `Core.Consistent.step`, `System.Reachable.consistent` — they always agree
* `Snapshot.visit_of_eligible` — a visit finds the instruction and its operands
-/

namespace OutOfOrder

/-- Where a result can be on its way: in a functional unit or on the bus. -/
inductive Holder where
  | unit (kind : UnitKind)
  | bus
deriving DecidableEq, Repr

namespace Core

/-- What the unit of a kind works on. -/
def completion? (c : Core) (k : UnitKind) : Option Completion :=
  (c.units.get k).work.map Work.completion

/-- The result that a holder has. -/
def carries (c : Core) : Holder → Option Broadcast
  | .unit k => (c.completion? k).map Completion.broadcast
  | .bus => c.bus.current

/-- Station `s` in slot `k` belongs to entry number `n` of the window, which is `e`. -/
structure Serves (c : Core) (k : Slot) (s : Station) (n : Nat) (e : Entry) : Prop where
  station : c.stations.get? k = some s
  entry : c.window.nth? n = some e
  tag : s.tag = c.window.place n

/-- Stations, entries and holders agree about what is in flight. -/
structure Consistent (c : Core) : Prop where
  /-- A station belongs to an entry without a result, and repeats what the entry says. -/
  serves : ∀ {k s}, c.stations.get? k = some s → ∃ n e, c.Serves k s n e ∧ e.ready = false ∧
    s.uuid = e.instruction.uuid ∧ s.unit = e.instruction.unit
  /-- An entry without a result has a station. -/
  served : ∀ {n e}, c.window.nth? n = some e → e.ready = false → ∃ k s, c.Serves k s n e
  /-- It has only one. -/
  slot_inj : ∀ {k l s t}, c.stations.get? k = some s → c.stations.get? l = some t →
    s.tag = t.tag → k = l
  /-- What a holder has comes from a station that has started. -/
  running_of_carries : ∀ {h r}, c.carries h = some r →
    ∃ s, c.stations.get? r.slot = some s ∧ s.tag = r.tag ∧ s.running = true
  /-- The result of a station that has started is somewhere. -/
  carries_of_running : ∀ {k s}, c.stations.get? k = some s → s.running = true →
    ∃ h r, c.carries h = some r ∧ r.slot = k
  /-- It is in one place only. -/
  holder_inj : ∀ {h i r t}, c.carries h = some r → c.carries i = some t → r.slot = t.slot → h = i
  /-- A unit works for a station of its own kind, and knows its serial number. -/
  own_unit : ∀ {k o s}, c.completion? k = some o → c.stations.get? o.slot = some s →
    s.unit = k ∧ s.uuid = o.uuid

variable {c : Core} {k l : Slot} {s t : Station} {m n : Nat} {e f : Entry}

theorem Serves.congr {d : Core} (h : c.Serves k s n e) (hwindow : d.window = c.window)
    (hstations : d.stations = c.stations) : d.Serves k s n e :=
  ⟨by rw [hstations, h.station], by rw [hwindow, h.entry], by rw [hwindow, h.tag]⟩

/-- There is one station in a slot, and it belongs to one entry. -/
theorem Serves.inj (h : c.Serves k s m e) (h' : c.Serves k t n f) : s = t ∧ m = n ∧ e = f := by
  obtain rfl := Option.some.inj (h.station.symm.trans h'.station)
  obtain rfl := ReorderBuffer.place_inj h.entry h'.entry (h.tag.symm.trans h'.tag)
  exact ⟨rfl, rfl, Option.some.inj (h.entry.symm.trans h'.entry)⟩

theorem Serves.get?_tag (h : c.Serves k s n e) : c.window.get? s.tag = some e := by
  rw [h.tag]
  exact ReorderBuffer.get?_place h.entry

theorem Serves.unready (h : c.Serves k s n e) (hc : c.Consistent) : e.ready = false := by
  obtain ⟨m, f, hs, hf, -⟩ := hc.serves h.station
  obtain ⟨-, -, rfl⟩ := h.inj hs
  exact hf

theorem Serves.describes (h : c.Serves k s n e) (hc : c.Consistent) :
    s.uuid = e.instruction.uuid ∧ s.unit = e.instruction.unit := by
  obtain ⟨m, f, hs, -, hf⟩ := hc.serves h.station
  obtain ⟨-, -, rfl⟩ := h.inj hs
  exact hf

theorem carries_unit {k : UnitKind} {o : Completion} (h : c.completion? k = some o) :
    c.carries (.unit k) = some o.broadcast := by
  rw [carries, h]
  rfl

/-! ### What the steps do to the units -/

theorem completion?_advanceUnits (c : Core) (k : UnitKind) :
    c.advanceUnits.completion? k = c.completion? k := by
  rw [completion?, completion?, advanceUnits, Units.get_tick, FunctionalUnit.tick]
  cases (c.units.get k).work <;> rfl

theorem completion?_publishing (c : Core) (k l : UnitKind) (o : Completion) :
    (c.publishing k o).completion? l = if k = l then none else c.completion? l := by
  rw [completion?, publishing, Units.get_set]
  split <;> rfl

theorem completion?_starting (c : Core) (k : UnitKind) (slot : Slot) (s : Station) (x : Effect) :
    (c.starting slot s x).completion? k =
      if s.unit = k then some (completion slot s x) else c.completion? k := by
  rw [completion?, starting, Units.get_set]
  split <;> rfl

theorem completion?_of_output? {k : UnitKind} {o : Completion}
    (h : (c.units.get k).output? = some o) : c.completion? k = some o := by
  rw [completion?, FunctionalUnit.output?_eq_some_iff.mp h]
  rfl

/-! ### What the steps do to the holders -/

/-- After a publication the bus has what one unit had, and nobody else has it. -/
theorem carries_publishing {k : UnitKind} {o : Completion} {h : Holder} {r : Broadcast}
    (hr : (c.publishing k o).carries h = some r) :
    (h = .bus ∧ r = o.broadcast) ∨ (h ≠ .bus ∧ h ≠ .unit k ∧ c.carries h = some r) := by
  cases h with
  | bus => exact .inl ⟨rfl, (Option.some.inj hr).symm⟩
  | unit j =>
    rw [carries, completion?_publishing] at hr
    by_cases hj : k = j
    · rw [if_pos hj] at hr
      simp at hr
    · rw [if_neg hj] at hr
      exact .inr ⟨nofun, fun he => hj (Holder.unit.inj he).symm, hr⟩

/-- After a start one unit has the new result, and everybody else has what he had. -/
theorem carries_starting {x : Effect} {h : Holder} {r : Broadcast}
    (hr : (c.starting l s x).carries h = some r) :
    (h = .unit s.unit ∧ r = (completion l s x).broadcast) ∨
      (h ≠ .unit s.unit ∧ c.carries h = some r) := by
  cases h with
  | bus => exact .inr ⟨nofun, hr⟩
  | unit j =>
    rw [carries, completion?_starting] at hr
    by_cases hj : s.unit = j
    · rw [if_pos hj] at hr
      exact .inl ⟨by rw [hj], (Option.some.inj hr).symm⟩
    · rw [if_neg hj] at hr
      exact .inr ⟨fun he => hj (Holder.unit.inj he).symm, hr⟩

/-- After a delivery only units have something. -/
theorem carries_delivering {v : Broadcast} {h : Holder} {r : Broadcast}
    (hr : (c.delivering v).carries h = some r) : h ≠ .bus ∧ c.carries h = some r := by
  cases h with
  | bus => cases hr
  | unit j => exact ⟨nofun, hr⟩

/-- Retirement leaves the holders alone. -/
theorem carries_retiring (c : Core) (tag : Tag) (e : Entry) (w : ReorderBuffer) (h : Holder) :
    (c.retiring tag e w).carries h = c.carries h := by
  cases h with
  | unit k => rw [carries, carries, completion?, completion?, retiring_units]
  | bus => rw [carries, carries, retiring_bus]

namespace Consistent

/-- A station that has kept its tag belongs to the entry to which it belonged before, provided that
this entry is still there. -/
theorem serves_before {d : Core} (hc : c.Consistent) (hd : d.Serves k t n e)
    (hs : c.stations.get? k = some s) (htag : t.tag = s.tag)
    (hplace : ∀ n, d.window.place n = c.window.place n)
    (hkept : ∀ {m f}, c.Serves k s m f → d.window.nth? m = some f) : c.Serves k s n e := by
  obtain ⟨m, f, hserve, -⟩ := hc.serves hs
  have hf := hkept hserve
  have hmn : m = n := by
    refine ReorderBuffer.place_inj hf hd.entry ?_
    rw [hplace, ← hserve.tag, ← htag, hd.tag]
  subst hmn
  obtain rfl := Option.some.inj (hf.symm.trans hd.entry)
  exact hserve

/-- If the stations and the holders are as they were, the window may lose entries that no station
belongs to, but that is all. -/
theorem congr {d : Core} (hc : c.Consistent)
    (hserves : ∀ {k s n e}, c.Serves k s n e → d.Serves k s n e)
    (hentries : ∀ {n e}, d.window.nth? n = some e → c.window.nth? n = some e)
    (hstations : d.stations = c.stations) (hunits : ∀ k, d.completion? k = c.completion? k)
    (hbus : d.bus = c.bus) : d.Consistent := by
  have hcarries : ∀ h, d.carries h = c.carries h := by
    intro h
    cases h with
    | unit k => rw [carries, carries, hunits]
    | bus => rw [carries, carries, hbus]
  refine ⟨?_, ?_, ?_, ?_, ?_, ?_, ?_⟩
  · intro k s hk
    rw [hstations] at hk
    obtain ⟨n, e, hs, hrest⟩ := hc.serves hk
    exact ⟨n, e, hserves hs, hrest⟩
  · intro n e hn he
    obtain ⟨k, s, hs⟩ := hc.served (hentries hn) he
    exact ⟨k, s, hserves hs⟩
  · intro k l s t hk hl
    rw [hstations] at hk hl
    exact hc.slot_inj hk hl
  · intro h r hr
    rw [hcarries] at hr
    rw [hstations]
    exact hc.running_of_carries hr
  · intro k s hk hrun
    rw [hstations] at hk
    obtain ⟨h, r, hr, hslot⟩ := hc.carries_of_running hk hrun
    exact ⟨h, r, by rw [hcarries, hr], hslot⟩
  · intro h i r t hr ht
    rw [hcarries] at hr ht
    exact hc.holder_inj hr ht
  · intro k o s ho hs
    rw [hunits] at ho
    rw [hstations] at hs
    exact hc.own_unit ho hs

/-! ### Issue -/

section Issue

variable {i : Instruction} {tag : Tag} {w : ReorderBuffer} {p : Stations}

theorem get?_issuing (hp : c.stations.allocate? (c.stationFor i tag) = some (l, p)) (k : Slot) :
    (c.issuing i tag w p).stations.get? k =
      if k = l then some (c.stationFor i tag) else c.stations.get? k :=
  (Stations.get?_allocate hp).2 k

/-- The new station belongs to the new entry, and the others to those to which they belonged. -/
theorem serves_issuing_iff (hc : c.Consistent) (hw : c.window.Entered i tag w)
    (hp : c.stations.allocate? (c.stationFor i tag) = some (l, p)) :
    (c.issuing i tag w p).Serves k s n e ↔
      (k = l ∧ s = c.stationFor i tag ∧ n = c.window.next ∧ e = { instruction := i }) ∨
        c.Serves k s n e := by
  have hget := get?_issuing (w := w) hp
  constructor
  · intro hd
    have hk := hd.station
    rw [hget] at hk
    split at hk
    · next hkl =>
      obtain rfl := Option.some.inj hk
      have hn : c.window.next = n := by
        refine ReorderBuffer.place_inj hw.newest hd.entry ?_
        rw [hw.place, ← hw.tag_eq]
        exact hd.tag
      subst hn
      exact .inl ⟨hkl, rfl, rfl, Option.some.inj (hd.entry.symm.trans hw.newest)⟩
    · exact .inr (hc.serves_before hd hk rfl hw.place fun hserve => hw.kept hserve.entry)
  · rintro (⟨rfl, rfl, rfl, rfl⟩ | hserve)
    · exact ⟨by rw [hget, if_pos rfl], hw.newest, hw.tag_eq.trans (hw.place _).symm⟩
    · have hkl : k ≠ l := by
        rintro rfl
        have hfree := (Stations.get?_allocate hp).1
        rw [hserve.station] at hfree
        simp at hfree
      exact ⟨by rw [hget, if_neg hkl, hserve.station], hw.kept hserve.entry,
        hserve.tag.trans (hw.place n).symm⟩

/-- A new instruction takes a free place of the window and a free slot. -/
theorem issuing (hc : c.Consistent) (hw : c.window.Entered i tag w)
    (hp : c.stations.allocate? (c.stationFor i tag) = some (l, p)) :
    (c.issuing i tag w p).Consistent := by
  have hnew : (c.issuing i tag w p).Serves l (c.stationFor i tag) c.window.next
      { instruction := i } := (serves_issuing_iff hc hw hp).mpr (.inl ⟨rfl, rfl, rfl, rfl⟩)
  have hold : ∀ {k s n e}, c.Serves k s n e → (c.issuing i tag w p).Serves k s n e :=
    fun hs => (serves_issuing_iff hc hw hp).mpr (.inr hs)
  have cases_get : ∀ {k s}, (c.issuing i tag w p).stations.get? k = some s →
      (k = l ∧ s = c.stationFor i tag) ∨ c.stations.get? k = some s := by
    intro k s hk
    rw [get?_issuing hp] at hk
    split at hk
    · next h => exact .inl ⟨h, (Option.some.inj hk).symm⟩
    · exact .inr hk
  have old : ∀ {k s}, c.stations.get? k = some s →
      (c.issuing i tag w p).stations.get? k = some s := by
    intro k s hk
    obtain ⟨n, e, hserve, -⟩ := hc.serves hk
    exact (hold hserve).station
  have fresh : ∀ {k s}, c.stations.get? k = some s → s.tag ≠ tag := by
    intro k s hk
    obtain ⟨n, e, hs, -⟩ := hc.serves hk
    rw [hs.tag]
    exact hw.fresh n e hs.entry
  refine ⟨?_, ?_, ?_, ?_, ?_, ?_, ?_⟩
  · intro k s hk
    rcases cases_get hk with ⟨rfl, rfl⟩ | hk
    · exact ⟨_, _, hnew, rfl, rfl, rfl⟩
    · obtain ⟨n, e, hs, hrest⟩ := hc.serves hk
      exact ⟨n, e, hold hs, hrest⟩
  · intro n e hn he
    rcases hw.before hn with ⟨rfl, rfl⟩ | hn
    · exact ⟨l, _, hnew⟩
    · obtain ⟨k, s, hs⟩ := hc.served hn he
      exact ⟨k, s, hold hs⟩
  · intro k j s t hk hj htag
    rcases cases_get hk with ⟨rfl, rfl⟩ | hk <;> rcases cases_get hj with ⟨rfl, rfl⟩ | hj
    · rfl
    · exact absurd htag.symm (fresh hj)
    · exact absurd htag (fresh hk)
    · exact hc.slot_inj hk hj htag
  · intro h r hr
    obtain ⟨s, hs, hrest⟩ := hc.running_of_carries (h := h) hr
    exact ⟨s, old hs, hrest⟩
  · intro k s hk hrun
    rcases cases_get hk with ⟨rfl, rfl⟩ | hk
    · cases hrun
    · exact hc.carries_of_running hk hrun
  · intro h j r t hr ht
    exact hc.holder_inj (h := h) (i := j) hr ht
  · intro k o s ho hs
    obtain ⟨s', hs', -⟩ := hc.running_of_carries (carries_unit (c := c) ho)
    obtain rfl := Option.some.inj ((old hs').symm.trans hs)
    exact hc.own_unit ho hs'

end Issue

/-! ### Publication -/

/-- A result on its way moves from its unit to the bus. -/
theorem publishing (hc : c.Consistent) {k : UnitKind} {o : Completion}
    (hbus : c.bus.current = none) (ho : c.completion? k = some o) :
    (c.publishing k o).Consistent := by
  have hunit : ∀ j, (c.publishing k o).completion? j = if k = j then none else c.completion? j :=
    fun j => completion?_publishing c k j o
  have hk := carries_unit ho
  refine ⟨?_, ?_, fun hj hl => hc.slot_inj hj hl, ?_, ?_, ?_, ?_⟩
  · intro j s hj
    obtain ⟨n, e, hs, hrest⟩ := hc.serves hj
    exact ⟨n, e, hs.congr rfl rfl, hrest⟩
  · intro n e hn he
    obtain ⟨j, s, hs⟩ := hc.served hn he
    exact ⟨j, s, hs.congr rfl rfl⟩
  · intro h r hr
    rcases carries_publishing hr with ⟨-, rfl⟩ | ⟨-, -, hr⟩
    · exact hc.running_of_carries hk
    · exact hc.running_of_carries hr
  · intro j s hj hrun
    obtain ⟨h, r, hr, hslot⟩ := hc.carries_of_running hj hrun
    cases h with
    | bus =>
      rw [carries, hbus] at hr
      simp at hr
    | unit i =>
      by_cases hi : k = i
      · subst hi
        obtain rfl := Option.some.inj (hk.symm.trans hr)
        exact ⟨.bus, o.broadcast, rfl, hslot⟩
      · refine ⟨.unit i, r, ?_, hslot⟩
        rw [carries, hunit, if_neg hi]
        exact hr
  · intro h i r t hr ht hslot
    rcases carries_publishing hr with ⟨rfl, rfl⟩ | ⟨-, hhk, hr⟩ <;>
      rcases carries_publishing ht with ⟨rfl, rfl⟩ | ⟨-, hik, ht⟩
    · rfl
    · exact absurd (hc.holder_inj hk ht hslot).symm hik
    · exact absurd (hc.holder_inj hr hk hslot) hhk
    · exact hc.holder_inj hr ht hslot
  · intro j o' s ho' hs
    rw [hunit] at ho'
    split at ho'
    · cases ho'
    · exact hc.own_unit ho' hs

/-! ### Start -/

theorem get?_starting {x : Effect} (hs : c.stations.get? l = some s) (k : Slot) :
    (c.starting l s x).stations.get? k =
      if k = l then some { s with running := true } else c.stations.get? k :=
  Stations.get?_markRunning hs

/-- A station that has started belongs to the same entry as before. -/
theorem serves_starting_iff (hc : c.Consistent) {x : Effect} (hs : c.stations.get? l = some s) :
    (c.starting l s x).Serves k t n e ↔
      ∃ u, c.Serves k u n e ∧ t = if k = l then { u with running := true } else u := by
  constructor
  · intro hd
    have hk := hd.station
    rw [get?_starting hs] at hk
    split at hk
    · next hkl =>
      subst hkl
      obtain rfl := Option.some.inj hk
      exact ⟨s, hc.serves_before hd hs rfl (fun _ => rfl) Serves.entry, (if_pos rfl).symm⟩
    · next hkl =>
      exact ⟨t, hc.serves_before hd hk rfl (fun _ => rfl) Serves.entry, (if_neg hkl).symm⟩
  · rintro ⟨u, hu, rfl⟩
    by_cases hkl : k = l
    · subst hkl
      obtain rfl := Option.some.inj (hu.station.symm.trans hs)
      rw [if_pos rfl]
      exact ⟨by rw [get?_starting hs, if_pos rfl], hu.entry, hu.tag⟩
    · rw [if_neg hkl]
      exact ⟨by rw [get?_starting hs, if_neg hkl, hu.station], hu.entry, hu.tag⟩

/-- A waiting station hands its result to its free unit. -/
theorem starting (hc : c.Consistent) {x : Effect} (hs : c.stations.get? l = some s)
    (hwaiting : s.running = false) (hfree : c.completion? s.unit = none) :
    (c.starting l s x).Consistent := by
  have hunit : ∀ j, (c.starting l s x).completion? j =
      if s.unit = j then some (completion l s x) else c.completion? j :=
    fun j => completion?_starting c j l s x
  -- a station is what it was, except that it may have started
  have before : ∀ {k t}, (c.starting l s x).stations.get? k = some t →
      ∃ u, c.stations.get? k = some u ∧ t = if k = l then { u with running := true } else u := by
    intro k t hk
    rw [get?_starting hs] at hk
    split at hk
    · next h =>
      obtain rfl := Option.some.inj hk
      exact ⟨s, h ▸ hs, (if_pos h).symm⟩
    · next h => exact ⟨t, hk, (if_neg h).symm⟩
  have same : ∀ {k : Slot} {u : Station}, let t := if k = l then { u with running := true } else u
      t.tag = u.tag ∧ t.uuid = u.uuid ∧ t.unit = u.unit := by
    intro k u t
    by_cases h : k = l
    · rw [show t = { u with running := true } from if_pos h]
      exact ⟨rfl, rfl, rfl⟩
    · rw [show t = u from if_neg h]
      exact ⟨rfl, rfl, rfl⟩
  -- what is carried is the new result, or was carried before and comes from another slot
  have elsewhere : ∀ {h r}, c.carries h = some r → r.slot ≠ l := by
    intro h r hr hslot
    obtain ⟨t, ht, -, hrun⟩ := hc.running_of_carries hr
    rw [hslot, hs] at ht
    obtain rfl := Option.some.inj ht
    rw [hwaiting] at hrun
    simp at hrun
  have started : (c.starting l s x).carries (.unit s.unit) = some (completion l s x).broadcast := by
    rw [carries, hunit, if_pos rfl]
    rfl
  refine ⟨?_, ?_, ?_, ?_, ?_, ?_, ?_⟩
  · intro k t hk
    obtain ⟨u, hu, rfl⟩ := before hk
    obtain ⟨n, e, hserve, he, huuid, hkind⟩ := hc.serves hu
    exact ⟨n, e, (serves_starting_iff hc hs).mpr ⟨u, hserve, rfl⟩, he, same.2.1.trans huuid,
      same.2.2.trans hkind⟩
  · intro n e hn he
    obtain ⟨k, u, hu⟩ := hc.served hn he
    exact ⟨k, _, (serves_starting_iff hc hs).mpr ⟨u, hu, rfl⟩⟩
  · intro k j t u hk hj htag
    obtain ⟨t', ht', rfl⟩ := before hk
    obtain ⟨u', hu', rfl⟩ := before hj
    exact hc.slot_inj ht' hu' (same.1.symm.trans (htag.trans same.1))
  · intro h r hr
    rcases carries_starting hr with ⟨-, rfl⟩ | ⟨-, hr⟩
    · exact ⟨{ s with running := true }, by rw [get?_starting hs]; exact if_pos rfl, rfl, rfl⟩
    · obtain ⟨t, ht, hrest⟩ := hc.running_of_carries hr
      exact ⟨t, by rw [get?_starting hs, if_neg (elsewhere hr), ht], hrest⟩
  · intro k t hk hrun
    by_cases hkl : k = l
    · exact ⟨_, _, started, hkl.symm⟩
    · obtain ⟨u, hu, rfl⟩ := before hk
      rw [if_neg hkl] at hrun
      obtain ⟨h, r, hr, hslot⟩ := hc.carries_of_running hu hrun
      cases h with
      | bus => exact ⟨.bus, r, hr, hslot⟩
      | unit j =>
        refine ⟨.unit j, r, ?_, hslot⟩
        have hj : s.unit ≠ j := by
          rintro rfl
          rw [carries, hfree] at hr
          simp at hr
        rw [carries, hunit, if_neg hj]
        exact hr
  · intro h i r t hr ht hslot
    rcases carries_starting hr with ⟨rfl, rfl⟩ | ⟨-, hr⟩ <;>
      rcases carries_starting ht with ⟨rfl, rfl⟩ | ⟨-, ht⟩
    · rfl
    · exact absurd hslot.symm (elsewhere ht)
    · exact absurd hslot (elsewhere hr)
    · exact hc.holder_inj hr ht hslot
  · intro j o t ho ht
    obtain ⟨u, hu, rfl⟩ := before ht
    rw [same.2.1, same.2.2]
    rw [hunit] at ho
    split at ho
    · next hj =>
      obtain rfl := Option.some.inj ho
      obtain rfl := Option.some.inj (hu.symm.trans hs)
      exact ⟨hj, rfl⟩
    · exact hc.own_unit ho hu

/-! ### Delivery -/

/-- The result on the bus belongs to an entry, which delivery completes. -/
theorem delivering_completes (hc : c.Consistent) {r : Broadcast} (hr : c.bus.current = some r) :
    ∃ s n e, c.Serves r.slot s n e ∧ s.tag = r.tag ∧ s.running = true ∧
      c.window.Completed n r.result (c.delivering r).window := by
  obtain ⟨s, hs, htag, hrun⟩ := hc.running_of_carries (h := .bus) hr
  obtain ⟨n, e, hserve, -⟩ := hc.serves hs
  obtain ⟨w, hw, hcompleted⟩ := ReorderBuffer.exists_completed r.result hserve.entry
  have hwindow : (c.delivering r).window = w := by
    rw [delivering, ← htag, hserve.tag]
    change (c.window.markReady? _ _).getD _ = w
    rw [hw]
    rfl
  exact ⟨s, n, e, hserve, htag, hrun, hwindow ▸ hcompleted⟩

theorem get?_delivering (c : Core) (r : Broadcast) (k : Slot) :
    (c.delivering r).stations.get? k =
      if k = r.slot then none else (c.stations.get? k).map (Station.wake r.tag r.result) := by
  rw [delivering, Stations.get?_release, Stations.get?_broadcast]

/-- One slot is given free; the other stations listen, and belong to the same entries as before. -/
theorem serves_delivering_iff (hc : c.Consistent) {r : Broadcast} (hr : c.bus.current = some r) :
    (c.delivering r).Serves k t n e ↔
      k ≠ r.slot ∧ ∃ u, c.Serves k u n e ∧ t = u.wake r.tag r.result := by
  obtain ⟨s₀, n₀, e₀, hserve₀, -, -, hw⟩ := hc.delivering_completes hr
  -- the entry that is completed is the one of the slot that is given free
  have hkept : k ≠ r.slot → ∀ {u m f}, c.Serves k u m f →
      (c.delivering r).window.nth? m = some f := by
    intro hne u m f hu
    have hm : m ≠ n₀ := by
      rintro rfl
      exact hne (hc.slot_inj hu.station hserve₀.station (hu.tag.trans hserve₀.tag.symm))
    rw [hw.nth?, if_neg hm, hu.entry]
  constructor
  · intro hd
    have hk := hd.station
    rw [get?_delivering] at hk
    split at hk
    · simp at hk
    · next hne =>
      obtain ⟨u, hu, rfl⟩ := Option.map_eq_some_iff.mp hk
      exact ⟨hne, u, hc.serves_before hd hu rfl hw.place (hkept hne), rfl⟩
  · rintro ⟨hne, u, hu, rfl⟩
    exact ⟨by rw [get?_delivering, if_neg hne, hu.station]; rfl, hkept hne hu,
      hu.tag.trans (hw.place n).symm⟩

/-- A delivered result gives the slot and the bus free. -/
theorem delivering (hc : c.Consistent) {r : Broadcast} (hr : c.bus.current = some r) :
    (c.delivering r).Consistent := by
  obtain ⟨s₀, n₀, e₀, hserve₀, -, -, hw⟩ := hc.delivering_completes hr
  have before : ∀ {k t}, (c.delivering r).stations.get? k = some t →
      k ≠ r.slot ∧ ∃ u, c.stations.get? k = some u ∧ t = u.wake r.tag r.result := by
    intro k t hk
    rw [get?_delivering] at hk
    split at hk
    · simp at hk
    · next hne =>
      obtain ⟨u, hu, rfl⟩ := Option.map_eq_some_iff.mp hk
      exact ⟨hne, u, hu, rfl⟩
  have freed : ∀ {h t}, h ≠ .bus → c.carries h = some t → t.slot ≠ r.slot :=
    fun hne ht hslot => hne (hc.holder_inj ht (i := .bus) hr hslot)
  refine ⟨?_, ?_, ?_, ?_, ?_, ?_, ?_⟩
  · intro k t hk
    obtain ⟨hne, u, hu, rfl⟩ := before hk
    obtain ⟨n, e, hserve, hrest⟩ := hc.serves hu
    exact ⟨n, e, (serves_delivering_iff hc hr).mpr ⟨hne, u, hserve, rfl⟩, hrest⟩
  · intro n e hn he
    rw [hw.nth?] at hn
    split at hn
    · obtain ⟨_, -, rfl⟩ := Option.map_eq_some_iff.mp hn
      simp at he
    · next hne =>
      obtain ⟨k, u, hu⟩ := hc.served hn he
      have hk : k ≠ r.slot := by
        rintro rfl
        exact hne (hu.inj hserve₀).2.1
      exact ⟨k, _, (serves_delivering_iff hc hr).mpr ⟨hk, u, hu, rfl⟩⟩
  · intro k j t u hk hj htag
    obtain ⟨-, t', ht', rfl⟩ := before hk
    obtain ⟨-, u', hu', rfl⟩ := before hj
    exact hc.slot_inj ht' hu' htag
  · intro h t ht
    obtain ⟨hne, ht⟩ := carries_delivering ht
    obtain ⟨s, hs, hrest⟩ := hc.running_of_carries ht
    refine ⟨s.wake r.tag r.result, ?_, hrest⟩
    rw [get?_delivering, if_neg (freed hne ht), hs]
    rfl
  · intro k t hk hrun
    obtain ⟨hne, u, hu, rfl⟩ := before hk
    obtain ⟨h, t, ht, hslot⟩ := hc.carries_of_running hu hrun
    cases h with
    | bus =>
      obtain rfl := Option.some.inj (hr.symm.trans ht)
      exact absurd hslot.symm hne
    | unit j => exact ⟨.unit j, t, ht, hslot⟩
  · intro h i t u ht hu hslot
    exact hc.holder_inj (carries_delivering ht).2 (carries_delivering hu).2 hslot
  · intro j o t ho ht
    obtain ⟨-, u, hu, rfl⟩ := before ht
    exact hc.own_unit (s := u) ho hu

/-! ### Retirement -/

/-- The oldest entry has its result, so that no station belongs to it when it leaves. -/
theorem serves_retiring_iff (hc : c.Consistent) {tag : Tag} {e₀ : Entry} {w : ReorderBuffer}
    (hw : c.window.Left tag e₀ w) : (c.retiring tag e₀ w).Serves k s n e ↔ c.Serves k s n e := by
  have hwindow := c.retiring_window tag e₀ w
  have hstations := c.retiring_stations tag e₀ w
  have hkept : ∀ {k s m f}, c.Serves k s m f → (c.retiring tag e₀ w).window.nth? m = some f := by
    intro k s m f hs
    rw [hwindow]
    exact (hw.kept hs.entry (hs.unready hc)).2
  constructor
  · intro hd
    refine hc.serves_before hd (hstations ▸ hd.station) rfl (fun m => ?_) hkept
    rw [hwindow, hw.place]
  · intro hs
    refine ⟨by rw [hstations, hs.station], hkept hs, ?_⟩
    rw [hwindow, hw.place, hs.tag]

theorem retiring (hc : c.Consistent) {tag : Tag} {e₀ : Entry} {w : ReorderBuffer}
    (hw : c.window.Left tag e₀ w) : (c.retiring tag e₀ w).Consistent := by
  refine hc.congr (fun hs => (serves_retiring_iff hc hw).mpr hs) (fun hn => ?_)
    (c.retiring_stations tag e₀ w) (fun k => ?_) (c.retiring_bus tag e₀ w)
  · rw [c.retiring_window tag e₀ w] at hn
    exact hw.before hn
  · rw [completion?, completion?, retiring_units]

end Consistent

/-- Every step keeps the structures in agreement. -/
theorem Consistent.step {s t : Snapshot} (h : Snapshot.Step s t) (hc : s.core.Consistent) :
    t.core.Consistent := by
  cases h with
  | count csrs arbiter cycle hcells =>
    exact hc.congr (fun hs => hs.congr rfl rfl) id rfl (fun _ => rfl) rfl
  | issue hpop hwindow hstations =>
    exact hc.issuing (ReorderBuffer.entered_of_allocate? hwindow) hstations
  | advance => exact hc.congr (fun hs => hs.congr rfl rfl) id rfl (completion?_advanceUnits _) rfl
  | publish hbus hdone => exact hc.publishing hbus (completion?_of_output? hdone)
  | start ht hfree hentry ha hb heffect =>
    exact hc.starting ht.get ht.waiting (by rw [completion?, hfree]; rfl)
  | deliver hbus => exact hc.delivering hbus
  | retire hcommit => exact hc.retiring (ReorderBuffer.left_of_commit? hcommit)

theorem consistent_new (st : CoreSettings) : (new st).Consistent := by
  have hwork : ∀ k, (new st).completion? k = none := by
    intro k
    cases k <;> rfl
  have hcarries : ∀ h, (new st).carries h = none := by
    intro h
    cases h with
    | unit k => rw [carries, hwork]; rfl
    | bus => rfl
  have hstations : ∀ k, (new st).stations.get? k = none := fun k => Stations.get?_empty _
  have hwindow : ∀ n, (new st).window.nth? n = none := ReorderBuffer.nth?_of_isEmpty rfl
  refine ⟨?_, ?_, ?_, ?_, ?_, ?_, ?_⟩
  · intro k s hk
    rw [hstations] at hk; cases hk
  · intro n e hn
    rw [hwindow] at hn; cases hn
  · intro k l s t hk
    rw [hstations] at hk; cases hk
  · intro h r hr
    rw [hcarries] at hr; cases hr
  · intro k s hk
    rw [hstations] at hk; cases hk
  · intro h i r t hr
    rw [hcarries] at hr; cases hr
  · intro k o s ho
    rw [hwork] at ho; cases ho

end Core

namespace Snapshot

variable {s : Snapshot} {slot : Slot} {t : Station} {e : Entry} {a b : Word}

/-- A station that may start belongs to an entry. -/
theorem Startable.exists_serves (h : s.Startable slot t e a b) (hc : s.core.Consistent) :
    ∃ n, s.core.Serves slot t n e := by
  obtain ⟨n, f, hserve, -⟩ := hc.serves h.eligible.get
  obtain rfl := Option.some.inj (hserve.get?_tag.symm.trans h.entry)
  exact ⟨n, hserve⟩

/-- What a visit to a station that may start leaves behind. -/
inductive Visit (s : Snapshot) (slot : Slot) (t : Station) : Core.Dispatched → Prop where
  /-- Its unit is busy. -/
  | stall (hbusy : (s.core.units.get t.unit).work ≠ none) :
      Visit s slot t { core := s.core, memory := s.memory, events := [.stall .unitBusy] }
  /-- It fails. -/
  | fail {e : Entry} {a b : Word} {fault : MemoryError} (h : s.Startable slot t e a b)
      (hfault : e.instruction.compute a b s.memory s.core.csrs = .error fault) :
      Visit s slot t
        { core := s.core, memory := s.memory
          events := s.core.sideEffects s.memory e.instruction a b, fault := some fault }
  /-- It starts. -/
  | start {e : Entry} {a b : Word} {x : Effect} (h : s.Startable slot t e a b)
      (hx : e.instruction.compute a b s.memory s.core.csrs = .ok x) :
      Visit s slot t
        { core := s.core.starting slot t x, memory := x.memory
          events := s.core.sideEffects s.memory e.instruction a b ++
            [.dispatch e.instruction (Core.completion slot t x)] }

/-- The contradictions that a visit checks for are not there. -/
theorem visit_of_eligible (hc : s.core.Consistent) (h : s.core.stations.Eligible slot t) :
    s.Visit slot t (s.core.dispatchAt s.memory slot) := by
  obtain ⟨n, e, hserve, -⟩ := hc.serves h.get
  obtain ⟨a, ha⟩ := h.operands .first
  obtain ⟨b, hb⟩ := h.operands .second
  rw [Core.dispatchAt, h.get]
  dsimp only
  split
  · next hbusy =>
    refine .stall fun hfree => ?_
    rw [FunctionalUnit.isBusy, hfree] at hbusy
    cases hbusy
  · next hidle =>
    have hfree : (s.core.units.get t.unit).work = none := by
      rwa [FunctionalUnit.isBusy, Bool.not_eq_true, Option.isSome_eq_false_iff,
        Option.isNone_iff_eq_none] at hidle
    have hstartable : s.Startable slot t e a b := ⟨h, hfree, hserve.get?_tag, ha, hb⟩
    have ha : t.src1.value? = some a := Operand.value?_eq_some_iff.mpr ha
    have hb : t.src2.value? = some b := Operand.value?_eq_some_iff.mpr hb
    rw [hserve.get?_tag, ha, hb]
    dsimp only
    rw [Core.start]
    cases hx : e.instruction.compute a b s.memory s.core.csrs with
    | error fault => exact .fail hstartable hx
    | ok x => exact .start hstartable hx

end Snapshot

namespace System.Reachable

variable {st : CoreSettings} {n : Nat} {m : Memory} {s : System}

theorem consistent (h : Reachable st n m s) : s.core.Consistent :=
  h.keeps (P := fun s => s.core.Consistent) (Core.consistent_new st) (fun _ _ hc => hc)
    fun hstep hc => hc.step hstep

end System.Reachable

end OutOfOrder
