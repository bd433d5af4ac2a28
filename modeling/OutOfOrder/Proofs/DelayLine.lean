import OutOfOrder.FunctionalUnit
import Mathlib.Data.List.Forall2
import Mathlib.Data.List.Induction

/-!
# A functional unit is a one-place delay line

A unit is watched from outside through any history of operations: a log counts the cycles, and notes
when something was accepted and when something was handed out. What the unit does next follows from
the log alone. It accepts something exactly if all that went in has come out, and it offers what it
holds as soon as enough cycles have passed since that was accepted, for as long as nobody takes it.

So what goes in comes out in the same order, once, unaltered and not too early, and the unit never
holds more than the last of it.

## Main definitions

* `FunctionalUnit.Operation`, `performAll` — a history of operations
* `FunctionalUnit.Log`, `logged` — what can be seen of it from outside
* `FunctionalUnit.Delays` — what a delay line with one place does, by its log

## Main results

* `FunctionalUnit.fits_logged` — the countdown is what the log says is left
* `FunctionalUnit.output?_performAll` — what is offered is offered until it is taken
* `FunctionalUnit.delays_by_latency` — every unit is a delay line, after any history
-/

namespace OutOfOrder

namespace FunctionalUnit

/-! ### Histories -/

/-- What can be done to a functional unit. -/
inductive Operation where
  | start (c : Completion)
  | tick
  | clear
deriving DecidableEq, Repr

/-- The unit after an operation. One that is refused changes nothing. -/
def perform (u : FunctionalUnit) : Operation → FunctionalUnit
  | .start c => (u.start? c).getD u
  | .tick => u.tick
  | .clear => (u.clear?.map Prod.snd).getD u

/-- The unit after some operations. -/
def performAll (u : FunctionalUnit) (ops : List Operation) : FunctionalUnit := ops.foldl perform u

/-- A completion, and the number of cycles that had passed when it was seen. -/
structure Sighting where
  time : Nat
  completion : Completion
deriving DecidableEq, Repr

/-- What has been seen of a functional unit from outside. -/
structure Log where
  /-- How many cycles have passed. -/
  cycles : Nat := 0
  /-- What the unit has accepted. -/
  accepted : List Sighting := []
  /-- What the unit has handed out. -/
  returned : List Sighting := []
deriving DecidableEq, Repr

/-- The log with a note of what the unit `u` answers to an operation. -/
def Log.note (l : Log) (u : FunctionalUnit) : Operation → Log
  | .start c =>
    if (u.start? c).isSome then { l with accepted := l.accepted ++ [⟨l.cycles, c⟩] } else l
  | .tick => { l with cycles := l.cycles + 1 }
  | .clear =>
    match u.clear? with
    | none => l
    | some (c, _) => { l with returned := l.returned ++ [⟨l.cycles, c⟩] }

/-- A unit and its log after some operations. -/
def logged (u : FunctionalUnit) (ops : List Operation) : FunctionalUnit × Log :=
  ops.foldl (fun x op => (x.1.perform op, x.2.note x.1 op)) (u, {})

variable {u : FunctionalUnit} {l : Log} {c : Completion} {w : Work} {latency : Nat}
  {served : List Sighting} {op : Operation}

theorem logged_fst (u : FunctionalUnit) (ops : List Operation) :
    (u.logged ops).1 = u.performAll ops := by
  induction ops using List.reverseRecOn with
  | nil => rfl
  | append_singleton ops op ih =>
    rw [logged, performAll, List.foldl_concat, List.foldl_concat]
    exact congrArg (perform · op) ih

/-! ### One operation -/

theorem start?_of_work_none (h : u.work = none) (c : Completion) :
    u.start? c = some (u.begin c) := by
  simp [start?, isBusy, h]

theorem start?_of_work (h : u.work = some w) (c : Completion) : u.start? c = none := by
  simp [start?, isBusy, h]

/-- What is offered is kept in the unit by all operations but one. -/
theorem output?_perform (h : u.output? = some c) (hop : op ≠ .clear) :
    (u.perform op).output? = some c := by
  have hw := output?_eq_some_iff.mp h
  cases op with
  | start d => rwa [perform, start?_of_work hw]
  | tick => simp [output?_eq_some_iff, perform, tick, hw]
  | clear => exact absurd rfl hop

/-- **What is offered is offered until it is taken.** -/
theorem output?_performAll (h : u.output? = some c) (ops : List Operation)
    (hops : Operation.clear ∉ ops) : (u.performAll ops).output? = some c := by
  induction ops generalizing u with
  | nil => exact h
  | cons op ops ih =>
    rw [List.mem_cons, not_or] at hops
    exact ih (output?_perform h (Ne.symm hops.1)) hops.2

/-! ### The log fits the unit -/

/-- What was accepted is handed out unaltered, and not too early. -/
def Returns (latency : Nat) (a r : Sighting) : Prop :=
  r.completion = a.completion ∧ a.time + latency ≤ r.time

theorem map_completion_of_returns {returned : List Sighting}
    (h : List.Forall₂ (Returns latency) served returned) :
    returned.map Sighting.completion = served.map Sighting.completion := by
  induction h with
  | nil => rfl
  | cons hret _ ih => rw [List.map_cons, List.map_cons, ih, hret.1]

/-- The log fits the unit `u`: what was accepted has been handed out, but for what the unit holds,
and the countdown of the unit is the part of its latency that has not passed. -/
structure Log.Fits (l : Log) (u : FunctionalUnit) (latency : Nat) (served : List Sighting) :
    Prop where
  latency_eq : u.latency = latency
  returned : List.Forall₂ (Returns latency) served l.returned
  accepted :
    match u.work with
    | none => l.accepted = served
    | some w => ∃ t, t ≤ l.cycles ∧ l.accepted = served ++ [⟨t, w.completion⟩] ∧
        w.remaining = latency - (l.cycles - t)

/-- A unit that holds nothing has handed out all that went in. -/
theorem Log.Fits.of_work_none (h : l.Fits u latency served) (hw : u.work = none) :
    l.accepted = served ∧ l.accepted.length = l.returned.length := by
  have haccepted := h.accepted
  rw [hw] at haccepted
  exact ⟨haccepted, by rw [haccepted, h.returned.length_eq]⟩

/-- A unit that holds something has handed out all that went in before. -/
theorem Log.Fits.of_work (h : l.Fits u latency served) (hw : u.work = some w) :
    ∃ t, t ≤ l.cycles ∧ l.accepted = served ++ [⟨t, w.completion⟩] ∧
      w.remaining = latency - (l.cycles - t) ∧ l.accepted.length = l.returned.length + 1 ∧
      l.accepted[l.returned.length]? = some ⟨t, w.completion⟩ := by
  have haccepted := h.accepted
  rw [hw] at haccepted
  obtain ⟨t, ht, hsplit, hleft⟩ := haccepted
  have hlength := h.returned.length_eq
  refine ⟨t, ht, hsplit, hleft, ?_, ?_⟩
  · rw [hsplit, List.length_append, hlength, List.length_singleton]
  · rw [hsplit, ← hlength, List.getElem?_concat_length]

/-- What goes into a unit that holds nothing has its whole latency before it. -/
theorem Log.Fits.start (h : l.Fits u latency served) (c : Completion) :
    (l.note u (.start c)).Fits (u.perform (.start c)) latency served := by
  cases hw : u.work with
  | none =>
    have hstart := start?_of_work_none hw c
    refine ⟨?_, ?_, ?_⟩
    · rw [perform, hstart]
      exact h.latency_eq
    · simpa [note, hstart] using h.returned
    · rw [perform, hstart]
      refine ⟨l.cycles, ?_, ?_, ?_⟩
      · simp [note, hstart]
      · simp [note, hstart, (h.of_work_none hw).1]
      · simp [note, hstart, h.latency_eq]
  | some w => rwa [note, perform, start?_of_work hw]

/-- A cycle takes one off the countdown, unless it has run out. -/
theorem Log.Fits.tick (h : l.Fits u latency served) :
    (l.note u .tick).Fits (u.perform .tick) latency served := by
  refine ⟨h.latency_eq, h.returned, ?_⟩
  rw [perform, FunctionalUnit.tick]
  cases hw : u.work with
  | none => exact (h.of_work_none hw).1
  | some w =>
    obtain ⟨t, ht, hsplit, hleft, -⟩ := h.of_work hw
    refine ⟨t, Nat.le_succ_of_le ht, hsplit, ?_⟩
    simp only [note]
    omega

/-- What is taken out has been in for the whole latency. -/
theorem Log.Fits.clear (h : l.Fits u latency served) :
    ∃ served, (l.note u .clear).Fits (u.perform .clear) latency served := by
  cases hout : u.output? with
  | none =>
    have hclear : u.clear? = none := by rw [clear?, hout]; rfl
    exact ⟨served, by rwa [note, perform, hclear]⟩
  | some c =>
    have hclear : u.clear? = some (c, { u with work := none }) := by rw [clear?, hout]; rfl
    obtain ⟨t, ht, hsplit, hleft, -⟩ := h.of_work (output?_eq_some_iff.mp hout)
    have hlate : t + latency ≤ l.cycles := by
      simp only at hleft
      omega
    refine ⟨served ++ [⟨t, c⟩], ⟨?_, ?_, ?_⟩⟩
    · rw [perform, hclear]
      exact h.latency_eq
    · rw [note, hclear]
      exact List.rel_append h.returned (.cons ⟨rfl, hlate⟩ .nil)
    · rw [perform, note, hclear]
      exact hsplit

/-- **Log and unit fit each other** after any history. -/
theorem fits_logged (latency : Nat) (ops : List Operation) :
    ∃ served, ((idle latency).logged ops).2.Fits ((idle latency).logged ops).1 latency served := by
  induction ops using List.reverseRecOn with
  | nil => exact ⟨[], rfl, .nil, rfl⟩
  | append_singleton ops op ih =>
    obtain ⟨served, hfits⟩ := ih
    rw [logged, List.foldl_concat]
    cases op with
    | start c => exact ⟨served, hfits.start c⟩
    | tick => exact ⟨served, hfits.tick⟩
    | clear => exact hfits.clear

/-! ### The delay line -/

/-- What the unit holds, finished or not. -/
def held? (u : FunctionalUnit) : Option Completion := u.work.map Work.completion

/-- By its log the unit `u` is a delay line with one place. -/
structure Delays (latency : Nat) (u : FunctionalUnit) (l : Log) : Prop where
  /-- What has come out, and after it what is still held, is what went in. -/
  conserves :
    l.returned.map Sighting.completion ++ u.held?.toList = l.accepted.map Sighting.completion
  /-- Nothing has come out early. -/
  late : ∀ (k : Nat) (a r : Sighting),
    l.accepted[k]? = some a → l.returned[k]? = some r → Returns latency a r
  isBusy_iff : u.isBusy = true ↔ l.accepted.length = l.returned.length + 1
  /-- Something can go in exactly if nothing is held, -/
  isSome_start?_iff : ∀ c, (u.start? c).isSome = true ↔ u.held? = none
  /-- and nothing changes if it cannot. -/
  start?_eq_none : ∀ c, u.start? c = none → u.perform (.start c) = u
  /-- What is held is offered as soon as the latency has passed since it went in, -/
  output?_iff : ∀ c, u.output? = some c ↔
    ∃ t, l.accepted[l.returned.length]? = some ⟨t, c⟩ ∧ t + latency ≤ l.cycles
  isDone_iff : u.isDone = true ↔
    ∃ a, l.accepted[l.returned.length]? = some a ∧ a.time + latency ≤ l.cycles
  /-- and then until it is taken. -/
  keeps : ∀ c ops, u.output? = some c → Operation.clear ∉ ops →
    (u.performAll ops).output? = some c ∧ (u.performAll ops).isDone = true
  /-- What is offered can be taken, and then nothing is held; nothing else can be taken. -/
  clear?_eq : u.clear? = u.output?.map fun c => (c, idle latency)
  isSome_clear? : u.clear?.isSome = u.isDone

/-- What comes out is the first that went in and has not come out. -/
theorem Log.Fits.output?_iff (h : l.Fits u latency served) : u.output? = some c ↔
    ∃ t, l.accepted[l.returned.length]? = some ⟨t, c⟩ ∧ t + latency ≤ l.cycles := by
  rw [output?_eq_some_iff]
  cases hw : u.work with
  | none =>
    rw [List.getElem?_eq_none (Nat.le_of_eq (h.of_work_none hw).2)]
    simp
  | some w =>
    obtain ⟨t, ht, -, hleft, -, hget⟩ := h.of_work hw
    have hzero : w.remaining = 0 ↔ t + latency ≤ l.cycles := by omega
    rw [hget]
    constructor
    · intro hc
      obtain rfl := Option.some.inj hc
      exact ⟨t, rfl, hzero.mp rfl⟩
    · rintro ⟨t, heq, hle⟩
      obtain ⟨rfl, rfl⟩ := Sighting.mk.inj (Option.some.inj heq)
      rw [← hzero.mpr hle]

/-- What has come out is what went in at the same place of the order. -/
theorem Log.Fits.late (h : l.Fits u latency served) {k : Nat} {a r : Sighting}
    (ha : l.accepted[k]? = some a) (hr : l.returned[k]? = some r) : Returns latency a r := by
  obtain ⟨hlt, rfl⟩ := List.getElem?_eq_some_iff.mp hr
  have hk : k < served.length := by rwa [h.returned.length_eq]
  have hserved : served[k]? = some a := by
    cases hw : u.work with
    | none => rw [← (h.of_work_none hw).1, ha]
    | some w =>
      obtain ⟨t, -, hsplit, -⟩ := h.of_work hw
      rw [← ha, hsplit, List.getElem?_append_left hk]
  obtain ⟨-, rfl⟩ := List.getElem?_eq_some_iff.mp hserved
  exact (List.forall₂_iff_get.mp h.returned).2 k hk hlt

/-- A log that fits shows a delay line. -/
theorem Log.Fits.delays (h : l.Fits u latency served) : Delays latency u l where
  conserves := by
    rw [map_completion_of_returns h.returned, held?]
    cases hw : u.work with
    | none => simp [(h.of_work_none hw).1]
    | some w =>
      obtain ⟨t, -, hsplit, -⟩ := h.of_work hw
      simp [hsplit]
  late _ _ _ := h.late
  isBusy_iff := by
    cases hw : u.work with
    | none => simp [isBusy, hw, (h.of_work_none hw).2]
    | some w =>
      obtain ⟨t, -, -, -, hlength, -⟩ := h.of_work hw
      simp [isBusy, hw, hlength]
  isSome_start?_iff c := by
    rw [held?, Option.map_eq_none_iff]
    cases hw : u.work with
    | none => simp [start?_of_work_none hw]
    | some w => simp [start?_of_work hw]
  start?_eq_none c hc := by
    rw [perform, hc]
    rfl
  output?_iff _ := h.output?_iff
  isDone_iff := by
    rw [isDone, Option.isSome_iff_exists]
    constructor
    · rintro ⟨c, hc⟩
      obtain ⟨t, hget, hle⟩ := h.output?_iff.mp hc
      exact ⟨_, hget, hle⟩
    · rintro ⟨a, hget, hle⟩
      exact ⟨a.completion, h.output?_iff.mpr ⟨a.time, hget, hle⟩⟩
  keeps c ops hc hops := by
    have hkept := output?_performAll hc ops hops
    exact ⟨hkept, by rw [isDone, hkept]; rfl⟩
  clear?_eq := by rw [clear?, idle, ← h.latency_eq]
  isSome_clear? := by rw [clear?, Option.isSome_map, isDone]

/-- **A functional unit is a one-place delay line.** Whatever its latency is, zero included, and
after every history of operations: what has been taken out of the unit, with what it still holds, is
what went in, each once, unaltered and not before its time. Something goes in exactly if the unit is
free, and what it holds is offered from then on when its latency has passed until it is taken. -/
theorem delays_by_latency (latency : Nat) (ops : List Operation) :
    Delays latency ((idle latency).performAll ops) ((idle latency).logged ops).2 := by
  obtain ⟨served, hfits⟩ := fits_logged latency ops
  rw [logged_fst] at hfits
  exact hfits.delays

/-- What comes while the unit is busy is refused, what is asked for too early is not handed out, and
what is finished waits. -/
example (a b : Completion) :
    ((idle 2).logged
      [.start a, .tick, .start b, .clear, .tick, .tick, .clear, .start b, .clear]).2 =
      { cycles := 3, accepted := [⟨0, a⟩, ⟨3, b⟩], returned := [⟨3, a⟩] } := rfl

end FunctionalUnit

end OutOfOrder
