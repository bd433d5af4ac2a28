import OutOfOrder.Instruction.Text
import OutOfOrder.Proofs.Renaming
import OutOfOrder.Proofs.Ring

/-!
# The core with its checks

The core relies on its structures agreeing with one another: a station that may start has its
operands and an instruction, a unit that has been granted the bus has a result, the place that was
announced to an instruction is the place it gets. `Tables` is the core laid out in tables that are
looked up by number, and its cycle checks for all of this, and for every number that it looks up,
where it relies on it. A check that finds something ends the cycle with a `Breach`.

`Tables.tick` does in the same order what `Core.tick` does. It prints what a report or a listing of
the core would print, so that it also checks that everything in flight has a printed form.

## Main definitions

* `Tables`, `Core.tables` — the layout, and the tables of a core
* `Tables.issue`, `publish`, `visit`, `wakeUp`, `retire`, `tick` — the cycle with its checks
* `Action`, `Bench` — histories, and the tables with their queue and memory

## Main results

* `Core.tables_new` — the tables of a new core are those that are laid out for its settings
* `Core.tables_operand`, `tables_record`, `tables_write`, `tables_release`, `tables_settle` —
  looking up and writing registers and aliases never fails
-/

namespace OutOfOrder

/-- The number of a unit in the table of units. -/
def UnitKind.index : UnitKind → Nat
  | alu => 0
  | branch => 1
  | memory => 2
  | system => 3

/-! ### The tables -/

/-- The core, laid out in tables. -/
structure Tables where
  /-- The committed registers, from `x0` on. -/
  registers : List Word
  csrs : CsrFile
  /-- The youngest writers in flight, from `x0` on. -/
  aliases : List (Option Tag)
  window : Ring
  stations : Stations
  /-- The units, in the order of their numbers. -/
  units : List FunctionalUnit
  bus : Bus
  arbiter : Arbiter
  cycle : Nat
  retired : Nat
  halted : Bool
  redirect : Option Word

namespace Tables

/-- The tables of a core before its first instruction. -/
def new (s : CoreSettings) : Tables where
  registers := List.replicate 32 0
  csrs := .empty
  aliases := List.replicate 32 none
  window := { places := List.replicate s.windowSize.toNat none, head := 0, tail := 0, count := 0 }
  stations := .empty s.stationCount.toNat
  units :=
    [.idle s.aluLatency.toNat, .idle s.branchLatency.toNat, .idle s.memoryLatency.toNat,
      .idle s.systemLatency.toNat]
  bus := .empty
  arbiter := .new s.policy
  cycle := 0
  retired := 0
  halted := false
  redirect := none

/-! ### Printing -/

/-- Print an instruction. -/
def print (i : Instruction) : Except Breach Unit := insist (.unprintable i) i.text?.isSome

/-- Print every station with its instruction. -/
def printPool (t : Tables) : Except Breach Unit :=
  forM t.stations.toList fun s => do
    let e ← demand (.noInstruction s.2.tag) (t.window.get? s.2.tag)
    print e.instruction

/-- Print all entries of the window, and then every station. -/
def dump (t : Tables) : Except Breach Unit := do
  forM (← t.window.entries) fun e => print e.2.instruction
  t.printPool

/-! ### Issue -/

/-- How a source register is resolved. -/
def operand (t : Tables) (used : Bool) (r : Reg) : Except Breach Operand :=
  if used then do
    match ← lookup .aliases t.aliases r.toNat with
    | some tag => return ((t.window.readyValue? tag).map Operand.ready).getD (.pending tag)
    | none =>
      if r = 0#5 then return .ready 0
      else return .ready (← lookup .registers t.registers r.toNat)
  else return .ready 0

/-- The aliases once an instruction with the given tag has been issued. -/
def record (t : Tables) (i : Instruction) (tag : Tag) : Except Breach (List (Option Tag)) :=
  match i.dest with
  | some r =>
    if r = 0#5 then return t.aliases else store .aliases t.aliases r.toNat (some tag)
  | none => return t.aliases

/-- What an attempt to issue leaves behind. -/
structure Issued where
  tables : Tables
  queue : IssueQueue

/-- Issue the instruction in front of the queue, if there is one and there is room for it. -/
def issue (t : Tables) (q : IssueQueue) : Except Breach Issued :=
  if q.isEmpty || t.window.isFull || t.stations.isFull then return { tables := t, queue := q }
  else do
    let i ← demand .queueRefused q.front?
    let announced ← demand .windowRefused t.window.next?
    let src1 ← t.operand i.control.usesRs1 i.rs1
    let src2 ← t.operand i.control.usesRs2 i.rs2
    let (_, stations) ← demand .stationRefused
      (t.stations.allocate? { tag := announced, uuid := i.uuid, unit := i.unit, src1, src2 })
    let (front, queue) ← demand .queueRefused q.pop?
    let (tag, window) ← demand .windowRefused (← t.window.enter front)
    insist (.placeMoved announced tag) (tag == announced)
    let aliases ← t.record i announced
    let e ← demand (.noInstruction announced) (window.get? announced)
    print e.instruction
    let tables : Tables := { t with window, stations, aliases }
    tables.printPool
    return { tables, queue }

/-! ### Publication -/

/-- The finished units, in the order of their numbers. -/
def requests (t : Tables) : List Request :=
  (UnitKind.all.zip t.units).filterMap fun (k, u) =>
    u.output?.map fun o => { unit := k, uuid := o.uuid }

/-- Put the result of one finished unit on the bus, if the bus is free. -/
def publish (t : Tables) : Except Breach Tables :=
  if t.bus.isEmpty then
    match t.arbiter.grant t.requests with
    | none => return t
    | some (winner, arbiter) => do
      let unit ← lookup .units t.units winner.index
      let o ← demand (.defect (.grantWithoutResult winner)) unit.output?
      let bus ← demand .busRefused (t.bus.publish? o.broadcast)
      let (released, cleared) ← demand (.otherResult winner) unit.clear?
      insist (.otherResult winner) (released == o)
      let units ← store .units t.units winner.index cleared
      return { t with arbiter, units, bus }
  else return t

/-! ### Dispatch -/

/-- What dispatching leaves behind. -/
structure Dispatched where
  tables : Tables
  memory : Memory
  /-- The fault that ended the cycle. -/
  fault : Option MemoryError := none

/-- Visit the station in a slot. -/
def visit (t : Tables) (m : Memory) (slot : Slot) : Except Breach Dispatched := do
  let s ← demand (.defect (.startOfFreeStation slot)) (t.stations.get? slot)
  let a ← demand (.defect (.startWithoutOperand slot)) s.src1.value?
  let b ← demand (.defect (.startWithoutOperand slot)) s.src2.value?
  let unit ← lookup .units t.units s.unit.index
  if unit.isBusy then return { tables := t, memory := m }
  else
    let e ← demand (.defect (.startWithoutInstruction slot)) (t.window.get? s.tag)
    match e.instruction.compute a b m t.csrs with
    | .error fault => return { tables := t, memory := m, fault := some fault }
    | .ok x =>
      print e.instruction
      let started ← demand (.unitRefused s.unit) (unit.start? (Core.completion slot s x))
      let units ← store .units t.units s.unit.index started
      let stations ← demand (.startRefused slot) (t.stations.start? slot)
      return { tables := { t with csrs := x.csrs, units, stations }, memory := x.memory }

/-- Visit stations one after the other, until one of them fails. -/
def visitEach (t : Tables) (m : Memory) : List Slot → Except Breach Dispatched
  | [] => return { tables := t, memory := m }
  | slot :: slots => do
    let first ← t.visit m slot
    match first.fault with
    | some _ => return first
    | none => first.tables.visitEach first.memory slots

/-! ### Wake-up and retirement -/

/-- Deliver the result on the bus, if there is one. -/
def wakeUp (t : Tables) : Except Breach Tables :=
  match t.bus.peek? with
  | none => return t
  | some r => do
    let woken := t.stations.broadcast r.tag r.result
    let s ← demand (.defect (.broadcastFromElsewhere r.slot)) (woken.get? r.slot)
    insist (.defect (.broadcastFromElsewhere r.slot)) (s.tag == r.tag)
    let window ← demand (.defect (.broadcastToNobody r.tag)) (t.window.markReady? r.tag r.result)
    let tables : Tables :=
      { t with
        stations := woken.release r.slot, window, bus := .empty
        redirect := r.redirect.or t.redirect }
    tables.printPool
    return tables

/-- The registers with another value for one of them. -/
def write (t : Tables) (r : Reg) (value : Word) : Except Breach (List Word) :=
  if r = 0#5 then return t.registers else store .registers t.registers r.toNat value

/-- The aliases without a tag, if it is still the youngest writer of the register. -/
def release (t : Tables) (r : Reg) (tag : Tag) : Except Breach (List (Option Tag)) := do
  let youngest ← lookup .aliases t.aliases r.toNat
  if youngest = some tag then store .aliases t.aliases r.toNat none else return t.aliases

/-- The tables once the destination of an instruction has its result. -/
def settle (t : Tables) (i : Instruction) (tag : Tag) (result : Word) : Except Breach Tables :=
  match i.dest with
  | some r => do
    let registers ← t.write r result
    let aliases ← t.release r tag
    return { t with registers, aliases }
  | none => return t

/-- Retire the oldest instruction, if its result has arrived. -/
def retire (t : Tables) : Except Breach Tables := do
  match ← t.window.leave with
  | none => return t
  | some (tag, e, window) =>
    let settled ← t.settle e.instruction tag e.result
    let retired ← increment t.retired
    print e.instruction
    return { settled with window, retired, halted := t.halted || e.instruction.isExit }

/-! ### A cycle -/

/-- What a cycle leaves behind. -/
structure Tick where
  tables : Tables
  queue : IssueQueue
  memory : Memory
  /-- The fault that ended the cycle early. -/
  fault : Option MemoryError := none

/-- The tables at the beginning of a cycle: the counters show the cycles and retirements so far. -/
def beginCycle (t : Tables) : Tables := { t with csrs := t.csrs.withCounters t.cycle t.retired }

/-- Let one cycle pass in every unit. -/
def advanceUnits (t : Tables) : Tables := { t with units := t.units.map FunctionalUnit.tick }

/-- A cycle up to the end of dispatch, and the queue that it leaves behind. -/
def untilDispatch (t : Tables) (q : IssueQueue) (m : Memory) :
    Except Breach (IssueQueue × Dispatched) := do
  let issued ← t.beginCycle.issue q
  let published ← issued.tables.advanceUnits.publish
  let dispatched ← published.visitEach m published.stations.dispatchable
  return (issued.queue, dispatched)

/-- A cycle from dispatch on, if it counts. -/
def fromDispatch (t : Tables) : Except Breach Tables := do
  let woken ← t.wakeUp
  let retired ← woken.retire
  retired.dump
  let cycle ← increment retired.cycle
  return { retired with cycle }

/-- Run one cycle. -/
def tick (t : Tables) (q : IssueQueue) (m : Memory) : Except Breach Tick :=
  if t.halted then return { tables := t, queue := q, memory := m }
  else do
    let (queue, dispatched) ← t.untilDispatch q m
    match dispatched.fault with
    | some fault =>
      return { tables := dispatched.tables, queue, memory := dispatched.memory
               fault := some fault }
    | none =>
      let tables ← dispatched.tables.fromDispatch
      return { tables, queue, memory := dispatched.memory }

end Tables

/-! ### Histories -/

/-- What can be done from outside. -/
inductive Action where
  /-- Offer the instruction that a word decodes to, if it decodes to one. -/
  | offer (word pc : Word) (uuid : Nat)
  /-- Run a cycle. -/
  | cycle
deriving DecidableEq, Repr

namespace System

/-- Do one thing. -/
def perform (s : System) : Action → System
  | .offer word pc uuid => s.offer word pc uuid
  | .cycle => s.tick

/-- Do one thing after the other. -/
def performAll (s : System) (actions : List Action) : System := actions.foldl perform s

end System

/-- The tables with their queue and memory. -/
structure Bench where
  tables : Tables
  queue : IssueQueue
  memory : Memory
  /-- The faults that have ended cycles, in order. -/
  faults : List MemoryError := []

namespace Bench

/-- Tables to which nothing has happened, with the given memory. -/
def new (s : CoreSettings) (queueSize : Nat) (m : Memory) : Bench :=
  { tables := .new s, queue := .empty queueSize, memory := m }

/-- Do one thing. -/
def perform (b : Bench) : Action → Except Breach Bench
  | .offer word pc uuid =>
    match decode word pc uuid with
    | .ok i => return { b with queue := (b.queue.push? i).getD b.queue }
    | .error _ => return b
  | .cycle => do
    let t ← b.tables.tick b.queue b.memory
    return { tables := t.tables, queue := t.queue, memory := t.memory
             faults := b.faults ++ t.fault.toList }

/-- Do one thing after the other, until a check finds something. -/
def performAll (b : Bench) (actions : List Action) : Except Breach Bench :=
  actions.foldlM perform b

end Bench

/-! ### The tables of a core -/

namespace RegisterMap

variable {α : Type}

theorem getElem?_toList (m : RegisterMap α) (r : Reg) : m.toList[r.toNat]? = some (m.get r) := by
  simp [toList, get]

theorem length_toList (m : RegisterMap α) : m.toList.length = 32 := by simp [toList]

theorem toList_set (m : RegisterMap α) (r : Reg) (a : α) :
    (m.set r a).toList = m.toList.set r.toNat a := by
  rw [toList, set, toList, Vector.toList_set]

theorem lookup_toList (table : Table) (m : RegisterMap α) (r : Reg) :
    lookup table m.toList r.toNat = .ok (m.get r) :=
  lookup_of_getElem? (m.getElem?_toList r)

theorem store_toList (table : Table) (m : RegisterMap α) (r : Reg) (a : α) :
    store table m.toList r.toNat a = .ok (m.set r a).toList := by
  rw [store_of_lt (by rw [length_toList]; exact r.isLt), toList_set]

end RegisterMap

namespace Units

/-- The units in the order of their numbers. -/
def toList (us : Units) : List FunctionalUnit := UnitKind.all.map us.get

theorem lookup_toList (us : Units) (k : UnitKind) :
    lookup .units us.toList k.index = .ok (us.get k) := by
  cases k <;> rfl

theorem store_toList (us : Units) (k : UnitKind) (u : FunctionalUnit) :
    store .units us.toList k.index u = .ok (us.set k u).toList := by
  cases k <;> rfl

end Units

namespace Core

/-- The tables of a core. -/
def tables (c : Core) : Tables where
  registers := c.registers.toList
  csrs := c.csrs
  aliases := c.aliases.toList
  window := c.window.ring
  stations := c.stations
  units := c.units.toList
  bus := c.bus
  arbiter := c.arbiter
  cycle := c.cycle
  retired := c.retired
  halted := c.halted
  redirect := c.redirect

theorem tables_new (s : CoreSettings) : (new s).tables = .new s := by
  have hplaces : (new s).window.ring.places = List.replicate s.windowSize.toNat none := by
    refine List.eq_replicate_iff.mpr ⟨ReorderBuffer.length_places _, fun o ho => ?_⟩
    obtain ⟨tag, -, rfl⟩ := List.mem_map.mp ho
    rw [ReorderBuffer.get?]
    split
    · rfl
    · rfl
  have hwindow : (new s).window.ring = (Tables.new s).window := by
    rw [Ring.mk.injEq]
    exact ⟨hplaces, Nat.zero_mod _, Nat.zero_mod _, rfl⟩
  rw [tables, hwindow]
  rfl

theorem tables_operand (c : Core) (used : Bool) (r : Reg) :
    c.tables.operand used r = .ok (c.operand used r) := by
  rw [Tables.operand, operand]
  cases used with
  | false => rfl
  | true =>
    have halias : lookup .aliases c.tables.aliases r.toNat = .ok (c.aliases.get r) :=
      RegisterMap.lookup_toList _ _ r
    rw [if_pos rfl, if_pos rfl, halias, ok_bind]
    cases c.aliases.get r with
    | some tag =>
      have hvalue : c.tables.window.readyValue? tag = c.window.readyValue? tag :=
        c.window.ring_readyValue? tag
      dsimp only
      rw [hvalue]
      cases c.window.readyValue? tag <;> rfl
    | none =>
      have hread : lookup .registers c.tables.registers r.toNat = .ok (c.registers.values.get r) :=
        RegisterMap.lookup_toList _ _ r
      dsimp only
      rw [Registers.read]
      split
      · rfl
      · rw [hread]
        rfl

theorem tables_record (c : Core) (i : Instruction) (tag : Tag) :
    c.tables.record i tag = .ok (c.aliasesWith i tag).toList := by
  rw [Tables.record, aliasesWith]
  cases i.dest with
  | none => rfl
  | some r =>
    dsimp only
    rw [AliasTable.record]
    split
    · rfl
    · exact RegisterMap.store_toList _ _ r _

theorem tables_write (c : Core) (r : Reg) (value : Word) :
    c.tables.write r value = .ok (c.registers.write r value).toList := by
  rw [Tables.write, Registers.write]
  split
  · rfl
  · exact RegisterMap.store_toList _ _ r _

theorem tables_release (c : Core) (r : Reg) (tag : Tag) :
    c.tables.release r tag = .ok (c.aliases.release r tag).toList := by
  have halias : lookup .aliases c.tables.aliases r.toNat = .ok (c.aliases.get r) :=
    RegisterMap.lookup_toList _ _ r
  rw [Tables.release, halias, ok_bind, AliasTable.release]
  split
  · exact RegisterMap.store_toList _ _ r _
  · rfl

/-- The registers and aliases of a core are settled as they are when the instruction retires. -/
theorem tables_settle (c : Core) (tag : Tag) (e : Entry) (w : ReorderBuffer) :
    c.tables.settle e.instruction tag e.result = .ok
      { c with
        registers := (c.retiring tag e w).registers
        aliases := (c.retiring tag e w).aliases }.tables := by
  rw [registers_retiring, aliases_retiring, Tables.settle]
  cases e.instruction.dest with
  | none => rfl
  | some r =>
    dsimp only
    rw [tables_write, ok_bind, tables_release]
    rfl

end Core

end OutOfOrder
