import OutOfOrder.Core.Tick
import OutOfOrder.Instruction.Decode

/-!
# Histories of the core

A core lives with a queue and a memory. From outside, two things happen to the three of them: an
instruction is offered to the queue, and a cycle runs. A history is a list of these, in any order,
and leaves behind everything that happened on the way.

## Main definitions

* `System` — core, queue and memory, with the record of what happened
* `System.push`, `System.tick`, `System.Reachable` — how a system comes about
* `System.Later` — what may become of a system
-/

namespace OutOfOrder

/-- A core with its queue and memory, and what has happened to it. -/
structure System where
  core : Core
  queue : IssueQueue
  memory : Memory
  /-- The instructions that the queue has accepted, the first to come in front. -/
  accepted : List Instruction := []
  /-- The events of all cycles, in order. -/
  events : List Event := []
  /-- The faults that have ended cycles, in order. -/
  faults : List MemoryError := []

namespace System

/-- A system to which nothing has happened, with the given memory. -/
def new (s : CoreSettings) (queueSize : Nat) (m : Memory) : System :=
  { core := .new s, queue := .empty queueSize, memory := m }

/-- Offer an instruction to the queue, which refuses it if it is full. -/
def push (s : System) (i : Instruction) : System :=
  match s.queue.push? i with
  | none => s
  | some queue => { s with queue, accepted := s.accepted ++ [i] }

/-- Run one cycle. -/
def tick (s : System) : System :=
  let t := s.core.tick s.queue s.memory
  { s with
    core := t.core, queue := t.queue, memory := t.memory
    events := s.events ++ t.events
    faults := s.faults ++ t.fault.toList }

/-- The systems that come about from a new one by offering instructions, each of which comes out of
`decode`, and running cycles. -/
inductive Reachable (s : CoreSettings) (queueSize : Nat) (m : Memory) : System → Prop where
  | new : Reachable s queueSize m (new s queueSize m)
  | push {t : System} (h : Reachable s queueSize m t) {i : Instruction}
      (hi : decode i.word i.pc i.uuid = .ok i) : Reachable s queueSize m (t.push i)
  | tick {t : System} (h : Reachable s queueSize m t) : Reachable s queueSize m t.tick

/-- The systems that may become of a system: more instructions are offered, and more cycles run. -/
inductive Later (s : System) : System → Prop where
  | refl : Later s s
  | push {t : System} (h : Later s t) {i : Instruction}
      (hi : decode i.word i.pc i.uuid = .ok i) : Later s (t.push i)
  | tick {t : System} (h : Later s t) : Later s t.tick

/-- The instructions issued so far, in order. -/
def issued (s : System) : List Instruction := s.events.filterMap Event.issued?

/-- The instructions retired so far, in order. -/
def committed (s : System) : List Instruction := s.events.filterMap Event.committed?

end System

end OutOfOrder
