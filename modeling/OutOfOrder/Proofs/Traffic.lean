import OutOfOrder.Proofs.Precision

/-!
# The traffic with memory

The memory unit makes its request to memory when an instruction starts, long before it retires and
in the middle of everything else that is going on. Seen from memory, none of this shows. The calls
that succeed are those of the sequential machine, in program order and each of them once; one that
fails is the one that the sequential machine would make next, and after it the core makes no other.
Accesses to the control and status registers are in order in the same way.

Both follow from how the frontier of a unit moves. Either it moves past nothing that concerns the
unit, and then nothing is reported that does; or it is the turn of an instruction, and the report of
that start is the only one.

## Main definitions

* `Call` — a request to memory with its answer
* `Sequential.calls` — the calls of the sequential machine
* `System.calls`, `System.csrAccesses` — those of a history of the core
* `Snapshot.Turn` — it is the turn of an instruction at its unit
* `Snapshot.Traffic` — the events so far are those of the sequential machine

## Main results

* `Snapshot.Reports.frontier` — how the frontier of a unit moves, and what is reported then
* `Snapshot.Traffic.report` — every step keeps the traffic in order
* `Snapshot.OnTrack.agrees_of_frontier` — memory and the control and status registers are what the
  traffic has made them
* `System.Reachable.accesses_in_order` — so it is in every history
* `System.Reachable.csrAccesses_prefix` — control and status registers are accessed in program order
  whatever they are, also the counters
-/

namespace OutOfOrder

namespace UnitKind

/-- The instructions of a list that the unit executes. -/
def among (u : UnitKind) (is : List Instruction) : List Instruction := is.filter fun i => i.unit = u

variable {u : UnitKind} {is js : List Instruction} {i : Instruction}

theorem among_append : u.among (is ++ js) = u.among is ++ u.among js := List.filter_append ..

theorem among_cons (u : UnitKind) (i : Instruction) (is : List Instruction) :
    u.among (i :: is) = u.among [i] ++ u.among is :=
  List.filter_append [i] is

theorem among_eq_nil (h : ∀ i ∈ is, i.unit ≠ u) : u.among is = [] :=
  List.filter_eq_nil_iff.mpr fun i hi => by simpa using h i hi

theorem among_singleton (h : i.unit = u) : u.among [i] = [i] :=
  List.filter_cons_of_pos (decide_eq_true h)

end UnitKind

/-! ### Calls -/

/-- A request to memory, made for an instruction, and the answer to it. -/
structure Call where
  instruction : Instruction
  request : Access
  answer : Except MemoryError Word
deriving Repr

/-- Has the request been carried out? -/
def Call.succeeds (c : Call) : Bool := c.answer.isOk

/-- Only one element can come next. -/
theorem prefix_snoc_inj {α : Type} {xs ys : List α} {a b : α} (ha : xs ++ [a] <+: ys)
    (hb : xs ++ [b] <+: ys) : a = b := by
  have hlength : (xs ++ [a]).length = (xs ++ [b]).length := by
    rw [List.length_append, List.length_append]
    rfl
  have h := (List.prefix_of_prefix_length_le ha hb (Nat.le_of_eq hlength)).eq_of_length hlength
  exact List.singleton_inj.mp (List.append_cancel_left h)

/-- Of some expected calls, those in `done` have been made, and after them only the next one may
have been made, and has failed each time. -/
structure Attempts (expected done again : List Call) : Prop where
  made : done <+: expected
  succeeds : ∀ c ∈ done, c.succeeds = true
  fails : ∀ c ∈ again, c.succeeds = false
  next : ∀ c ∈ again, done ++ [c] <+: expected

namespace Attempts

variable {expected done again : List Call} {c : Call}

theorem filter_succeeds (h : Attempts expected done again) :
    (done ++ again).filter Call.succeeds = done := by
  rw [List.filter_append, List.filter_eq_self.mpr h.succeeds,
    List.filter_eq_nil_iff.mpr fun c hc => by rw [h.fails c hc]; exact Bool.false_ne_true,
    List.append_nil]

/-- A call that fails is the next one. -/
theorem next_of_fails (h : Attempts expected done again) (hc : c ∈ done ++ again)
    (hfails : c.succeeds = false) : done ++ [c] <+: expected := by
  rcases List.mem_append.mp hc with hc | hc
  · rw [h.succeeds c hc] at hfails
    cases hfails
  · exact h.next c hc

/-- After a call that fails there is only the same call again. -/
theorem pairwise (h : Attempts expected done again) :
    (done ++ again).Pairwise fun c d => c.succeeds = false → d = c := by
  have hdone : ∀ c ∈ done, ∀ d, c.succeeds = false → d = c := by
    intro c hc d hfails
    rw [h.succeeds c hc] at hfails
    cases hfails
  refine List.pairwise_append.mpr ⟨?_, ?_, fun c hc d _ => hdone c hc d⟩
  · exact List.pairwise_of_forall_mem_list fun c hc d _ => hdone c hc d
  · exact List.pairwise_of_forall_mem_list fun c hc d hd _ =>
      prefix_snoc_inj (h.next d hd) (h.next c hc)

/-- If the next call succeeds, it has not failed before. -/
theorem succeed (h : Attempts expected done again) (hnext : done ++ [c] <+: expected)
    (hc : c.succeeds = true) : again = [] ∧ Attempts expected (done ++ [c]) [] := by
  refine ⟨List.eq_nil_iff_forall_not_mem.mpr fun d hd => ?_, hnext,
    List.forall_mem_append.mpr ⟨h.succeeds, List.forall_mem_singleton.mpr hc⟩,
    List.forall_mem_nil _, List.forall_mem_nil _⟩
  have hfails := h.fails d hd
  rw [prefix_snoc_inj (h.next d hd) hnext, hc] at hfails
  cases hfails

/-- The next call may fail any number of times. -/
theorem fail (h : Attempts expected done again) (hnext : done ++ [c] <+: expected)
    (hc : c.succeeds = false) : Attempts expected done (again ++ [c]) :=
  ⟨h.made, h.succeeds,
    List.forall_mem_append.mpr ⟨h.fails, List.forall_mem_singleton.mpr hc⟩,
    List.forall_mem_append.mpr ⟨h.next, List.forall_mem_singleton.mpr hnext⟩⟩

end Attempts

namespace Event

/-- The call that an event reports. -/
def call? : Event → Option Call
  | access instruction request answer => some { instruction, request, answer }
  | _ => none

/-- The instruction that an event says has accessed a control and status register. -/
def csrAccessed? : Event → Option Instruction
  | csrAccess i _ _ => some i
  | _ => none

/-- The unit whose effect an event reports. -/
def unit? : Event → Option UnitKind
  | access .. => some .memory
  | csrAccess .. => some .system
  | _ => none

variable {e : Event} {es : List Event}

theorem filterMap_call?_eq_nil (h : ∀ e ∈ es, e.unit? ≠ some .memory) :
    es.filterMap call? = [] := by
  refine List.filterMap_eq_nil_iff.mpr fun e he => ?_
  have := h e he
  cases e with
  | access => exact absurd rfl this
  | _ => rfl

theorem filterMap_csrAccessed?_eq_nil (h : ∀ e ∈ es, e.unit? ≠ some .system) :
    es.filterMap csrAccessed? = [] := by
  refine List.filterMap_eq_nil_iff.mpr fun e he => ?_
  have := h e he
  cases e with
  | csrAccess => exact absurd rfl this
  | _ => rfl

theorem unit?_of_isRemark (h : e.isRemark = true) : e.unit? = none := by
  cases e <;> first | rfl | cases h

end Event

/-! ### What the start of an instruction reports -/

namespace Core

variable {c : Core} {m : Memory} {i : Instruction} {a b : Word}

theorem unit?_of_mem_sideEffects {e : Event} (h : e ∈ c.sideEffects m i a b) :
    e.unit? = some i.unit := by
  rw [sideEffects] at h
  split at h
  · next hunit =>
    obtain rfl := List.mem_singleton.mp h
    exact congrArg some hunit.symm
  · next hunit =>
    obtain rfl := List.mem_singleton.mp h
    exact congrArg some hunit.symm
  · cases h

theorem sideEffects_of_memory (h : i.unit = .memory) : c.sideEffects m i a b =
    [.access i (i.access a b) ((m.perform (i.access a b)).map Prod.fst)] := by
  rw [sideEffects, h]

theorem sideEffects_of_system (h : i.unit = .system) : c.sideEffects m i a b =
    [.csrAccess i c.csrs.cycle c.csrs.instret] := by
  rw [sideEffects, h]

/-- The answer to a request says whether the load or store can be computed. -/
theorem isOk_answer {f : CsrFile} (h : i.unit = .memory) :
    ((m.perform (i.access a b)).map Prod.fst).isOk = (i.compute a b m f).isOk := by
  rw [Instruction.compute_of_unit_memory h]
  cases m.perform (i.access a b) <;> rfl

end Core

/-! ### The calls of the sequential machine -/

namespace Sequential

variable {s t : Sequential} {i : Instruction} {is js : List Instruction} {x : Effect}
  {fault : MemoryError} {n : Nat}

/-- The request of a load or store: the address is a register plus the immediate, the width is in
the function code, and what a store writes is in another register. -/
def request (s : Sequential) (i : Instruction) : Access :=
  if i.control.isStore then
    .write (s.registers.read i.rs1 + i.imm) i.width (s.registers.read i.rs2)
  else .read (s.registers.read i.rs1 + i.imm) i.width

/-- The call that a load or store makes. -/
def call (s : Sequential) (i : Instruction) : Call where
  instruction := i
  request := s.request i
  answer := (s.memory.perform (s.request i)).map Prod.fst

/-- The calls made in executing the instructions of a list one by one, up to the first that
fails. -/
def calls : Sequential → List Instruction → List Call
  | _, [] => []
  | s, i :: is =>
    (if i.unit = .memory then [s.call i] else []) ++
      match s.execute i with
      | .ok t => t.calls is
      | .error _ => []

/-- If all of a list is executed, its first instruction is executed, and then the rest. -/
theorem executeAll_cons_eq_ok (h : s.executeAll (i :: is) = .ok t) :
    ∃ u, s.execute i = .ok u ∧ u.executeAll is = .ok t := by
  rw [executeAll, List.foldlM_cons] at h
  cases hu : s.execute i with
  | error e => rw [hu] at h; cases h
  | ok u =>
    rw [hu] at h
    exact ⟨u, rfl, h⟩

theorem calls_cons_of_ok (h : s.execute i = .ok t) :
    s.calls (i :: is) = (if i.unit = .memory then [s.call i] else []) ++ t.calls is := by
  rw [calls, h]

/-- A load or store reads the registers that its request is made from. -/
theorem request_eq (hi : i.Decoded) (hunit : i.unit = .memory) :
    s.request i =
      i.access (s.operand i.control.usesRs1 i.rs1) (s.operand i.control.usesRs2 i.rs2) := by
  rw [request, Instruction.access, operand, if_pos (hi.usesRs1_of_unit hunit)]
  split
  · next hstore => rw [operand, if_pos (hi.usesRs2_of_isStore hstore)]
  · rfl

/-- A load or store fails if its request is refused. -/
theorem effect_eq_error_iff (hi : i.Decoded) (hunit : i.unit = .memory) :
    s.effect i = .error fault ↔ s.memory.perform (s.request i) = .error fault := by
  rw [effect, Instruction.compute_eq_error_iff, request_eq hi hunit]
  exact and_iff_right hunit

/-- The machine goes on where it has got to. -/
theorem calls_append (h : s.executeAll is = .ok t) :
    s.calls (is ++ js) = s.calls is ++ t.calls js := by
  induction is generalizing s with
  | nil =>
    obtain rfl := Except.ok.inj h
    rfl
  | cons i is ih =>
    obtain ⟨u, hu, hrest⟩ := executeAll_cons_eq_ok h
    rw [List.cons_append, calls_cons_of_ok hu, calls_cons_of_ok hu, ih hrest, List.append_assoc]

/-- The instructions that come later do not change the calls of the first ones. -/
theorem calls_take_prefix (s : Sequential) (is : List Instruction) (n : Nat) :
    s.calls (is.take n) <+: s.calls is := by
  induction is generalizing s n with
  | nil => simp
  | cons i is ih =>
    cases n with
    | zero => exact List.nil_prefix
    | succ n =>
      rw [List.take_succ_cons, calls, calls]
      refine (List.prefix_append_right_inj _).mpr ?_
      split
      · exact ih _ n
      · exact List.prefix_refl _

/-- Only loads and stores make calls. -/
theorem calls_of_forall_ne (h : ∀ i ∈ is, i.unit ≠ .memory) : s.calls is = [] := by
  induction is generalizing s with
  | nil => rfl
  | cons i is ih =>
    rw [calls, if_neg (h i List.mem_cons_self), List.nil_append]
    split
    · exact ih fun j hj => h j (List.mem_cons_of_mem i hj)
    · rfl

theorem map_instruction_call (s : Sequential) (i : Instruction) :
    (if i.unit = .memory then [s.call i] else []).map Call.instruction =
      UnitKind.memory.among [i] := by
  split
  · next hunit => rw [UnitKind.among_singleton hunit, List.map_singleton, call]
  · next hunit =>
    rw [UnitKind.among_eq_nil fun j hj => by rwa [List.mem_singleton.mp hj], List.map_nil]

/-- Each load or store makes one call, in program order. -/
theorem map_instruction_calls (s : Sequential) (is : List Instruction) :
    (s.calls is).map Call.instruction <+: UnitKind.memory.among is := by
  induction is generalizing s with
  | nil => exact List.nil_prefix
  | cons i is ih =>
    rw [calls, List.map_append, map_instruction_call, UnitKind.among_cons _ i is]
    refine (List.prefix_append_right_inj _).mpr ?_
    split
    · exact ih _
    · exact List.nil_prefix

/-- If nothing fails, none of them is left out. -/
theorem map_instruction_calls_of_ok (h : s.executeAll is = .ok t) :
    (s.calls is).map Call.instruction = UnitKind.memory.among is := by
  induction is generalizing s with
  | nil => rfl
  | cons i is ih =>
    obtain ⟨u, hu, hrest⟩ := executeAll_cons_eq_ok h
    rw [calls_cons_of_ok hu, List.map_append, map_instruction_call, ih hrest,
      UnitKind.among_cons _ i is]

/-- The call of the next instruction, if it is a load or store. -/
theorem calls_take_succ (h : s.executeAll (is.take n) = .ok (s.after is n)) (hi : is[n]? = some i)
    (hunit : i.unit = .memory) :
    s.calls (is.take (n + 1)) = s.calls (is.take n) ++ [(s.after is n).call i] := by
  rw [List.take_add_one, hi, Option.toList_some, calls_append h, calls, if_pos hunit]
  split <;> rfl

end Sequential

/-! ### Whose turn it is -/

section Stretch

variable {is : List Instruction} {u : UnitKind} {i : Instruction} {p q n : Nat}

/-- What stands between two places of a list. -/
theorem exists_take_eq_append (hpq : p ≤ q)
    (hskip : ∀ l i, p ≤ l → l < q → is[l]? = some i → i.unit ≠ u) :
    ∃ js, is.take q = is.take p ++ js ∧ ∀ i ∈ js, i.unit ≠ u := by
  refine ⟨(is.drop p).take (q - p), ?_, fun i hi => ?_⟩
  · rw [← List.take_add, Nat.add_sub_cancel' hpq]
  · obtain ⟨l, hl⟩ := List.mem_iff_getElem?.mp hi
    rw [List.getElem?_take, List.getElem?_drop] at hl
    split at hl
    · exact hskip (p + l) i (Nat.le_add_right p l) (by omega) hl
    · simp at hl

theorem among_take_of_skip (hpq : p ≤ q)
    (hskip : ∀ l i, p ≤ l → l < q → is[l]? = some i → i.unit ≠ u) :
    u.among (is.take q) = u.among (is.take p) := by
  obtain ⟨js, htake, hjs⟩ := exists_take_eq_append hpq hskip
  rw [htake, UnitKind.among_append, UnitKind.among_eq_nil hjs, List.append_nil]

theorem among_take_succ (hi : is[n]? = some i) (hu : i.unit = u) :
    u.among (is.take (n + 1)) = u.among (is.take n) ++ [i] := by
  rw [List.take_add_one, hi, Option.toList_some, UnitKind.among_append,
    UnitKind.among_singleton hu]

end Stretch

namespace Snapshot

/-- It is the turn of entry number `n` at unit `u`, which has come as far as number `p`: it may
start, and nothing for the unit stands between the two. -/
structure Turn (s : Snapshot) (is : List Instruction) (u : UnitKind) (p n : Nat) (slot : Slot)
    (t : Station) (e : Entry) (a b : Word) : Prop where
  startable : s.Startable slot t e a b
  serves : s.core.Serves slot t n e
  unit : e.instruction.unit = u
  le : p ≤ n
  skip : ∀ l i, p ≤ l → l < n → is[l]? = some i → i.unit ≠ u

/-- What a report says about an ordered unit which has come as far as number `p`. -/
inductive Moves (s : Snapshot) (is : List Instruction) (u : UnitKind) (p : Nat) (es : List Event)
    (t : Snapshot) : Prop where
  /-- Nothing that concerns the unit, whose frontier moves past other instructions if at all. -/
  | idle (q : Nat) (hfront : t.core.Frontier u q) (hle : p ≤ q)
      (hskip : ∀ l i, p ≤ l → l < q → is[l]? = some i → i.unit ≠ u)
      (hes : ∀ e ∈ es, e.unit? ≠ some u)
  /-- The instruction starts whose turn it is. -/
  | start {n : Nat} {slot : Slot} {st : Station} {e : Entry} {a b : Word} {x : Effect}
      (hturn : s.Turn is u p n slot st e a b)
      (hx : e.instruction.compute a b s.memory s.core.csrs = .ok x)
      (hfront : t.core.Frontier u (n + 1))
      (hes : es = s.core.sideEffects s.memory e.instruction a b ++
        [.dispatch e.instruction (Core.completion slot st x)])
  /-- The instruction fails whose turn it is. -/
  | fail {n : Nat} {slot : Slot} {st : Station} {e : Entry} {a b : Word} {fault : MemoryError}
      (hturn : s.Turn is u p n slot st e a b)
      (hfault : e.instruction.compute a b s.memory s.core.csrs = .error fault)
      (hfront : t.core.Frontier u p)
      (hes : es = s.core.sideEffects s.memory e.instruction a b)

variable {s t : Snapshot} {start : Sequential} {is : List Instruction} {es fs : List Event}
  {u : UnitKind} {k p : Nat}

theorem Moves.stay (hfront : t.core.Frontier u p) (hes : ∀ e ∈ es, e.unit? ≠ some u) :
    s.Moves is u p es t :=
  .idle p hfront (Nat.le_refl p) (fun _ _ hl hlt => absurd hl (Nat.not_le_of_lt hlt)) hes

/-- A station that may start belongs to some entry, and if this is one for an ordered unit, it is
its turn. -/
theorem Startable.turn {slot : Slot} {st : Station} {e : Entry} {a b : Word}
    (h : s.Startable slot st e a b) (hs : s.OnTrack start is k) (hnum : Numbered is)
    (hu : u.isOrdered = true) (hp : s.core.Frontier u p) :
    ∃ n, s.core.Serves slot st n e ∧ (e.instruction.unit = u → s.Turn is u p n slot st e a b) := by
  have hc := hs.sound.consistent
  obtain ⟨n, hserve⟩ := h.exists_serves hc
  refine ⟨n, hserve, fun hunit => ?_⟩
  obtain ⟨hle, hskip⟩ := hp.skips_nothing hc (Core.Precise.uuid_lt hs.follows hnum) h.eligible
    hserve ((hserve.describes hc).2.trans hunit) hu
  have hnext := Nat.le_of_lt (ReorderBuffer.bounds_of_nth? hserve.entry).2
  exact ⟨h, hserve, hunit, hle, hs.follows.forall_between hp.departed_le hnext hskip⟩

/-- How the frontier of an ordered unit moves, and what is reported then. -/
theorem Reports.frontier (h : s.Reports es t) (hs : s.OnTrack start is k) (hnum : Numbered is)
    (hu : u.isOrdered = true) (hp : s.core.Frontier u p) : s.Moves is u p es t := by
  have hc := hs.sound.consistent
  cases h with
  | remark hes =>
    refine .stay hp fun e he => ?_
    rw [Event.unit?_of_isRemark (hes e he)]
    nofun
  | count csrs arbiter cycle hcells => exact .stay (hp.congr rfl rfl) (List.forall_mem_nil _)
  | issue hpop hwindow hstations =>
    refine .stay (hp.issuing hc (ReorderBuffer.entered_of_allocate? hwindow) hstations)
      fun e he => ?_
    obtain rfl := List.mem_singleton.mp he
    nofun
  | advance => exact .stay (hp.congr rfl rfl) (List.forall_mem_nil _)
  | publish hbus hdone => exact .stay (hp.congr rfl rfl) (List.forall_mem_nil _)
  | @start slot st e a b x h hx =>
    obtain ⟨n, hserve, hturn⟩ := h.turn hs hnum hu hp
    by_cases hunit : e.instruction.unit = u
    · have hturn := hturn hunit
      refine .start hturn hx (hp.starting hc hserve hturn.le fun hpm hmn hm => ?_) rfl
      exact hturn.skip _ _ hpm hmn (hs.follows.entry hm)
    · refine .stay (hp.starting_of_ne hc hserve ?_) fun f hf => ?_
      · rw [(hserve.describes hc).2]
        exact hunit
      · rcases List.mem_append.mp hf with hf | hf
        · rw [Core.unit?_of_mem_sideEffects hf]
          exact fun heq => hunit (Option.some.inj heq)
        · obtain rfl := List.mem_singleton.mp hf
          nofun
  | @fail slot st e a b fault h hfault =>
    obtain ⟨n, -, hturn⟩ := h.turn hs hnum hu hp
    by_cases hunit : e.instruction.unit = u
    · exact .fail (hturn hunit) hfault hp rfl
    · refine .stay hp fun f hf => ?_
      rw [Core.unit?_of_mem_sideEffects hf]
      exact fun heq => hunit (Option.some.inj heq)
  | deliver hbus => exact .stay (hp.delivering hc hbus) (List.forall_mem_nil _)
  | @retire tag e window hcommit =>
    have hw := ReorderBuffer.left_of_commit? hcommit
    obtain ⟨hother, hfront⟩ := hp.retiring hc hw
    refine .idle _ hfront (Nat.le_max_left _ _) (fun l i hpl hlq hi => ?_) fun f hf => ?_
    · -- if the frontier moves at all, it moves past the instruction that leaves
      have hd := hp.departed_le
      obtain rfl : l = s.core.window.departed := by omega
      obtain rfl := Option.some.inj ((hs.follows.entry hw.oldest).symm.trans hi)
      exact hother (by omega)
    · obtain rfl := List.mem_singleton.mp hf
      nofun

/-! ### Traffic in order -/

/-- After the events `es`, everything has been done in the order of the program. -/
structure Traffic (start : Sequential) (is : List Instruction) (es : List Event) (s : Snapshot) :
    Prop where
  /-- The calls so far are those of the sequential machine up to the frontier of the memory unit,
  and perhaps attempts to make the next one. -/
  memory : ∃ p again, s.core.Frontier .memory p ∧
    Attempts (start.calls is) (start.calls (is.take p)) again ∧
    es.filterMap Event.call? = start.calls (is.take p) ++ again
  /-- The registers have been accessed by the instructions up to the frontier of the system unit. -/
  system : ∃ p, s.core.Frontier .system p ∧
    es.filterMap Event.csrAccessed? = UnitKind.system.among (is.take p)

/-- Before the frontier of the memory unit nothing fails, and behind it nothing does but loads and
stores. -/
theorem OnTrack.executeAll_of_skip {n : Nat} (hs : s.OnTrack start is k)
    (hfree : ∀ n, CounterFree is n) (hfront : s.core.Frontier .memory p)
    (hskip : ∀ l i, p ≤ l → l < n → is[l]? = some i → i.unit ≠ .memory) :
    start.executeAll (is.take n) = .ok (start.after is n) :=
  Sequential.executeAll_take fun l i hln hi =>
    hs.precise.effect_of_frontier hs.sound hs.follows hfront hi
      (fun hunit => Nat.lt_of_not_le fun hpl => hskip l i hpl hln hi hunit) (hfree (l + 1))

theorem OnTrack.calls_take_of_skip {n : Nat} (hs : s.OnTrack start is k)
    (hfree : ∀ n, CounterFree is n) (hfront : s.core.Frontier .memory p) (hpn : p ≤ n)
    (hskip : ∀ l i, p ≤ l → l < n → is[l]? = some i → i.unit ≠ .memory) :
    start.calls (is.take n) = start.calls (is.take p) := by
  obtain ⟨js, htake, hjs⟩ := exists_take_eq_append hpn hskip
  have hexec := hs.executeAll_of_skip hfree hfront fun l _ hpl hlp =>
    absurd hpl (Nat.not_le_of_lt hlp)
  rw [htake, Sequential.calls_append hexec, Sequential.calls_of_forall_ne hjs, List.append_nil]

/-- What an ordered unit works with is what the instructions up to its frontier have made it. -/
theorem OnTrack.agrees_of_frontier (hs : s.OnTrack start is k) (hfree : ∀ n, CounterFree is n)
    (hu : u.isOrdered = true) (hfront : s.core.Frontier u p) :
    (start.after is p).Agrees u s.memory s.core.csrs := by
  obtain ⟨q, hfront', hagree⟩ := hs.precise.ordered u hu
  -- there may be several frontiers, with nothing for the unit between them
  have hbetween : ∀ {l m : Nat}, s.core.Frontier u l → s.core.Frontier u m →
      ∀ j i, l ≤ j → j < m → is[j]? = some i → i.unit ≠ u :=
    fun hl hm => hs.follows.forall_between hl.departed_le hm.le_next (hl.unit_ne hm)
  rcases Nat.le_total p q with hpq | hqp
  · exact (Sequential.agrees_after_iff hpq (hbetween hfront hfront')).mp (hagree (hfree q))
  · exact (Sequential.agrees_after_iff hqp (hbetween hfront' hfront)).mpr (hagree (hfree q))

/-- Memory is what the calls up to the frontier of the memory unit have made it. -/
theorem OnTrack.memory_of_frontier (hs : s.OnTrack start is k) (hfree : ∀ n, CounterFree is n)
    (hfront : s.core.Frontier .memory p) : (start.after is p).memory = s.memory :=
  (hs.agrees_of_frontier hfree rfl hfront).symm

/-- The control and status registers are what the accesses up to the frontier of the system unit
have made them. -/
theorem OnTrack.csrs_of_frontier (hs : s.OnTrack start is k) (hfree : ∀ n, CounterFree is n)
    (hfront : s.core.Frontier .system p) {a : Csr} (ha : a.isCounter = false) :
    (start.after is p).csrs.read a = s.core.csrs.read a := by
  have hcells : s.core.csrs.cells = (start.after is p).csrs.cells :=
    hs.agrees_of_frontier hfree rfl hfront
  rw [CsrFile.read_of_not_isCounter _ ha, CsrFile.read_of_not_isCounter _ ha, hcells]

section Turn

variable {n : Nat} {slot : Slot} {st : Station} {e : Entry} {a b : Word}

/-- The call of the instruction whose turn it is, is the next one of the sequential machine. -/
theorem Turn.calls_succ (hturn : s.Turn is .memory p n slot st e a b) (hs : s.OnTrack start is k)
    (hfree : ∀ n, CounterFree is n) (hfront : s.core.Frontier .memory p) :
    start.calls (is.take (n + 1)) =
      start.calls (is.take p) ++ [(start.after is n).call e.instruction] := by
  rw [Sequential.calls_take_succ (hs.executeAll_of_skip hfree hfront hturn.skip)
    (hs.follows.entry hturn.serves.entry) hturn.unit,
    hs.calls_take_of_skip hfree hfront hturn.le hturn.skip]

/-- The request that it makes is that of the sequential machine, and finds the same memory. -/
theorem Turn.request_eq (hturn : s.Turn is .memory p n slot st e a b) (hs : s.OnTrack start is k)
    (hnum : Numbered is) (hfree : CounterFree is n) :
    (start.after is n).request e.instruction = e.instruction.access a b ∧
      (start.after is n).memory = s.memory := by
  have hserve := hturn.serves
  have hagree := hs.precise.agrees_of_eligible hs.sound hs.follows hnum hturn.startable.eligible
    hserve hfree
  rw [(hserve.describes hs.sound.consistent).2, hturn.unit] at hagree
  have ha := hs.precise.operand (x := .first) hserve hturn.startable.src1 hfree
  have hb := hs.precise.operand (x := .second) hserve hturn.startable.src2 hfree
  refine ⟨?_, hagree.symm⟩
  rw [Sequential.request_eq (hs.sound.decoded hserve.entry) hturn.unit, ha, hb]
  rfl

/-- It is the call that is reported. -/
theorem Turn.sideEffects_eq (hturn : s.Turn is .memory p n slot st e a b)
    (hs : s.OnTrack start is k) (hnum : Numbered is) (hfree : CounterFree is n) :
    s.core.sideEffects s.memory e.instruction a b =
      [.access e.instruction ((start.after is n).request e.instruction)
        ((start.after is n).call e.instruction).answer] := by
  obtain ⟨hrequest, hmemory⟩ := hturn.request_eq hs hnum hfree
  rw [Core.sideEffects_of_memory hturn.unit, Sequential.call, hrequest, hmemory]

theorem Turn.filterMap_call? (hturn : s.Turn is .memory p n slot st e a b)
    (hs : s.OnTrack start is k) (hnum : Numbered is) (hfree : CounterFree is n) :
    (s.core.sideEffects s.memory e.instruction a b).filterMap Event.call? =
      [(start.after is n).call e.instruction] := by
  rw [hturn.sideEffects_eq hs hnum hfree]
  rfl

/-- It succeeds if the instruction can be computed. -/
theorem Turn.succeeds_call (hturn : s.Turn is .memory p n slot st e a b)
    (hs : s.OnTrack start is k) (hnum : Numbered is) (hfree : CounterFree is n) :
    ((start.after is n).call e.instruction).succeeds =
      (e.instruction.compute a b s.memory s.core.csrs).isOk := by
  have hcall := hturn.filterMap_call? hs hnum hfree
  rw [Core.sideEffects_of_memory hturn.unit] at hcall
  rw [← List.singleton_inj.mp hcall]
  exact Core.isOk_answer hturn.unit

end Turn

namespace Traffic

/-- At the beginning nothing has been done. -/
theorem new (start : Sequential) (st : CoreSettings) (n : Nat) (m : Memory)
    (is : List Instruction) : Traffic start is [] ⟨.new st, .empty n, m⟩ := by
  have hfront : ∀ u, (Core.new st).Frontier u 0 := fun u =>
    ⟨Nat.le_refl 0, Nat.le_refl 0, fun {m e} hm => by
      rw [show (Core.new st).window.nth? m = none from ReorderBuffer.nth?_of_isEmpty rfl m] at hm
      simp at hm⟩
  exact ⟨⟨0, [], hfront _, ⟨List.nil_prefix, List.forall_mem_nil _, List.forall_mem_nil _,
    List.forall_mem_nil _⟩, rfl⟩, ⟨0, hfront _, rfl⟩⟩

/-- Every step keeps the calls in order. -/
theorem memory_report (h : s.Reports fs t) (hs : s.OnTrack start is k) (hnum : Numbered is)
    (hfree : ∀ n, CounterFree is n) (ht : s.Traffic start is es) :
    ∃ p again, t.core.Frontier .memory p ∧
      Attempts (start.calls is) (start.calls (is.take p)) again ∧
      (es ++ fs).filterMap Event.call? = start.calls (is.take p) ++ again := by
  obtain ⟨p, again, hfront, hattempts, hcalls⟩ := ht.memory
  rw [List.filterMap_append, hcalls]
  rcases h.frontier hs hnum rfl hfront with
    ⟨q, hfront', hle, hskip, hes⟩ | @⟨n, slot, st, e, a, b, x, hturn, hx, hfront', rfl⟩ |
      @⟨n, slot, st, e, a, b, fault, hturn, hfault, hfront', rfl⟩
  · refine ⟨q, again, hfront', ?_⟩
    rw [Event.filterMap_call?_eq_nil hes, List.append_nil,
      hs.calls_take_of_skip hfree hfront hle hskip]
    exact ⟨hattempts, rfl⟩
  · have hnext := hturn.calls_succ hs hfree hfront
    have hsucceeds := hturn.succeeds_call hs hnum (hfree n)
    rw [hx] at hsucceeds
    obtain ⟨rfl, hattempts'⟩ :=
      hattempts.succeed (hnext ▸ start.calls_take_prefix is (n + 1)) hsucceeds
    refine ⟨n + 1, [], hfront', ?_⟩
    rw [List.filterMap_append, hturn.filterMap_call? hs hnum (hfree n), hnext]
    exact ⟨hattempts', by simp [Event.call?]⟩
  · have hnext := hturn.calls_succ hs hfree hfront
    have hfails := hturn.succeeds_call hs hnum (hfree n)
    rw [hfault] at hfails
    refine ⟨p, _, hfront', hattempts.fail (hnext ▸ start.calls_take_prefix is (n + 1)) hfails, ?_⟩
    rw [hturn.filterMap_call? hs hnum (hfree n), List.append_assoc]

/-- Every step keeps the accesses to the control and status registers in order. -/
theorem system_report (h : s.Reports fs t) (hs : s.OnTrack start is k) (hnum : Numbered is)
    (ht : ∃ p, s.core.Frontier .system p ∧
      es.filterMap Event.csrAccessed? = UnitKind.system.among (is.take p)) :
    ∃ p, t.core.Frontier .system p ∧
      (es ++ fs).filterMap Event.csrAccessed? = UnitKind.system.among (is.take p) := by
  obtain ⟨p, hfront, haccesses⟩ := ht
  rw [List.filterMap_append, haccesses]
  rcases h.frontier hs hnum rfl hfront with
    ⟨q, hfront', hle, hskip, hes⟩ | @⟨n, slot, st, e, a, b, x, hturn, hx, hfront', rfl⟩ |
      @⟨n, slot, st, e, a, b, fault, hturn, hfault, hfront', rfl⟩
  · refine ⟨q, hfront', ?_⟩
    rw [Event.filterMap_csrAccessed?_eq_nil hes, List.append_nil, among_take_of_skip hle hskip]
  · refine ⟨n + 1, hfront', ?_⟩
    rw [among_take_succ (hs.follows.entry hturn.serves.entry) hturn.unit,
      among_take_of_skip hturn.le hturn.skip, Core.sideEffects_of_system hturn.unit]
    rfl
  · -- nothing fails in the system unit
    obtain ⟨x, hx⟩ := Instruction.exists_compute (a := a) (b := b) (m := s.memory)
      (f := s.core.csrs) (i := e.instruction) (by rw [hturn.unit]; nofun)
    rw [hx] at hfault
    cases hfault

/-- Every step keeps everything in order. -/
theorem report (h : s.Reports fs t) (hs : s.OnTrack start is k) (hnum : Numbered is)
    (hfree : ∀ n, CounterFree is n) (ht : s.Traffic start is es) :
    t.Traffic start is (es ++ fs) :=
  ⟨ht.memory_report h hs hnum hfree, system_report h hs hnum ht.system⟩

end Traffic

end Snapshot

/-! ### Histories -/

namespace System

/-- The calls that the core has made. -/
def calls (s : System) : List Call := s.events.filterMap Event.call?

/-- The instructions that have accessed a control and status register. -/
def csrAccesses (s : System) : List Instruction := s.events.filterMap Event.csrAccessed?

namespace Reachable

variable {st : CoreSettings} {n : Nat} {m : Memory} {s : System}

/-- The control and status registers are accessed in program order. -/
theorem csrAccesses_prefix (h : Reachable st n m s) (hnum : Numbered s.accepted) :
    s.csrAccesses <+: UnitKind.system.among s.accepted := by
  obtain ⟨-, p, -, haccesses⟩ := h.keeps_journal
    (P := fun k es t => t.OnTrack { memory := m } s.accepted k ∧
      ∃ p, t.core.Frontier .system p ∧
        es.filterMap Event.csrAccessed? = UnitKind.system.among (s.accepted.take p))
    (List.prefix_refl _)
    ⟨.new st n m 0 _, (Snapshot.Traffic.new { memory := m } st n m s.accepted).system⟩
    (fun hi hq hk ⟨hs, ht⟩ => ⟨hs.push hi hq hk, ht⟩)
    fun hr ⟨hs, ht⟩ => ⟨hs.report hnum hr, Snapshot.Traffic.system_report hr hs hnum ht⟩
  rw [csrAccesses, haccesses]
  exact (List.take_prefix p s.accepted).filter _

theorem traffic (h : Reachable st n m s) (hnum : Numbered s.accepted)
    (hfree : ∀ i ∈ s.accepted, i.touchesCounter = false) :
    s.snapshot.OnTrack { memory := m } s.accepted s.accepted.length ∧
      s.snapshot.Traffic { memory := m } s.accepted s.events :=
  h.keeps_journal
    (P := fun k es t => t.OnTrack { memory := m } s.accepted k ∧
      t.Traffic { memory := m } s.accepted es)
    (List.prefix_refl _) ⟨.new st n m 0 _, .new _ st n m _⟩
    (fun hi hq hk ⟨hs, ht⟩ => ⟨hs.push hi hq hk, ht.memory, ht.system⟩)
    fun hr ⟨hs, ht⟩ => ⟨hs.report hnum hr,
      ht.report hr hs hnum fun _ i hi => hfree i (List.mem_of_mem_take hi)⟩

/-- **Memory is accessed once for each load and store, and in program order.** The calls that
succeed are the first of those that the sequential machine makes, they have made memory what it is,
and everything that has retired has had its call. A call that fails is the next one of the
sequential machine, and after it there is only the same call again. The control and status registers
are accessed once by each instruction, and in program order, as well, and the accesses have made
them what they are. The accesses may have got further than the calls; a load or store that fails is
then passed over. -/
theorem accesses_in_order (h : Reachable st n m s)
    (hnum : s.accepted.Pairwise fun i j => i.uuid < j.uuid)
    (hfree : ∀ i ∈ s.accepted, i.touchesCounter = false) :
    let start : Sequential := { memory := m }
    let done := s.calls.filter Call.succeeds
    (∃ p t, start.executeAll (s.accepted.take p) = .ok t ∧ t.memory = s.memory ∧
      done = start.calls (s.accepted.take p)) ∧
    done <+: start.calls s.accepted ∧
    done.map Call.instruction <+: UnitKind.memory.among s.accepted ∧
    UnitKind.memory.among s.committed <+: done.map Call.instruction ∧
    (∀ c ∈ s.calls, c.succeeds = false → done ++ [c] <+: start.calls s.accepted) ∧
    s.calls.Pairwise (fun c d => c.succeeds = false → d = c) ∧
    (∃ q, s.csrAccesses = UnitKind.system.among (s.accepted.take q) ∧
      ∀ a : Csr, a.isCounter = false →
        (start.after s.accepted q).csrs.read a = s.core.csrs.read a) ∧
    s.csrAccesses <+: UnitKind.system.among s.accepted ∧
    UnitKind.system.among s.committed <+: s.csrAccesses := by
  intro start done
  obtain ⟨hs, ⟨p, again, hfront, hattempts, hcalls⟩, ⟨q, hfront', haccesses⟩⟩ :=
    h.traffic hnum hfree
  have hfree' : ∀ n, CounterFree s.accepted n := fun _ i hi => hfree i (List.mem_of_mem_take hi)
  have hexec := hs.executeAll_of_skip hfree' hfront fun l _ hpl hlp =>
    absurd hpl (Nat.not_le_of_lt hlp)
  have hcalls : s.calls = start.calls (s.accepted.take p) ++ again := hcalls
  have hdone : done = start.calls (s.accepted.take p) := by
    rw [show done = s.calls.filter Call.succeeds from rfl, hcalls, hattempts.filter_succeeds]
  have hinstructions : done.map Call.instruction = UnitKind.memory.among (s.accepted.take p) := by
    rw [hdone, Sequential.map_instruction_calls_of_ok hexec]
  have haccesses : s.csrAccesses = UnitKind.system.among (s.accepted.take q) := haccesses
  -- no unit is behind what has retired
  have hlower : ∀ {u : UnitKind} {l : Nat}, s.snapshot.core.Frontier u l →
      u.among s.committed <+: u.among (s.accepted.take l) := fun hl => by
    rw [h.committed_eq hnum]
    exact (List.take_prefix_take_left hl.departed_le).filter _
  refine ⟨⟨p, _, hexec, hs.memory_of_frontier hfree' hfront, hdone⟩, ?_, ?_, ?_, ?_, ?_,
    ⟨q, haccesses, fun _ => hs.csrs_of_frontier hfree' hfront'⟩, ?_, ?_⟩
  · rw [hdone]
    exact hattempts.made
  · rw [hdone]
    exact (hattempts.made.map Call.instruction).trans (start.map_instruction_calls s.accepted)
  · rw [hinstructions]
    exact hlower hfront
  · rw [hcalls, hdone]
    exact fun c hc hfails => hattempts.next_of_fails hc hfails
  · rw [hcalls]
    exact hattempts.pairwise
  · rw [haccesses]
    exact (List.take_prefix q s.accepted).filter _
  · rw [haccesses]
    exact hlower hfront'

/-- A store is carried out; a load that is not aligned is refused twice, and meanwhile a control and
status register has been accessed. -/
theorem accesses_in_order_refused :
    let s := ((((System.new {} 4 (.empty 0 16)).offer 0x00102023 0 0).offer 0x00102083 4 1).offer
      0x3001D2F3 8 2).tick.tick.tick.tick.tick
    s.calls.map Call.succeeds = [true, false, false] ∧ s.csrAccesses.length = 1 ∧
      s.calls.filter Call.succeeds <+: ({ memory := .empty 0 16 } : Sequential).calls s.accepted ∧
      s.calls.Pairwise fun c d => c.succeeds = false → d = c := by
  intro s
  have h : Reachable {} 4 (.empty 0 16) s :=
    (((Reachable.new.offer 0x00102023 0 0).offer 0x00102083 4 1).offer
      0x3001D2F3 8 2).tick.tick.tick.tick.tick
  obtain ⟨-, hdone, -, -, -, hagain, -⟩ := accesses_in_order h (by decide) (by decide)
  exact ⟨rfl, rfl, hdone, hagain⟩

end Reachable

end System

end OutOfOrder
