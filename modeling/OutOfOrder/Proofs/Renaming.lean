import OutOfOrder.Proofs.Occupancy

/-!
# Who waits for whom

An operand that is not known yet is a tag, and a tag is a place that many instructions take one
after the other. `Core.Renamed` says whom the tag means: the youngest writer of the source register
that is older than the instruction itself. The alias table has the same for an instruction that
would enter next. Both survive every step, since a writer that is waited for has no result yet and
therefore cannot leave, and its result reaches everybody who waits when it arrives.

## Main definitions

* `ReorderBuffer.Writes`, `LastWriter` — who writes a register, and who does so last before a number
* `Core.Renamed` — the alias table and all pending operands mean last writers
* `Snapshot.Sound` — everything so far that holds at any moment

## Main results

* `Snapshot.Sound.step`, `System.Reachable.sound` — it always holds
* `System.Reachable.lastWriter_of_pending` — no pending operand dangles, and none means a wrong
  instruction
* `System.Reachable.alias_youngest` — the alias table always names the youngest writers in flight
-/

namespace OutOfOrder

/-! ### Writers -/

namespace ReorderBuffer

variable {b c : ReorderBuffer} {l m n p : Nat} {e : Entry} {tag : Tag} {r : Reg} {i : Instruction}

/-- Entry number `n` writes register `r`. -/
def Writes (b : ReorderBuffer) (n : Nat) (r : Reg) : Prop :=
  ∃ e, b.nth? n = some e ∧ e.instruction.dest = some r

/-- Entry number `n` is the last one before number `p` that writes register `r`. -/
structure LastWriter (b : ReorderBuffer) (p : Nat) (r : Reg) (n : Nat) : Prop where
  lt : n < p
  writes : b.Writes n r
  between : ∀ l, n < l → l < p → ¬b.Writes l r

theorem LastWriter.unique (hm : b.LastWriter p r m) (hn : b.LastWriter p r n) : m = n := by
  rcases Nat.lt_trichotomy m n with h | h | h
  · exact absurd hn.writes (hm.between n h hn.lt)
  · exact h
  · exact absurd hm.writes (hn.between m h hm.lt)

/-- If anybody before number `p` writes a register, somebody is the last to do so. -/
theorem exists_lastWriter (h : b.Writes m r) (hm : m < p) : ∃ n, b.LastWriter p r n := by
  induction p with
  | zero => exact absurd hm (Nat.not_lt_zero m)
  | succ p ih =>
    by_cases hp : b.Writes p r
    · exact ⟨p, Nat.lt_succ_self p, hp, fun l hpl hlp => by omega⟩
    · have hmp : m ≠ p := by
        rintro rfl
        exact hp h
      obtain ⟨n, hn⟩ := ih (by omega)
      refine ⟨n, Nat.lt_succ_of_lt hn.lt, hn.writes, fun l hnl hlp => ?_⟩
      rcases Nat.lt_succ_iff_lt_or_eq.mp hlp with hlt | rfl
      · exact hn.between l hnl hlt
      · exact hp

theorem LastWriter.congr (h : ∀ l, l < p → (c.Writes l r ↔ b.Writes l r)) :
    c.LastWriter p r n ↔ b.LastWriter p r n := by
  constructor
  · intro hc
    refine ⟨hc.lt, (h n hc.lt).mp hc.writes, fun l hnl hlp hl => ?_⟩
    exact hc.between l hnl hlp ((h l hlp).mpr hl)
  · intro hb
    refine ⟨hb.lt, (h n hb.lt).mpr hb.writes, fun l hnl hlp hl => ?_⟩
    exact hb.between l hnl hlp ((h l hlp).mp hl)

theorem Entered.writes_iff (h : b.Entered i tag c) :
    c.Writes n r ↔ n = b.next ∧ i.dest = some r ∨ b.Writes n r := by
  rw [Writes, Writes, h.nth?]
  constructor
  · rintro ⟨e, he, hdest⟩
    split at he
    · next hn =>
      obtain rfl := Option.some.inj he
      exact .inl ⟨hn, hdest⟩
    · exact .inr ⟨e, he, hdest⟩
  · rintro (⟨rfl, hdest⟩ | ⟨e, he, hdest⟩)
    · exact ⟨_, if_pos rfl, hdest⟩
    · have hne := Nat.ne_of_lt (bounds_of_nth? he).2
      exact ⟨e, (if_neg hne).trans he, hdest⟩

/-- What is before the new entry does not see it. -/
theorem Entered.lastWriter_iff (h : b.Entered i tag c) (hp : p ≤ b.next) :
    c.LastWriter p r n ↔ b.LastWriter p r n := by
  refine LastWriter.congr fun l hl => ?_
  rw [h.writes_iff]
  constructor
  · rintro (⟨rfl, -⟩ | hw)
    · omega
    · exact hw
  · exact .inr

/-- After a new entry, the last writer is that entry or the one from before. -/
theorem Entered.lastWriter_next_iff (h : b.Entered i tag c) :
    c.LastWriter c.next r n ↔
      n = b.next ∧ i.dest = some r ∨ i.dest ≠ some r ∧ b.LastWriter b.next r n := by
  rw [h.next]
  constructor
  · intro hl
    by_cases hdest : i.dest = some r
    · refine .inl ⟨?_, hdest⟩
      have hnew : c.Writes b.next r := h.writes_iff.mpr (.inl ⟨rfl, hdest⟩)
      by_contra hne
      exact hl.between b.next (by have := hl.lt; omega) (by omega) hnew
    · have hn : b.Writes n r := by
        rcases h.writes_iff.mp hl.writes with ⟨-, hd⟩ | hw
        · exact absurd hd hdest
        · exact hw
      obtain ⟨e, he, -⟩ := id hn
      refine .inr ⟨hdest, (bounds_of_nth? he).2, hn, fun l hnl hlp hw => ?_⟩
      exact hl.between l hnl (by omega) (h.writes_iff.mpr (.inr hw))
  · rintro (⟨rfl, hdest⟩ | ⟨hdest, hl⟩)
    · exact ⟨by omega, h.writes_iff.mpr (.inl ⟨rfl, hdest⟩), fun l hnl hlp => by omega⟩
    · refine ⟨by have := hl.lt; omega, h.writes_iff.mpr (.inr hl.writes), fun l hnl hlp hw => ?_⟩
      rcases h.writes_iff.mp hw with ⟨-, hd⟩ | hw
      · exact hdest hd
      · obtain ⟨e, he, -⟩ := id hw
        exact hl.between l hnl (bounds_of_nth? he).2 hw

theorem Completed.lastWriter_iff {k : Nat} {v : Word} (h : b.Completed k v c) :
    c.LastWriter p r n ↔ b.LastWriter p r n := by
  refine LastWriter.congr fun l _ => ?_
  rw [Writes, Writes, h.nth?]
  by_cases hl : l = k
  · subst hl
    rw [if_pos rfl]
    simp only [Option.map_eq_some_iff]
    constructor
    · rintro ⟨_, ⟨e, he, rfl⟩, hdest⟩
      exact ⟨e, he, hdest⟩
    · rintro ⟨e, he, hdest⟩
      exact ⟨_, ⟨e, he, rfl⟩, hdest⟩
  · rw [if_neg hl]

theorem Left.writes_iff (h : b.Left tag e c) :
    c.Writes n r ↔ n ≠ b.departed ∧ b.Writes n r := by
  rw [Writes, Writes, h.nth?]
  by_cases hn : n = b.departed
  · rw [if_pos hn]
    constructor
    · rintro ⟨_, hf, -⟩
      simp at hf
    · intro hw
      exact absurd hn hw.1
  · rw [if_neg hn]
    exact ⟨fun hw => ⟨hn, hw⟩, fun hw => hw.2⟩

/-- When the oldest entry leaves, it ceases to be the last writer of its register. -/
theorem Left.lastWriter_iff (h : b.Left tag e c) :
    c.LastWriter p r n ↔ n ≠ b.departed ∧ b.LastWriter p r n := by
  constructor
  · intro hl
    obtain ⟨hn, hw⟩ := h.writes_iff.mp hl.writes
    obtain ⟨f, hf, -⟩ := id hw
    have hb := bounds_of_nth? hf
    refine ⟨hn, hl.lt, hw, fun l hnl hlp hw => ?_⟩
    exact hl.between l hnl hlp (h.writes_iff.mpr ⟨by omega, hw⟩)
  · rintro ⟨hn, hl⟩
    exact ⟨hl.lt, h.writes_iff.mpr ⟨hn, hl.writes⟩,
      fun l hnl hlp hw => hl.between l hnl hlp (h.writes_iff.mp hw).2⟩

end ReorderBuffer

/-! ### Operands -/

namespace Core

variable {c d : Core} {k l : Slot} {s t : Station} {m n : Nat} {e f : Entry} {r : Reg} {tag : Tag}

theorem operand_stationFor (c : Core) (i : Instruction) (tag : Tag) (x : Source) :
    (c.stationFor i tag).operand x = c.operand (i.uses x) (i.source x) := by
  cases x <;> rfl

theorem operand_eq_pending_iff {used : Bool} :
    c.operand used r = .pending tag ↔
      used = true ∧ c.aliases.get r = some tag ∧ c.window.readyValue? tag = none := by
  rw [operand]
  cases used with
  | false => simp
  | true =>
    cases halias : c.aliases.get r with
    | none => simp
    | some tag' => cases hvalue : c.window.readyValue? tag' <;> simp <;> grind

/-- An instruction becomes the youngest writer of its destination. -/
theorem get_aliasesWith {i : Instruction} (hi : i.dest ≠ some 0) (r : Reg) :
    (c.aliasesWith i tag).get r = if i.dest = some r then some tag else c.aliases.get r := by
  rw [aliasesWith]
  cases hdest : i.dest with
  | none => rfl
  | some r' =>
    have hne : r' ≠ 0 := fun h => hi (h ▸ hdest)
    dsimp only
    rw [AliasTable.get_record]
    by_cases heq : r' = r
    · rw [if_pos ⟨heq, hne⟩, if_pos (by rw [heq])]
    · rw [if_neg (fun h => heq h.1), if_neg (fun h => heq (Option.some.inj h))]

/-- A start changes no operand. -/
theorem Consistent.operand_starting (hc : c.Consistent) {x : Effect}
    (hs : c.stations.get? l = some s) (ht : (c.starting l s x).Serves k t n e) :
    ∃ u, c.Serves k u n e ∧ ∀ y, t.operand y = u.operand y := by
  obtain ⟨u, hu, rfl⟩ := (hc.serves_starting_iff hs).mp ht
  refine ⟨u, hu, fun y => ?_⟩
  split
  · cases y <;> rfl
  · rfl

/-- The alias table and all pending operands mean last writers. -/
structure Renamed (c : Core) : Prop where
  /-- An alias is the place of the last writer of all. -/
  alias_iff : ∀ {r tag}, c.aliases.get r = some tag ↔
    ∃ n, c.window.LastWriter c.window.next r n ∧ c.window.place n = tag
  /-- A pending operand is in use, and is the place of the last writer before its own instruction,
  which has no result yet. -/
  pending : ∀ {k s n e x tag}, c.Serves k s n e → s.operand x = .pending tag →
    e.instruction.uses x = true ∧ ∃ m f, c.window.LastWriter n (e.instruction.source x) m ∧
      c.window.nth? m = some f ∧ f.ready = false ∧ c.window.place m = tag

namespace Renamed

/-- Nothing but the window, the stations and the alias table matters. -/
theorem congr (hr : c.Renamed) (hwindow : d.window = c.window) (hstations : d.stations = c.stations)
    (haliases : d.aliases = c.aliases) : d.Renamed := by
  refine ⟨?_, ?_⟩
  · intro r tag
    rw [haliases, hwindow]
    exact hr.alias_iff
  · intro k s n e x tag hs hx
    rw [hwindow]
    exact hr.pending (hs.congr hwindow.symm hstations.symm) hx

/-- The alias of a register is the tag of the last entry in the window that writes it. -/
theorem alias_iff_toList (hr : c.Renamed) : c.aliases.get r = some tag ↔
    ∃ i p, c.window.toList[i]? = some (tag, p) ∧ p.instruction.dest = some r ∧
      ∀ (j : Nat) (u : Tag × Entry), i < j → c.window.toList[j]? = some u →
        u.2.instruction.dest ≠ some r := by
  rw [hr.alias_iff]
  constructor
  · rintro ⟨m, hlast, rfl⟩
    obtain ⟨p, hp, hdest⟩ := hlast.writes
    obtain ⟨i, rfl, hi⟩ := ReorderBuffer.exists_getElem?_toList hp
    refine ⟨i, p, hi, hdest, fun j u hij hu hwrites => ?_⟩
    obtain ⟨hentry, -⟩ := ReorderBuffer.nth?_of_toList hu
    exact hlast.between _ (Nat.add_lt_add_left hij _) (ReorderBuffer.bounds_of_nth? hentry).2
      ⟨_, hentry, hwrites⟩
  · rintro ⟨i, p, hi, hdest, hyounger⟩
    obtain ⟨hentry, hplace⟩ := ReorderBuffer.nth?_of_toList hi
    refine ⟨_, ⟨(ReorderBuffer.bounds_of_nth? hentry).2, ⟨p, hentry, hdest⟩, ?_⟩, hplace⟩
    rintro l hil - ⟨q, hq, hwrites⟩
    obtain ⟨j, rfl, hj⟩ := ReorderBuffer.exists_getElem?_toList hq
    exact hyounger j _ (Nat.lt_of_add_lt_add_left hil) hj hwrites

/-- A register without an alias is one that no entry writes. -/
theorem alias_eq_none_iff (hr : c.Renamed) : c.aliases.get r = none ↔
    ∀ u ∈ c.window.toList, u.2.instruction.dest ≠ some r := by
  constructor
  · intro hnone u hu hdest
    obtain ⟨i, hi⟩ := List.mem_iff_getElem?.mp hu
    obtain ⟨hentry, -⟩ := ReorderBuffer.nth?_of_toList hi
    obtain ⟨m, hlast⟩ := ReorderBuffer.exists_lastWriter ⟨u.2, hentry, hdest⟩
      (ReorderBuffer.bounds_of_nth? hentry).2
    rw [hr.alias_iff.mpr ⟨m, hlast, rfl⟩] at hnone
    simp at hnone
  · intro hall
    by_contra hne
    obtain ⟨k, hk⟩ := Option.ne_none_iff_exists'.mp hne
    obtain ⟨i, p, hi, hdest, -⟩ := hr.alias_iff_toList.mp hk
    exact hall _ (List.mem_iff_getElem?.mpr ⟨i, hi⟩) hdest

/-- A source register resolves to a tag only if its last writer has no result yet. -/
theorem lastWriter_of_operand (hr : c.Renamed) {used : Bool} (h : c.operand used r = .pending tag) :
    used = true ∧ ∃ m f, c.window.LastWriter c.window.next r m ∧
      c.window.nth? m = some f ∧ f.ready = false ∧ c.window.place m = tag := by
  obtain ⟨hused, halias, hvalue⟩ := operand_eq_pending_iff.mp h
  obtain ⟨m, hlast, rfl⟩ := hr.alias_iff.mp halias
  obtain ⟨f, hf, -⟩ := hlast.writes
  rw [ReorderBuffer.readyValue?_place hf] at hvalue
  split at hvalue
  · simp at hvalue
  · next hready => exact ⟨hused, m, f, hlast, hf, Bool.of_not_eq_true hready, rfl⟩

theorem issuing (hr : c.Renamed) (hc : c.Consistent) {i : Instruction} {w : ReorderBuffer}
    {p : Stations} (hi : i.dest ≠ some 0) (hw : c.window.Entered i tag w)
    (hp : c.stations.allocate? (c.stationFor i tag) = some (l, p)) :
    (c.issuing i tag w p).Renamed := by
  have hwindow : (c.issuing i tag w p).window = w := rfl
  refine ⟨?_, ?_⟩
  · intro r tag'
    have halias : (c.issuing i tag w p).aliases.get r =
        if i.dest = some r then some tag else c.aliases.get r := get_aliasesWith hi r
    rw [halias, hwindow]
    by_cases hdest : i.dest = some r
    · rw [if_pos hdest]
      constructor
      · intro h
        refine ⟨_, hw.lastWriter_next_iff.mpr (.inl ⟨rfl, hdest⟩), ?_⟩
        rw [hw.place, ← hw.tag_eq]
        exact Option.some.inj h
      · rintro ⟨n, hlast, rfl⟩
        rcases hw.lastWriter_next_iff.mp hlast with ⟨rfl, -⟩ | ⟨hne, -⟩
        · rw [hw.place, ← hw.tag_eq]
        · exact absurd hdest hne
    · rw [if_neg hdest, hr.alias_iff]
      refine exists_congr fun n => ?_
      rw [hw.place, hw.lastWriter_next_iff]
      constructor
      · rintro ⟨hlast, hplace⟩
        exact ⟨.inr ⟨hdest, hlast⟩, hplace⟩
      · rintro ⟨⟨-, hd⟩ | ⟨-, hlast⟩, hplace⟩
        · exact absurd hd hdest
        · exact ⟨hlast, hplace⟩
  · intro k s n e x tag' hs hx
    rw [hwindow]
    have found : ∀ {p q r m f}, p ≤ c.window.next → c.window.LastWriter p r m →
        c.window.nth? m = some f → f.ready = false → c.window.place m = q →
        ∃ m f, w.LastWriter p r m ∧ w.nth? m = some f ∧ f.ready = false ∧ w.place m = q :=
      fun hle hlast hf hready hplace =>
        ⟨_, _, (hw.lastWriter_iff hle).mpr hlast, hw.kept hf, hready, (hw.place _).trans hplace⟩
    rcases (hc.serves_issuing_iff hw hp).mp hs with ⟨rfl, rfl, rfl, rfl⟩ | hs
    · rw [operand_stationFor] at hx
      obtain ⟨hused, m, f, hlast, hf, hready, hplace⟩ := hr.lastWriter_of_operand hx
      exact ⟨hused, found (Nat.le_refl _) hlast hf hready hplace⟩
    · obtain ⟨hused, m, f, hlast, hf, hready, hplace⟩ := hr.pending hs hx
      have hn := ReorderBuffer.bounds_of_nth? hs.entry
      exact ⟨hused, found (Nat.le_of_lt hn.2) hlast hf hready hplace⟩

theorem starting (hr : c.Renamed) (hc : c.Consistent) {x : Effect}
    (hs : c.stations.get? l = some s) : (c.starting l s x).Renamed := by
  refine ⟨hr.alias_iff, fun {k t n e y tag} ht hy => ?_⟩
  obtain ⟨u, hu, hoperand⟩ := hc.operand_starting hs ht
  exact hr.pending hu ((hoperand y).symm.trans hy)

/-- Whoever waits for the result that is delivered, waits no more. -/
theorem delivering (hr : c.Renamed) (hc : c.Consistent) {v : Broadcast}
    (hv : c.bus.current = some v) : (c.delivering v).Renamed := by
  obtain ⟨s₀, n₀, e₀, hserve₀, htag₀, -, hw⟩ := hc.delivering_completes hv
  refine ⟨?_, ?_⟩
  · intro r tag
    rw [hw.next]
    refine hr.alias_iff.trans (exists_congr fun n => ?_)
    rw [hw.lastWriter_iff, hw.place]
  · intro k t n e x tag ht hx
    obtain ⟨-, u, hu, rfl⟩ := (hc.serves_delivering_iff hv).mp ht
    rw [Station.operand_wake] at hx
    obtain ⟨hx, hne⟩ := Operand.wake_eq_pending_iff.mp hx
    obtain ⟨hused, m, f, hlast, hf, hready, hplace⟩ := hr.pending hu hx
    -- the writer is not the entry that is completed, since its tag is another one
    have hm : m ≠ n₀ := by
      rintro rfl
      exact hne (by rw [← hplace, ← hserve₀.tag, htag₀])
    refine ⟨hused, m, f, hw.lastWriter_iff.mpr hlast, ?_, hready, (hw.place m).trans hplace⟩
    rw [hw.nth?, if_neg hm, hf]

/-- The instruction that retires has its result, so nobody waits for it, and it is the last writer
of its register if and only if the alias table says so. -/
theorem retiring (hr : c.Renamed) (hc : c.Consistent) {w : ReorderBuffer}
    (hw : c.window.Left tag e w) : (c.retiring tag e w).Renamed := by
  have hwindow := c.retiring_window tag e w
  refine ⟨?_, ?_⟩
  · intro r tag'
    have halias : (c.retiring tag e w).aliases.get r =
        if e.instruction.dest = some r ∧ c.aliases.get r = some tag then none
        else c.aliases.get r := by
      rw [aliases_retiring]
      cases hdest : e.instruction.dest with
      | none => simp
      | some r' =>
        dsimp only
        rw [AliasTable.get_release]
        by_cases heq : r' = r
        · subst heq
          simp
        · rw [if_neg (fun h => heq h.1), if_neg (fun h => heq (Option.some.inj h.1))]
    rw [halias, hwindow, hw.next]
    have hoblig : (∃ n, w.LastWriter c.window.next r n ∧ w.place n = tag') ↔
        ∃ n, n ≠ c.window.departed ∧ c.window.LastWriter c.window.next r n ∧
          c.window.place n = tag' :=
      exists_congr fun n => by rw [hw.lastWriter_iff, hw.place, and_assoc]
    rw [hoblig]
    split
    · next h =>
      -- the alias is the one of the instruction that leaves
      obtain ⟨n, hlast, hplace⟩ := hr.alias_iff.mp h.2
      obtain ⟨f, hf, -⟩ := id hlast.writes
      obtain rfl : n = c.window.departed :=
        ReorderBuffer.place_inj hf hw.oldest (hplace.trans hw.tag_eq)
      constructor
      · intro h
        simp at h
      · rintro ⟨m, hm, hlast', -⟩
        exact absurd (hlast'.unique hlast) hm
    · next h =>
      rw [hr.alias_iff]
      constructor
      · rintro ⟨n, hlast, rfl⟩
        refine ⟨n, ?_, hlast, rfl⟩
        rintro rfl
        obtain ⟨f, hf, hdest⟩ := id hlast.writes
        obtain rfl := Option.some.inj (hf.symm.trans hw.oldest)
        exact h ⟨hdest, hr.alias_iff.mpr ⟨_, hlast, hw.tag_eq.symm⟩⟩
      · rintro ⟨n, -, hlast, hplace⟩
        exact ⟨n, hlast, hplace⟩
  · intro k s n f x tag' hs hx
    have hs := (hc.serves_retiring_iff hw).mp hs
    obtain ⟨hused, m, g, hlast, hg, hready, hplace⟩ := hr.pending hs hx
    obtain ⟨hm, hg⟩ := hw.kept hg hready
    rw [hwindow]
    exact ⟨hused, m, g, hw.lastWriter_iff.mpr ⟨hm, hlast⟩, hg, hready, (hw.place m).trans hplace⟩

end Renamed

theorem renamed_new (st : CoreSettings) : (new st).Renamed := by
  have hwindow : ∀ n, (new st).window.nth? n = none := ReorderBuffer.nth?_of_isEmpty rfl
  refine ⟨?_, ?_⟩
  · intro r tag
    constructor
    · intro h
      have hnone : (new st).aliases.get r = none := AliasTable.get_empty r
      rw [hnone] at h
      simp at h
    · rintro ⟨n, hlast, -⟩
      obtain ⟨e, he, -⟩ := hlast.writes
      rw [hwindow] at he
      simp at he
  · intro k s n e x tag hs
    have := hs.entry
    rw [hwindow] at this
    simp at this

end Core

/-! ### The invariant -/

namespace IssueQueue

theorem waiting_of_pop? {q rest : IssueQueue} {i : Instruction} (h : q.pop? = some (i, rest)) :
    q.waiting = i :: rest.waiting := by
  rw [pop?] at h
  split at h
  · simp at h
  · next hq =>
    obtain ⟨rfl, rfl⟩ := Prod.mk.inj (Option.some.inj h)
    exact hq

theorem waiting_of_push? {q q' : IssueQueue} {i : Instruction} (h : q.push? i = some q') :
    q'.waiting = q.waiting ++ [i] := by
  rw [push?] at h
  split at h
  · simp at h
  · obtain rfl := Option.some.inj h
    rfl

end IssueQueue

namespace Snapshot

/-- What holds of the core and its queue at any moment. -/
structure Sound (s : Snapshot) : Prop where
  consistent : s.core.Consistent
  renamed : s.core.Renamed
  /-- What is in flight has come out of the decoder. -/
  decoded : ∀ {n e}, s.core.window.nth? n = some e → e.instruction.Decoded
  /-- And so has what waits in the queue. -/
  waiting : ∀ i ∈ s.queue.waiting, i.Decoded

/-- Every step keeps everything. -/
theorem Sound.step {s t : Snapshot} (h : s.Step t) (hs : s.Sound) : t.Sound := by
  have hc := hs.consistent
  have hr := hs.renamed
  refine ⟨hc.step h, ?_, ?_, ?_⟩
  · cases h with
    | count csrs arbiter cycle hcells => exact hr.congr rfl rfl rfl
    | issue hpop hwindow hstations =>
      have hi := hs.waiting _ (by rw [IssueQueue.waiting_of_pop? hpop]; exact List.mem_cons_self)
      exact hr.issuing hc hi.dest_ne_zero (ReorderBuffer.entered_of_allocate? hwindow) hstations
    | advance => exact hr.congr rfl rfl rfl
    | publish hbus hdone => exact hr.congr rfl rfl rfl
    | start ht hfree hentry ha hb heffect => exact hr.starting hc ht.get
    | deliver hbus => exact hr.delivering hc hbus
    | retire hcommit => exact hr.retiring hc (ReorderBuffer.left_of_commit? hcommit)
  · intro n e hn
    cases h with
    | count csrs arbiter cycle hcells => exact hs.decoded hn
    | issue hpop hwindow hstations =>
      rcases (ReorderBuffer.entered_of_allocate? hwindow).before hn with ⟨-, rfl⟩ | hn
      · exact hs.waiting _ (by rw [IssueQueue.waiting_of_pop? hpop]; exact List.mem_cons_self)
      · exact hs.decoded hn
    | advance => exact hs.decoded hn
    | publish hbus hdone => exact hs.decoded hn
    | start ht hfree hentry ha hb heffect => exact hs.decoded hn
    | deliver hbus =>
      obtain ⟨_, _, _, -, -, -, hw⟩ := hc.delivering_completes hbus
      obtain ⟨f, hf, heq, -⟩ := hw.before hn
      exact heq ▸ hs.decoded hf
    | retire hcommit =>
      rw [Core.retiring_window] at hn
      exact hs.decoded ((ReorderBuffer.left_of_commit? hcommit).before hn)
  · intro i hi
    cases h with
    | issue hpop hwindow hstations =>
      exact hs.waiting i (by rw [IssueQueue.waiting_of_pop? hpop]; exact List.mem_cons_of_mem _ hi)
    | _ => exact hs.waiting i hi

theorem Sound.push {s : Snapshot} {i : Instruction} {q : IssueQueue} (hs : s.Sound)
    (hi : i.Decoded) (hq : s.queue.push? i = some q) :
    ({ s with queue := q } : Snapshot).Sound := by
  refine ⟨hs.consistent, hs.renamed, hs.decoded, fun j hj => ?_⟩
  rw [IssueQueue.waiting_of_push? hq, List.mem_append, List.mem_singleton] at hj
  rcases hj with hj | rfl
  · exact hs.waiting j hj
  · exact hi

end Snapshot

namespace System.Reachable

variable {st : CoreSettings} {n : Nat} {m : Memory} {s : System}

theorem sound (h : Reachable st n m s) : s.snapshot.Sound := by
  refine h.keeps ?_ (fun hi hq hs => hs.push hi hq) Snapshot.Sound.step
  refine ⟨Core.consistent_new st, Core.renamed_new st, ?_, ?_⟩
  · intro n e hn
    rw [ReorderBuffer.nth?_of_isEmpty rfl n] at hn
    simp at hn
  · intro i hi
    cases hi

/-- **A pending operand waits for the last writer of its register.** If an operand of a station is
pending with tag `k`, the instruction of the station uses this operand, its register is not `x0`,
and place `k` of the window has an older entry without a result that writes this register, while no
entry between the two writes it. -/
theorem lastWriter_of_pending (h : Reachable st n m s) {slot : Slot} {t : Station} {x : Source}
    {k : Tag} (ht : s.core.stations.get? slot = some t) (hx : t.operand x = .pending k) :
    ∃ i j p q, i < j ∧
      s.core.window.toList[i]? = some (k, p) ∧ s.core.window.get? k = some p ∧
      s.core.window.toList[j]? = some (t.tag, q) ∧ s.core.window.get? t.tag = some q ∧
      q.instruction.uses x = true ∧ q.instruction.source x ≠ 0 ∧
      p.ready = false ∧ p.instruction.dest = some (q.instruction.source x) ∧
      ∀ (l : Nat) (u : Tag × Entry), i < l → l < j → s.core.window.toList[l]? = some u →
        u.2.instruction.dest ≠ some (q.instruction.source x) := by
  have hs := h.sound
  obtain ⟨b, q, hserve, -⟩ := hs.consistent.serves ht
  obtain ⟨hused, a, p, hlast, hp, hready, rfl⟩ := hs.renamed.pending hserve hx
  obtain ⟨p', hp', hdest⟩ := hlast.writes
  obtain rfl := Option.some.inj (hp'.symm.trans hp)
  have hab := hlast.lt
  -- positions in the list are numbers, counted from the oldest entry
  have hlist : ∀ {c e}, s.core.window.nth? c = some e →
      ∃ i, c = s.core.window.departed + i ∧
        s.core.window.toList[i]? = some (s.core.window.place c, e) := by
    intro c e hc
    obtain ⟨i, rfl⟩ := Nat.exists_eq_add_of_le (ReorderBuffer.bounds_of_nth? hc).1
    exact ⟨i, rfl, by rw [ReorderBuffer.getElem?_toList, hc]; rfl⟩
  obtain ⟨i, rfl, hi⟩ := hlist hp
  obtain ⟨j, rfl, hj⟩ := hlist hserve.entry
  refine ⟨i, j, p', q, by omega, hi, ReorderBuffer.get?_place hp, ?_, hserve.get?_tag, hused, ?_,
    hready, hdest, fun l u hil hlj hu hwrites => ?_⟩
  · rw [hj, hserve.tag]
    rfl
  · intro hzero
    exact (hs.decoded hp).dest_ne_zero (hzero ▸ hdest)
  · rw [ReorderBuffer.getElem?_toList] at hu
    obtain ⟨f, hf, rfl⟩ := Option.map_eq_some_iff.mp hu
    exact hlast.between _ (by omega) (by omega) ⟨f, hf, hwrites⟩

/-- The sum of a register that is still being computed: it waits for place zero. -/
theorem lastWriter_of_pending_sum :
    let s := (((System.new { aluLatency := 3 } 4 (.empty 0 16)).offer 0x00500093 0 0).offer
      0x00108133 4 1).tick.tick
    ∃ t p, s.core.stations.get? 1 = some t ∧ t.operand .first = .pending 0 ∧
      s.core.window.get? 0 = some p ∧ p.ready = false := by
  intro s
  have h : Reachable { aluLatency := 3 } 4 (.empty 0 16) s :=
    ((Reachable.new.offer 0x00500093 0 0).offer 0x00108133 4 1).tick.tick
  obtain ⟨t, ht, hx⟩ : ∃ t, s.core.stations.get? 1 = some t ∧ t.operand .first = .pending 0 :=
    ⟨_, rfl, rfl⟩
  obtain ⟨i, j, p, q, -, -, hp, -, -, -, -, hready, -⟩ := lastWriter_of_pending h ht hx
  exact ⟨t, p, ht, hx, hp, hready⟩

/-- **An alias names the youngest writer in flight.** The alias of a register is the place of the
last entry that writes it; it has none if no entry does, or if it is `x0`. So `x0` never has an
alias, and reads as zero; and with an empty window no register has one. -/
theorem alias_youngest (h : Reachable st n m s) :
    (∀ r k, s.core.aliases.get r = some k ↔
        r ≠ 0 ∧ ∃ i p, s.core.window.toList[i]? = some (k, p) ∧ s.core.window.get? k = some p ∧
          p.instruction.dest = some r ∧
          ∀ (j : Nat) (u : Tag × Entry), i < j → s.core.window.toList[j]? = some u →
            u.2.instruction.dest ≠ some r) ∧
      (∀ r, s.core.aliases.get r = none ↔
        r = 0 ∨ ∀ u ∈ s.core.window.toList, u.2.instruction.dest ≠ some r) ∧
      s.core.aliases.get 0 = none ∧
      s.core.registers.read 0 = 0 ∧ (∀ used, s.core.operand used 0 = .ready 0) ∧
      (s.core.window.isEmpty = true → s.core.aliases.pending = 0) := by
  have hr : s.core.Renamed := h.sound.renamed
  have hdecoded : ∀ u ∈ s.core.window.toList, u.2.instruction.Decoded := by
    intro u hu
    obtain ⟨i, hi⟩ := List.mem_iff_getElem?.mp hu
    exact h.sound.decoded (ReorderBuffer.nth?_of_toList hi).1
  have hzero : s.core.aliases.get 0 = none :=
    hr.alias_eq_none_iff.mpr fun u hu => (hdecoded u hu).dest_ne_zero
  refine ⟨fun r k => ⟨fun hk => ?_, ?_⟩, fun r => ?_, hzero, Registers.read_zero _, fun used => ?_,
    fun hempty => ?_⟩
  · obtain ⟨i, p, hi, hdest, hyounger⟩ := hr.alias_iff_toList.mp hk
    obtain ⟨hp, hplace⟩ := ReorderBuffer.nth?_of_toList hi
    refine ⟨?_, i, p, hi, ReorderBuffer.get?_eq_some_iff.mpr ⟨_, hp, hplace⟩, hdest, hyounger⟩
    rintro rfl
    rw [hzero] at hk
    simp at hk
  · rintro ⟨-, i, p, hi, -, hdest, hyounger⟩
    exact hr.alias_iff_toList.mpr ⟨i, p, hi, hdest, hyounger⟩
  · refine ⟨fun hnone => .inr (hr.alias_eq_none_iff.mp hnone), ?_⟩
    rintro (rfl | hall)
    · exact hzero
    · exact hr.alias_eq_none_iff.mpr hall
  · cases used with
    | false => rfl
    | true =>
      rw [Core.operand, if_pos rfl, hzero]
      exact congrArg Operand.ready (Registers.read_zero _)
  · refine AliasTable.pending_eq_zero_iff.mpr fun r => hr.alias_eq_none_iff.mpr fun u hu => ?_
    rw [ReorderBuffer.toList, List.isEmpty_iff.mp hempty] at hu
    cases hu

/-- A register is written twice: after two cycles the first write has retired, and the alias is the
place of the second one. -/
theorem alias_youngest_rewritten :
    let s := (((System.new {} 4 (.empty 0 16)).offer 0x00100093 0 0).offer
      0x00200093 4 1).tick.tick
    s.core.retired = 1 ∧ s.core.aliases.get 1 = some 1 ∧
      ∃ (i : Nat) (p : Entry), s.core.window.toList[i]? = some (1, p) ∧
        p.instruction.dest = some 1 := by
  intro s
  have h : Reachable {} 4 (.empty 0 16) s :=
    ((Reachable.new.offer 0x00100093 0 0).offer 0x00200093 4 1).tick.tick
  have halias : s.core.aliases.get 1 = some 1 := rfl
  obtain ⟨-, i, p, hi, -, hdest, -⟩ := ((alias_youngest h).1 1 1).mp halias
  exact ⟨rfl, halias, i, p, hi, hdest⟩

end System.Reachable

end OutOfOrder
