import OutOfOrder.Proofs.Publication

/-!
# Arbitration is legal, and the cyclic policy starves nobody

An arbiter is asked again and again, each time with another list of requests, and under the cyclic
policy it remembers one unit between the calls. What it answers is compared here with what the
policies promise, and the promise of the cyclic policy is about the whole history: whoever had the
bus last comes last.

How long a unit has to wait is counted by its distance, the number of units that are asked before
it. A call that passes a unit over grants the bus to one of these, and precedence moves on to the
next one, so the distance has become smaller. That is all there is to it: a distance is at most
three, and of two units that keep asking the one that was served last is the farther one.

## Main definitions

* `Arbiter.ask`, `Arbiter.after`, `Arbiter.answers` — an arbiter through a history of calls
* `UnitKind.number`, `UnitKind.turn` — the fixed order, and the order after a winner
* `Policy.Prefers` — what a policy promises of the winner

## Main results

* `UnitKind.distance_next` — losing brings a unit closer
* `Arbiter.prefers_of_grant`, `first_after` — one call, and what a history leaves behind
* `Arbiter.mem_answers`, `exists_between` — nobody waits long, and nobody is served twice meanwhile
* `Arbiter.arbitrates_fairly` — all of this, for every history of calls
-/

namespace OutOfOrder

/-- What is found first stands before everything else that could have been found. -/
theorem idxOf_le_of_find? {α : Type} [BEq α] [LawfulBEq α] {p : α → Bool} {l : List α} {a b : α}
    (h : l.find? p = some a) (hb : b ∈ l) (hp : p b = true) : l.idxOf a ≤ l.idxOf b := by
  induction l with
  | nil => cases h
  | cons x l ih =>
    by_cases hx : p x = true
    · rw [List.find?_cons_of_pos hx] at h
      obtain rfl := Option.some.inj h
      rw [List.idxOf_cons_self]
      exact Nat.zero_le _
    · rw [List.find?_cons_of_neg hx] at h
      have hne : ∀ y, p y = true → x ≠ y := by
        rintro y hy rfl
        exact hx hy
      have hmem : b ∈ l := (List.mem_cons.mp hb).resolve_left (hne b hp).symm
      rw [List.idxOf_cons, List.idxOf_cons, beq_false_of_ne (hne a (List.find?_some h)),
        beq_false_of_ne (hne b hp)]
      exact Nat.succ_le_succ (ih h hmem)

/-! ### The order of the units -/

namespace UnitKind

/-- The number of a unit in the order of fixed priority. -/
def number (k : UnitKind) : Nat := all.idxOf k

/-- How many units have precedence over `k` if `last` had the bus last. They follow one another in
cyclic order, and the one after `last` comes first. If nobody has had the bus, it is unit zero. -/
def turn (last : Option UnitKind) (k : UnitKind) : Nat :=
  match last with
  | none => k.number
  | some w => (k.number + 3 - w.number) % 4

/-- The unit that comes first if `last` had the bus last. -/
def firstAfter (last : Option UnitKind) : UnitKind := (last.map next).getD alu

/-- How many units are asked before `k` if `f` is asked first. -/
def distance (f k : UnitKind) : Nat := (cycle f).idxOf k

theorem mem_all (k : UnitKind) : k ∈ all := by cases k <;> decide

theorem turn_eq (last : Option UnitKind) (k : UnitKind) :
    k.turn last = distance (firstAfter last) k := by
  cases last with
  | none => cases k <;> rfl
  | some w => cases w <;> cases k <;> rfl

theorem distance_lt (f k : UnitKind) : distance f k < 4 := by
  cases f <;> cases k <;> decide

/-- Losing brings a unit closer: if `w` is served before `u`, those up to `w` are behind it. -/
theorem distance_next {f w u : UnitKind} (hne : w ≠ u) (h : distance f w ≤ distance f u) :
    distance w.next u + (distance f w + 1) = distance f u := by
  revert hne h
  cases f <;> cases w <;> cases u <;> decide

/-- Whoever has been served is the farthest from being served again. -/
theorem distance_next_self {v u : UnitKind} (h : v ≠ u) :
    distance v.next u < distance v.next v := by
  revert h
  cases v <;> cases u <;> decide

end UnitKind

/-- What a policy promises of the unit `k` that gets the bus: it has the lowest number, it is the
next one after the unit that had the bus `last`, or it has the first one of the oldest requests. -/
def Policy.Prefers (p : Policy) (last : Option UnitKind) (rs : List Request) (k : UnitKind) :
    Prop :=
  match p with
  | .fixedPriority => ∀ r ∈ rs, k.number ≤ r.unit.number
  | .roundRobin => ∀ r ∈ rs, k.turn last ≤ r.unit.turn last
  | .oldestFirst => ∃ before r after, rs = before ++ r :: after ∧ r.unit = k ∧
      (∀ x ∈ before, r.uuid < x.uuid) ∧ ∀ x ∈ after, r.uuid ≤ x.uuid

/-- The request that is chosen for its age is the first one of that age. -/
theorem Request.oldest?_split {rs : List Request} {r : Request} (h : oldest? rs = some r) :
    ∃ before after, rs = before ++ r :: after ∧
      (∀ x ∈ before, r.uuid < x.uuid) ∧ ∀ x ∈ after, r.uuid ≤ x.uuid := by
  induction rs generalizing r with
  | nil => cases h
  | cons a rs ih =>
    rw [oldest?] at h
    split at h
    · next hnone =>
      obtain rfl := Option.some.inj h
      rw [eq_nil_of_oldest? hnone]
      exact ⟨[], [], rfl, by simp, by simp⟩
    · next s hs =>
      split at h
      · next hlt =>
        obtain rfl := Option.some.inj h
        obtain ⟨before, after, rfl, hbefore, hafter⟩ := ih hs
        exact ⟨a :: before, after, rfl, List.forall_mem_cons.mpr ⟨hlt, hbefore⟩, hafter⟩
      · next hle =>
        obtain rfl := Option.some.inj h
        refine ⟨[], rs, rfl, by simp, fun x hx => ?_⟩
        exact Nat.le_trans (Nat.le_of_not_lt hle) (oldest?_le hs x hx)

namespace Arbiter

variable {a b : Arbiter} {rs : List Request} {k u v : UnitKind} {last : Option UnitKind}
  {calls : List (List Request)}

/-! ### One call -/

/-- One call: the answer, and the arbiter afterwards. An arbiter that grants nothing stays as it
is. -/
def ask (a : Arbiter) (rs : List Request) : Option UnitKind × Arbiter :=
  match a.grant rs with
  | none => (none, a)
  | some (k, b) => (some k, b)

theorem grant_eq_none_iff : a.grant rs = none ↔ rs = [] := by
  constructor
  · exact eq_nil_of_grant
  · rintro rfl
    rw [Option.eq_none_iff_forall_ne_some]
    rintro ⟨k, b⟩ hb
    obtain ⟨r, hr, -⟩ := mem_of_grant hb
    cases hr

theorem ask_nil (a : Arbiter) : a.ask [] = (none, a) := by
  rw [ask, grant_eq_none_iff.mpr rfl]

/-- Whoever asks is not left without an answer. -/
theorem exists_grant (hu : u ∈ rs.map Request.unit) : ∃ k b, a.grant rs = some (k, b) := by
  cases h : a.grant rs with
  | none =>
    rw [grant_eq_none_iff.mp h] at hu
    cases hu
  | some x => exact ⟨x.1, x.2, rfl⟩

theorem winner?_of_grant (h : a.grant rs = some (k, b)) : a.winner? rs = some k := by
  obtain ⟨l, hl, he⟩ := Option.map_eq_some_iff.mp h
  split at he
  all_goals
    obtain ⟨rfl, -⟩ := Prod.mk.inj he
    exact hl

theorem first_of_grant (hpolicy : a.policy = .roundRobin) (h : a.grant rs = some (k, b)) :
    b.first = k.next := by
  obtain ⟨l, -, he⟩ := Option.map_eq_some_iff.mp h
  rw [hpolicy] at he
  obtain ⟨rfl, rfl⟩ := Prod.mk.inj he
  rfl

theorem any_unit (hu : u ∈ rs.map Request.unit) : (rs.any fun r => r.unit == u) = true := by
  obtain ⟨r, hr, rfl⟩ := List.mem_map.mp hu
  exact List.any_eq_true.mpr ⟨r, hr, beq_self_eq_true _⟩

/-- Under the cyclic policy nobody who asks is closer than the winner. -/
theorem distance_le_of_grant (hpolicy : a.policy = .roundRobin) (h : a.grant rs = some (k, b))
    (hu : u ∈ rs.map Request.unit) :
    UnitKind.distance a.first k ≤ UnitKind.distance a.first u := by
  have hwinner := winner?_of_grant h
  rw [winner?, hpolicy] at hwinner
  exact idxOf_le_of_find? hwinner (UnitKind.mem_cycle u _) (any_unit hu)

/-- **The winner is the one that the policy promises.** -/
theorem prefers_of_grant (hfirst : a.policy = .roundRobin → a.first = UnitKind.firstAfter last)
    (h : a.grant rs = some (k, b)) : a.policy.Prefers last rs k := by
  have hwinner := winner?_of_grant h
  cases hpolicy : a.policy with
  | fixedPriority =>
    intro r hr
    rw [winner?, hpolicy] at hwinner
    exact idxOf_le_of_find? hwinner r.unit.mem_all (any_unit (List.mem_map_of_mem hr))
  | roundRobin =>
    intro r hr
    rw [UnitKind.turn_eq, UnitKind.turn_eq, ← hfirst hpolicy]
    exact distance_le_of_grant hpolicy h (List.mem_map_of_mem hr)
  | oldestFirst =>
    obtain ⟨r, hr, hunit⟩ := oldest?_of_grant hpolicy h
    obtain ⟨before, after, hsplit, hbefore, hafter⟩ := Request.oldest?_split hr
    exact ⟨before, r, after, hsplit, hunit, hbefore, hafter⟩

/-! ### Histories -/

/-- The arbiter after some calls. -/
def after (a : Arbiter) : List (List Request) → Arbiter
  | [] => a
  | rs :: calls => (a.ask rs).2.after calls

/-- What an arbiter answers to some calls. -/
def answers (a : Arbiter) : List (List Request) → List (Option UnitKind)
  | [] => []
  | rs :: calls => (a.ask rs).1 :: (a.ask rs).2.answers calls

theorem policy_ask (a : Arbiter) (rs : List Request) : (a.ask rs).2.policy = a.policy := by
  rw [ask]
  split
  · rfl
  · next h => exact policy_of_grant h

theorem policy_after (a : Arbiter) (calls : List (List Request)) :
    (a.after calls).policy = a.policy := by
  induction calls generalizing a with
  | nil => rfl
  | cons rs calls ih => exact (ih _).trans (a.policy_ask rs)

/-- Under the cyclic policy an arbiter remembers who had the bus last, and nothing else. -/
theorem first_after (hpolicy : a.policy = .roundRobin)
    (hfirst : a.first = UnitKind.firstAfter last) :
    (a.after calls).first =
      UnitKind.firstAfter (((a.answers calls).filterMap id).getLast?.or last) := by
  induction calls generalizing a last with
  | nil => exact hfirst
  | cons rs calls ih =>
    rw [after, answers]
    have hpolicy' := (a.policy_ask rs).trans hpolicy
    cases hgrant : a.grant rs with
    | none =>
      have hask : a.ask rs = (none, a) := by rw [ask, hgrant]
      rw [hask]
      exact ih hpolicy hfirst
    | some x =>
      have hask : a.ask rs = (some x.1, x.2) := by rw [ask, hgrant]
      rw [hask] at hpolicy' ⊢
      have hcons : (some x.1 :: x.2.answers calls).filterMap id =
          x.1 :: (x.2.answers calls).filterMap id := rfl
      have hrest : (x.2.after calls).first =
          UnitKind.firstAfter (((x.2.answers calls).filterMap id).getLast?.or (some x.1)) :=
        ih hpolicy' (first_of_grant hpolicy hgrant)
      rw [hrest, hcons, List.getLast?_cons]
      cases ((x.2.answers calls).filterMap id).getLast? <;> rfl

/-- A call with a request of `u` that another unit wins: it is closer than `u`, and `u` is closer
afterwards. -/
theorem ask_of_mem (hpolicy : a.policy = .roundRobin) (hu : u ∈ rs.map Request.unit) :
    ∃ k b, a.ask rs = (some k, b) ∧ b.policy = .roundRobin ∧ b.first = k.next ∧
      UnitKind.distance a.first k ≤ UnitKind.distance a.first u := by
  obtain ⟨k, b, h⟩ := exists_grant (a := a) hu
  exact ⟨k, b, by rw [ask, h], (policy_of_grant h).trans hpolicy, first_of_grant hpolicy h,
    distance_le_of_grant hpolicy h hu⟩

/-- **Nobody waits long:** a unit that keeps asking is served as soon as there have been more calls
than units before it. -/
theorem mem_answers (hpolicy : a.policy = .roundRobin)
    (hu : ∀ rs ∈ calls, u ∈ rs.map Request.unit)
    (hlong : UnitKind.distance a.first u < calls.length) : some u ∈ a.answers calls := by
  induction calls generalizing a with
  | nil => exact absurd hlong (Nat.not_lt_zero _)
  | cons rs calls ih =>
    obtain ⟨hfirst, hrest⟩ := List.forall_mem_cons.mp hu
    obtain ⟨k, b, hask, hb, hnext, hle⟩ := ask_of_mem hpolicy hfirst
    rw [answers, hask]
    by_cases hk : k = u
    · rw [hk]
      exact List.mem_cons_self
    · have hcloser := UnitKind.distance_next hk hle
      rw [← hnext] at hcloser
      rw [List.length_cons] at hlong
      have hlong' : UnitKind.distance b.first u < calls.length := by omega
      exact List.mem_cons_of_mem _ (ih hb hrest hlong')

/-- As long as `u` keeps asking, a unit that is farther away is served only after `u`. -/
theorem exists_earlier (hpolicy : a.policy = .roundRobin)
    (hu : ∀ rs ∈ calls, u ∈ rs.map Request.unit)
    (hfar : UnitKind.distance a.first u < UnitKind.distance a.first v) {j : Nat}
    (hj : (a.answers calls)[j]? = some (some v)) :
    ∃ m, m < j ∧ (a.answers calls)[m]? = some (some u) := by
  induction calls generalizing a j with
  | nil => cases hj
  | cons rs calls ih =>
    obtain ⟨hfirst, hrest⟩ := List.forall_mem_cons.mp hu
    obtain ⟨k, b, hask, hb, hnext, hle⟩ := ask_of_mem hpolicy hfirst
    rw [answers, hask] at hj ⊢
    have hkv : k ≠ v := by
      rintro rfl
      exact Nat.not_le_of_lt hfar hle
    cases j with
    | zero => exact absurd (Option.some.inj (Option.some.inj hj)) hkv
    | succ j =>
      by_cases hk : k = u
      · exact ⟨0, Nat.succ_pos j, by rw [hk]; rfl⟩
      · -- both come closer by the same number of steps
        have hcloser := UnitKind.distance_next hk hle
        have hcloser' := UnitKind.distance_next hkv (Nat.le_trans hle (Nat.le_of_lt hfar))
        rw [← hnext] at hcloser hcloser'
        have hfar' : UnitKind.distance b.first u < UnitKind.distance b.first v := by omega
        obtain ⟨m, hm, hserved⟩ := ih hb hrest hfar' hj
        exact ⟨m + 1, Nat.succ_lt_succ hm, hserved⟩

/-- **Nobody is served twice meanwhile:** as long as `u` keeps asking, it is served between any two
times that another unit is. -/
theorem exists_between (hpolicy : a.policy = .roundRobin)
    (hu : ∀ rs ∈ calls, u ∈ rs.map Request.unit) (hne : v ≠ u) {i j : Nat} (hij : i < j)
    (hi : (a.answers calls)[i]? = some (some v)) (hj : (a.answers calls)[j]? = some (some v)) :
    ∃ m, i < m ∧ m < j ∧ (a.answers calls)[m]? = some (some u) := by
  induction calls generalizing a i j with
  | nil => cases hi
  | cons rs calls ih =>
    obtain ⟨hfirst, hrest⟩ := List.forall_mem_cons.mp hu
    obtain ⟨k, b, hask, hb, hnext, -⟩ := ask_of_mem hpolicy hfirst
    rw [answers, hask] at hi hj ⊢
    obtain ⟨j, rfl⟩ := Nat.exists_eq_succ_of_ne_zero (Nat.ne_of_gt (Nat.zero_lt_of_lt hij))
    cases i with
    | zero =>
      obtain rfl := Option.some.inj (Option.some.inj hi)
      obtain ⟨m, hm, hserved⟩ :=
        exists_earlier hb hrest (by rw [hnext]; exact UnitKind.distance_next_self hne) hj
      exact ⟨m + 1, Nat.succ_pos m, Nat.succ_lt_succ hm, hserved⟩
    | succ i =>
      obtain ⟨m, him, hmj, hserved⟩ := ih hb hrest (Nat.lt_of_succ_lt_succ hij) hi hj
      exact ⟨m + 1, Nat.succ_lt_succ him, Nat.succ_lt_succ hmj, hserved⟩

/-- **Arbitration is legal, and the cyclic policy starves nobody.** Whatever the policy is and
whatever has been asked before: nothing is granted exactly if nobody asks, and then the arbiter
stays as it is; otherwise the winner is one of those who ask, and the one that the policy promises.

Under the cyclic policy a unit that asks in four calls in a row is served in one of them, and as
long as it keeps asking no other unit is served twice without it being served in between. -/
theorem arbitrates_fairly (p : Policy) (calls : List (List Request)) (rs : List Request) :
    let a := (new p).after calls
    (a.grant rs = none ↔ rs = []) ∧ a.ask [] = (none, a) ∧
      (∀ k b, a.grant rs = some (k, b) → k ∈ rs.map Request.unit ∧
        p.Prefers (((new p).answers calls).filterMap id).getLast? rs k) ∧
      (p = .roundRobin → ∀ (u : UnitKind) (next : List (List Request)),
        (∀ rs ∈ next, u ∈ rs.map Request.unit) →
        (next.length = 4 → some u ∈ a.answers next) ∧
        ∀ (i j : Nat) (v : UnitKind), i < j → v ≠ u →
          (a.answers next)[i]? = some (some v) → (a.answers next)[j]? = some (some v) →
          ∃ m, i < m ∧ m < j ∧ (a.answers next)[m]? = some (some u)) := by
  intro a
  have hpolicy : a.policy = p := policy_after (new p) calls
  refine ⟨grant_eq_none_iff, a.ask_nil, fun k b h => ⟨?_, ?_⟩, fun hp u next hu => ⟨?_, ?_⟩⟩
  · exact List.mem_map.mpr (mem_of_grant h)
  · have hfirst : a.policy = .roundRobin →
        a.first = UnitKind.firstAfter (((new p).answers calls).filterMap id).getLast? := by
      intro hround
      have hsince : a.first = UnitKind.firstAfter
          ((((new p).answers calls).filterMap id).getLast?.or none) :=
        first_after (hpolicy.symm.trans hround) rfl
      rwa [Option.or_none] at hsince
    have hprefers := prefers_of_grant hfirst h
    rwa [hpolicy] at hprefers
  · intro hlength
    refine mem_answers (hpolicy.trans hp) hu ?_
    rw [hlength]
    exact UnitKind.distance_lt a.first u
  · intro i j v hij hne hi hj
    exact exists_between (hpolicy.trans hp) hu hne hij hi hj

/-- Three units keep asking, and the branch unit has just had the bus. The system unit has to wait
for the memory unit only. -/
theorem arbitrates_fairly_contended :
    let requests : List Request := [⟨.alu, 7⟩, ⟨.memory, 5⟩, ⟨.system, 6⟩]
    let a := (new .roundRobin).after [[⟨.branch, 3⟩]]
    a.answers (List.replicate 4 requests) = [some .memory, some .system, some .alu, some .memory] ∧
      some .system ∈ a.answers (List.replicate 4 requests) ∧
      ∃ m, 0 < m ∧ m < 3 ∧ (a.answers (List.replicate 4 requests))[m]? = some (some .system) := by
  intro requests a
  obtain ⟨-, -, -, hfair⟩ := arbitrates_fairly .roundRobin [[⟨.branch, 3⟩]] requests
  obtain ⟨hserved, hbetween⟩ := hfair rfl .system (List.replicate 4 requests)
    (fun rs h => by rw [List.eq_of_mem_replicate h]; decide)
  exact ⟨rfl, hserved rfl, hbetween 0 3 .memory (by decide) (by decide) rfl rfl⟩

end Arbiter

end OutOfOrder
