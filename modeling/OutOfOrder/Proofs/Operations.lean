import OutOfOrder.Proofs.Manual
import OutOfOrder.Proofs.Trajectory

/-!
# Operations, and what the manual says about them

The units work on words, and the manual speaks of numbers. Part by part the two are compared here:
immediates that are put together from pieces of a word, arithmetic that wraps, conditions, bytes in
memory, and the few registers that cannot be written. What is shared between instructions or
selected by a control word plays no part yet.

## Main definitions

* `Memory.byte?` — a memory as a function of addresses

## Main results

* `Manual.imm_load`, `imm_store`, `imm_branch`, `imm_lui`, `imm_jal`, `imm_immediate` — immediates
* `Manual.eval_ofRegister?`, `eval_ofImmediate?` — arithmetic
* `Manual.taken_eq`, `Manual.clearLowest_word` — conditions, and targets in registers
* `Memory.read_eq`, `Memory.write_eq`, `Memory.byte?_poke` — accesses to memory
* `Manual.extendLoaded_number` — the values of loads
* `CsrFile.read_write`, `Instruction.Accesses.read` — control and status registers
-/

namespace OutOfOrder

namespace Manual

/-! ### Numbers -/

theorem power_eq (k : Nat) : power k = Nat.pow 2 k := Nat.one_shiftLeft k

theorem word_natCast (n : Nat) : word n = BitVec.ofNat 32 n := BitVec.ofInt_natCast 32 n

theorem word_toInt (a : Word) : word a.toInt = a := BitVec.ofInt_toInt

theorem word_add (x y : Int) : word (x + y) = word x + word y := BitVec.ofInt_add x y

theorem word_sub (x y : Int) : word (x - y) = word x - word y := by
  rw [Int.sub_eq_add_neg, word_add, BitVec.sub_eq_add_neg]
  congr 1
  exact BitVec.ofInt_neg

theorem word_bits (w : Word) (high low : Nat) :
    word (w.bits high low) = (w.extractLsb high low).setWidth 32 := by
  rw [word_natCast, Word.bits, BitVec.ofNat_toNat]

/-- The sign of a field is extended by taking its number for a signed one. -/
theorem signExtend_eq {n : Nat} (x : BitVec n) {half : Nat} (h : power n = 2 * half) :
    x.signExtend 32 = word (signed half x.toNat) := by
  have hsigned : signed half x.toNat = x.toInt := by
    have hpower : 2 ^ n = 2 * half := (power_eq n).symm.trans h
    rw [signed, BitVec.toInt_eq_toNat_cond, hpower]
    split <;> split <;> omega
  rw [hsigned]
  rfl

theorem toNat_append {m n : Nat} (x : BitVec m) (y : BitVec n) :
    (x ++ y).toNat = x.toNat * power n + y.toNat := by
  rw [BitVec.toNat_append, ← Nat.shiftLeft_add_eq_or_of_lt y.isLt, Nat.shiftLeft_eq, power_eq]
  rfl

/-! ### Immediates -/

theorem imm_load (w : Word) : Format.load.imm w = word (immediateI w) :=
  signExtend_eq (w.extractLsb' 20 12) rfl

theorem imm_store (w : Word) : Format.store.imm w = word (immediateS w) := by
  have hnat : (w.extractLsb' 25 7 ++ w.extractLsb' 7 5).toNat =
    w.bits 31 25 * 0x20 + w.bits 11 7 := toNat_append _ _
  rw [immediateS, ← hnat]
  exact signExtend_eq _ rfl

theorem imm_branch (w : Word) : Format.branch.imm w = word (immediateB w) := by
  have hnat : (w.extractLsb' 31 1 ++ w.extractLsb' 7 1 ++ w.extractLsb' 25 6 ++ w.extractLsb' 8 4
      ++ 0#1).toNat = w.bits 31 31 * 0x1000 + w.bits 7 7 * 0x800 + w.bits 30 25 * 0x20 +
        w.bits 11 8 * 2 := by
    simp only [toNat_append]
    change (((w.bits 31 31 * 2 + w.bits 7 7) * 64 + w.bits 30 25) * 16 + w.bits 11 8) * 2 + 0 = _
    omega
  rw [immediateB, ← hnat]
  exact signExtend_eq _ rfl

theorem imm_jal (w : Word) : Format.jal.imm w = word (immediateJ w) := by
  have hnat : (w.extractLsb' 31 1 ++ w.extractLsb' 12 8 ++ w.extractLsb' 20 1 ++
      w.extractLsb' 21 10 ++ 0#1).toNat = w.bits 31 31 * 0x100000 + w.bits 19 12 * 0x1000 +
        w.bits 20 20 * 0x800 + w.bits 30 21 * 2 := by
    simp only [toNat_append]
    change (((w.bits 31 31 * 256 + w.bits 19 12) * 2 + w.bits 20 20) * 1024 + w.bits 30 21) * 2
      + 0 = _
    omega
  rw [immediateJ, ← hnat]
  exact signExtend_eq _ rfl

theorem imm_lui (w : Word) : Format.lui.imm w = word (immediateU w) := by
  have hnat : (w.extractLsb' 12 20 ++ 0#12).toNat = immediateU w := by
    rw [toNat_append, immediateU, show power 12 = 0x1000 from rfl]
    exact Nat.add_zero _
  rw [← hnat, word_natCast, BitVec.ofNat_toNat]
  exact (BitVec.setWidth_eq _).symm

theorem imm_immediate (w : Word) : Format.immediate.imm w = immediate w := by
  have hshift := Format.isShift_iff (Field.funct3 w)
  rw [← Word.bits_funct3] at hshift
  rw [immediate, Format.imm]
  split
  · next h =>
    rw [if_pos (hshift.mp h), word_bits]
    rfl
  · next h =>
    rw [if_neg (fun hmem => h (hshift.mpr hmem))]
    exact imm_load w

/-! ### Arithmetic -/

section Eval

variable (a b : Word)

theorem eval_add : AluOp.add.eval a b = word (a.toInt + b.toInt) := by
  rw [word_add, word_toInt, word_toInt]
  rfl

theorem eval_sub : AluOp.sub.eval a b = word (a.toInt - b.toInt) := by
  rw [word_sub, word_toInt, word_toInt]
  rfl

theorem eval_sll : AluOp.sll.eval a b = word (a.toNat * power (b.toNat % 32)) := by
  have h : a <<< (b.toNat % 32) = BitVec.ofNat 32 (a.toNat * power (b.toNat % 32)) := by
    apply BitVec.eq_of_toNat_eq
    rw [BitVec.toNat_shiftLeft, BitVec.toNat_ofNat, power_eq, Nat.shiftLeft_eq]
    rfl
  rw [← Int.natCast_mul, word_natCast, ← h]
  rfl

theorem eval_srl : AluOp.srl.eval a b = word (a.toNat / power (b.toNat % 32)) := by
  have h : a >>> (b.toNat % 32) = BitVec.ofNat 32 (a.toNat / power (b.toNat % 32)) := by
    apply BitVec.eq_of_toNat_eq
    rw [BitVec.toNat_ushiftRight, BitVec.toNat_ofNat, power_eq, Nat.shiftRight_eq_div_pow,
      Nat.mod_eq_of_lt (Nat.lt_of_le_of_lt (Nat.div_le_self _ _) a.isLt)]
    rfl
  rw [← Int.natCast_ediv, word_natCast, ← h]
  rfl

theorem eval_sra : AluOp.sra.eval a b = word (a.toInt / power (b.toNat % 32)) := by
  have h : a.sshiftRight (b.toNat % 32) = word (a.toInt >>> (b.toNat % 32)) := rfl
  rw [Int.shiftRight_eq_div_pow] at h
  rw [power_eq]
  exact h

theorem eval_slt : AluOp.slt.eval a b = if a.toInt < b.toInt then 1 else 0 := by
  change AluOp.truth (a.slt b) = _
  rw [AluOp.truth, BitVec.slt]
  simp

theorem eval_sltu : AluOp.sltu.eval a b = if a.toNat < b.toNat then 1 else 0 := by
  change AluOp.truth (a.ult b) = _
  rw [AluOp.truth, BitVec.ult]
  simp

theorem eval_ofFunct3 (funct3 : BitVec 3) :
    (AluOp.ofFunct3 funct3).eval a b = arithmetic funct3.toNat false a b := by
  rcases funct3_cases funct3 with rfl | rfl | rfl | rfl | rfl | rfl | rfl | rfl
  · exact eval_add a b
  · exact eval_sll a b
  · exact eval_slt a b
  · exact eval_sltu a b
  · rfl
  · exact eval_srl a b
  · rfl
  · rfl

theorem eval_ofRegister? {funct3 : BitVec 3} {funct7 : BitVec 7} {op : AluOp}
    (h : AluOp.ofRegister? funct3 funct7 = some op) :
    op.eval a b = arithmetic funct3.toNat (funct7.toNat = 0x20) a b := by
  by_cases hplain : funct7 = 0#7
  · subst hplain
    obtain rfl := Option.some.inj h
    exact eval_ofFunct3 a b funct3
  by_cases halternate : funct7 = 32#7
  · subst halternate
    rcases funct3_cases funct3 with rfl | rfl | rfl | rfl | rfl | rfl | rfl | rfl
    all_goals cases h
    · exact eval_sub a b
    · exact eval_sra a b
  · simp [AluOp.ofRegister?, hplain, halternate] at h

theorem eval_ofImmediate? {funct3 : BitVec 3} {funct7 : BitVec 7} {op : AluOp}
    (h : AluOp.ofImmediate? funct3 funct7 = some op) :
    op.eval a b = arithmetic funct3.toNat (funct3.toNat = 5 ∧ funct7.toNat = 0x20) a b := by
  have plain : ¬(funct3.toNat = 5 ∧ funct7.toNat = 0x20) → (AluOp.ofFunct3 funct3).eval a b =
      arithmetic funct3.toNat (funct3.toNat = 5 ∧ funct7.toNat = 0x20) a b := by
    intro hne
    rw [decide_eq_false hne]
    exact eval_ofFunct3 a b funct3
  rw [AluOp.ofImmediate?] at h
  split at h
  · split at h
    · next hplain =>
      obtain rfl := Option.some.inj h
      refine plain fun hne => ?_
      rw [hplain] at hne
      exact absurd hne.2 (by decide)
    · split at h
      · next halternate =>
        obtain ⟨rfl, rfl⟩ := halternate
        obtain rfl := Option.some.inj h
        exact eval_sra a b
      · cases h
  · next hshift =>
    obtain rfl := Option.some.inj h
    refine plain fun hne => hshift ((Format.isShift_iff funct3).mpr ?_)
    rw [hne.1]
    decide

end Eval

/-! ### Control -/

theorem taken_eq {funct3 : BitVec 3} {op : BranchOp} (h : BranchOp.ofFunct3? funct3 = some op)
    (a b : Word) : op.taken a b = holds funct3.toNat a b := by
  rcases funct3_cases funct3 with rfl | rfl | rfl | rfl | rfl | rfl | rfl | rfl
  all_goals cases h
  · rfl
  · simp [BranchOp.taken, holds, bne]
    rfl
  · rfl
  · rfl
  · rfl
  · rfl

theorem toNat_clearLowest (a : Word) : (a &&& ~~~(1 : Word)).toNat = a.toNat - a.toNat % 2 := by
  have h : a &&& ~~~1#32 = a >>> 1 <<< 1 := by
    ext i hi
    simp only [BitVec.getElem_and, BitVec.getElem_not, BitVec.getElem_one,
      BitVec.getElem_shiftLeft, BitVec.getElem_ushiftRight]
    cases i with
    | zero => simp
    | succ i => simp [Nat.add_comm 1, BitVec.getLsbD_eq_getElem hi]
  rw [show (1 : Word) = 1#32 from rfl, h, BitVec.toNat_shiftLeft, BitVec.toNat_ushiftRight,
    Nat.shiftLeft_eq, Nat.shiftRight_eq_div_pow]
  have := a.isLt
  omega

theorem clearLowest_word (z : Int) : word z &&& ~~~(1 : Word) = word (z - z % 2) := by
  apply BitVec.eq_of_toNat_eq
  rw [toNat_clearLowest, word, word, BitVec.toNat_ofInt, BitVec.toNat_ofInt]
  omega

end Manual

/-! ### Memory -/

theorem Sparse.slice_succ {α : Type} [Inhabited α] (s : Sparse α) (i n : Nat) :
    s.slice i (n + 1) = s.get i :: s.slice (i + 1) n := by
  simp [slice, List.range_succ_eq_map, Function.comp_def, Nat.add_assoc, Nat.add_comm 1]

namespace Manual

theorem power_add (j k : Nat) : power (j + k) = power j * power k := by
  simp only [power_eq]
  exact Nat.pow_add 2 j k

theorem power_le {j k : Nat} (h : j ≤ k) : power j ≤ power k := by
  simp only [power_eq]
  exact Nat.pow_le_pow_right (by decide) h

theorem number_lt (memory : Nat → Option Byte) (a n : Nat) :
    number memory a n < power (8 * n) := by
  induction n generalizing a with
  | zero => exact Nat.zero_lt_one
  | succ n ih =>
    have hbyte : ((memory a).getD 0).toNat < 0x100 := ((memory a).getD 0).isLt
    have hrest := ih (a + 1)
    rw [number, Nat.mul_succ, Nat.add_comm (8 * n), power_add, show power 8 = 0x100 from rfl]
    omega

end Manual

namespace Word

/-- A byte of a word. -/
theorem getD_bytes (n k : Nat) (v : Word) (b : Byte) :
    (bytes n v).getD k b =
      if k < n then BitVec.ofNat 8 (v.toNat / Manual.power (8 * k)) else b := by
  induction n generalizing k v with
  | zero => simp [bytes]
  | succ n ih =>
    cases k with
    | zero =>
      have hone : v.toNat / Manual.power (8 * 0) = v.toNat := Nat.div_one _
      rw [hone, if_pos (Nat.succ_pos n)]
      exact (BitVec.ofNat_toNat 8 v).symm
    | succ k =>
      have hshift : (v >>> 8).toNat / Manual.power (8 * k) =
          v.toNat / Manual.power (8 * (k + 1)) := by
        rw [BitVec.toNat_ushiftRight, Nat.shiftRight_eq_div_pow, Nat.div_div_eq_div_mul,
          Nat.mul_succ, Nat.add_comm (8 * k), Manual.power_add]
        rfl
      rw [bytes, List.getD_cons_succ, ih, hshift]
      simp only [Nat.succ_lt_succ_iff]

theorem toNat_ofBytes_cons {bs : List Byte} (b : Byte) (h : (ofBytes bs).toNat < 0x1000000) :
    (ofBytes (b :: bs)).toNat = b.toNat + 0x100 * (ofBytes bs).toNat := by
  have hb : b.toNat < 2 ^ 8 := b.isLt
  rw [ofBytes, BitVec.toNat_or, BitVec.toNat_setWidth, BitVec.toNat_shiftLeft, Nat.shiftLeft_eq,
    Nat.mod_eq_of_lt (by omega), Nat.mod_eq_of_lt (by omega), Nat.or_comm, ← Nat.shiftLeft_eq,
    ← Nat.shiftLeft_add_eq_or_of_lt hb, Nat.shiftLeft_eq]
  omega

end Word

namespace Memory

/-- The byte at an address, where there is memory. -/
def byte? (m : Memory) (a : Nat) : Option Byte :=
  if m.base.toNat ≤ a ∧ a < m.base.toNat + m.size then some (m.cells.get (a - m.base.toNat))
  else none

variable {m : Memory} {a : Word} {n : Nat}

theorem isSome_byte?_iff {x : Nat} :
    (m.byte? x).isSome = true ↔ m.base.toNat ≤ x ∧ x < m.base.toNat + m.size := by
  simp [byte?]

/-- There is memory at all bytes of an access exactly if it has a position. -/
theorem offset?_eq (hn : 0 < n) : m.offset? a n =
    if ∀ k ∈ List.range n, (m.byte? (a.toNat + k)).isSome = true then
      some (a.toNat - m.base.toNat)
    else none := by
  simp only [isSome_byte?_iff, List.mem_range, offset?]
  congr 1
  apply propext
  constructor
  · intro h k hk
    omega
  · intro h
    have hfirst := h 0 hn
    have hlast := h (n - 1) (by omega)
    omega

/-- An access is refused for the reasons that the manual gives. -/
theorem check_eq (m : Memory) (a : Word) (width : Width) : m.check a width =
    match Manual.accessFault? m.byte? a width.bytes with
    | none => .ok (a.toNat - m.base.toNat)
    | some e => .error e := by
  have hpos : 0 < width.bytes := by cases width <;> decide
  by_cases haligned : a.toNat % width.bytes = 0
  · rw [check, if_pos haligned, Manual.accessFault?, if_neg (not_not_intro haligned), locate,
      offset?_eq hpos]
    by_cases hbytes : ∀ k ∈ List.range width.bytes, (m.byte? (a.toNat + k)).isSome = true
    · rw [if_pos hbytes, if_pos hbytes]
    · rw [if_neg hbytes, if_neg hbytes]
  · rw [check, if_neg haligned, Manual.accessFault?, if_pos haligned]

theorem isSome_byte?_of_accessFault? (h : Manual.accessFault? m.byte? a n = none) :
    ∀ k, k < n → (m.byte? (a.toNat + k)).isSome = true := by
  rw [Manual.accessFault?] at h
  split at h
  · cases h
  · split at h
    · next hbytes => exact fun k hk => hbytes k (List.mem_range.mpr hk)
    · cases h

theorem toNat_peek {x : Nat} (hn : n ≤ 4) (h : ∀ k, k < n → (m.byte? (x + k)).isSome = true) :
    (Word.ofBytes (m.peek (x - m.base.toNat) n)).toNat = Manual.number m.byte? x n := by
  induction n generalizing x with
  | zero => rfl
  | succ n ih =>
    have hbounds : m.base.toNat ≤ x ∧ x < m.base.toNat + m.size :=
      isSome_byte?_iff.mp (h 0 (Nat.succ_pos n))
    have hget : (m.byte? x).getD 0 = m.cells.get (x - m.base.toNat) := by
      rw [byte?, if_pos hbounds]
      rfl
    have hrest := ih (x := x + 1) (by omega) fun k hk => by
      have := h (k + 1) (by omega)
      rwa [Nat.add_comm k, ← Nat.add_assoc] at this
    rw [show x + 1 - m.base.toNat = x - m.base.toNat + 1 by omega] at hrest
    have hlt := Nat.lt_of_lt_of_le (Manual.number_lt m.byte? (x + 1) n)
      (Manual.power_le (show 8 * n ≤ 24 by omega))
    rw [peek, Sparse.slice_succ, Word.toNat_ofBytes_cons, Manual.number, hget, ← hrest]
    · rfl
    · exact hrest ▸ hlt

/-- Writing the low bytes of a word stores them one by one. -/
theorem byte?_poke (v : Word) (h : ∀ k, k < n → (m.byte? (a.toNat + k)).isSome = true) :
    (m.poke (a.toNat - m.base.toNat) (Word.bytes n v)).byte? =
      Manual.stored m.byte? a.toNat n v := by
  funext x
  have hfirst : 0 < n → m.base.toNat ≤ a.toNat := fun hn => (isSome_byte?_iff.mp (h 0 hn)).1
  have hsame : (m.poke (a.toNat - m.base.toNat) (Word.bytes n v)).byte? x =
      if m.base.toNat ≤ x ∧ x < m.base.toNat + m.size then
        some ((m.cells.setAll (a.toNat - m.base.toNat) (Word.bytes n v)).get (x - m.base.toNat))
      else none := rfl
  rw [hsame, Sparse.get_setAll, Word.getD_bytes, Manual.stored]
  by_cases hx : a.toNat ≤ x ∧ x < a.toNat + n
  · have hbounds := isSome_byte?_iff.mp (h (x - a.toNat) (by omega))
    have hbase := hfirst (by omega)
    rw [if_pos hx, if_pos (by omega), if_pos (by omega), if_pos (by omega),
      show x - m.base.toNat - (a.toNat - m.base.toNat) = x - a.toNat by omega]
  · rw [if_neg hx, byte?]
    by_cases hbounds : m.base.toNat ≤ x ∧ x < m.base.toNat + m.size
    · rw [if_pos hbounds, if_pos hbounds]
      split
      · rw [if_neg (by omega)]
      · rfl
    · rw [if_neg hbounds, if_neg hbounds]

end Memory

/-! ### Loads and stores -/

namespace Manual

theorem width_eq (w : Word) : width w = (Width.ofFunct3 (Field.funct3 w)).bytes := by
  rw [width, Word.bits_funct3]
  rcases funct3_cases (Field.funct3 w) with h | h | h | h | h | h | h | h
  all_goals
    rw [h]
    rfl

/-- What a load makes of the number that it has read is its value. -/
theorem extendLoaded_number (funct3 : BitVec 3) (memory : Nat → Option Byte) (a : Nat) :
    extendLoaded funct3 (word (number memory a (Width.ofFunct3 funct3).bytes)) =
      loaded funct3.toNat memory a := by
  have hbyte : number memory a 1 < 0x100 := number_lt memory a 1
  have hhalf : number memory a 2 < 0x10000 := number_lt memory a 2
  rcases funct3_cases funct3 with rfl | rfl | rfl | rfl | rfl | rfl | rfl | rfl
  · change ((word (number memory a 1)).setWidth 8).signExtend 32 = word (signed 0x80 _)
    rw [signExtend_eq _ rfl, word_natCast, BitVec.toNat_setWidth, BitVec.toNat_ofNat,
      Nat.mod_eq_of_lt (by omega), Nat.mod_eq_of_lt (by omega)]
  · change ((word (number memory a 2)).setWidth 16).signExtend 32 = word (signed 0x8000 _)
    rw [signExtend_eq _ rfl, word_natCast, BitVec.toNat_setWidth, BitVec.toNat_ofNat,
      Nat.mod_eq_of_lt (by omega), Nat.mod_eq_of_lt (by omega)]
  all_goals rfl

end Manual

/-- What is read, where it succeeds, is the number that the bytes stand for. -/
theorem Memory.read_eq (m : Memory) (a : Word) (width : Width) : m.read a width =
    match Manual.accessFault? m.byte? a width.bytes with
    | none => .ok (Manual.word (Manual.number m.byte? a.toNat width.bytes))
    | some e => .error e := by
  rw [read, check_eq]
  cases h : Manual.accessFault? m.byte? a width.bytes with
  | some e => rfl
  | none =>
    have hle : width.bytes ≤ 4 := by cases width <;> decide
    have hpeek := toNat_peek hle (isSome_byte?_of_accessFault? h)
    rw [← hpeek, Manual.word_natCast, BitVec.ofNat_toNat, BitVec.setWidth_eq]
    rfl

/-- What is written, where it succeeds, are the bytes of the number. -/
theorem Memory.write_eq (m : Memory) (a : Word) (width : Width) (v : Word) : m.write a width v =
    match Manual.accessFault? m.byte? a width.bytes with
    | none => .ok (m.poke (a.toNat - m.base.toNat) (Word.bytes width.bytes v))
    | some e => .error e := by
  rw [write, check_eq]
  cases Manual.accessFault? m.byte? a width.bytes <;> rfl

/-! ### Control and status registers -/

theorem Csr.isReadOnly_iff (a : Csr) : a.isReadOnly = true ↔ a ∈ Manual.fixed := by
  simp only [isReadOnly, isCounter, Bool.or_eq_true, beq_iff_eq, Manual.fixed, List.mem_cons,
    List.not_mem_nil, or_false, or_assoc]
  rfl

theorem Manual.csr_eq (w : Word) : csr w = Field.csr w := by
  rw [csr, Word.bits_csr, BitVec.ofNat_toNat, BitVec.setWidth_eq]

theorem CsrFile.read_write (f : CsrFile) (a r : Csr) (v : Word) :
    (f.write a v).read r = if r = a ∧ r ∉ Manual.fixed then v else f.read r := by
  by_cases ha : a.isReadOnly = true
  · have hfixed := (Csr.isReadOnly_iff a).mp ha
    rw [write, if_pos ha, if_neg]
    rintro ⟨rfl, hr⟩
    exact hr hfixed
  rw [write, if_neg ha]
  cases hcounter : r.isCounter with
  | true =>
    have hfixed : r ∈ Manual.fixed := by
      rw [← Csr.isReadOnly_iff, Csr.isReadOnly, hcounter, Bool.true_or]
    rw [if_neg (fun h => h.2 hfixed)]
    simp only [Csr.isCounter, Bool.or_eq_true, beq_iff_eq] at hcounter
    rcases hcounter with ((((rfl | rfl) | rfl) | rfl) | rfl) | rfl <;> rfl
  | false =>
    rw [read_of_not_isCounter _ hcounter, read_of_not_isCounter _ hcounter, Sparse.get_set]
    by_cases hra : r = a
    · subst hra
      rw [if_pos rfl, if_pos ⟨rfl, fun h => ha ((Csr.isReadOnly_iff r).mpr h)⟩]
    · rw [if_neg (fun h => hra (BitVec.eq_of_toNat_eq h).symm), if_neg (fun h => hra h.1)]

/-- Setting or clearing no bits is no change, as if it were not done at all. -/
theorem Instruction.Accesses.read {i : Instruction} {f : CsrFunction} (h : i.Accesses f) (a : Word)
    (file : CsrFile) (r : Csr) : (i.accessCsr a file).2.read r =
      if r = i.csr ∧ r ∉ Manual.fixed then f.apply (file.read i.csr) (i.csrSource a)
      else file.read r := by
  rw [h a file]
  dsimp only
  split
  · next hnone =>
    have hsame : f.apply (file.read i.csr) (i.csrSource a) = file.read i.csr := by
      rw [hnone.2]
      cases f with
      | swap => exact absurd rfl hnone.1
      | set => exact BitVec.or_zero
      | clear =>
        change file.read i.csr &&& ~~~0#32 = _
        rw [BitVec.not_zero, BitVec.and_allOnes]
    rw [hsame]
    split
    · next hr => rw [hr.1]
    · rfl
  · exact file.read_write _ _ _

end OutOfOrder
