import OutOfOrder.Proofs.InstructionSet
import OutOfOrder.Semantics.Effect

/-!
# The printed form identifies an instruction

In reports an instruction appears as its printed form only. Which operands are printed depends on
the control word, and neither the function codes nor the register fields that are not in use are
printed at all. All the same, nothing that matters is lost: of two instructions with the same
printed form, whatever words they have been decoded from, the one does what the other does. The only
exceptions are the accesses to a control and status register that take their source from the
register field, since that number is not printed.

The proof reads the text from the left. The mnemonic ends at the first comma or blank, and it is the
name of one operation of one format; this settles the control word, except that the destination may
be `x0` and then is not written. Commas separate what follows, and the last part is always the
address and the serial number. So the number of operands is known, and with it whether there is a
destination among them.

## Main definitions

* `isToken`, `listing` — what separates the parts of a text
* `operations` — the table of mnemonics, read backwards
* `Control.Agrees` — control words of the same operation
* `Instruction.Matches` — instructions that decoding has found out the same about

## Main results

* `toDigits_injective` — numerals can be read
* `listing_inj`, `Instruction.text_inj` — texts can be taken apart
* `lookup_mnemonic`, `Format.control?_agrees` — what a mnemonic says
* `Instruction.text_identifies` — instructions with the same printed form do the same
-/

namespace OutOfOrder

/-! ### Numerals -/

theorem digitChar_inj {m n : Nat} (hm : m < 16) (hn : n < 16)
    (h : Nat.digitChar m = Nat.digitChar n) : m = n := by
  have hall : ∀ m < 16, ∀ n < 16, Nat.digitChar m = Nat.digitChar n → m = n := by decide
  exact hall m hm n hn h

/-- Different numbers have different numerals, in any base for which there are digits. -/
theorem toDigits_injective {b : Nat} (hb : 1 < b) (hb16 : b ≤ 16) :
    Function.Injective (Nat.toDigits b) := by
  intro m
  induction m using Nat.strongRecOn with
  | ind m ih =>
    intro n h
    have hlast : ∀ k, k % b < 16 := fun k =>
      Nat.lt_of_lt_of_le (Nat.mod_lt k (by omega)) hb16
    by_cases hm : m < b <;> by_cases hn : n < b
    · rw [Nat.toDigits_of_lt_base hm, Nat.toDigits_of_lt_base hn] at h
      exact digitChar_inj (by omega) (by omega) (List.singleton_inj.mp h)
    · rw [Nat.toDigits_of_lt_base hm, Nat.toDigits_of_base_le hb (Nat.not_lt.mp hn)] at h
      have hinit : [] ++ [Nat.digitChar m] = Nat.toDigits b (n / b) ++ [Nat.digitChar (n % b)] := h
      exact absurd (List.append_inj' hinit rfl).1.symm Nat.toDigits_ne_nil
    · rw [Nat.toDigits_of_base_le hb (Nat.not_lt.mp hm), Nat.toDigits_of_lt_base hn] at h
      have hinit : Nat.toDigits b (m / b) ++ [Nat.digitChar (m % b)] = [] ++ [Nat.digitChar n] := h
      exact absurd (List.append_inj' hinit rfl).1 Nat.toDigits_ne_nil
    · rw [Nat.toDigits_of_base_le hb (Nat.not_lt.mp hm),
        Nat.toDigits_of_base_le hb (Nat.not_lt.mp hn)] at h
      obtain ⟨hinit, hdigit⟩ := List.append_inj' h rfl
      have hquotient : m / b = n / b := ih _ (Nat.div_lt_self (by omega) hb) hinit
      have hremainder : m % b = n % b :=
        digitChar_inj (hlast m) (hlast n) (List.singleton_inj.mp hdigit)
      rw [← Nat.div_add_mod m b, ← Nat.div_add_mod n b, hquotient, hremainder]

theorem exists_digitChar_of_mem {b : Nat} (hb : 1 < b) {n : Nat} {c : Char}
    (h : c ∈ Nat.toDigits b n) : ∃ d, Nat.digitChar d = c := by
  induction n using Nat.strongRecOn with
  | ind n ih =>
    rw [Nat.toDigits_eq_if hb] at h
    split at h
    · exact ⟨n, (List.mem_singleton.mp h).symm⟩
    · rcases List.mem_append.mp h with h | h
      · exact ih _ (Nat.div_lt_self (by omega) hb) h
      · exact ⟨n % b, (List.mem_singleton.mp h).symm⟩

theorem Hex.toList_plain (n : Nat) : (Hex.plain n).toList = '0' :: 'x' :: Nat.toDigits 16 n := by
  simp [plain, digits]

theorem Reg.toList_name (r : Reg) : (Reg.name r).toList = 'x' :: Nat.toDigits 10 r.toNat := by
  rw [name, String.toList_append, Nat.toString_eq_repr, Nat.toList_repr]
  rfl

theorem Hex.plain_injective : Function.Injective Hex.plain := by
  intro m n h
  have hchars := congrArg String.toList h
  rw [toList_plain, toList_plain, List.cons_inj_right, List.cons_inj_right] at hchars
  exact toDigits_injective (by omega) (by omega) hchars

theorem Reg.name_injective : Function.Injective Reg.name := by
  intro r s h
  have hchars := congrArg String.toList h
  rw [toList_name, toList_name, List.cons_inj_right] at hchars
  exact BitVec.eq_of_toNat_eq (toDigits_injective (by omega) (by omega) hchars)

/-! ### Separators -/

/-- Is a character neither a comma nor a blank? -/
def isTokenChar (c : Char) : Bool := c != ',' && c != ' '

/-- A text without commas and blanks. -/
def isToken (s : String) : Bool := s.toList.all isTokenChar

theorem mem_of_isToken {s : String} (h : isToken s = true) :
    ∀ c ∈ s.toList, isTokenChar c = true := List.all_eq_true.mp h

theorem comma_notMem_of_isTokenChar {cs : List Char} (h : ∀ c ∈ cs, isTokenChar c = true) :
    ',' ∉ cs := by
  intro hmem
  cases h _ hmem

theorem isTokenChar_of_mem_toDigits {b n : Nat} (hb : 1 < b) :
    ∀ c ∈ Nat.toDigits b n, isTokenChar c = true := by
  intro c hc
  obtain ⟨d, rfl⟩ := exists_digitChar_of_mem hb hc
  have hcomma : Nat.digitChar d ≠ ',' := Nat.digitChar_ne _ (by decide)
  have hblank : Nat.digitChar d ≠ ' ' := Nat.digitChar_ne _ (by decide)
  simp [isTokenChar, hcomma, hblank]

theorem Hex.isToken_plain (n : Nat) : isToken (Hex.plain n) = true := by
  rw [isToken, toList_plain, List.all_cons, List.all_cons,
    List.all_eq_true.mpr (isTokenChar_of_mem_toDigits (by omega))]
  rfl

theorem Reg.isToken_name (r : Reg) : isToken (Reg.name r) = true := by
  rw [isToken, toList_name, List.all_cons,
    List.all_eq_true.mpr (isTokenChar_of_mem_toDigits (by omega))]
  rfl

/-- A beginning that has only elements of one kind can be told from the rest, if the rest does not
begin with such an element. -/
theorem append_inj_of_takeWhile {α : Type} {p : α → Bool} {a b r s : List α}
    (ha : ∀ x ∈ a, p x = true) (hb : ∀ x ∈ b, p x = true) (hr : r.takeWhile p = [])
    (hs : s.takeWhile p = []) (h : a ++ r = b ++ s) : a = b ∧ r = s := by
  have hab : a = b := by
    have htake := congrArg (List.takeWhile p) h
    rwa [List.takeWhile_append_of_pos ha, List.takeWhile_append_of_pos hb, hr, hs,
      List.append_nil, List.append_nil] at htake
  subst hab
  exact ⟨rfl, List.append_cancel_left h⟩

/-- Texts, each of them behind a comma and a blank. -/
def listing : List String → List Char
  | [] => []
  | t :: ts => ',' :: ' ' :: (t.toList ++ listing ts)

theorem listing_append (ts us : List String) : listing (ts ++ us) = listing ts ++ listing us := by
  induction ts with
  | nil => rfl
  | cons t ts ih => simp [listing, ih]

theorem toList_join (ts : List String) :
    (String.join (ts.map fun u => ", " ++ u)).toList = listing ts := by
  induction ts with
  | nil => rfl
  | cons t ts ih => simp [listing, ← ih]

/-- A listing has the texts in it that it has been made of, if they contain no commas. -/
theorem listing_inj {ts us : List String} (hts : ∀ t ∈ ts, ',' ∉ t.toList)
    (hus : ∀ u ∈ us, ',' ∉ u.toList) (h : listing ts = listing us) : ts = us := by
  induction ts generalizing us with
  | nil =>
    cases us with
    | nil => rfl
    | cons u us => cases h
  | cons t ts ih =>
    cases us with
    | nil => cases h
    | cons u us =>
      have hinside : ∀ {t : String}, ',' ∉ t.toList → ∀ c ∈ t.toList, (c != ',') = true :=
        fun ht c hc => bne_iff_ne.mpr fun hcomma => ht (hcomma ▸ hc)
      have hstop : ∀ vs, (listing vs).takeWhile (· != ',') = [] := by
        intro vs
        cases vs <;> rfl
      obtain ⟨ht, hts'⟩ := List.forall_mem_cons.mp hts
      obtain ⟨hu, hus'⟩ := List.forall_mem_cons.mp hus
      rw [listing, listing, List.cons_inj_right, List.cons_inj_right] at h
      obtain ⟨hhead, htail⟩ :=
        append_inj_of_takeWhile (hinside ht) (hinside hu) (hstop ts) (hstop us) h
      rw [String.toList_inj.mp hhead, ih hts' hus' htail]

namespace Instruction

/-- The last part of the printed form. -/
def stamp (i : Instruction) : String :=
  "PC=" ++ Hex.plain i.pc.toNat ++ " (#" ++ toString i.uuid ++ ")"

/-- All that is printed behind the mnemonic, in parts. -/
def parts (i : Instruction) : List String := i.operandTexts ++ [i.stamp]

/-- What is printed behind the mnemonic. The first operand has no comma before it. -/
def remainder (i : Instruction) : List Char :=
  if i.operandTexts = [] then listing i.parts else (listing i.parts).tail

variable {i j : Instruction}

theorem toList_text {name : String} (h : i.mnemonic? = some name) :
    i.text.toList = name.toList ++ i.remainder := by
  have horigin : i.origin.toList = listing [i.stamp] := by
    simp [origin, stamp, listing]
  rw [text, text?, h, remainder, parts, listing_append, ← horigin]
  cases i.operandTexts with
  | nil => simp [operandList, listing]
  | cons t ts => simp [operandList, listing, ← toList_join]

theorem toList_stamp (i : Instruction) : i.stamp.toList =
    "PC=0x".toList ++ (Nat.toDigits 16 i.pc.toNat ++
      (" (#".toList ++ (Nat.toDigits 10 i.uuid ++ [')']))) := by
  simp [stamp, Hex.toList_plain]

theorem comma_notMem_stamp (i : Instruction) : ',' ∉ i.stamp.toList := by
  have hdigits : ∀ {b n : Nat}, 1 < b → ',' ∉ Nat.toDigits b n := fun hb =>
    comma_notMem_of_isTokenChar (isTokenChar_of_mem_toDigits hb)
  simp only [toList_stamp, List.mem_append, not_or]
  exact ⟨by decide, hdigits (by omega), by decide, hdigits (by omega), by decide⟩

theorem stamp_inj (h : i.stamp = j.stamp) : i.pc = j.pc ∧ i.uuid = j.uuid := by
  have hchars := congrArg String.toList h
  rw [toList_stamp, toList_stamp] at hchars
  obtain ⟨hpc, hrest⟩ := append_inj_of_takeWhile (isTokenChar_of_mem_toDigits (by omega))
    (isTokenChar_of_mem_toDigits (by omega)) rfl rfl (List.append_cancel_left hchars)
  have huuid := List.append_cancel_right (List.append_cancel_left hrest)
  exact ⟨BitVec.eq_of_toNat_eq (toDigits_injective (by omega) (by omega) hpc),
    toDigits_injective (by omega) (by omega) huuid⟩

theorem isToken_of_mem_operandTexts {t : String} (h : t ∈ i.operandTexts) : isToken t = true := by
  have hif : ∀ {b : Bool} {u : String}, t ∈ (if b = true then [u] else []) → t = u := by
    intro b u ht
    cases b with
    | false => cases ht
    | true => exact List.mem_singleton.mp ht
  simp only [operandTexts, List.mem_append] at h
  rcases h with ((h | h) | h) | h <;> rw [hif h]
  · exact Reg.isToken_name _
  · exact Reg.isToken_name _
  · exact Reg.isToken_name _
  · exact Hex.isToken_plain _

theorem comma_notMem_parts (i : Instruction) : ∀ t ∈ i.parts, ',' ∉ t.toList := by
  intro t ht
  rcases List.mem_append.mp ht with ht | ht
  · exact comma_notMem_of_isTokenChar (mem_of_isToken (isToken_of_mem_operandTexts ht))
  · rw [List.mem_singleton.mp ht]
    exact i.comma_notMem_stamp

theorem parts_inj (h : i.parts = j.parts) :
    i.operandTexts = j.operandTexts ∧ i.pc = j.pc ∧ i.uuid = j.uuid := by
  obtain ⟨hops, hstamp⟩ := List.append_inj' h rfl
  exact ⟨hops, stamp_inj (List.singleton_inj.mp hstamp)⟩

/-- An operand begins with a blank, and anything else with a comma. -/
theorem remainder_inj (h : i.remainder = j.remainder) : i.parts = j.parts := by
  refine listing_inj i.comma_notMem_parts j.comma_notMem_parts ?_
  have hparts : ∀ k : Instruction, ∃ cs, listing k.parts = ',' :: ' ' :: cs := by
    intro k
    rw [parts]
    cases k.operandTexts <;> exact ⟨_, rfl⟩
  obtain ⟨cs, hcs⟩ := hparts i
  obtain ⟨ds, hds⟩ := hparts j
  rw [remainder, remainder, hcs, hds] at h
  rw [hcs, hds]
  split at h <;> split at h
  · exact h
  · cases h
  · cases h
  · exact congrArg _ h

theorem takeWhile_remainder (i : Instruction) : i.remainder.takeWhile isTokenChar = [] := by
  rw [remainder, parts]
  split
  · next hnone =>
    rw [hnone]
    rfl
  · next hsome =>
    obtain ⟨t, ts, hops⟩ := List.exists_cons_of_ne_nil hsome
    rw [hops]
    rfl

/-- The printed form can be read back as far as it goes. -/
theorem text_inj {name name' : String} (hi : i.mnemonic? = some name)
    (hj : j.mnemonic? = some name') (hname : isToken name = true) (hname' : isToken name' = true)
    (h : i.text = j.text) :
    name = name' ∧ i.operandTexts = j.operandTexts ∧ i.pc = j.pc ∧ i.uuid = j.uuid := by
  have hchars := congrArg String.toList h
  rw [toList_text hi, toList_text hj] at hchars
  obtain ⟨hhead, hrest⟩ := append_inj_of_takeWhile (mem_of_isToken hname) (mem_of_isToken hname')
    i.takeWhile_remainder j.takeWhile_remainder hchars
  exact ⟨String.toList_inj.mp hhead, parts_inj (remainder_inj hrest)⟩

end Instruction

/-! ### Mnemonics -/

/-- The minor function code, where the format has one that tells operations apart. -/
def Format.minorCode (f : Format) (funct3 : BitVec 3) : BitVec 3 :=
  match f with
  | .lui | .auipc | .jal | .jalr | .fence => 0
  | .register | .immediate | .load | .store | .branch | .system => funct3

/-- The table of names read backwards: the format and the minor function code that each of them
stands for. -/
def operations : List (String × Format × BitVec 3) :=
  [("LUI", .lui, 0), ("AUIPC", .auipc, 0), ("JAL", .jal, 0), ("JALR", .jalr, 0),
    ("FENCE", .fence, 0),
    ("ADD", .register, 0), ("SUB", .register, 0), ("SLL", .register, 1), ("SLT", .register, 2),
    ("SLTU", .register, 3), ("XOR", .register, 4), ("SRL", .register, 5), ("SRA", .register, 5),
    ("OR", .register, 6), ("AND", .register, 7),
    ("ADDI", .immediate, 0), ("SLLI", .immediate, 1), ("SLTI", .immediate, 2),
    ("SLTIU", .immediate, 3), ("XORI", .immediate, 4), ("SRLI", .immediate, 5),
    ("SRAI", .immediate, 5), ("ORI", .immediate, 6), ("ANDI", .immediate, 7),
    ("BEQ", .branch, 0), ("BNE", .branch, 1), ("BLT", .branch, 4), ("BGE", .branch, 5),
    ("BLTU", .branch, 6), ("BGEU", .branch, 7),
    ("LB", .load, 0), ("LH", .load, 1), ("LW", .load, 2), ("LBU", .load, 4), ("LHU", .load, 5),
    ("SB", .store, 0), ("SH", .store, 1), ("SW", .store, 2),
    ("ECALL", .system, 0), ("EBREAK", .system, 0), ("URET", .system, 0), ("SRET", .system, 0),
    ("MRET", .system, 0),
    ("CSRRW", .system, 1), ("CSRRS", .system, 2), ("CSRRC", .system, 3), ("CSRRWI", .system, 5),
    ("CSRRSI", .system, 6), ("CSRRCI", .system, 7)]

theorem mem_privilegedNames {funct7 : BitVec 7} {imm : Word} {name : String}
    (h : Format.system.mnemonic? 0 funct7 imm = some name) : (name, imm) ∈ privilegedNames := by
  change (if imm = 0x000 then some "ECALL" else ite _ _ _) = _ at h
  repeat' split at h
  all_goals first
    | cases h
      subst imm
      decide
    | cases h

/-- A mnemonic belongs to one format, and to one minor function code if the format has any. -/
theorem lookup_mnemonic {f : Format} {funct3 : BitVec 3} {funct7 : BitVec 7} {imm : Word}
    {name : String} (h : f.mnemonic? funct3 funct7 imm = some name) :
    operations.lookup name = some (f, f.minorCode funct3) := by
  cases f with
  | lui | auipc | jal | jalr | fence =>
    obtain rfl := Option.some.inj h
    rfl
  | register | immediate =>
    rw [Format.mnemonic?.eq_def] at h
    rcases funct3_cases funct3 with rfl | rfl | rfl | rfl | rfl | rfl | rfl | rfl
    all_goals
      obtain rfl := Option.some.inj h
      first
        | rfl
        | cases funct7.getLsbD 5 <;> rfl
  | load | store | branch =>
    rcases funct3_cases funct3 with rfl | rfl | rfl | rfl | rfl | rfl | rfl | rfl
    all_goals cases h <;> rfl
  | system =>
    rcases funct3_cases funct3 with rfl | rfl | rfl | rfl | rfl | rfl | rfl | rfl
    · have hall : ∀ x ∈ privilegedNames, operations.lookup x.1 = some (.system, 0) := by decide
      exact hall _ (mem_privilegedNames h)
    all_goals cases h <;> rfl

theorem isToken_of_mnemonic? {f : Format} {funct3 : BitVec 3} {funct7 : BitVec 7} {imm : Word}
    {name : String} (h : f.mnemonic? funct3 funct7 imm = some name) : isToken name = true := by
  have hall : ∀ x ∈ operations, isToken x.1 = true := by decide
  obtain ⟨x, hx, hname⟩ :=
    List.lookup_isSome_iff.mp (Option.isSome_of_eq_some (lookup_mnemonic h))
  exact beq_iff_eq.mp hname ▸ hall x hx

theorem AluOp.name_injective : Function.Injective AluOp.name := by
  intro a b
  cases a <;> cases b <;> decide

theorem AluOp.immediateName_injective : Function.Injective AluOp.immediateName := by
  intro a b
  cases a <;> cases b <;> decide

theorem BranchOp.name_injective : Function.Injective BranchOp.name := by
  intro a b
  cases a <;> cases b <;> decide

/-- If no two operations have the same name, the name tells the operation. -/
theorem eq_of_named {α : Type} {nameOf : α → String} (hinj : Function.Injective nameOf) {a b : α}
    {x y : Option String} {name : String} (ha : x = some (nameOf a)) (hb : y = some (nameOf b))
    (hx : x = some name) (hy : y = some name) : a = b := by
  rw [ha] at hx
  rw [hb, ← hx] at hy
  exact (hinj (Option.some.inj hy)).symm

/-- Control words that tell the same but, perhaps, whether a register is written. -/
def Control.Agrees (c d : Control) : Prop := { c with usesRd := false } = { d with usesRd := false }

theorem systemControl?_agrees {w v : Word} {c d : Control} {name : String}
    (hc : systemControl? w = some c) (hd : systemControl? v = some d)
    (hcode : Field.funct3 w = Field.funct3 v)
    (hw : Format.system.mnemonic? (Field.funct3 w) (Field.funct7 w) (Format.system.imm w) =
      some name)
    (hv : Format.system.mnemonic? (Field.funct3 v) (Field.funct7 v) (Format.system.imm v) =
      some name) : c.Agrees d := by
  rw [systemControl?] at hc hd
  rw [← hcode] at hd hv
  rcases funct3_cases (Field.funct3 w) with hf | hf | hf | hf | hf | hf | hf | hf
  all_goals rw [hf] at hc hd hw hv
  · -- the name of an instruction without a function code tells its immediate
    have hunique : ∀ x ∈ privilegedNames, ∀ y ∈ privilegedNames, x.1 = y.1 → x.2 = y.2 := by
      decide
    have himm : Format.system.imm w = Format.system.imm v :=
      hunique _ (mem_privilegedNames hw) _ (mem_privilegedNames hv) rfl
    rw [← himm] at hd
    rw [Option.some.inj (hc.symm.trans hd)]
    rfl
  all_goals first
    | cases hc
      cases hd
      rfl
    | cases hc

/-- Of the control word, a mnemonic leaves open only whether a register is written. -/
theorem Format.control?_agrees {f : Format} {w v : Word} {c d : Control} {name : String}
    (hc : f.control? w = some c) (hd : f.control? v = some d)
    (hw : f.mnemonic? (Field.funct3 w) (Field.funct7 w) (f.imm w) = some name)
    (hv : f.mnemonic? (Field.funct3 v) (Field.funct7 v) (f.imm v) = some name) : c.Agrees d := by
  cases f with
  | register =>
    obtain ⟨op, hop, rfl⟩ := Option.map_eq_some_iff.mp hc
    obtain ⟨op', hop', rfl⟩ := Option.map_eq_some_iff.mp hd
    obtain rfl := eq_of_named AluOp.name_injective (AluOp.name_ofRegister? _ hop)
      (AluOp.name_ofRegister? _ hop') hw hv
    rfl
  | immediate =>
    obtain ⟨op, hop, rfl⟩ := Option.map_eq_some_iff.mp hc
    obtain ⟨op', hop', rfl⟩ := Option.map_eq_some_iff.mp hd
    obtain rfl := eq_of_named AluOp.immediateName_injective (AluOp.name_ofImmediate? _ hop)
      (AluOp.name_ofImmediate? _ hop') hw hv
    rfl
  | branch =>
    obtain ⟨op, hop, rfl⟩ := Option.map_eq_some_iff.mp hc
    obtain ⟨op', hop', rfl⟩ := Option.map_eq_some_iff.mp hd
    obtain rfl := eq_of_named BranchOp.name_injective (BranchOp.name_ofFunct3? _ _ hop)
      (BranchOp.name_ofFunct3? _ _ hop') hw hv
    rfl
  | load | store | jalr =>
    obtain ⟨-, hc⟩ := Option.ite_none_right_eq_some.mp hc
    obtain ⟨-, hd⟩ := Option.ite_none_right_eq_some.mp hd
    cases hc
    cases hd
    rfl
  | lui | auipc | jal | fence =>
    cases hc
    cases hd
    rfl
  | system =>
    have hcode := Option.some.inj ((lookup_mnemonic hw).symm.trans (lookup_mnemonic hv))
    exact systemControl?_agrees hc hd (congrArg Prod.snd hcode) hw hv

theorem Format.control?_usesImm {f : Format} {w : Word} {c : Control} (h : f.control? w = some c) :
    c.usesImm = true ∨ ∀ v, f.imm v = 0 := by
  cases f with
  | register | fence => exact .inr fun _ => rfl
  | immediate | branch =>
    obtain ⟨op, -, rfl⟩ := Option.map_eq_some_iff.mp h
    exact .inl rfl
  | load | store | jalr =>
    obtain ⟨-, hc⟩ := Option.ite_none_right_eq_some.mp h
    cases hc
    exact .inl rfl
  | lui | auipc | jal =>
    cases h
    exact .inl rfl
  | system =>
    have hsystem : systemControl? w = some c := h
    rw [systemControl?] at hsystem
    dsimp only at hsystem
    repeat' split at hsystem
    all_goals first
      | cases hsystem
        exact .inl rfl
      | cases hsystem

/-- The accesses to a control and status register whose source is the number in the register field.
That number is not printed. -/
def fieldSourceNames : List String := ["CSRRWI", "CSRRSI", "CSRRCI"]

theorem Format.mnemonic?_of_aluField {f : Format} {w : Word} {c : Control}
    (h : f.control? w = some c) (hfield : c.aluField = true) :
    ∃ name ∈ fieldSourceNames,
      f.mnemonic? (Field.funct3 w) (Field.funct7 w) (f.imm w) = some name := by
  cases f with
  | register | immediate | branch =>
    obtain ⟨op, -, rfl⟩ := Option.map_eq_some_iff.mp h
    cases hfield
  | load | store | jalr =>
    obtain ⟨-, hc⟩ := Option.ite_none_right_eq_some.mp h
    cases hc
    cases hfield
  | lui | auipc | jal | fence =>
    cases h
    cases hfield
  | system =>
    have hsystem : systemControl? w = some c := h
    rw [systemControl?] at hsystem
    rcases funct3_cases (Field.funct3 w) with hf | hf | hf | hf | hf | hf | hf | hf
    all_goals rw [hf] at hsystem ⊢
    · change (if isExitCode (system.imm w) = true then _ else ite _ _ _) = _ at hsystem
      repeat' split at hsystem
      all_goals first
        | cases hsystem
          cases hfield
        | cases hsystem
    all_goals first
      | exact ⟨_, by decide, rfl⟩
      | cases hsystem
        cases hfield
      | cases hsystem

/-! ### Operands -/

theorem append_ite_inj {xs ys : List String} {p q : Bool} {s t : String} (hpq : p = q)
    (h : xs ++ (if p = true then [s] else []) = ys ++ if q = true then [t] else []) :
    xs = ys ∧ (p = true → s = t) := by
  subst hpq
  cases p with
  | false => exact ⟨by simpa using h, nofun⟩
  | true =>
    obtain ⟨hinit, hlast⟩ := List.append_inj' h rfl
    exact ⟨hinit, fun _ => List.singleton_inj.mp hlast⟩

theorem ite_singleton_inj {p q : Bool} {s t : String}
    (h : (if p = true then [s] else []) = if q = true then [t] else []) :
    p = q ∧ (p = true → s = t) := by
  cases p <;> cases q <;> simp_all

namespace Instruction

variable {i j : Instruction}

/-- The number of operands tells whether a register is written, and then each operand has its
place. -/
theorem operandTexts_inj (hagrees : i.control.Agrees j.control)
    (h : i.operandTexts = j.operandTexts) :
    i.control = j.control ∧ (i.control.usesRd = true → i.rd = j.rd) ∧
      (i.control.usesRs1 = true → i.rs1 = j.rs1) ∧ (i.control.usesRs2 = true → i.rs2 = j.rs2) ∧
      (i.control.usesImm = true → i.imm = j.imm) := by
  obtain ⟨h, himm⟩ := append_ite_inj (congrArg Control.usesImm hagrees :) h
  obtain ⟨h, hrs2⟩ := append_ite_inj (congrArg Control.usesRs2 hagrees :) h
  obtain ⟨h, hrs1⟩ := append_ite_inj (congrArg Control.usesRs1 hagrees :) h
  obtain ⟨husesRd, hrd⟩ := ite_singleton_inj h
  refine ⟨?_, fun hu => Reg.name_injective (hrd hu), fun hu => Reg.name_injective (hrs1 hu),
    fun hu => Reg.name_injective (hrs2 hu),
    fun hu => BitVec.eq_of_toNat_eq (Hex.plain_injective (himm hu))⟩
  calc i.control = { { i.control with usesRd := false } with usesRd := i.control.usesRd } := rfl
    _ = { { j.control with usesRd := false } with usesRd := i.control.usesRd } := by rw [hagrees]
    _ = j.control := by rw [husesRd]

/-! ### What computing looks at -/

/-- Instructions that agree in these parts compute the same from the same operands. -/
theorem compute_eq_of_parts (hcontrol : i.control = j.control) (hpc : i.pc = j.pc)
    (himm : i.imm = j.imm)
    (hcode : i.unit = .memory ∨ i.unit = .system → i.funct3 = j.funct3)
    (hcsr : i.unit = .system → i.csr = j.csr) (hrs1 : i.control.aluField = true → i.rs1 = j.rs1)
    (a b : Word) (m : Memory) (f : CsrFile) : i.compute a b m f = j.compute a b m f := by
  have hunit : j.unit = i.unit := congrArg Control.unit hcontrol.symm
  rw [compute, compute, hunit]
  cases hk : i.unit with
  | alu => simp only [arithmetic, aluInput1, aluInput2, hcontrol, hpc, himm]
  | branch => simp only [link, target, fallThrough, hcontrol, hpc, himm]
  | memory => simp only [loadStore, access, width, loaded, hcontrol, himm, hcode (.inl hk)]
  | system =>
    have hsource : i.csrSource a = j.csrSource a := by
      rw [csrSource, csrSource, ← hcontrol]
      split
      · next hfield => rw [hrs1 hfield]
      · rfl
    have haccess : i.accessCsr a f = j.accessCsr a f := by
      rw [accessCsr, accessCsr, isSwap, isSwap, csrOperand, csrOperand, hsource, hcontrol,
        hcode (.inr hk), hcsr hk]
    rw [haccess]

theorem Decoded.selected (h : i.Decoded) :
    i.word.bits 6 0 = i.format.opcode.toNat ∧ i.format.control? i.word = some i.control := by
  obtain ⟨f, c, hopcode, hc, hi⟩ := decode_eq_ok_iff.mp h
  rw [hi]
  exact ⟨hopcode, hc⟩

theorem Decoded.format_of_unit (h : i.Decoded) :
    (i.unit = .memory → i.format = .load ∨ i.format = .store) ∧
      (i.unit = .system → i.format = .system) := by
  obtain ⟨hopcode, hc⟩ := h.selected
  rw [show i.unit = _ from (Format.control?_classified hopcode hc).unit_eq, Word.unitKind, hopcode]
  cases i.format with
  | system =>
    by_cases hcode : i.word.bits 14 12 = 0 <;> simp [Format.opcode, hcode]
  | _ => simp [Format.opcode]

/-! ### Identification -/

/-- Decoding has found out the same about the two instructions. -/
structure Matches (i j : Instruction) : Prop where
  pc_eq : i.pc = j.pc
  uuid_eq : i.uuid = j.uuid
  format_eq : i.format = j.format
  /-- The flags, the arithmetic operation and the branch operation. -/
  control_eq : i.control = j.control
  unit_eq : i.unit = j.unit
  dest_eq : i.dest = j.dest
  /-- A source register that is not read may be any. -/
  rs1_eq : i.control.usesRs1 = true → i.rs1 = j.rs1
  rs2_eq : i.control.usesRs2 = true → i.rs2 = j.rs2
  imm_eq : i.imm = j.imm

theorem operation_eq {name : String} (hi : i.mnemonic? = some name) (hj : j.mnemonic? = some name) :
    i.format = j.format ∧ i.format.minorCode i.funct3 = j.format.minorCode j.funct3 := by
  have hboth := Option.some.inj ((lookup_mnemonic hi).symm.trans (lookup_mnemonic hj))
  exact ⟨congrArg Prod.fst hboth, congrArg Prod.snd hboth⟩

/-- Instructions with the same printed form have the same name, operands, address and number. -/
theorem Decoded.named_of_text (hi : i.Decoded) (hj : j.Decoded) (h : i.text = j.text) :
    ∃ name, i.mnemonic? = some name ∧ j.mnemonic? = some name ∧
      i.operandTexts = j.operandTexts ∧ i.pc = j.pc ∧ i.uuid = j.uuid := by
  obtain ⟨name, hname, -⟩ := Format.control?_named i.pc i.uuid hi.selected.2
  obtain ⟨name', hname', -⟩ := Format.control?_named j.pc j.uuid hj.selected.2
  obtain ⟨rfl, hrest⟩ := text_inj hname hname' (isToken_of_mnemonic? hname)
    (isToken_of_mnemonic? hname') h
  exact ⟨name, hname, hname', hrest⟩

theorem Decoded.matches_of_text (hi : i.Decoded) (hj : j.Decoded) (h : i.text = j.text) :
    i.Matches j := by
  obtain ⟨name, hname, hname', hops, hpc, huuid⟩ := hi.named_of_text hj h
  obtain ⟨hformat, hcode⟩ := operation_eq hname hname'
  have hagrees : i.control.Agrees j.control :=
    Format.control?_agrees hi.selected.2 (hformat ▸ hj.selected.2) hname
      (by rw [hformat]; exact hname')
  obtain ⟨hcontrol, hrd, hrs1, hrs2, himm⟩ := operandTexts_inj hagrees hops
  have himm : i.imm = j.imm := by
    rcases Format.control?_usesImm hi.selected.2 with hused | hzero
    · exact himm hused
    · rw [imm, imm, ← hformat, hzero, hzero]
  refine ⟨hpc, huuid, hformat, hcontrol, ?_, ?_, hrs1, hrs2, himm⟩
  · rw [unit, unit, hcontrol]
  · rw [dest, dest, ← hcontrol]
    split
    · next hused => rw [hrd hused]
    · rfl

/-- Instructions with the same printed form compute the same, if a source that is not printed is the
same. -/
theorem Decoded.compute_of_text (hi : i.Decoded) (hj : j.Decoded) (h : i.text = j.text)
    (hrs1 : i.control.aluField = true → i.rs1 = j.rs1) (a b : Word) (m : Memory) (f : CsrFile) :
    i.compute a b m f = j.compute a b m f := by
  obtain ⟨name, hname, hname', -⟩ := hi.named_of_text hj h
  have hsame := hi.matches_of_text hj h
  have hcode := (operation_eq hname hname').2
  rw [← hsame.format_eq] at hcode
  refine compute_eq_of_parts hsame.control_eq hsame.pc_eq hsame.imm_eq ?_ ?_ hrs1 a b m f
  · rintro (hunit | hunit)
    · rcases hi.format_of_unit.1 hunit with hformat | hformat <;> rwa [hformat] at hcode
    · rwa [hi.format_of_unit.2 hunit] at hcode
  · intro hunit
    have hformat := hi.format_of_unit.2 hunit
    have himm := congrArg BitVec.toNat hsame.imm_eq
    rw [imm, imm, ← hsame.format_eq, hformat, Format.imm_system, Format.imm_system,
      Word.bits_csr, Word.bits_csr] at himm
    exact BitVec.eq_of_toNat_eq himm

/-- **The printed form identifies an instruction.** Two words that have been decoded to instructions
with the same printed form have been fetched from the same address under the same number, and all
that decoding has found out about them is the same. Unless the source is the number in a register
field, they also compute the same. -/
theorem text_identifies {w v p q : Word} {m n : Nat} (hi : decode w p m = .ok i)
    (hj : decode v q n = .ok j) (h : i.text = j.text) :
    i.Matches j ∧ ((∀ name ∈ fieldSourceNames, i.mnemonic? ≠ some name) →
      ∀ a b memory csrs, i.compute a b memory csrs = j.compute a b memory csrs) := by
  have hi := decoded_of_decode hi
  have hj := decoded_of_decode hj
  refine ⟨hi.matches_of_text hj h, fun hother => hi.compute_of_text hj h fun hfield => ?_⟩
  obtain ⟨name, hmem, hname⟩ := Format.mnemonic?_of_aluField hi.selected.2 hfield
  exact absurd hname (hother name hmem)

/-- The register fields of an environment call are not used. -/
theorem text_identifies_call : ∃ i j, decode 0x00000073 0x20 9 = .ok i ∧
    decode 0x000080F3 0x20 9 = .ok j ∧ i.rd ≠ j.rd ∧ i.text = j.text ∧ i.Matches j ∧
    ∀ a b memory csrs, i.compute a b memory csrs = j.compute a b memory csrs := by
  obtain ⟨hmatches, hcompute⟩ :=
    text_identifies (w := 0x00000073) (v := 0x000080F3) (p := 0x20) (q := 0x20) (m := 9) (n := 9)
      rfl rfl rfl
  exact ⟨_, _, rfl, rfl, by decide, rfl, hmatches, hcompute (by decide)⟩

/-- The number in the register field of a `CSRRWI` is not printed. -/
example : ∃ i j, decode 0x3000D073 0 0 = .ok i ∧ decode 0x30015073 0 0 = .ok j ∧
    i.text = j.text ∧ i.csrSource 0 ≠ j.csrSource 0 :=
  ⟨_, _, rfl, rfl, rfl, by decide⟩

end Instruction

end OutOfOrder
