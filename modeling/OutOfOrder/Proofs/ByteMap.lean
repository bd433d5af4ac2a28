import OutOfOrder.Command
import OutOfOrder.Proofs.Operations
import Mathlib.Data.List.Induction

/-!
# Memory is a checked map of bytes

Words, half-words and single bytes are written over one another in every way, and images are copied
to any place. What memory answers in the end depends on none of this but on the byte that was put to
each address last: a number that is read is put together from these bytes, the least significant one
first, whatever the widths were with which they had been written.

The other half is who is let in. An access must be aligned, and an access or image must lie inside
the memory as a whole, counted with numbers that do not wrap. What is refused changes nothing.

## Main definitions

* `Memory.Operation`, `Memory.after`, `afterAll` — what memory can be asked to do, and a history
* `Memory.Copy` — bytes on their way to an address, which is what operations that write come down to
* `Memory.contents` — what a history has left at an address

## Main results

* `Memory.after_eq` — an operation copies its bytes if it is allowed to, and does nothing otherwise
* `Memory.byte?_afterAll` — a history leaves at every address the byte that was put there last
* `Memory.checked_byte_map` — what memory answers after any history
-/

namespace OutOfOrder

/-! ### Files -/

theorem toList_loop_byteArray (bs : ByteArray) (i : Nat) (r : List UInt8) :
    ByteArray.toList.loop bs i r = r.reverse ++ bs.data.toList.drop i := by
  fun_induction ByteArray.toList.loop bs i r with
  | case1 i r hlt ih =>
    have hlt' : i < bs.data.toList.length := hlt
    have hget : bs.get! i = bs.data.toList[i] := by
      rw [ByteArray.get!, getElem!_pos bs.data i hlt, Array.getElem_toList]
    rw [ih, List.reverse_cons, List.append_assoc, hget, List.drop_eq_getElem_cons hlt']
    rfl
  | case2 i r hge =>
    rw [List.drop_eq_nil_of_le (Nat.le_of_not_lt hge), List.append_nil]

/-- The bytes of an array are listed in their order. -/
theorem toList_byteArray (bs : ByteArray) : bs.toList = bs.data.toList :=
  toList_loop_byteArray bs 0 []

/-- The bytes of a file, if it could be read. -/
def Command.File.bytes? (file : Command.File) : Option (List Byte) :=
  file.contents.toOption.map fun bytes => bytes.data.toList.map UInt8.toBitVec

namespace Memory

/-! ### Operations -/

/-- What memory can be asked to do. -/
inductive Operation where
  | read (addr : Word) (width : Width)
  | write (addr : Word) (width : Width) (value : Word)
  | fetch (addr : Word)
  /-- Copy some bytes. -/
  | load (addr : Word) (bytes : List Byte)
  /-- Copy a program image. -/
  | image (addr : Word) (file : Command.File)

/-- The memory after an operation. One that fails leaves the memory as it was. -/
def after (m : Memory) : Operation → Memory
  | .read _ _ | .fetch _ => m
  | .write addr width value => (m.write addr width value).toOption.getD m
  | .load addr bytes => (m.load addr bytes).toOption.getD m
  | .image addr file => ((Command.loadImage m addr file).toOption.map Prod.snd).getD m

/-- The memory after some operations. -/
def afterAll (m : Memory) (ops : List Operation) : Memory := ops.foldl after m

/-! ### What is put where -/

/-- The `n` bytes from address `a` on lie inside the `size` bytes from `base` on. -/
def Inside (base size a n : Nat) : Prop := base ≤ a ∧ a + n ≤ base + size

instance (base size a n : Nat) : Decidable (Inside base size a n) :=
  inferInstanceAs (Decidable (_ ∧ _))

/-- The low bytes of a word, the least significant first. -/
def lowBytes (n : Nat) (value : Word) : List Byte :=
  (List.range n).map fun k => value.extractLsb' (8 * k) 8

@[simp] theorem length_lowBytes (n : Nat) (value : Word) : (lowBytes n value).length = n := by
  simp [lowBytes]

/-- What stands at address `x` if some bytes stand at `a` and after it. -/
def placed (a : Word) (bytes : List Byte) (x : Nat) : Option Byte :=
  if a.toNat ≤ x then bytes[x - a.toNat]? else none

/-- Bytes on their way to an address. -/
structure Copy where
  addr : Word
  /-- Of what the address must be a multiple. -/
  alignment : Nat
  bytes : List Byte

namespace Copy

/-- Memory that has `size` bytes from `base` on accepts the bytes. -/
def Allowed (c : Copy) (base size : Nat) : Prop :=
  c.addr.toNat % c.alignment = 0 ∧ Inside base size c.addr.toNat c.bytes.length

instance (c : Copy) (base size : Nat) : Decidable (c.Allowed base size) :=
  inferInstanceAs (Decidable (_ ∧ _))

/-- What gets to address `x`. -/
def puts? (c : Copy) (base size x : Nat) : Option Byte :=
  if c.Allowed base size then placed c.addr c.bytes x else none

end Copy

/-- The memory with the bytes in their place, if it accepts them. -/
def copied? (m : Memory) (c : Copy) : Option Memory :=
  if c.Allowed m.base.toNat m.size then some (m.poke (c.addr.toNat - m.base.toNat) c.bytes)
  else none

namespace Operation

/-- The bytes that an operation copies. -/
def copy? : Operation → Option Copy
  | read _ _ | fetch _ => none
  | write addr width value =>
    some { addr, alignment := width.bytes, bytes := lowBytes width.bytes value }
  | load addr bytes => some { addr, alignment := 1, bytes }
  | image addr file => file.bytes?.map fun bytes => { addr, alignment := 1, bytes }

/-- The byte that an operation puts to address `x`. -/
def puts? (base size : Nat) (op : Operation) (x : Nat) : Option Byte :=
  op.copy?.bind fun c => c.puts? base size x

end Operation

/-- What some operations leave at address `x`: the byte that was put there last, or zero. -/
def contents (base size : Nat) (ops : List Operation) (x : Nat) : Option Byte :=
  if base ≤ x ∧ x < base + size then
    some ((ops.filterMap fun op => op.puts? base size x).getLast?.getD 0)
  else none

variable {m : Memory} {a : Word} {n x : Nat} {op : Operation} {bytes : List Byte}

/-! ### Who is let in -/

/-- There is memory at some bytes exactly if they lie inside. -/
theorem forall_isSome_byte?_iff (hn : 0 < n) :
    (∀ k ∈ List.range n, (m.byte? (a.toNat + k)).isSome = true) ↔
      Inside m.base.toNat m.size a.toNat n := by
  simp only [isSome_byte?_iff, List.mem_range, Inside]
  constructor
  · intro h
    have hfirst := h 0 hn
    have hlast := h (n - 1) (by omega)
    omega
  · intro h k hk
    omega

/-- An access is refused for one of two reasons. -/
theorem accessFault?_byte? (m : Memory) (a : Word) (width : Width) :
    Manual.accessFault? m.byte? a width.bytes =
      if a.toNat % width.bytes ≠ 0 then some (.misaligned a width.bytes)
      else if Inside m.base.toNat m.size a.toNat width.bytes then none
      else some (.outOfBounds a width.bytes) := by
  have hpos : 0 < width.bytes := by cases width <;> decide
  simp only [Manual.accessFault?, forall_isSome_byte?_iff hpos]

/-- An access that is not refused is answered. -/
theorem match_accessFault? {α : Type} (m : Memory) (a : Word) (width : Width) (answer : α) :
    (match Manual.accessFault? m.byte? a width.bytes with
      | none => .ok answer
      | some e => .error e : Except MemoryError α) =
      if a.toNat % width.bytes ≠ 0 then .error (.misaligned a width.bytes)
      else if Inside m.base.toNat m.size a.toNat width.bytes then .ok answer
      else .error (.outOfBounds a width.bytes) := by
  rw [accessFault?_byte?]
  by_cases haligned : a.toNat % width.bytes ≠ 0
  · rw [if_pos haligned, if_pos haligned]
  · rw [if_neg haligned, if_neg haligned]
    by_cases hinside : Inside m.base.toNat m.size a.toNat width.bytes
    · rw [if_pos hinside, if_pos hinside]
    · rw [if_neg hinside, if_neg hinside]

theorem offset?_eq_ite (m : Memory) (a : Word) (n : Nat) : m.offset? a n =
    if Inside m.base.toNat m.size a.toNat n then some (a.toNat - m.base.toNat) else none := by
  rw [offset?]
  congr 1
  apply propext
  rw [Inside]
  omega

theorem bytes_eq_lowBytes (n : Nat) (value : Word) : Word.bytes n value = lowBytes n value := by
  refine List.ext_getElem? fun k => ?_
  by_cases hk : k < n
  · have hbyte := Word.getD_bytes n k value 0
    rw [if_pos hk, List.getD_eq_getElem?_getD, List.getElem?_eq_getElem (by simpa using hk),
      Option.getD_some] at hbyte
    rw [List.getElem?_eq_getElem (by simpa using hk), hbyte, lowBytes, List.getElem?_map,
      List.getElem?_range hk, Option.map_some, Manual.power_eq]
    rw [BitVec.extractLsb', Nat.shiftRight_eq_div_pow]
    rfl
  · rw [List.getElem?_eq_none (by simpa using hk),
      List.getElem?_eq_none (by simpa [lowBytes] using hk)]

theorem write_eq_ite (m : Memory) (a : Word) (width : Width) (value : Word) :
    m.write a width value =
      if a.toNat % width.bytes ≠ 0 then .error (.misaligned a width.bytes)
      else if Inside m.base.toNat m.size a.toNat width.bytes then
        .ok (m.poke (a.toNat - m.base.toNat) (lowBytes width.bytes value))
      else .error (.outOfBounds a width.bytes) := by
  rw [write_eq, bytes_eq_lowBytes]
  exact match_accessFault? m a width _

theorem copied?_of_allowed {c : Copy} (h : c.Allowed m.base.toNat m.size) :
    m.copied? c = some (m.poke (c.addr.toNat - m.base.toNat) c.bytes) :=
  if_pos h

theorem copied?_of_not_allowed {c : Copy} (h : ¬c.Allowed m.base.toNat m.size) :
    m.copied? c = none :=
  if_neg h

/-- A write copies the low bytes of a word. -/
theorem write_toOption (m : Memory) (a : Word) (width : Width) (value : Word) :
    (m.write a width value).toOption =
      m.copied? { addr := a, alignment := width.bytes, bytes := lowBytes width.bytes value } := by
  rw [write_eq_ite]
  by_cases haligned : a.toNat % width.bytes = 0
  · rw [if_neg (not_not_intro haligned)]
    by_cases hinside : Inside m.base.toNat m.size a.toNat width.bytes
    · rw [if_pos hinside, copied?_of_allowed ⟨haligned, by rwa [length_lowBytes]⟩]
      rfl
    · rw [if_neg hinside, copied?_of_not_allowed fun h => hinside (by simpa using h.2)]
      rfl
  · rw [if_pos haligned, copied?_of_not_allowed fun h => haligned h.1]
    rfl

/-- A load copies its bytes, wherever they are to go. -/
theorem load_toOption (m : Memory) (a : Word) (bytes : List Byte) :
    (m.load a bytes).toOption = m.copied? { addr := a, alignment := 1, bytes } := by
  rw [load, locate, offset?_eq_ite]
  by_cases hinside : Inside m.base.toNat m.size a.toNat bytes.length
  · rw [if_pos hinside, copied?_of_allowed ⟨Nat.mod_one _, hinside⟩]
    rfl
  · rw [if_neg hinside, copied?_of_not_allowed fun h => hinside h.2]
    rfl

/-- A program image is loaded like any other bytes. -/
theorem loadImage_toOption (m : Memory) (a : Word) (file : Command.File) :
    (Command.loadImage m a file).toOption = file.bytes?.bind fun bytes =>
      (m.copied? { addr := a, alignment := 1, bytes }).map
        fun loaded => (bytes.length, loaded) := by
  rw [Command.loadImage, Command.File.bytes?]
  cases file.contents with
  | error reason => rfl
  | ok bs =>
    have hload := m.load_toOption a (bs.data.toList.map UInt8.toBitVec)
    dsimp only [Except.toOption, Option.map_some, Option.bind_some]
    rw [← hload, toList_byteArray, List.length_map]
    cases m.load a (bs.data.toList.map UInt8.toBitVec) <;> rfl

/-! ### One operation -/

/-- Copying some bytes that lie inside puts each of them to its address. -/
theorem byte?_poke_of_inside (h : Inside m.base.toNat m.size a.toNat bytes.length) (x : Nat) :
    (m.poke (a.toNat - m.base.toNat) bytes).byte? x = (placed a bytes x).or (m.byte? x) := by
  rw [Inside] at h
  have hsame : (m.poke (a.toNat - m.base.toNat) bytes).byte? x =
      if m.base.toNat ≤ x ∧ x < m.base.toNat + m.size then
        some ((m.cells.setAll (a.toNat - m.base.toNat) bytes).get (x - m.base.toNat))
      else none := rfl
  rw [hsame, Sparse.get_setAll, placed, byte?]
  by_cases hx : a.toNat ≤ x
  · rw [if_pos hx]
    by_cases hlt : x - a.toNat < bytes.length
    · rw [if_pos (by omega), if_pos (by omega), List.getElem?_eq_getElem hlt, Option.some_or,
        show x - m.base.toNat - (a.toNat - m.base.toNat) = x - a.toNat by omega,
        List.getD_eq_getElem?_getD, List.getElem?_eq_getElem hlt, Option.getD_some]
    · rw [List.getElem?_eq_none (Nat.le_of_not_lt hlt), Option.none_or]
      split
      · rw [if_pos (by omega), List.getD_eq_getElem?_getD, List.getElem?_eq_none (by omega),
          Option.getD_none]
      · rfl
  · rw [if_neg hx, Option.none_or]
    split
    · rw [if_neg (by omega)]
    · rfl

/-- **An operation copies its bytes if it is allowed to,** and does nothing otherwise. -/
theorem after_eq (m : Memory) (op : Operation) :
    m.after op = (op.copy?.bind m.copied?).getD m := by
  cases op with
  | read | fetch => rfl
  | write a width value => rw [after, write_toOption]; rfl
  | load a bytes => rw [after, load_toOption]; rfl
  | image a file =>
    rw [after, loadImage_toOption, Operation.copy?]
    cases file.bytes? with
    | none => rfl
    | some bytes =>
      rw [Option.map_some, Option.bind_some, Option.bind_some, Option.map_map]
      cases m.copied? { addr := a, alignment := 1, bytes } <;> rfl

theorem after_base (m : Memory) (op : Operation) :
    (m.after op).base = m.base ∧ (m.after op).size = m.size := by
  rw [after_eq]
  cases op.copy? with
  | none => exact ⟨rfl, rfl⟩
  | some c =>
    rw [Option.bind_some, copied?]
    split <;> exact ⟨rfl, rfl⟩

/-- An operation changes the bytes that it puts, and no others. -/
theorem byte?_after (m : Memory) (op : Operation) (x : Nat) :
    (m.after op).byte? x = (op.puts? m.base.toNat m.size x).or (m.byte? x) := by
  rw [after_eq, Operation.puts?]
  cases op.copy? with
  | none => rfl
  | some c =>
    rw [Option.bind_some, Option.bind_some, copied?, Copy.puts?]
    by_cases h : c.Allowed m.base.toNat m.size
    · rw [if_pos h, if_pos h, Option.getD_some, byte?_poke_of_inside h.2]
    · rw [if_neg h, if_neg h]
      rfl

/-- An operation that puts nothing changes nothing. -/
theorem after_of_puts_nothing (h : ∀ x, op.puts? m.base.toNat m.size x = none) :
    m.after op = m := by
  rw [after_eq]
  cases hcopy : op.copy? with
  | none => rfl
  | some c =>
    rw [Option.bind_some, copied?]
    split
    · next hallowed =>
      have hnone : ∀ k : Nat, c.bytes[k]? = none := by
        intro k
        have hk := h (c.addr.toNat + k)
        rwa [Operation.puts?, hcopy, Option.bind_some, Copy.puts?, if_pos hallowed, placed,
          if_pos (Nat.le_add_right _ _), Nat.add_sub_cancel_left] at hk
      have hempty : c.bytes = [] := List.ext_getElem? fun k => (hnone k).trans rfl
      rw [hempty]
      rfl
    · rfl

/-- Nothing is put outside. -/
theorem inside_of_puts? {base size : Nat} {b : Byte} (h : op.puts? base size x = some b) :
    base ≤ x ∧ x < base + size := by
  obtain ⟨c, -, hc⟩ := Option.bind_eq_some_iff.mp h
  rw [Copy.puts?] at hc
  split at hc
  · next hallowed =>
    have hinside := hallowed.2
    rw [placed] at hc
    split at hc
    · have hlt := (List.getElem?_eq_some_iff.mp hc).1
      rw [Inside] at hinside
      omega
    · cases hc
  · cases hc

/-! ### Histories -/

theorem contents_nil (base : Word) (size : Nat) :
    (empty base size).byte? = contents base.toNat size [] := by
  funext x
  rw [byte?, contents]
  simp only [empty, Sparse.get_empty]
  rfl

theorem contents_concat (base size : Nat) (ops : List Operation) (op : Operation) (x : Nat) :
    contents base size (ops ++ [op]) x = (op.puts? base size x).or (contents base size ops x) := by
  rw [contents, contents, List.filterMap_append, List.getLast?_append]
  cases hputs : op.puts? base size x with
  | none => simp [hputs]
  | some b => simp [hputs, inside_of_puts? hputs]

theorem afterAll_concat (m : Memory) (ops : List Operation) (op : Operation) :
    m.afterAll (ops ++ [op]) = (m.afterAll ops).after op :=
  List.foldl_append

/-- **A history leaves at every address the byte that was put there last.** -/
theorem byte?_afterAll (base : Word) (size : Nat) (ops : List Operation) :
    let m := (empty base size).afterAll ops
    m.base = base ∧ m.size = size ∧ m.byte? = contents base.toNat size ops := by
  induction ops using List.reverseRecOn with
  | nil => exact ⟨rfl, rfl, contents_nil base size⟩
  | append_singleton ops op ih =>
    obtain ⟨hbase, hsize, hbyte⟩ := ih
    obtain ⟨hbase', hsize'⟩ := ((empty base size).afterAll ops).after_base op
    rw [afterAll_concat]
    refine ⟨hbase'.trans hbase, hsize'.trans hsize, funext fun x => ?_⟩
    rw [contents_concat, ← hbyte, byte?_after, hbase, hsize]

/-! ### What memory answers -/

/-- The number that is read is the one that the bytes stand for. -/
theorem read_eq_ite (m : Memory) (a : Word) (width : Width) :
    (m.read a width).map BitVec.toNat =
      if a.toNat % width.bytes ≠ 0 then .error (.misaligned a width.bytes)
      else if Inside m.base.toNat m.size a.toNat width.bytes then
        .ok (Manual.number m.byte? a.toNat width.bytes)
      else .error (.outOfBounds a width.bytes) := by
  have hlt : Manual.number m.byte? a.toNat width.bytes < 2 ^ 32 :=
    Nat.lt_of_lt_of_le (Manual.number_lt _ _ _)
      (Manual.power_le (k := 32) (by cases width <;> decide))
  rw [(read_eq m a width).trans (match_accessFault? m a width _)]
  split
  · rfl
  · split
    · rw [Manual.word_natCast]
      exact congrArg Except.ok ((BitVec.toNat_ofNat _ _).trans (Nat.mod_eq_of_lt hlt))
    · rfl

/-- What a copy leaves behind, seen as a map of bytes. -/
theorem map_byte?_copied? (m : Memory) (c : Copy) :
    (m.copied? c).map byte? =
      if c.Allowed m.base.toNat m.size then
        some fun x => (placed c.addr c.bytes x).or (m.byte? x)
      else none := by
  rw [copied?]
  split
  · next h => exact congrArg some (funext (byte?_poke_of_inside h.2))
  · rfl

/-- **Memory is a checked map of bytes.** After any history of reads, writes, fetches, loads and
loaded images, it has at each address the byte that was put there last, or zero.

An access is misaligned exactly if its address is no multiple of its width, wherever it is; it is
out of bounds exactly if it is aligned and not all of it lies inside. Otherwise a read returns the
number that the bytes stand for, whatever has written them, and a write puts the low bytes of its
value to their addresses and nothing anywhere else. Some bytes or an image can be loaded exactly if
they lie inside, aligned or not. An operation that is refused puts nothing, and then it changes
nothing. -/
theorem checked_byte_map (base : Word) (size : Nat) (ops : List Operation) :
    let m := (empty base size).afterAll ops
    let bytes := contents base.toNat size ops
    m.byte? = bytes ∧
      (∀ a width, (m.read a width).map BitVec.toNat =
        if a.toNat % width.bytes ≠ 0 then .error (.misaligned a width.bytes)
        else if Inside base.toNat size a.toNat width.bytes then
          .ok (Manual.number bytes a.toNat width.bytes)
        else .error (.outOfBounds a width.bytes)) ∧
      (∀ a, m.fetch a = m.read a .word) ∧
      (∀ a width value, (m.write a width value).map byte? =
        if a.toNat % width.bytes ≠ 0 then .error (.misaligned a width.bytes)
        else if Inside base.toNat size a.toNat width.bytes then
          .ok fun x => (placed a (lowBytes width.bytes value) x).or (bytes x)
        else .error (.outOfBounds a width.bytes)) ∧
      (∀ a data, (m.load a data).toOption.map byte? =
        if Inside base.toNat size a.toNat data.length then
          some fun x => (placed a data x).or (bytes x)
        else none) ∧
      (∀ a file, (Command.loadImage m a file).toOption.map (fun r => (r.1, r.2.byte?)) =
        file.bytes?.bind fun data =>
          if Inside base.toNat size a.toNat data.length then
            some (data.length, fun x => (placed a data x).or (bytes x))
          else none) ∧
      ∀ op : Operation, (∀ x, op.puts? base.toNat size x = none) → m.after op = m := by
  intro m bytes
  obtain ⟨hbase, hsize, hbytes⟩ : m.base = base ∧ m.size = size ∧ m.byte? = bytes :=
    byte?_afterAll base size ops
  have hload : ∀ a data, (m.copied? { addr := a, alignment := 1, bytes := data }).map byte? =
      if Inside base.toNat size a.toNat data.length then
        some fun x => (placed a data x).or (bytes x)
      else none := by
    intro a data
    rw [map_byte?_copied?, hbase, hsize, hbytes]
    simp only [Copy.Allowed, Nat.mod_one, true_and]
  refine ⟨hbytes, fun a width => ?_, fun _ => rfl, fun a width value => ?_, fun a data => ?_,
    fun a file => ?_, fun op hop => ?_⟩
  · rw [read_eq_ite, hbase, hsize, hbytes]
  · rw [write_eq_ite, hbase, hsize]
    split
    · rfl
    · split
      · refine congrArg Except.ok (funext fun x => ?_)
        rw [← hbase, byte?_poke_of_inside, hbytes]
        rwa [length_lowBytes, hbase, hsize]
      · rfl
  · rw [load_toOption, hload]
  · rw [loadImage_toOption, Option.map_bind]
    refine congrArg file.bytes?.bind (funext fun data => ?_)
    have hdata := congrArg (Option.map fun after => (data.length, after)) (hload a data)
    rw [Option.map_map] at hdata
    rw [Function.comp_apply, Option.map_map]
    refine hdata.trans ?_
    split <;> rfl
  · exact after_of_puts_nothing (by rwa [hbase, hsize])

/-- A byte is written into a word, and read back with it. A word that would end outside is refused
and changes nothing. -/
theorem checked_byte_map_overlapping :
    let ops : List Operation :=
      [.load 0x1002 [0xAD, 0xDE], .write 0x1000 .half 0xBEEF, .write 0x1001 .byte 0x1234]
    let m := (empty 0x1000 6).afterAll ops
    (m.read 0x1000 .word).map BitVec.toNat = .ok 0xDEAD34EF ∧
      (m.read 0x1004 .word).map BitVec.toNat = .error (.outOfBounds 0x1004 4) ∧
      m.after (.write 0x1004 .word 0) = m := by
  intro ops m
  obtain ⟨-, hread, -, -, -, -, hnothing⟩ := checked_byte_map 0x1000 6 ops
  exact ⟨(hread 0x1000 .word).trans (by decide +kernel), (hread 0x1004 .word).trans rfl,
    hnothing (.write 0x1004 .word 0) fun _ => rfl⟩

end Memory

end OutOfOrder
