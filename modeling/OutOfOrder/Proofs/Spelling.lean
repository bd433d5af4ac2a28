import OutOfOrder.Json.Token
import Mathlib.Data.List.Chain

/-!
# How the tokens of a JSON text are spelled

What a JSON text may look like is said here without a scanner: a token has certain spellings, and
any number of blanks may stand before, between and behind the tokens. The scanner is then shown to
find the tokens of every such text.

A string is compared with its contents in UTF-16, where every way of writing a character is the
same: a character that stands for itself has one unit or a pair of them, an escape with a letter has
one, and an escape with four digits is one. A body whose units are those of no string is still the
body of a string token, which has no contents.

A number ends where the text goes on with something that cannot belong to it, so two numbers in a
row could be told apart by a blank only. Texts are not asked to have one there, as no value has two
numbers in a row; the scanner is shown to find the tokens of those texts that have none either.

## Main definitions

* `IsNumber` — the spellings of numbers
* `utf16`, `Body` — the units of a character, and the bodies of strings with their units
* `Spelling` — the spellings of a token
* `Text` — the texts of a list of tokens

## Main results

* `scanNumber_append`, `scanString_append`, `spell?_eq_some_iff` — the scanner reads every spelling
* `ofText?_of_text` — the scanner finds the tokens of every text
-/

namespace OutOfOrder.Json

namespace Token

/-! ### Numbers -/

/-- One or more digits. -/
def IsDigits (ds : List Char) : Prop := ds ≠ [] ∧ ∀ d ∈ ds, d.isDigit = true

/-- The digits before the point. A zero comes first only if it is alone. -/
def IsWhole (ds : List Char) : Prop := IsDigits ds ∧ ∀ es, ds = '0' :: es → es = []

/-- One of the given signs, or nothing. -/
def IsSign (signs sign : List Char) : Prop := sign = [] ∨ ∃ c ∈ signs, sign = [c]

/-- A point with digits behind it, or nothing. -/
inductive IsFraction : List Char → Prop where
  | absent : IsFraction []
  | present {ds : List Char} (hds : IsDigits ds) : IsFraction ('.' :: ds)

/-- The letter `e` in either case with digits behind it, which may have a sign, or nothing. -/
inductive IsExponent : List Char → Prop where
  | absent : IsExponent []
  | present {e : Char} {sign ds : List Char} (he : e = 'e' ∨ e = 'E')
      (hsign : IsSign ['+', '-'] sign) (hds : IsDigits ds) : IsExponent (e :: (sign ++ ds))

/-- A number. -/
inductive IsNumber : List Char → Prop where
  | mk {sign whole fraction exponent : List Char} (hsign : IsSign ['-'] sign)
      (hwhole : IsWhole whole) (hfraction : IsFraction fraction) (hexponent : IsExponent exponent) :
      IsNumber (sign ++ (whole ++ (fraction ++ exponent)))

/-- A text that does not go on with a digit. -/
def NoDigit (cs : List Char) : Prop := ∀ c ∈ cs.head?, c.isDigit = false

/-- A text that does not go on with anything that could belong to a number in front of it. -/
def NoNumber (cs : List Char) : Prop :=
  ∀ c ∈ cs.head?, c.isDigit = false ∧ c ≠ '.' ∧ c ≠ 'e' ∧ c ≠ 'E'

theorem NoNumber.noDigit {cs : List Char} (h : NoNumber cs) : NoDigit cs :=
  fun c hc => (h c hc).1

theorem scanDigits_append {ds rest : List Char} (hds : IsDigits ds) (hrest : NoDigit rest) :
    scanDigits (ds ++ rest) = some (ds, rest) := by
  obtain ⟨hne, hall⟩ := hds
  have hstop : rest.takeWhile Char.isDigit = [] ∧ rest.dropWhile Char.isDigit = rest := by
    cases rest with
    | nil => exact ⟨rfl, rfl⟩
    | cons c rest =>
      have hc : c.isDigit = false := hrest c rfl
      simp [hc]
  rw [scanDigits, List.takeWhile_append_of_pos hall, List.dropWhile_append_of_pos hall, hstop.1,
    hstop.2, List.append_nil]
  cases ds with
  | nil => exact absurd rfl hne
  | cons d ds => rfl

theorem scanWhole_append {ds rest : List Char} (hds : IsWhole ds) (hrest : NoDigit rest) :
    scanWhole (ds ++ rest) = some (ds, rest) := by
  obtain ⟨hdigits, hzero⟩ := hds
  unfold scanWhole
  split
  · next es hes =>
    cases ds with
    | nil => exact absurd rfl hdigits.1
    | cons d ds =>
      obtain ⟨rfl, rfl⟩ := List.cons.inj hes
      rw [hzero ds rfl]
      rfl
  · exact scanDigits_append hdigits hrest

theorem scanFraction_append {ds rest : List Char} (hds : IsFraction ds) (hrest : NoDigit rest)
    (hpoint : ∀ c ∈ rest.head?, c ≠ '.') : scanFraction (ds ++ rest) = some (ds, rest) := by
  cases hds with
  | absent =>
    unfold scanFraction
    split
    · next es hes => exact absurd rfl (hpoint '.' (by rw [show rest = '.' :: es from hes]; rfl))
    · rfl
  | present hds =>
    rw [List.cons_append, scanFraction, scanDigits_append hds hrest]
    rfl

theorem scanSign_append {signs sign rest : List Char} (hsign : IsSign signs sign)
    (hrest : ∀ c ∈ rest.head?, c ∉ signs) : scanSign signs (sign ++ rest) = (sign, rest) := by
  rcases hsign with rfl | ⟨c, hc, rfl⟩
  · cases rest with
    | nil => rfl
    | cons c rest => exact if_neg (hrest c rfl)
  · exact if_pos hc

theorem IsDigits.isDigit_head {ds rest : List Char} (hds : IsDigits ds) :
    ∀ c ∈ (ds ++ rest).head?, c.isDigit = true := by
  obtain ⟨hne, hall⟩ := hds
  cases ds with
  | nil => exact absurd rfl hne
  | cons d ds =>
    rintro c ⟨⟩
    exact hall d List.mem_cons_self

theorem notMem_of_isDigit {cs : List Char} (hcs : cs.all (fun c => !c.isDigit) = true) {c : Char}
    (hc : c.isDigit = true) : c ∉ cs := by
  intro hmem
  have := List.all_eq_true.mp hcs c hmem
  simp [hc] at this

theorem scanExponent_append {ds rest : List Char} (hds : IsExponent ds) (hrest : NoNumber rest) :
    scanExponent (ds ++ rest) = some (ds, rest) := by
  cases hds with
  | absent =>
    cases rest with
    | nil => rfl
    | cons c rest =>
      obtain ⟨-, -, he, hE⟩ := hrest c rfl
      simp [scanExponent, he, hE]
  | @present e sign ds he hsign hds =>
    have hscan : scanSign ['+', '-'] (sign ++ (ds ++ rest)) = (sign, ds ++ rest) :=
      scanSign_append hsign fun c hc => notMem_of_isDigit rfl (hds.isDigit_head c hc)
    rw [List.cons_append, List.append_assoc, scanExponent, if_pos he, hscan]
    simp [scanDigits_append hds hrest.noDigit]

/-- What begins an exponent belongs to no digits and no fraction. -/
theorem IsExponent.head_append {ds rest : List Char} (hds : IsExponent ds) (hrest : NoNumber rest) :
    ∀ c ∈ (ds ++ rest).head?, c.isDigit = false ∧ c ≠ '.' := by
  cases hds with
  | absent => exact fun c hc => ⟨(hrest c hc).1, (hrest c hc).2.1⟩
  | present he =>
    rintro c ⟨⟩
    rcases he with rfl | rfl <;> decide

theorem IsFraction.noDigit_append {ds rest : List Char} (hds : IsFraction ds)
    (hrest : NoDigit rest) : NoDigit (ds ++ rest) := by
  cases hds with
  | absent => exact hrest
  | present =>
    rintro c ⟨⟩
    rfl

/-- A number is scanned as it is spelled. -/
theorem scanNumber_append {ds rest : List Char} (hds : IsNumber ds) (hrest : NoNumber rest) :
    scanNumber (ds ++ rest) = some (ds, rest) := by
  obtain ⟨hsign, hwhole, hfraction, hexponent⟩ := hds
  rename_i sign whole fraction exponent
  have hend := hexponent.head_append hrest
  have hexponentDigit : NoDigit (exponent ++ rest) := fun c hc => (hend c hc).1
  have h₁ : scanSign ['-'] (sign ++ (whole ++ (fraction ++ (exponent ++ rest))))
      = (sign, whole ++ (fraction ++ (exponent ++ rest))) :=
    scanSign_append hsign fun c hc => notMem_of_isDigit rfl (hwhole.1.isDigit_head c hc)
  have h₂ : scanWhole (whole ++ (fraction ++ (exponent ++ rest)))
      = some (whole, fraction ++ (exponent ++ rest)) :=
    scanWhole_append hwhole (hfraction.noDigit_append hexponentDigit)
  have h₃ : scanFraction (fraction ++ (exponent ++ rest)) = some (fraction, exponent ++ rest) :=
    scanFraction_append hfraction hexponentDigit fun c hc => (hend c hc).2
  have h₄ : scanExponent (exponent ++ rest) = some (exponent, rest) :=
    scanExponent_append hexponent hrest
  simp [scanNumber, h₁, h₂, h₃, h₄]

/-- A number begins with a minus sign or a digit. -/
theorem IsNumber.head {ds : List Char} (hds : IsNumber ds) :
    ∃ c cs, ds = c :: cs ∧ (c = '-' ∨ c.isDigit = true) := by
  obtain ⟨hsign, hwhole, -, -⟩ := hds
  rename_i sign whole fraction exponent
  rcases hsign with rfl | ⟨c, hc, rfl⟩
  · obtain ⟨⟨hne, hall⟩, -⟩ := hwhole
    cases whole with
    | nil => exact absurd rfl hne
    | cons d ds => exact ⟨d, _, rfl, .inr (hall d List.mem_cons_self)⟩
  · exact ⟨c, _, rfl, .inl (List.mem_singleton.mp hc)⟩

/-! ### Strings -/

/-- The UTF-16 units of a character. -/
def utf16 (c : Char) : List Nat :=
  if c.toNat < 0x10000 then [c.toNat]
  else [0xD800 + (c.toNat - 0x10000) / 0x400, 0xDC00 + (c.toNat - 0x10000) % 0x400]

/-- The letters that may stand behind a backslash, with the characters they stand for. -/
def escapes : List (Char × Char) :=
  [('"', '"'), ('\\', '\\'), ('/', '/'), ('b', '\x08'), ('f', '\x0c'), ('n', '\n'), ('r', '\r'),
    ('t', '\t')]

/-- A hexadecimal digit in either case, with its value. -/
def IsHex (d : Char) (n : Nat) : Prop :=
  n < 16 ∧ (d = Nat.digitChar n ∨ d = (Nat.digitChar n).toUpper)

/-- May the character stand for itself in a string? -/
def isPlain (c : Char) : Bool := ' ' ≤ c && c != '"' && c != '\\'

/-- The text between the quotes of a string, with its UTF-16 units. -/
inductive Body : List Char → List Nat → Prop where
  | nil : Body [] []
  /-- A character that stands for itself. -/
  | plain {c : Char} {cs : List Char} {us : List Nat} (hc : isPlain c = true) (h : Body cs us) :
      Body (c :: cs) (utf16 c ++ us)
  /-- A backslash with a letter. -/
  | escape {l c : Char} {cs : List Char} {us : List Nat} (hl : (l, c) ∈ escapes)
      (h : Body cs us) : Body ('\\' :: l :: cs) (utf16 c ++ us)
  /-- A backslash with the number of a unit. -/
  | unit {d₁ d₂ d₃ d₄ : Char} {n₁ n₂ n₃ n₄ : Nat} {cs : List Char} {us : List Nat}
      (h₁ : IsHex d₁ n₁) (h₂ : IsHex d₂ n₂) (h₃ : IsHex d₃ n₃) (h₄ : IsHex d₄ n₄)
      (h : Body cs us) :
      Body ('\\' :: 'u' :: d₁ :: d₂ :: d₃ :: d₄ :: cs)
        ((((n₁ * 16 + n₂) * 16 + n₃) * 16 + n₄) :: us)

/-- The UTF-16 units of a piece of a string. -/
def Piece.units : Piece → List Nat
  | .char c => utf16 c
  | .unit n => [n]

/-- The piece is a character, or a unit of sixteen bits. -/
def Piece.Fits : Piece → Prop
  | .char _ => True
  | .unit n => n < 0x10000

theorem hexValue?_of_isHex {d : Char} {n : Nat} (h : IsHex d n) : hexValue? d = some n := by
  have hall : ∀ n < 16, hexValue? (Nat.digitChar n) = some n ∧
      hexValue? (Nat.digitChar n).toUpper = some n := by decide
  obtain ⟨hn, rfl | rfl⟩ := h
  · exact (hall n hn).1
  · exact (hall n hn).2

theorem escaped?_of_mem {l c : Char} (h : (l, c) ∈ escapes) : escaped? l = some c := by
  have hall : ∀ e ∈ escapes, escaped? e.1 = some e.2 := by decide
  exact hall (l, c) h

theorem ne_u_of_mem {l c : Char} (h : (l, c) ∈ escapes) : l ≠ 'u' := by
  have hall : ∀ e ∈ escapes, e.1 ≠ 'u' := by decide
  exact hall (l, c) h

theorem unit?_of_isHex {d₁ d₂ d₃ d₄ : Char} {n₁ n₂ n₃ n₄ : Nat} (h₁ : IsHex d₁ n₁)
    (h₂ : IsHex d₂ n₂) (h₃ : IsHex d₃ n₃) (h₄ : IsHex d₄ n₄) :
    unit? d₁ d₂ d₃ d₄ = some (((n₁ * 16 + n₂) * 16 + n₃) * 16 + n₄) := by
  simp [unit?, hexValue?_of_isHex h₁, hexValue?_of_isHex h₂, hexValue?_of_isHex h₃,
    hexValue?_of_isHex h₄]

section

variable {cs rest : List Char} {ps : List Piece}

theorem scanString_plain (h : scanString cs = some (ps, rest)) {c : Char}
    (hc : isPlain c = true) : scanString (c :: cs) = some (.char c :: ps, rest) := by
  simp only [isPlain, Bool.and_eq_true, decide_eq_true_eq, bne_iff_ne] at hc
  obtain ⟨⟨hle, hquote⟩, hbackslash⟩ := hc
  rw [scanString, if_neg (Char.not_lt.mpr hle), h]
  · rfl
  · exact hquote
  · exact fun _ _ _ _ _ hc => absurd hc hbackslash
  · exact fun _ _ hc => absurd hc hbackslash

theorem scanString_escape (h : scanString cs = some (ps, rest)) {l c : Char}
    (hl : (l, c) ∈ escapes) : scanString ('\\' :: l :: cs) = some (.char c :: ps, rest) := by
  rw [scanString, escaped?_of_mem hl, h]
  · rfl
  · exact fun _ _ _ _ _ hu => absurd hu (ne_u_of_mem hl)

theorem scanString_unit (h : scanString cs = some (ps, rest)) {d₁ d₂ d₃ d₄ : Char} {n : Nat}
    (hn : unit? d₁ d₂ d₃ d₄ = some n) :
    scanString ('\\' :: 'u' :: d₁ :: d₂ :: d₃ :: d₄ :: cs) = some (.unit n :: ps, rest) := by
  rw [scanString, hn, h]
  rfl

end

/-- The pieces of a string are scanned as they are spelled. -/
theorem scanString_append {cs : List Char} {us : List Nat} (h : Body cs us) (rest : List Char) :
    ∃ ps, scanString (cs ++ '"' :: rest) = some (ps, rest) ∧ ps.flatMap Piece.units = us ∧
      ∀ p ∈ ps, p.Fits := by
  induction h with
  | nil => exact ⟨[], rfl, rfl, by simp⟩
  | @plain c cs us hc h ih =>
    obtain ⟨ps, hscan, rfl, hfits⟩ := ih
    exact ⟨.char c :: ps, scanString_plain hscan hc, rfl, List.forall_mem_cons.mpr ⟨trivial, hfits⟩⟩
  | @escape l c cs us hl h ih =>
    obtain ⟨ps, hscan, rfl, hfits⟩ := ih
    exact ⟨.char c :: ps, scanString_escape hscan hl, rfl,
      List.forall_mem_cons.mpr ⟨trivial, hfits⟩⟩
  | unit h₁ h₂ h₃ h₄ h ih =>
    obtain ⟨ps, hscan, rfl, hfits⟩ := ih
    refine ⟨.unit _ :: ps, scanString_unit hscan (unit?_of_isHex h₁ h₂ h₃ h₄), rfl,
      List.forall_mem_cons.mpr ⟨?_, hfits⟩⟩
    have := h₁.1
    have := h₂.1
    have := h₃.1
    have := h₄.1
    change _ < 0x10000
    omega

/-! ### UTF-16 -/

/-- The character of a pair of units. -/
def ofPair (h l : Nat) : Char := Char.ofNat (0x10000 + (h - 0xD800) * 0x400 + (l - 0xDC00))

theorem isHigh_iff {n : Nat} : isHigh n = true ↔ 0xD800 ≤ n ∧ n < 0xDC00 := by
  simp [isHigh]

theorem isLow_iff {n : Nat} : isLow n = true ↔ 0xDC00 ≤ n ∧ n < 0xE000 := by
  simp [isLow]

/-- A character has one unit, which belongs to no pair, or it is the character of a pair. -/
theorem utf16_cases (c : Char) :
    (∃ n, isHigh n = false ∧ isLow n = false ∧ utf16 c = [n] ∧ c = Char.ofNat n) ∨
      ∃ h l, isHigh h = true ∧ isLow l = true ∧ utf16 c = [h, l] ∧ c = ofPair h l := by
  have hvalid : c.toNat.isValidChar := c.valid
  by_cases hc : c.toNat < 0x10000
  · left
    refine ⟨c.toNat, ?_, ?_, if_pos hc, (Char.ofNat_toNat c).symm⟩
    · refine eq_false_of_ne_true fun h => ?_
      have := isHigh_iff.mp h
      omega
    · refine eq_false_of_ne_true fun h => ?_
      have := isLow_iff.mp h
      omega
  · right
    refine ⟨_, _, isHigh_iff.mpr (by omega), isLow_iff.mpr (by omega), if_neg hc, ?_⟩
    conv_lhs => rw [← Char.ofNat_toNat c]
    exact congrArg Char.ofNat (by omega)

theorem utf16_ne_nil (c : Char) : utf16 c ≠ [] := by
  rcases utf16_cases c with ⟨n, -, -, hc, -⟩ | ⟨h, l, -, -, hc, -⟩ <;> simp [hc]

theorem toNat_ofNat_of_isValidChar {n : Nat} (hn : n.isValidChar) : (Char.ofNat n).toNat = n := by
  rw [Char.ofNat, dif_pos hn]
  rfl

theorem utf16_ofNat {n : Nat} (hn : n < 0x10000) (hhigh : ¬ isHigh n = true)
    (hlow : ¬ isLow n = true) : utf16 (Char.ofNat n) = [n] := by
  rw [isHigh_iff] at hhigh
  rw [isLow_iff] at hlow
  have hvalid : n.isValidChar := by
    unfold Nat.isValidChar
    omega
  rw [utf16, toNat_ofNat_of_isValidChar hvalid, if_pos hn]

theorem utf16_ofPair {h l : Nat} (hh : isHigh h = true) (hl : isLow l = true) :
    utf16 (ofPair h l) = [h, l] := by
  rw [isHigh_iff] at hh
  rw [isLow_iff] at hl
  have hvalid : (0x10000 + (h - 0xD800) * 0x400 + (l - 0xDC00)).isValidChar := by
    unfold Nat.isValidChar
    omega
  have hval : (ofPair h l).toNat = 0x10000 + (h - 0xD800) * 0x400 + (l - 0xDC00) :=
    toNat_ofNat_of_isValidChar hvalid
  have hhigh : 0xD800 + ((ofPair h l).toNat - 0x10000) / 0x400 = h := by omega
  have hlow : 0xDC00 + ((ofPair h l).toNat - 0x10000) % 0x400 = l := by omega
  rw [utf16, if_neg (by omega), hhigh, hlow]

/-- A text whose first unit belongs to a pair begins with the character of the pair. -/
theorem pair_of_cons_eq_flatMap {n : Nat} {us : List Nat} {cs : List Char} (hn : isHigh n = true)
    (h : n :: us = cs.flatMap utf16) :
    ∃ l ds, cs = ofPair n l :: ds ∧ isLow l = true ∧ us = l :: ds.flatMap utf16 := by
  cases cs with
  | nil => cases h
  | cons c ds =>
    rw [List.flatMap_cons] at h
    rcases utf16_cases c with ⟨m, hhigh, -, hc, -⟩ | ⟨m, l, -, hlow, hc, hof⟩
    · rw [hc] at h
      obtain ⟨rfl, -⟩ := List.cons.inj h
      cases hn.symm.trans hhigh
    · rw [hc] at h
      obtain ⟨rfl, rfl⟩ := List.cons.inj h
      exact ⟨l, ds, by rw [hof], hlow, rfl⟩

/-- A text whose first unit begins no pair begins with the character of this unit. -/
theorem single_of_cons_eq_flatMap {n : Nat} {us : List Nat} {cs : List Char}
    (hn : ¬ isHigh n = true) (h : n :: us = cs.flatMap utf16) :
    isLow n = false ∧ ∃ ds, cs = Char.ofNat n :: ds ∧ us = ds.flatMap utf16 := by
  cases cs with
  | nil => cases h
  | cons c ds =>
    rw [List.flatMap_cons] at h
    rcases utf16_cases c with ⟨m, -, hlow, hc, hof⟩ | ⟨m, l, hhigh, -, hc, -⟩
    · rw [hc] at h
      obtain ⟨rfl, rfl⟩ := List.cons.inj h
      exact ⟨hlow, ds, by rw [hof], rfl⟩
    · rw [hc] at h
      obtain ⟨rfl, -⟩ := List.cons.inj h
      exact absurd hhigh hn

/-- No character begins with the second unit of a pair. -/
theorem isLow_of_head_utf16 {c : Char} {us vs : List Nat} {n : Nat} (h : utf16 c ++ us = n :: vs) :
    isLow n = false := by
  rcases utf16_cases c with ⟨m, -, hlow, hc, -⟩ | ⟨m, l, hhigh, -, hc, -⟩
  · rw [hc] at h
    obtain ⟨rfl, -⟩ := List.cons.inj h
    exact hlow
  · rw [hc] at h
    obtain ⟨rfl, -⟩ := List.cons.inj h
    refine eq_false_of_ne_true fun hlow => ?_
    have := isHigh_iff.mp hhigh
    have := isLow_iff.mp hlow
    omega

/-- A text whose units begin with those of a character begins with that character. -/
theorem exists_of_append_eq_flatMap {c : Char} {us : List Nat} {cs : List Char}
    (h : utf16 c ++ us = cs.flatMap utf16) : ∃ ds, cs = c :: ds ∧ us = ds.flatMap utf16 := by
  rcases utf16_cases c with ⟨n, hhigh, -, hc, hof⟩ | ⟨n, l, hhigh, -, hc, hof⟩
  · rw [hc] at h
    rw [hof]
    exact (single_of_cons_eq_flatMap (ne_true_of_eq_false hhigh) h).2
  · rw [hc] at h
    obtain ⟨m, ds, rfl, -, hus⟩ := pair_of_cons_eq_flatMap hhigh h
    obtain ⟨rfl, hds⟩ := List.cons.inj hus
    exact ⟨ds, by rw [hof], hds⟩

/-- What pieces spell has the units of the pieces. -/
theorem flatMap_units_of_spell? {ps : List Piece} (hps : ∀ p ∈ ps, p.Fits) {cs : List Char}
    (h : spell? ps = some cs) : ps.flatMap Piece.units = cs.flatMap utf16 := by
  fun_induction spell? ps generalizing cs with
  | case1 =>
    cases h
    rfl
  | case2 c ps ih =>
    obtain ⟨ds, hds, rfl⟩ := Option.map_eq_some_iff.mp h
    exact congrArg (utf16 c ++ ·) (ih (List.forall_mem_cons.mp hps).2 hds)
  | case3 n hhigh l ps hlow ih =>
    obtain ⟨ds, hds, rfl⟩ := Option.map_eq_some_iff.mp h
    have htail := ih (List.forall_mem_cons.mp (List.forall_mem_cons.mp hps).2).2 hds
    calc n :: l :: ps.flatMap Piece.units = [n, l] ++ ds.flatMap utf16 := by rw [htail]; rfl
      _ = utf16 (ofPair n l) ++ ds.flatMap utf16 := by rw [utf16_ofPair hhigh hlow]
  | case4 => cases h
  | case5 => cases h
  | case6 => cases h
  | case7 n ps hhigh hlow ih =>
    obtain ⟨ds, hds, rfl⟩ := Option.map_eq_some_iff.mp h
    obtain ⟨hn, hfits⟩ := List.forall_mem_cons.mp hps
    have hchar : utf16 (Char.ofNat n) = [n] := utf16_ofNat hn hhigh hlow
    calc n :: ps.flatMap Piece.units = [n] ++ ds.flatMap utf16 := by rw [ih hfits hds]; rfl
      _ = utf16 (Char.ofNat n) ++ ds.flatMap utf16 := by rw [hchar]

/-- The pieces whose units are those of a text spell that text. -/
theorem spell?_of_flatMap_units {ps : List Piece} {cs : List Char}
    (h : ps.flatMap Piece.units = cs.flatMap utf16) : spell? ps = some cs := by
  fun_induction spell? ps generalizing cs with
  | case1 =>
    cases cs with
    | nil => rfl
    | cons c cs => exact absurd (List.append_eq_nil_iff.mp h.symm).1 (utf16_ne_nil c)
  | case2 c ps ih =>
    obtain ⟨ds, rfl, hds⟩ := exists_of_append_eq_flatMap h
    rw [ih hds]
    rfl
  | case3 n hhigh l ps hlow ih =>
    obtain ⟨m, ds, rfl, -, hus⟩ := pair_of_cons_eq_flatMap hhigh h
    obtain ⟨rfl, hds⟩ := List.cons.inj hus
    rw [ih hds]
    rfl
  | case4 n hhigh l ps hlow =>
    obtain ⟨m, ds, rfl, hm, hus⟩ := pair_of_cons_eq_flatMap hhigh h
    obtain ⟨rfl, -⟩ := List.cons.inj hus
    exact absurd hm hlow
  | case5 n ps hhigh hps =>
    -- Behind a first unit comes the end, or a character, which does not begin with a second unit.
    obtain ⟨m, ds, rfl, hm, hus⟩ := pair_of_cons_eq_flatMap hhigh h
    cases ps with
    | nil => cases hus
    | cons p ps =>
      cases p with
      | unit l => exact absurd rfl (hps l ps)
      | char c => cases hm.symm.trans (isLow_of_head_utf16 hus)
  | case6 n ps hhigh hlow => cases hlow.symm.trans (single_of_cons_eq_flatMap hhigh h).1
  | case7 n ps hhigh hlow ih =>
    obtain ⟨-, ds, rfl, hus⟩ := single_of_cons_eq_flatMap hhigh h
    rw [ih hus]
    rfl

/-- The characters that pieces spell are those with the same units. -/
theorem spell?_eq_some_iff {ps : List Piece} (hps : ∀ p ∈ ps, p.Fits) {cs : List Char} :
    spell? ps = some cs ↔ ps.flatMap Piece.units = cs.flatMap utf16 :=
  ⟨flatMap_units_of_spell? hps, spell?_of_flatMap_units⟩

theorem flatMap_utf16_injective : Function.Injective fun cs : List Char => cs.flatMap utf16 := by
  have hspell : ∀ cs ds : List Char, cs.flatMap utf16 = ds.flatMap utf16 →
      spell? (cs.map .char) = some ds := by
    intro cs ds h
    apply spell?_of_flatMap_units
    rw [← h, List.flatMap_map]
    rfl
  intro cs ds h
  exact Option.some.inj ((hspell cs cs rfl).symm.trans (hspell cs ds h))

/-! ### Tokens -/

/-- How a token may be spelled. The contents of a string are the text with the same units, if there
is one. -/
inductive Spelling : Token → List Char → Prop where
  | openObject : Spelling .openObject ['\x7b']
  | closeObject : Spelling .closeObject ['\x7d']
  | openArray : Spelling .openArray ['[']
  | closeArray : Spelling .closeArray [']']
  | colon : Spelling .colon [':']
  | comma : Spelling .comma [',']
  | null : Spelling .null ['n', 'u', 'l', 'l']
  | boolTrue : Spelling (.boolean true) ['t', 'r', 'u', 'e']
  | boolFalse : Spelling (.boolean false) ['f', 'a', 'l', 's', 'e']
  | number {ds : List Char} (hds : IsNumber ds) : Spelling (.number ds) ds
  | string {cs : List Char} {us : List Nat} {contents : Option String} (hbody : Body cs us)
      (hcontents : ∀ t : String, contents = some t ↔ us = t.toList.flatMap utf16) :
      Spelling (.string contents) ('"' :: (cs ++ ['"']))

/-- The texts of some tokens: the spellings one after the other, with any blanks around them. -/
inductive Text : List Token → List Char → Prop where
  | nil : Text [] []
  | blank {c : Char} {ts : List Token} {cs : List Char} (hc : c ∈ [' ', '\t', '\n', '\r'])
      (h : Text ts cs) : Text ts (c :: cs)
  | token {t : Token} {ts : List Token} {w cs : List Char} (ht : Spelling t w) (h : Text ts cs) :
      Text (t :: ts) (w ++ cs)

/-- What has the units of a string between its quotes spells the string. -/
theorem Spelling.ofBody {s : String} {cs : List Char} (h : Body cs (s.toList.flatMap utf16)) :
    Spelling (.string (some s)) ('"' :: (cs ++ ['"'])) := by
  refine .string h fun t => ?_
  constructor
  · rintro ⟨⟩
    rfl
  · exact fun heq => congrArg some (String.toList_injective (flatMap_utf16_injective heq))

/-- A string of which every character may stand for itself is spelled by itself. -/
theorem Spelling.ofPlain (s : String) (hs : s.toList.all isPlain = true) :
    Spelling (.string (some s)) ('"' :: (s.toList ++ ['"'])) := by
  have hbody : ∀ cs : List Char, cs.all isPlain = true → Body cs (cs.flatMap utf16) := by
    intro cs hcs
    induction cs with
    | nil => exact .nil
    | cons c cs ih =>
      rw [List.all_cons, Bool.and_eq_true] at hcs
      exact .plain hcs.1 (ih hcs.2)
  exact .ofBody (hbody _ hs)

/-- Not both tokens are numbers. -/
def Apart (t u : Token) : Prop := ∀ ds es, t = .number ds → u ≠ .number es

theorem isBlank_iff {c : Char} : isBlank c = true ↔ c ∈ [' ', '\t', '\n', '\r'] := by
  simp [isBlank, or_assoc]

theorem scan?_number {c : Char} {cs : List Char} (hc : c = '-' ∨ c.isDigit = true) :
    scan? (c :: cs) = (scanNumber (c :: cs)).map fun (ds, rest) => (number ds, rest) := by
  unfold scan?
  split
  case h_11 => rfl
  all_goals
    next h =>
      obtain ⟨rfl, -⟩ := List.cons.inj h
      exact absurd hc (by decide)

theorem scanString_contents {ps : List Piece} (hps : ∀ p ∈ ps, p.Fits) {contents : Option String}
    (h : ∀ t : String, contents = some t ↔ ps.flatMap Piece.units = t.toList.flatMap utf16) :
    (spell? ps).map String.ofList = contents := by
  refine Option.ext fun t => ?_
  rw [h, ← spell?_eq_some_iff hps, Option.map_eq_some_iff]
  constructor
  · rintro ⟨cs, hcs, rfl⟩
    rw [hcs, String.toList_ofList]
  · exact fun ht => ⟨t.toList, ht, String.ofList_toList⟩

/-- A token is scanned as it is spelled. -/
theorem scan?_append {t : Token} {w rest : List Char} (ht : Spelling t w)
    (hrest : ∀ ds, t = .number ds → NoNumber rest) : scan? (w ++ rest) = some (t, rest) := by
  cases ht with
  | number hds =>
    obtain ⟨c, cs, rfl, hc⟩ := hds.head
    rw [List.cons_append, scan?_number hc, ← List.cons_append,
      scanNumber_append hds (hrest _ rfl)]
    rfl
  | @string cs us contents hbody hcontents =>
    obtain ⟨ps, hscan, rfl, hfits⟩ := scanString_append hbody rest
    rw [List.cons_append, List.append_assoc, List.singleton_append, scan?, hscan,
      ← scanString_contents hfits hcontents]
    rfl
  | _ => rfl

/-- How a token may begin. -/
theorem Spelling.head {t : Token} {w : List Char} (ht : Spelling t w) :
    ∃ c cs, w = c :: cs ∧ isBlank c = false ∧
      ((∀ ds, t ≠ .number ds) → c.isDigit = false ∧ c ≠ '.' ∧ c ≠ 'e' ∧ c ≠ 'E') := by
  cases ht with
  | number hds =>
    obtain ⟨c, cs, rfl, hc⟩ := hds.head
    refine ⟨c, cs, rfl, ?_, fun h => absurd rfl (h _)⟩
    rcases hc with rfl | hc
    · rfl
    · exact eq_false_of_ne_true fun h => notMem_of_isDigit rfl hc (isBlank_iff.mp h)
  | _ => exact ⟨_, _, rfl, by decide, fun _ => by decide⟩

/-- Only a number begins with what could belong to a number. -/
theorem Text.noNumber {ts : List Token} {cs : List Char} (h : Text ts cs)
    (hts : ∀ t ∈ ts.head?, ∀ ds, t ≠ .number ds) : NoNumber cs := by
  cases h with
  | nil =>
    rintro c ⟨⟩
  | blank hc =>
    have hall : ∀ c ∈ [' ', '\t', '\n', '\r'],
        c.isDigit = false ∧ c ≠ '.' ∧ c ≠ 'e' ∧ c ≠ 'E' := by simp
    rintro _ ⟨⟩
    exact hall _ hc
  | token ht =>
    obtain ⟨c, w, rfl, -, hc⟩ := ht.head
    rintro d ⟨⟩
    exact hc (hts _ rfl)

theorem ofText?_blank {c : Char} {cs : List Char} (hc : isBlank c = true) :
    ofText? (c :: cs) = ofText? cs := by
  rw [ofText?, if_pos hc]

theorem ofText?_token {c : Char} {cs rest : List Char} {t : Token} (hc : isBlank c = false)
    (h : scan? (c :: cs) = some (t, rest)) :
    ofText? (c :: cs) = (ofText? rest).map (t :: ·) := by
  rw [ofText?, if_neg (ne_true_of_eq_false hc)]
  split
  · next h' => cases h'.symm.trans h
  · next h' =>
    obtain ⟨rfl, rfl⟩ := by simpa using h'.symm.trans h
    rfl

/-- The tokens of a text are found, if no two numbers stand side by side. -/
theorem ofText?_of_text {ts : List Token} {cs : List Char} (h : Text ts cs)
    (hts : ts.IsChain Apart) : ofText? cs = some ts := by
  induction h with
  | nil => rw [ofText?]
  | blank hc _ ih => rw [ofText?_blank (isBlank_iff.mpr hc), ih hts]
  | @token t ts w cs ht h ih =>
    obtain ⟨hnext, hts⟩ := List.isChain_cons.mp hts
    obtain ⟨c, w, rfl, hblank, -⟩ := ht.head
    have hscan : scan? (c :: w ++ cs) = some (t, cs) :=
      scan?_append ht fun ds hds => h.noNumber fun u hu es => hnext u hu ds es hds
    rw [List.cons_append] at hscan ⊢
    rw [ofText?_token hblank hscan, ih hts]
    rfl

end Token

end OutOfOrder.Json
