import OutOfOrder.Config.Reader
import OutOfOrder.Proofs.Nesting

/-!
# Configurations are read from their texts

A configuration is written as an object. Each of its settings is a member there, or is left out if
it has its default; a section is such a setting, whose value is again an object with settings, and
its default is that all of them have theirs. The members may come in any order, and any members of
other names may stand among them. The texts of a configuration are the texts of such objects.

Every text of a configuration is read as that configuration, if the configuration can be run. If it
breaks one of the rules for that, the text is refused with a message about the first rule that is
broken.

The defaults appear twice in the reader, for a setting that is missing in its section and for a
section that is missing altogether. They are the same because an empty section is read like a
missing one.

## Main definitions

* `Setting`, `Setting.Says` — what an object says about a setting
* `Setting.Listed`, `Setting.Written` — the objects that describe some settings
* `Config.settings`, `Config.WrittenIn` — the texts of a configuration
* `Config.rules` — what a configuration must satisfy to be run

## Main results

* `Setting.Written.members` — what the reader of a section finds in it
* `Config.ofValue?_of_written` — what is described is what is read
* `Config.error?_message` — the first broken rule is reported
* `Config.texts_round_trip` — every text is read as what it says, or refused for the right reason
-/

namespace OutOfOrder

open Json

/-! ### Settings and the objects that describe them -/

/-- A setting, as far as its description goes. -/
structure Setting where
  name : String
  /-- The value describes the setting. -/
  Says : Value → Prop
  /-- The setting has its default. -/
  Standard : Prop

namespace Setting

/-- A number, written in decimal. -/
def number (name : String) {w : Nat} (x : BitVec w) (standard : Nat) : Setting where
  name
  Says v := v = .number (Nat.toDigits 10 x.toNat)
  Standard := x.toNat = standard

/-- A truth value. -/
def flag (name : String) (b standard : Bool) : Setting where
  name
  Says v := v = .boolean b
  Standard := b = standard

/-- A policy, written as its name. -/
def choice (name : String) (p standard : Policy) : Setting where
  name
  Says v := v = .string (some p.name)
  Standard := p = standard

/-- The members of an object that describe some settings, in their order. One that has its default
may be left out. -/
inductive Listed : List Setting → List (Option String × Value) → Prop where
  | nil : Listed [] []
  | given {s : Setting} {ss : List Setting} {v : Value} {ms : List (Option String × Value)}
      (hv : s.Says v) (h : Listed ss ms) : Listed (s :: ss) ((some s.name, v) :: ms)
  | omitted {s : Setting} {ss : List Setting} {ms : List (Option String × Value)}
      (hs : s.Standard) (h : Listed ss ms) : Listed (s :: ss) ms

/-- An object that describes some settings: their members in any order, and any others. -/
def Written (ss : List Setting) (v : Value) : Prop :=
  ∃ given extra members, v = .object members ∧ Listed ss given ∧
    (∀ m ∈ extra, ∃ key, m.1 = some key ∧ key ∉ ss.map name) ∧ members.Perm (given ++ extra)

/-- A section. -/
def group (name : String) (ss : List Setting) : Setting where
  name
  Says := Written ss
  Standard := ∀ s ∈ ss, s.Standard

/-- What has been found for the setting is right: its value, or nothing if it has its default. -/
def Answers (s : Setting) : Option Value → Prop
  | none => s.Standard
  | some v => s.Says v

end Setting

/-! ### What is found in a section -/

namespace Section

variable {name : String} {ms ns : List (Option String × Value)}

theorem valuesOf_eq_nil (h : ∀ m ∈ ms, m.1 ≠ some name) : valuesOf name ms = [] := by
  rw [valuesOf, List.filter_eq_nil_iff.mpr, List.map_nil]
  exact fun m hm => by simpa using h m hm

theorem valuesOf_append : valuesOf name (ms ++ ns) = valuesOf name ms ++ valuesOf name ns := by
  rw [valuesOf, List.filter_append, List.map_append]
  rfl

theorem valuesOf_cons_self (v : Value) :
    valuesOf name ((some name, v) :: ms) = v :: valuesOf name ms := by
  simp [valuesOf]

theorem valuesOf_cons_of_ne {key : Option String} (h : key ≠ some name) (v : Value) :
    valuesOf name ((key, v) :: ms) = valuesOf name ms := by
  simp [valuesOf, h]

/-- It does not matter in which order the members come if a name is not repeated. -/
theorem single?_of_perm {o : Option Value} (h : ms.Perm ns) (ho : valuesOf name ns = o.toList) :
    single? name ms = some o := by
  have hperm : (valuesOf name ms).Perm o.toList := ho ▸ (h.filter _).map _
  unfold single?
  cases o with
  | none => rw [List.perm_nil.mp hperm]
  | some v => rw [List.perm_singleton.mp hperm]

end Section

namespace Setting

variable {ss : List Setting} {given : List (Option String × Value)}

theorem Listed.names (h : Listed ss given) : ∀ m ∈ given, ∃ s ∈ ss, m.1 = some s.name := by
  induction h with
  | nil => exact fun _ hm => absurd hm List.not_mem_nil
  | @given s ss v ms hv h ih =>
    intro m hm
    rcases List.mem_cons.mp hm with rfl | hm
    · exact ⟨s, List.mem_cons_self, rfl⟩
    · obtain ⟨t, ht, hname⟩ := ih m hm
      exact ⟨t, List.mem_cons_of_mem _ ht, hname⟩
  | omitted hs h ih =>
    intro m hm
    obtain ⟨t, ht, hname⟩ := ih m hm
    exact ⟨t, List.mem_cons_of_mem _ ht, hname⟩

theorem Listed.valuesOf_eq_nil (h : Listed ss given) {name : String}
    (hname : name ∉ ss.map Setting.name) : Section.valuesOf name given = [] := by
  refine Section.valuesOf_eq_nil fun m hm heq => hname ?_
  obtain ⟨s, hs, hms⟩ := h.names m hm
  exact List.mem_map.mpr ⟨s, hs, Option.some.inj (hms.symm.trans heq)⟩

/-- Each setting is listed once, or not at all. -/
theorem Listed.valuesOf (h : Listed ss given) (hss : (ss.map Setting.name).Nodup) :
    ∀ s ∈ ss, ∃ o, Section.valuesOf s.name given = o.toList ∧ s.Answers o := by
  induction h with
  | nil => exact fun _ hs => absurd hs List.not_mem_nil
  | @given s ss v ms hv h ih =>
    obtain ⟨hnew, hss⟩ := List.nodup_cons.mp hss
    refine List.forall_mem_cons.mpr ⟨⟨some v, ?_, hv⟩, fun t ht => ?_⟩
    · rw [Section.valuesOf_cons_self, h.valuesOf_eq_nil hnew]
      rfl
    · obtain ⟨o, ho, hanswer⟩ := ih hss t ht
      refine ⟨o, ?_, hanswer⟩
      rw [Section.valuesOf_cons_of_ne, ho]
      intro heq
      exact hnew (List.mem_map.mpr ⟨t, ht, (Option.some.inj heq).symm⟩)
  | omitted hs h ih =>
    obtain ⟨hnew, hss⟩ := List.nodup_cons.mp hss
    exact List.forall_mem_cons.mpr ⟨⟨none, h.valuesOf_eq_nil hnew, hs⟩, ih hss⟩

/-- In an object that describes some settings the reader finds the right values. -/
theorem Written.members {v : Value} (h : Written ss v) (hss : (ss.map Setting.name).Nodup) :
    ∃ ms, v = .object ms ∧ (ms.all fun m => m.1.isSome) = true ∧
      ∀ s ∈ ss, ∃ o, Section.single? s.name ms = some o ∧ s.Answers o := by
  obtain ⟨given, extra, ms, rfl, hgiven, hextra, hperm⟩ := h
  refine ⟨ms, rfl, List.all_eq_true.mpr fun m hm => ?_, fun s hs => ?_⟩
  · rcases List.mem_append.mp (hperm.mem_iff.mp hm) with hm | hm
    · obtain ⟨s, -, hname⟩ := hgiven.names m hm
      exact hname ▸ rfl
    · obtain ⟨key, hname, -⟩ := hextra m hm
      exact hname ▸ rfl
  · obtain ⟨o, ho, hanswer⟩ := hgiven.valuesOf hss s hs
    refine ⟨o, Section.single?_of_perm hperm ?_, hanswer⟩
    rw [Section.valuesOf_append, ho, Section.valuesOf_eq_nil, List.append_nil]
    intro m hm heq
    obtain ⟨key, hname, hkey⟩ := hextra m hm
    refine hkey (List.mem_map.mpr ⟨s, hs, ?_⟩)
    exact Option.some.inj (heq.symm.trans hname)

/-- The empty object describes settings that all have their defaults. -/
theorem written_nil (h : ∀ s ∈ ss, s.Standard) : Written ss (.object []) := by
  have hlisted : Listed ss [] := by
    induction ss with
    | nil => exact .nil
    | cons s ss ih =>
      obtain ⟨hs, hss⟩ := List.forall_mem_cons.mp h
      exact .omitted hs (ih hss)
  exact ⟨[], [], [], rfl, hlisted, by simp, .nil⟩

end Setting

/-! ### Single settings -/

theorem natOfDigits?_toDigits (n : Nat) : natOfDigits? (Nat.toDigits 10 n) = some n := by
  have hall : (Nat.toDigits 10 n).all Char.isDigit = true :=
    List.all_eq_true.mpr fun c hc => Nat.isDigit_of_mem_toDigits (by omega) (by omega) hc
  have hvalue : Nat.ofDigitChars 10 (Nat.toDigits 10 n) 0 = n := Nat.ofDigitChars_ten_toDigits
  simp only [Nat.ofDigitChars, Nat.mul_comm] at hvalue
  rw [natOfDigits?, if_pos ⟨Nat.toDigits_ne_nil, hall⟩, hvalue]

theorem readBits?_toDigits {w : Nat} (x : BitVec w) :
    readBits? w (.number (Nat.toDigits 10 x.toNat)) = some x := by
  rw [readBits?, natOfDigits?_toDigits, Option.bind_some, BitVec.ofNat_toNat, BitVec.setWidth_eq]
  exact if_pos rfl

theorem Policy.ofName?_name (p : Policy) : ofName? p.name = some p := by
  cases p <;> rfl

/-- What is read for a setting is the setting, whether it is found or left out. -/
theorem Setting.Answers.readOr_eq {α : Type} {s : Setting} {o : Option Value} (h : s.Answers o)
    {x standard : α} {read : Value → Option α} (hstandard : s.Standard → standard = x)
    (hread : ∀ v, s.Says v → read v = some x) : readOr standard read o = some x := by
  cases o with
  | none => exact congrArg some (hstandard h)
  | some v => exact hread v h

section

variable {name : String} {o : Option Value}

theorem readOr_number {w n : Nat} (hn : (BitVec.ofNat w n).toNat = n) {x : BitVec w}
    (h : (Setting.number name x n).Answers o) :
    readOr (BitVec.ofNat w n) (readBits? w) o = some x := by
  refine h.readOr_eq (fun hx => BitVec.eq_of_toNat_eq (hn.trans hx.symm)) ?_
  rintro v rfl
  exact readBits?_toDigits x

theorem readOr_flag {b standard : Bool} (h : (Setting.flag name b standard).Answers o) :
    readOr standard readBool? o = some b := by
  refine h.readOr_eq Eq.symm ?_
  rintro v rfl
  rfl

theorem readOr_choice {p standard : Policy} (h : (Setting.choice name p standard).Answers o) :
    readOr standard readPolicy? o = some p := by
  refine h.readOr_eq Eq.symm ?_
  rintro v rfl
  exact p.ofName?_name

end

/-! ### Sections -/

/-- The settings of the section `general`. -/
def RunSettings.settings (c : RunSettings) : List Setting :=
  [.flag "trace_instructions" c.traceInstructions false, .number "start_pc" c.startPc 0,
    .number "max_cycles" c.maxCycles 10000000]

/-- The settings of the section `core`. -/
def CoreSettings.settings (c : CoreSettings) : List Setting :=
  [.number "rob_size" c.windowSize 16, .number "rs_size" c.stationCount 8,
    .number "issue_queue_size" c.queueSize 4, .number "alu_latency" c.aluLatency 1,
    .number "bru_latency" c.branchLatency 1, .number "lsu_latency" c.memoryLatency 2,
    .number "sfu_latency" c.systemLatency 1, .choice "cdb_arbitration" c.policy .oldestFirst]

/-- The settings of the section `memory`. -/
def MemorySettings.settings (c : MemorySettings) : List Setting :=
  [.number "base" c.base 0, .number "size" c.size 1048576]

theorem RunSettings.standard_default : ∀ s ∈ settings {}, s.Standard := by
  simp [settings, Setting.flag, Setting.number]

theorem RunSettings.ofValue?_of_written {c : RunSettings} {v : Value}
    (h : Setting.Written c.settings v) : ofValue? v = some c := by
  have hnames : (c.settings.map Setting.name).Nodup := by
    change ["trace_instructions", "start_pc", "max_cycles"].Nodup
    decide
  obtain ⟨ms, rfl, hkeys, hms⟩ := h.members hnames
  simp only [settings, List.forall_mem_cons, Setting.flag, Setting.number] at hms
  obtain ⟨⟨_, h₁, a₁⟩, ⟨_, h₂, a₂⟩, ⟨_, h₃, a₃⟩, -⟩ := hms
  simp [ofValue?, Section.ofValue?, hkeys, h₁, h₂, h₃, readOr_flag a₁,
    readOr_number rfl a₂, readOr_number rfl a₃]

theorem CoreSettings.standard_default : ∀ s ∈ settings {}, s.Standard := by
  simp [settings, Setting.choice, Setting.number]

theorem CoreSettings.ofValue?_of_written {c : CoreSettings} {v : Value}
    (h : Setting.Written c.settings v) : ofValue? v = some c := by
  have hnames : (c.settings.map Setting.name).Nodup := by
    change ["rob_size", "rs_size", "issue_queue_size", "alu_latency", "bru_latency", "lsu_latency",
      "sfu_latency", "cdb_arbitration"].Nodup
    decide
  obtain ⟨ms, rfl, hkeys, hms⟩ := h.members hnames
  simp only [settings, List.forall_mem_cons, Setting.choice, Setting.number] at hms
  obtain ⟨⟨_, h₁, a₁⟩, ⟨_, h₂, a₂⟩, ⟨_, h₃, a₃⟩, ⟨_, h₄, a₄⟩, ⟨_, h₅, a₅⟩, ⟨_, h₆, a₆⟩, ⟨_, h₇, a₇⟩,
    ⟨_, h₈, a₈⟩, -⟩ := hms
  simp [ofValue?, Section.ofValue?, hkeys, h₁, h₂, h₃, h₄, h₅, h₆, h₇, h₈,
    readOr_number rfl a₁, readOr_number rfl a₂, readOr_number rfl a₃,
    readOr_number rfl a₄, readOr_number rfl a₅, readOr_number rfl a₆,
    readOr_number rfl a₇, readOr_choice a₈]

theorem MemorySettings.standard_default : ∀ s ∈ settings {}, s.Standard := by
  simp [settings, Setting.number]

theorem MemorySettings.ofValue?_of_written {c : MemorySettings} {v : Value}
    (h : Setting.Written c.settings v) : ofValue? v = some c := by
  have hnames : (c.settings.map Setting.name).Nodup := by
    change ["base", "size"].Nodup
    decide
  obtain ⟨ms, rfl, hkeys, hms⟩ := h.members hnames
  simp only [settings, List.forall_mem_cons, Setting.number] at hms
  obtain ⟨⟨_, h₁, a₁⟩, ⟨_, h₂, a₂⟩, -⟩ := hms
  simp [ofValue?, Section.ofValue?, hkeys, h₁, h₂, readOr_number rfl a₁,
    readOr_number rfl a₂]

/-! ### Configurations -/

/-- A section of an object, or what stands for it if it is missing. -/
def Section.read {α : Type} (name : String) (standard : α) (ofValue? : Value → Option α)
    (ms : List (Option String × Value)) : Option α :=
  (single? name ms).bind (readOr standard ofValue?)

theorem Section.read_insert_empty {name : String} {before after : List (Option String × Value)}
    (h : ∀ m ∈ before ++ after, m.1 ≠ some name) {α : Type} {key : String} {standard : α}
    {ofValue? : Value → Option α} (hempty : ofValue? (.object []) = some standard) :
    read key standard ofValue? (before ++ (some name, .object []) :: after)
      = read key standard ofValue? (before ++ after) := by
  unfold read single?
  by_cases hkey : key = name
  · subst hkey
    have hnone := valuesOf_eq_nil h
    rw [valuesOf_append] at hnone
    obtain ⟨hbefore, hafter⟩ := List.append_eq_nil_iff.mp hnone
    rw [valuesOf_append, valuesOf_append, valuesOf_cons_self, hbefore, hafter]
    exact hempty
  · have hne : some name ≠ some key := fun heq => hkey (Option.some.inj heq).symm
    rw [valuesOf_append, valuesOf_append, valuesOf_cons_of_ne hne]

/-- What is read for a section is the section, whether it is found or left out: an empty section has
the defaults, and so has one that is left out. -/
theorem Setting.Answers.readOr_group {α : Type} {name : String} {ss : List Setting}
    {o : Option Value} (h : (group name ss).Answers o) {x standard : α} {read : Value → Option α}
    (hread : ∀ v, Written ss v → read v = some x)
    (hempty : read (.object []) = some standard) : readOr standard read o = some x :=
  h.readOr_eq (fun hss => Option.some.inj (hempty.symm.trans (hread _ (written_nil hss)))) hread

namespace Config

/-- The sections of a configuration. -/
def settings (c : Config) : List Setting :=
  [.group "general" c.run.settings, .group "core" c.core.settings,
    .group "memory" c.memory.settings]

/-- The text describes the configuration. -/
def WrittenIn (c : Config) (text : String) : Prop :=
  ∃ v, Setting.Written c.settings v ∧ v.WrittenAs text

/-- The sections of an object are read independently of each other. -/
theorem ofValue?_object (ms : List (Option String × Value)) :
    ofValue? (.object ms) =
      if ms.all fun m => m.1.isSome then
        (Section.read "general" {} RunSettings.ofValue? ms).bind fun run =>
          (Section.read "core" {} CoreSettings.ofValue? ms).bind fun core =>
            (Section.read "memory" {} MemorySettings.ofValue? ms).bind fun memory =>
              some { run, core, memory }
      else none := by
  unfold Section.read
  split
  · next h =>
    rw [ofValue?, Section.ofValue?, if_pos h]
    simp only [List.mapM_cons, List.mapM_nil, Option.bind_eq_bind, Option.pure_def]
    cases Section.single? "general" ms <;> cases Section.single? "core" ms <;>
      cases Section.single? "memory" ms <;>
      simp only [Option.bind_none, Option.bind_some, Option.bind_fun_none]
  · next h =>
    rw [ofValue?, Section.ofValue?, if_neg h]
    rfl

theorem ofValue?_of_written {c : Config} {v : Value} (h : Setting.Written c.settings v) :
    ofValue? v = some c := by
  have hnames : (c.settings.map Setting.name).Nodup := by
    change ["general", "core", "memory"].Nodup
    decide
  obtain ⟨ms, rfl, hkeys, hms⟩ := h.members hnames
  simp only [settings, List.forall_mem_cons] at hms
  obtain ⟨⟨o₁, h₁, a₁⟩, ⟨o₂, h₂, a₂⟩, ⟨o₃, h₃, a₃⟩, -⟩ := hms
  have hrun : readOr {} RunSettings.ofValue? o₁ = some c.run :=
    a₁.readOr_group (fun _ => RunSettings.ofValue?_of_written) rfl
  have hcore : readOr {} CoreSettings.ofValue? o₂ = some c.core :=
    a₂.readOr_group (fun _ => CoreSettings.ofValue?_of_written) rfl
  have hmemory : readOr {} MemorySettings.ofValue? o₃ = some c.memory :=
    a₃.readOr_group (fun _ => MemorySettings.ofValue?_of_written) rfl
  simp only [Setting.group] at h₁ h₂ h₃
  rw [ofValue?_object, if_pos hkeys]
  simp only [Section.read, h₁, h₂, h₃, Option.bind_some, hrun, hcore, hmemory]

/-- An empty section is read like a missing one. -/
theorem ofValue?_insert_empty {name : String} {before after : List (Option String × Value)}
    (h : ∀ m ∈ before ++ after, m.1 ≠ some name) :
    ofValue? (.object (before ++ (some name, .object []) :: after))
      = ofValue? (.object (before ++ after)) := by
  have hkeys : (before ++ (some name, Value.object []) :: after).all (fun m => m.1.isSome)
      = (before ++ after).all fun m => m.1.isSome := by simp
  have hrun : RunSettings.ofValue? (.object []) = some {} := rfl
  have hcore : CoreSettings.ofValue? (.object []) = some {} := rfl
  have hmemory : MemorySettings.ofValue? (.object []) = some {} := rfl
  rw [ofValue?_object, ofValue?_object, hkeys, Section.read_insert_empty h hrun,
    Section.read_insert_empty h hcore, Section.read_insert_empty h hmemory]

/-! ### Rules -/

/-- What a configuration must satisfy, and the message if it does not. -/
structure Rule where
  holds : Bool
  message : String

/-- What a configuration must satisfy to be run, in the order in which it is checked. -/
def rules (c : Config) : List Rule :=
  [⟨c.core.windowSize != 0, "core.rob_size must be non-zero"⟩,
    ⟨c.core.stationCount != 0, "core.rs_size must be non-zero"⟩,
    ⟨c.core.queueSize != 0, "core.issue_queue_size must be non-zero"⟩,
    ⟨c.memory.size != 0, "memory.size must be non-zero"⟩,
    ⟨c.core.aluLatency != 0, "core.alu_latency must be at least 1"⟩,
    ⟨c.core.branchLatency != 0, "core.bru_latency must be at least 1"⟩,
    ⟨c.core.memoryLatency != 0, "core.lsu_latency must be at least 1"⟩,
    ⟨c.core.systemLatency != 0, "core.sfu_latency must be at least 1"⟩,
    ⟨c.memory.base.toNat + c.memory.size.toNat ≤ 0x100000000,
      "memory range " ++ Hex.plain c.memory.base.toNat ++ "+" ++ Hex.plain c.memory.size.toNat
        ++ " exceeds the 32-bit address space"⟩]

/-- The first rule that is broken. -/
def broken? (c : Config) : Option Rule := c.rules.find? fun r => !r.holds

theorem rules_eq (c : Config) :
    c.rules = c.sizes.map (fun s => ⟨s.2 != 0, s.1 ++ " must be non-zero"⟩)
      ++ (c.latencies.map (fun l => ⟨l.2 != 0, l.1 ++ " must be at least 1"⟩)
        ++ [⟨c.memory.base.toNat + c.memory.size.toNat ≤ 0x100000000,
          "memory range " ++ Hex.plain c.memory.base.toNat ++ "+" ++ Hex.plain c.memory.size.toNat
            ++ " exceeds the 32-bit address space"⟩]) := rfl

/-- The first broken rule is reported. -/
theorem error?_message (c : Config) :
    c.error?.map ConfigError.message = c.broken?.map Rule.message := by
  rw [broken?, rules_eq, List.find?_append, List.find?_append, List.find?_map, List.find?_map,
    error?]
  simp only [Function.comp_def, bne, Bool.not_not]
  cases c.sizes.find? fun s => s.2 == 0 with
  | some s => rfl
  | none =>
    cases c.latencies.find? fun l => l.2 == 0 with
    | some l => rfl
    | none =>
      by_cases hrange : c.memory.base.toNat + c.memory.size.toNat ≤ 0x100000000
      · have herror : ¬ 0x100000000 < c.memory.base.toNat + c.memory.size.toNat :=
          Nat.not_lt.mpr hrange
        simp only [if_neg herror, List.find?_cons, decide_eq_true hrange]
        rfl
      · have herror : 0x100000000 < c.memory.base.toNat + c.memory.size.toNat :=
          Nat.not_le.mp hrange
        simp only [if_pos herror, List.find?_cons, decide_eq_false hrange]
        rfl

/-- A text that describes a configuration is read as that configuration, which is then checked. -/
theorem ofText_eq_check {c : Config} {text : String} (h : WrittenIn c text) :
    ofText text = c.check := by
  obtain ⟨v, hv, htext⟩ := h
  rw [ofText, Value.ofText?_of_writtenAs htext, Option.bind_some, ofValue?_of_written hv]

/-- **Every text of a configuration is read as what it says.** If the configuration keeps all rules,
the text is read as exactly this configuration. Otherwise the text is refused with the message of
the first broken rule; this is said only of memories whose end is a 64-bit number. An object in
which a section is missing says the same as with an empty section in any place. -/
theorem texts_round_trip :
    (∀ c text, WrittenIn c text → (∀ r ∈ c.rules, r.holds) → ofText text = .ok c) ∧
      (∀ c text r, WrittenIn c text → c.broken? = some r →
        c.memory.base.toNat + c.memory.size.toNat < 0x10000000000000000 →
          ∃ e, ofText text = .error e ∧ e.message = r.message) ∧
      ∀ name before after text text', (∀ m ∈ before ++ after, m.1 ≠ some name) →
        (Value.object (before ++ after)).WrittenAs text →
          (Value.object (before ++ (some name, .object []) :: after)).WrittenAs text' →
            ofText text' = ofText text := by
  refine ⟨fun c text hc hrules => ?_, fun c text r hc hr _ => ?_, ?_⟩
  · have hnone : c.broken? = none := List.find?_eq_none.mpr fun r hr => by simp [hrules r hr]
    have herror : c.error? = none := by
      have := c.error?_message
      rwa [hnone, Option.map_none, Option.map_eq_none_iff] at this
    rw [ofText_eq_check hc, check, herror]
  · have hsome := c.error?_message
    rw [hr, Option.map_some, Option.map_eq_some_iff] at hsome
    obtain ⟨e, he, hmessage⟩ := hsome
    exact ⟨e, by rw [ofText_eq_check hc, check, he], hmessage⟩
  · intro name before after text text' hname htext htext'
    rw [ofText, ofText, Value.ofText?_of_writtenAs htext, Value.ofText?_of_writtenAs htext',
      Option.bind_some, Option.bind_some, ofValue?_insert_empty hname]

/-- A section out of its place behind an unknown member, with an escape in the name of a setting; a
size of zero; and an empty section. -/
theorem texts_round_trip_samples :
    ofText "\x7b \"x\": [null],\n\"core\": \x7b\"rs\\u005Fsize\" : 3\x7d \x7d"
        = .ok { core := { stationCount := 3 } } ∧
      (∃ e, ofText "\x7b\"memory\":\x7b\"size\":0\x7d\x7d" = .error e ∧
        e.message = "memory.size must be non-zero") ∧
      ofText "\x7b\"core\":\x7b\x7d\x7d" = ofText "\x7b\x7d" := by
  have hdigit : ∀ d : Char, d.isDigit = true → Token.IsNumber [d] := by
    intro d hd
    have hwhole : Token.IsWhole [d] :=
      ⟨⟨List.cons_ne_nil d [], by simpa using hd⟩, fun es h => (List.cons.inj h).2.symm⟩
    exact .mk (.inl rfl) hwhole .absent .absent
  have hzero : Token.IsHex '0' 0 := ⟨by decide, .inl rfl⟩
  have hfive : Token.IsHex '5' 5 := ⟨by decide, .inl rfl⟩
  have hfifteen : Token.IsHex 'F' 15 := ⟨by decide, .inr rfl⟩
  have hbody : Token.Body ['r', 's', '\\', 'u', '0', '0', '5', 'F', 's', 'i', 'z', 'e']
      (['r', 's', '_', 's', 'i', 'z', 'e'].flatMap Token.utf16) :=
    .plain rfl <| .plain rfl <| .unit hzero hzero hfive hfifteen <| .plain rfl <| .plain rfl <|
      .plain rfl <| .plain rfl .nil
  have hescaped : Token.Spelling (.string (some "rs_size"))
      ('"' :: (['r', 's', '\\', 'u', '0', '0', '5', 'F', 's', 'i', 'z', 'e'] ++ ['"'])) :=
    .ofBody hbody
  obtain ⟨hread, hrefused, hempty⟩ := texts_round_trip
  refine ⟨?_, ?_, ?_⟩
  · refine hread _ _ ⟨.object [(some "x", .array [.null]),
      (some "core", .object [(some "rs_size", .number ['3'])])], ?_, ?_⟩ (by decide)
    · have hcore : Setting.Written (CoreSettings.settings { stationCount := 3 })
          (.object [(some "rs_size", .number ['3'])]) :=
        ⟨_, [], _, rfl, .omitted rfl <| .given rfl <| .omitted rfl <| .omitted rfl <|
          .omitted rfl <| .omitted rfl <| .omitted rfl <| .omitted rfl .nil, by simp, .refl _⟩
      exact ⟨_, [(some "x", .array [.null])], _, rfl,
        .omitted RunSettings.standard_default <| .given hcore <|
          .omitted MemorySettings.standard_default .nil,
        List.forall_mem_singleton.mpr ⟨"x", rfl, by decide⟩, .swap _ _ []⟩
    · exact .token .openObject <| .blank (by decide) <| .token (.ofPlain "x" (by decide)) <|
        .token .colon <| .blank (by decide) <| .token .openArray <| .token .null <|
        .token .closeArray <| .token .comma <| .blank (by decide) <|
        .token (.ofPlain "core" (by decide)) <| .token .colon <| .blank (by decide) <|
        .token .openObject <| .token hescaped <| .blank (by decide) <|
        .token .colon <| .blank (by decide) <| .token (.number (hdigit '3' rfl)) <|
        .token .closeObject <| .blank (by decide) <| .token .closeObject .nil
  · refine hrefused { memory := { size := 0 } } _ ⟨false, "memory.size must be non-zero"⟩
      ⟨.object [(some "memory", .object [(some "size", .number ['0'])])], ?_, ?_⟩ rfl (by decide)
    · have hmemory : Setting.Written (MemorySettings.settings { size := 0 })
          (.object [(some "size", .number ['0'])]) :=
        ⟨_, [], _, rfl, .omitted rfl <| .given rfl .nil, by simp, .refl _⟩
      exact ⟨_, [], _, rfl,
        .omitted RunSettings.standard_default <|
          .omitted CoreSettings.standard_default <| .given hmemory .nil, by simp, .refl _⟩
    · exact .token .openObject <| .token (.ofPlain "memory" (by decide)) <| .token .colon <|
        .token .openObject <| .token (.ofPlain "size" (by decide)) <| .token .colon <|
        .token (.number (hdigit '0' rfl)) <| .token .closeObject <| .token .closeObject .nil
  · refine hempty "core" [] [] _ _ (by simp) ?_ ?_
    · exact .token .openObject <| .token .closeObject .nil
    · exact .token .openObject <| .token (.ofPlain "core" (by decide)) <| .token .colon <|
        .token .openObject <| .token .closeObject <| .token .closeObject .nil

end Config

end OutOfOrder
