import OutOfOrder.Json.Value
import OutOfOrder.Proofs.Spelling

/-!
# Values are read from their texts

The tokens of a value are those of its parts with brackets, commas and colons between them, to any
depth. The reader, whatever brackets are open around the value, goes through its tokens and comes
out behind it with the value in hand. As every text of some tokens is taken apart into them, every
text of a value is read as that value.

No two numbers stand side by side among the tokens of a value, since the reader takes no number
directly behind another one.

## Main definitions

* `Value.tokens` — the tokens of a value
* `Value.WrittenAs` — the texts of a value

## Main results

* `Reader.steps_tokens` — the reader gets through a value
* `Value.ofText?_of_writtenAs` — every text of a value is read as that value
-/

namespace OutOfOrder.Json

/-! ### The tokens of a value -/

mutual

/-- The tokens of a value. -/
def Value.tokens : Value → List Token
  | .null => [.null]
  | .boolean b => [.boolean b]
  | .number ds => [.number ds]
  | .string s => [.string s]
  | .array [] => [.openArray, .closeArray]
  | .array (v :: vs) => .openArray :: (v.tokens ++ elementTokens vs)
  | .object [] => [.openObject, .closeObject]
  | .object ((s, v) :: ms) => .openObject :: .string s :: .colon :: (v.tokens ++ memberTokens ms)

/-- The tokens of the remaining elements of an array, and the bracket behind them. -/
def elementTokens : List Value → List Token
  | [] => [.closeArray]
  | v :: vs => .comma :: (v.tokens ++ elementTokens vs)

/-- The tokens of the remaining members of an object, and the bracket behind them. -/
def memberTokens : List (Option String × Value) → List Token
  | [] => [.closeObject]
  | (s, v) :: ms => .comma :: .string s :: .colon :: (v.tokens ++ memberTokens ms)

end

/-- The text is one of the texts of the value. -/
def Value.WrittenAs (v : Value) (text : String) : Prop := Token.Text v.tokens text.toList

theorem Value.exists_tokens_eq_cons (v : Value) :
    ∃ t ts, v.tokens = t :: ts ∧ t ≠ .closeArray := by
  cases v with
  | array vs => cases vs <;> exact ⟨_, _, rfl, by decide⟩
  | object ms => cases ms <;> exact ⟨_, _, rfl, by decide⟩
  | _ => exact ⟨_, _, rfl, by simp⟩

/-! ### The reader goes through them -/

namespace Reader

theorem steps_cons (r : Reader) (t : Token) (ts : List Token) :
    r.steps (t :: ts) = (r.step t).bind fun r => r.steps ts := rfl

theorem steps_append (r : Reader) (ts us : List Token) :
    r.steps (ts ++ us) = (r.steps ts).bind fun r => r.steps us := List.foldlM_append

/-- Where an array may end, a value may begin as well. -/
theorem steps_element (v : Value) (frames : List Frame) (ts : List Token) :
    (element frames).steps (v.tokens ++ ts)
      = (value (.elements [] :: frames)).steps (v.tokens ++ ts) := by
  obtain ⟨t, us, htokens, ht⟩ := v.exists_tokens_eq_cons
  have hstep : (element frames).step t = (value (.elements [] :: frames)).step t := by
    cases t with
    | closeArray => exact absurd rfl ht
    | _ => rfl
  rw [htokens, List.cons_append, steps_cons, steps_cons, hstep]

mutual

/-- The reader comes out behind a value, with the value in hand. -/
theorem steps_tokens (v : Value) (frames : List Frame) :
    (value frames).steps v.tokens = some (after v frames) := by
  match v with
  | .null | .boolean _ | .number _ | .string _ | .array [] | .object [] => rfl
  | .array (v :: vs) =>
    rw [Value.tokens, steps_cons]
    change (element frames).steps _ = _
    rw [steps_element, steps_append, steps_tokens v, Option.bind_some, steps_elementTokens vs]
    rfl
  | .object ((s, v) :: ms) =>
    rw [Value.tokens, steps_cons]
    change (value (.members [] s :: frames)).steps _ = _
    rw [steps_append, steps_tokens v, Option.bind_some, steps_memberTokens ms]
    rfl

theorem steps_elementTokens (vs : List Value) (v : Value) (read : List Value)
    (frames : List Frame) :
    (after v (.elements read :: frames)).steps (elementTokens vs)
      = some (after (.array (read.reverse ++ v :: vs)) frames) := by
  match vs with
  | [] =>
    rw [← List.reverse_cons]
    rfl
  | w :: vs =>
    rw [elementTokens, steps_cons]
    change (value (.elements (v :: read) :: frames)).steps _ = _
    rw [steps_append, steps_tokens w, Option.bind_some, steps_elementTokens vs, List.reverse_cons,
      List.append_assoc]
    rfl

theorem steps_memberTokens (ms : List (Option String × Value)) (v : Value) (s : Option String)
    (read : List (Option String × Value)) (frames : List Frame) :
    (after v (.members read s :: frames)).steps (memberTokens ms)
      = some (after (.object (read.reverse ++ (s, v) :: ms)) frames) := by
  match ms with
  | [] =>
    rw [← List.reverse_cons]
    rfl
  | (t, w) :: ms =>
    rw [memberTokens, steps_cons]
    change (value (.members ((s, v) :: read) t :: frames)).steps _ = _
    rw [steps_append, steps_tokens w, Option.bind_some, steps_memberTokens ms, List.reverse_cons,
      List.append_assoc]
    rfl

end

/-! ### Texts -/

/-- Behind a value there is no number. -/
theorem step_after_number (v : Value) (frames : List Frame) (ds : List Char) :
    (after v frames).step (.number ds) = none := by
  cases frames with
  | nil => rfl
  | cons frame frames => cases frame <;> rfl

theorem step_number {r r' : Reader} {ds es : List Char} (h : r.step (.number ds) = some r') :
    r'.step (.number es) = none := by
  cases r with
  | value | element =>
    cases h
    exact step_after_number _ _ es
  | after v frames => cases (step_after_number v frames ds).symm.trans h
  | _ => cases h

/-- No two numbers stand side by side in what the reader takes. -/
theorem isChain_of_steps {ts : List Token} {r r' : Reader} (h : r.steps ts = some r') :
    ts.IsChain Token.Apart := by
  induction ts generalizing r with
  | nil => exact .nil
  | cons t ts ih =>
    rw [steps_cons] at h
    obtain ⟨r₁, hstep, hrest⟩ := Option.bind_eq_some_iff.mp h
    refine List.isChain_cons.mpr ⟨?_, ih hrest⟩
    rintro u hu ds es rfl rfl
    cases ts with
    | nil => cases hu
    | cons u ts =>
      cases hu
      rw [steps_cons, step_number hstep] at hrest
      cases hrest

end Reader

/-- Every text of a value is read as that value. -/
theorem Value.ofText?_of_writtenAs {v : Value} {text : String} (h : v.WrittenAs text) :
    Value.ofText? text = some v := by
  have hsteps : (Reader.value []).steps v.tokens = some (.after v []) := Reader.steps_tokens v []
  rw [ofText?, Token.ofText?_of_text h (Reader.isChain_of_steps hsteps), Option.bind_some,
    ofTokens?, hsteps]
  rfl

end OutOfOrder.Json
