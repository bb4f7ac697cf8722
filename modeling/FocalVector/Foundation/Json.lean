import Mathlib.Data.List.Basic
import Mathlib.Data.Nat.Digits.Defs
import Mathlib.Tactic.Basic

/-!
Contract: JSON documents, their compact text, and the parser that reads it.

The writer puts no whitespace between tokens. Strings escape the quote, the
backslash and the control characters, and nothing else. A number is kept as the
run of characters that spells it, since its reader decides what it denotes.

The parser reads the texts that the writer writes, and whitespace behind them.

Owns: `Json`, `render`, `parse`, that parsing undoes rendering, and that no part
of the text of an object is read, nor anything but whitespace behind it.

Does not own: what a document means.
-/

namespace FocalVector.Foundation

/-- A character that occurs in the text of a number. -/
def isNumeralChar (char : Char) : Bool :=
  char.isDigit || char == '-' || char == '+' || char == '.' || char == 'e' || char == 'E'

/-- The text of a number. -/
def isNumeral (chars : List Char) : Bool := !chars.isEmpty && chars.all isNumeralChar

/-- A number as it is spelled. -/
structure Numeral where
  chars : List Char
  wellFormed : isNumeral chars = true
deriving DecidableEq

namespace Numeral

theorem chars_ne_nil (numeral : Numeral) : numeral.chars ≠ [] := by
  have both := numeral.wellFormed
  simp only [isNumeral, Bool.and_eq_true] at both
  simpa using both.1

theorem isNumeralChar_of_mem (numeral : Numeral) :
    ∀ char ∈ numeral.chars, isNumeralChar char = true := by
  have both := numeral.wellFormed
  simp only [isNumeral, Bool.and_eq_true, List.all_eq_true] at both
  exact both.2

end Numeral

inductive Json where
  | null
  | bool (value : Bool)
  | number (numeral : Numeral)
  | string (text : String)
  | array (items : List Json)
  | object (members : List (String × Json))

namespace Json

/-! ## Writing -/

def hexDigit (value : Nat) : Char := (Nat.toDigits 16 value).headD '0'

/-- One character of a string. -/
def escapeChar (char : Char) : List Char :=
  if char = '"' then ['\\', '"']
  else if char = '\\' then ['\\', '\\']
  else if char = '\x08' then ['\\', 'b']
  else if char = '\x0c' then ['\\', 'f']
  else if char = '\n' then ['\\', 'n']
  else if char = '\r' then ['\\', 'r']
  else if char = '\t' then ['\\', 't']
  else if char.toNat < 32 then
    ['\\', 'u', '0', '0', hexDigit (char.toNat / 16), hexDigit (char.toNat % 16)]
  else [char]

def renderText (text : String) : List Char :=
  '"' :: (text.toList.flatMap escapeChar ++ ['"'])

mutual

def render : Json → List Char
  | .null => ['n', 'u', 'l', 'l']
  | .bool true => ['t', 'r', 'u', 'e']
  | .bool false => ['f', 'a', 'l', 's', 'e']
  | .number numeral => numeral.chars
  | .string text => renderText text
  | .array [] => ['[', ']']
  | .array (first :: rest) => '[' :: (render first ++ renderItems rest)
  | .object [] => ['{', '}']
  | .object (first :: rest) =>
    '{' :: (renderText first.1 ++ ':' :: (render first.2 ++ renderMembers rest))

def renderItems : List Json → List Char
  | [] => [']']
  | item :: rest => ',' :: (render item ++ renderItems rest)

def renderMembers : List (String × Json) → List Char
  | [] => ['}']
  | item :: rest =>
    ',' :: (renderText item.1 ++ ':' :: (render item.2 ++ renderMembers rest))

end

/-! ## Parsing -/

def hexValue (char : Char) : Option Nat :=
  if char.isDigit then some (char.toNat - 48)
  else if 'a'.toNat ≤ char.toNat ∧ char.toNat ≤ 'f'.toNat then some (char.toNat - 87)
  else if 'A'.toNat ≤ char.toNat ∧ char.toNat ≤ 'F'.toNat then some (char.toNat - 55)
  else none

/-- The character of a two-character escape. -/
def unescape (char : Char) : Option Char :=
  if char = '"' ∨ char = '\\' ∨ char = '/' then some char
  else if char = 'b' then some '\x08'
  else if char = 'f' then some '\x0c'
  else if char = 'n' then some '\n'
  else if char = 'r' then some '\r'
  else if char = 't' then some '\t'
  else none

/-- The character of a four-digit escape. -/
def unescapeHex (a b c d : Char) : Option Char := do
  let value := 4096 * (← hexValue a) + 256 * (← hexValue b) + 16 * (← hexValue c) + (← hexValue d)
  if value.isValidChar then some (Char.ofNat value) else none

/-- A string behind its opening quote. -/
def parseText : List Char → Option (List Char × List Char)
  | [] => none
  | '"' :: rest => some ([], rest)
  | '\\' :: 'u' :: a :: b :: c :: d :: rest => do
      let char ← unescapeHex a b c d
      let (text, rest) ← parseText rest
      some (char :: text, rest)
  | '\\' :: escaped :: rest => do
      let char ← unescape escaped
      let (text, rest) ← parseText rest
      some (char :: text, rest)
  | char :: rest =>
    if char.toNat < 32 then none
    else do
      let (text, rest) ← parseText rest
      some (char :: text, rest)

def parseString : List Char → Option (String × List Char)
  | '"' :: rest => (parseText rest).map fun (text, rest) => (String.ofList text, rest)
  | _ => none

def parseNumeral (chars : List Char) : Option (Json × List Char) :=
  if wellFormed : isNumeral (chars.takeWhile isNumeralChar) = true then
    some (.number ⟨chars.takeWhile isNumeralChar, wellFormed⟩, chars.dropWhile isNumeralChar)
  else none

def isSpace (char : Char) : Bool := char == ' ' || char == '\n' || char == '\t' || char == '\r'

/-- The rest of the input behind a fixed word. -/
def expect (word chars : List Char) : Option (List Char) :=
  if chars.take word.length = word then some (chars.drop word.length) else none

mutual

/-- One value; every nested value costs one unit of `fuel`. -/
def parseValue : Nat → List Char → Option (Json × List Char)
  | 0, _ => none
  | _, [] => none
  | fuel + 1, first :: rest =>
    if first = 'n' then (expect ['u', 'l', 'l'] rest).map (Json.null, ·)
    else if first = 't' then (expect ['r', 'u', 'e'] rest).map (Json.bool true, ·)
    else if first = 'f' then (expect ['a', 'l', 's', 'e'] rest).map (Json.bool false, ·)
    else if first = '"' then
      (parseString (first :: rest)).map fun (text, rest) => (Json.string text, rest)
    else if first = '[' then
      if rest.head? = some ']' then some (.array [], rest.tail)
      else do
        let (item, rest) ← parseValue fuel rest
        let (items, rest) ← parseItems fuel rest
        some (.array (item :: items), rest)
    else if first = '{' then
      if rest.head? = some '}' then some (.object [], rest.tail)
      else do
        let (member, rest) ← parseMember fuel rest
        let (members, rest) ← parseMembers fuel rest
        some (.object (member :: members), rest)
    else parseNumeral (first :: rest)

def parseItems : Nat → List Char → Option (List Json × List Char)
  | 0, _ => none
  | _, [] => none
  | fuel + 1, first :: rest =>
    if first = ']' then some ([], rest)
    else if first = ',' then do
      let (item, rest) ← parseValue fuel rest
      let (items, rest) ← parseItems fuel rest
      some (item :: items, rest)
    else none

def parseMember : Nat → List Char → Option ((String × Json) × List Char)
  | 0, _ => none
  | fuel + 1, chars => do
      let (name, rest) ← parseString chars
      let rest ← expect [':'] rest
      let (value, rest) ← parseValue fuel rest
      some ((name, value), rest)

def parseMembers : Nat → List Char → Option (List (String × Json) × List Char)
  | 0, _ => none
  | _, [] => none
  | fuel + 1, first :: rest =>
    if first = '}' then some ([], rest)
    else if first = ',' then do
      let (member, rest) ← parseMember fuel rest
      let (members, rest) ← parseMembers fuel rest
      some (member :: members, rest)
    else none

end

/-- A whole document: the text of a value as it is written, and whitespace. -/
def parse (chars : List Char) : Option Json :=
  match parseValue (chars.length + 1) chars with
  | some (json, rest) =>
    if render json ++ rest = chars ∧ rest.all isSpace then some json else none
  | none => none

/-! ## Tokens read back -/

theorem expect_append (word rest : List Char) : expect word (word ++ rest) = some rest := by
  simp [expect]

private theorem hexValue_hexDigit :
    ∀ value < 16, hexValue (hexDigit value) = some value := by decide

private theorem parseText_escape {escaped char : Char} (notHex : escaped ≠ 'u')
    (reads : unescape escaped = some char) (rest : List Char) :
    parseText ('\\' :: escaped :: rest) =
      (parseText rest).map fun (text, rest) => (char :: text, rest) := by
  simp [parseText, notHex, reads, Option.map_eq_bind]

private theorem parseText_hex {a b c d char : Char} (reads : unescapeHex a b c d = some char)
    (rest : List Char) :
    parseText ('\\' :: 'u' :: a :: b :: c :: d :: rest) =
      (parseText rest).map fun (text, rest) => (char :: text, rest) := by
  simp [parseText, reads, Option.map_eq_bind]

private theorem parseText_raw {char : Char} (notQuote : char ≠ '"') (notBackslash : char ≠ '\\')
    (printable : ¬ char.toNat < 32) (rest : List Char) :
    parseText (char :: rest) =
      (parseText rest).map fun (text, rest) => (char :: text, rest) := by
  rw [parseText]
  · rw [if_neg printable, Option.map_eq_bind]
    rfl
  all_goals simp_all

/-- An escaped character is read as itself. -/
theorem parseText_escapeChar (char : Char) (rest : List Char) :
    parseText (escapeChar char ++ rest) =
      (parseText rest).map fun (text, rest) => (char :: text, rest) := by
  unfold escapeChar
  split
  next same => exact parseText_escape (by decide) (by rw [same]; rfl) rest
  next notQuote =>
  split
  next same => exact parseText_escape (by decide) (by rw [same]; rfl) rest
  next notBackslash =>
  split
  next same => exact parseText_escape (by decide) (by rw [same]; rfl) rest
  split
  next same => exact parseText_escape (by decide) (by rw [same]; rfl) rest
  split
  next same => exact parseText_escape (by decide) (by rw [same]; rfl) rest
  split
  next same => exact parseText_escape (by decide) (by rw [same]; rfl) rest
  split
  next same => exact parseText_escape (by decide) (by rw [same]; rfl) rest
  split
  next control =>
    -- The two leading hexadecimal digits of a control character are zero.
    have high := hexValue_hexDigit (char.toNat / 16) (by omega)
    have low := hexValue_hexDigit (char.toNat % 16) (by omega)
    have value : 16 * (char.toNat / 16) + char.toNat % 16 = char.toNat := by omega
    have zero : hexValue '0' = some 0 := by decide
    have valid : char.toNat.isValidChar := .inl (by omega)
    apply parseText_hex
    simp [unescapeHex, high, low, zero, value, valid]
  next printable => exact parseText_raw notQuote notBackslash printable rest

theorem parseText_renderText (chars rest : List Char) :
    parseText (chars.flatMap escapeChar ++ '"' :: rest) = some (chars, rest) := by
  induction chars with
  | nil => simp [parseText]
  | cons char tail ih =>
    rw [List.flatMap_cons, List.append_assoc, parseText_escapeChar, ih]
    rfl

theorem parseString_renderText (text : String) (rest : List Char) :
    parseString (renderText text ++ rest) = some (text, rest) := by
  simp [renderText, parseString, parseText_renderText]

/-- What follows a value does not go on with a number. -/
def Delimited (rest : List Char) : Prop := ∀ char ∈ rest.head?, isNumeralChar char = false

theorem parseNumeral_append (numeral : Numeral) {rest : List Char} (delimited : Delimited rest) :
    parseNumeral (numeral.chars ++ rest) = some (.number numeral, rest) := by
  have each := numeral.isNumeralChar_of_mem
  have stops : rest.takeWhile isNumeralChar = [] ∧ rest.dropWhile isNumeralChar = rest := by
    cases rest with
    | nil => exact ⟨rfl, rfl⟩
    | cons char tail =>
      have outside : isNumeralChar char = false := delimited char rfl
      simp [outside]
  have taken : (numeral.chars ++ rest).takeWhile isNumeralChar = numeral.chars := by
    rw [List.takeWhile_append_of_pos each, stops.1, List.append_nil]
  have dropped : (numeral.chars ++ rest).dropWhile isNumeralChar = rest := by
    rw [List.dropWhile_append_of_pos each, stops.2]
  simp [parseNumeral, taken, dropped, numeral.wellFormed]

/-! ## Documents read back -/

/-- No value starts like the end of an array. -/
private theorem render_head (json : Json) :
    ∃ first rest, render json = first :: rest ∧ first ≠ ']' := by
  cases json with
  | null => exact ⟨_, _, rfl, by decide⟩
  | bool value => cases value <;> exact ⟨_, _, rfl, by decide⟩
  | number numeral =>
    obtain ⟨first, rest, starts⟩ := List.exists_cons_of_ne_nil numeral.chars_ne_nil
    have isFirst := numeral.isNumeralChar_of_mem first (by simp [starts])
    refine ⟨first, rest, starts, ?_⟩
    rintro rfl
    exact absurd isFirst (by decide)
  | string text => exact ⟨_, _, rfl, by decide⟩
  | array items => cases items <;> exact ⟨_, _, rfl, by decide⟩
  | object members => cases members <;> exact ⟨_, _, rfl, by decide⟩

private theorem delimited_cons {char : Char} (outside : isNumeralChar char = false)
    (rest : List Char) : Delimited (char :: rest) := by
  rintro _ ⟨⟩
  exact outside

private theorem delimited_renderItems (items : List Json) (rest : List Char) :
    Delimited (renderItems items ++ rest) := by
  cases items <;> exact delimited_cons (by decide) _

private theorem delimited_renderMembers (members : List (String × Json)) (rest : List Char) :
    Delimited (renderMembers members ++ rest) := by
  cases members <;> exact delimited_cons (by decide) _

private theorem parseValue_numeral {first : Char} (isFirst : isNumeralChar first = true)
    (fuel : Nat) (rest : List Char) :
    parseValue (fuel + 1) (first :: rest) = parseNumeral (first :: rest) := by
  have differs : ∀ char, isNumeralChar char = false → first ≠ char := by
    rintro char outside rfl
    exact absurd isFirst (by simp [outside])
  simp only [parseValue,
    differs 'n' (by decide), differs 't' (by decide), differs 'f' (by decide),
    differs '"' (by decide), differs '[' (by decide), differs '{' (by decide), if_false]

private theorem parseValue_array (fuel : Nat) {chars : List Char}
    (nonempty : chars.head? ≠ some ']') :
    parseValue (fuel + 1) ('[' :: chars) =
      (do
        let (item, rest) ← parseValue fuel chars
        let (items, rest) ← parseItems fuel rest
        some (.array (item :: items), rest)) := by
  simp [parseValue, nonempty]

private theorem parseValue_object (fuel : Nat) {chars : List Char}
    (nonempty : chars.head? ≠ some '}') :
    parseValue (fuel + 1) ('{' :: chars) =
      (do
        let (member, rest) ← parseMember fuel chars
        let (members, rest) ← parseMembers fuel rest
        some (.object (member :: members), rest)) := by
  simp [parseValue, nonempty]

/-- A value that cannot go on: something else follows it, or it is no number. -/
def Settled (json : Json) (rest : List Char) : Prop :=
  Delimited rest ∨ ∀ numeral, json ≠ .number numeral

mutual

/-- Fuel for every character of a document is enough to read it. -/
theorem parseValue_render : ∀ (json : Json) (fuel : Nat) (rest : List Char),
    (render json).length ≤ fuel → json.Settled rest →
      parseValue fuel (render json ++ rest) = some (json, rest)
  | json, 0, rest, enough, _ => by
      obtain ⟨first, tail, starts, -⟩ := render_head json
      rw [starts] at enough
      exact absurd enough (by simp)
  | .null, fuel + 1, rest, _, _ => by
      show (expect ['u', 'l', 'l'] (['u', 'l', 'l'] ++ rest)).map (Json.null, ·) = _
      rw [expect_append]
      rfl
  | .bool true, fuel + 1, rest, _, _ => by
      show (expect ['r', 'u', 'e'] (['r', 'u', 'e'] ++ rest)).map (Json.bool true, ·) = _
      rw [expect_append]
      rfl
  | .bool false, fuel + 1, rest, _, _ => by
      show (expect ['a', 'l', 's', 'e'] (['a', 'l', 's', 'e'] ++ rest)).map
        (Json.bool false, ·) = _
      rw [expect_append]
      rfl
  | .number numeral, fuel + 1, rest, _, settled => by
      obtain ⟨first, tail, starts⟩ := List.exists_cons_of_ne_nil numeral.chars_ne_nil
      have reads := parseNumeral_append numeral (settled.resolve_right fun other => other _ rfl)
      have isFirst := numeral.isNumeralChar_of_mem first (by simp [starts])
      simp only [render]
      rw [starts, List.cons_append] at reads ⊢
      rw [parseValue_numeral isFirst, reads]
  | .string text, fuel + 1, rest, _, _ => by
      have reads := parseString_renderText text rest
      simp only [renderText, List.cons_append] at reads
      simp only [render, renderText, List.cons_append, parseValue, reads]
      rfl
  | .array [], fuel + 1, rest, _, _ => rfl
  | .array (item :: items), fuel + 1, rest, enough, _ => by
      obtain ⟨first, tail, starts, notClosed⟩ := render_head item
      simp only [render, List.length_cons, List.length_append] at enough
      have readsItem := parseValue_render item fuel (renderItems items ++ rest) (by omega)
        (.inl (delimited_renderItems items rest))
      have readsItems := parseItems_renderItems items fuel rest (by omega)
      simp only [render, List.cons_append, List.append_assoc]
      rw [parseValue_array fuel (by simpa [starts] using notClosed), readsItem]
      simp [readsItems]
  | .object [], fuel + 1, rest, _, _ => rfl
  | .object (member :: members), fuel + 1, rest, enough, _ => by
      simp only [render, List.length_cons, List.length_append] at enough
      have readsMember := parseMember_render member fuel (renderMembers members ++ rest)
        (by omega) (delimited_renderMembers members rest)
      have readsMembers := parseMembers_renderMembers members fuel rest (by omega)
      simp only [render, List.cons_append, List.append_assoc]
      rw [parseValue_object fuel (by simp [renderText]), readsMember]
      simp [readsMembers]

theorem parseItems_renderItems : ∀ (items : List Json) (fuel : Nat) (rest : List Char),
    (renderItems items).length ≤ fuel →
      parseItems fuel (renderItems items ++ rest) = some (items, rest)
  | [], fuel + 1, rest, _ => rfl
  | item :: items, fuel + 1, rest, enough => by
      simp only [renderItems, List.length_cons, List.length_append] at enough
      have readsItem := parseValue_render item fuel (renderItems items ++ rest) (by omega)
        (.inl (delimited_renderItems items rest))
      have readsItems := parseItems_renderItems items fuel rest (by omega)
      simp [renderItems, parseItems, readsItem, readsItems]

theorem parseMember_render : ∀ (member : String × Json) (fuel : Nat) (rest : List Char),
    (renderText member.1).length + (render member.2).length + 1 ≤ fuel → Delimited rest →
      parseMember fuel (renderText member.1 ++ ':' :: (render member.2 ++ rest)) =
        some (member, rest)
  | (name, value), fuel + 1, rest, enough, delimited => by
      have readsValue := parseValue_render value fuel rest (by simp only at enough; omega)
        (.inl delimited)
      simp [parseMember, parseString_renderText, expect, readsValue]

theorem parseMembers_renderMembers : ∀ (members : List (String × Json)) (fuel : Nat)
    (rest : List Char), (renderMembers members).length ≤ fuel →
      parseMembers fuel (renderMembers members ++ rest) = some (members, rest)
  | [], fuel + 1, rest, _ => rfl
  | member :: members, fuel + 1, rest, enough => by
      simp only [renderMembers, List.length_cons, List.length_append] at enough
      have readsMember := parseMember_render member fuel (renderMembers members ++ rest)
        (by omega) (delimited_renderMembers members rest)
      have readsMembers := parseMembers_renderMembers members fuel rest (by omega)
      simp [renderMembers, parseMembers, readsMember, readsMembers]

end

theorem parse_render (json : Json) : parse (render json) = some json := by
  have reads := parseValue_render json ((render json).length + 1) [] (by omega)
    (.inl (by simp [Delimited]))
  rw [List.append_nil] at reads
  simp [parse, reads]

/-- Behind the text of an object a document may only have whitespace. -/
theorem parse_render_append (members : List (String × Json)) (more : List Char) :
    parse (render (.object members) ++ more) =
      if more.all isSpace then some (.object members) else none := by
  have reads := parseValue_render (.object members)
    ((render (.object members) ++ more).length + 1) more (by simp; omega) (.inr nofun)
  unfold parse
  rw [reads]
  simp

/-- No proper beginning of the text of an object is a document. -/
theorem parse_take_render {members : List (String × Json)} {front back : List Char}
    (split : render (.object members) = front ++ back) (proper : back ≠ []) :
    parse front = none := by
  by_contra accepted
  obtain ⟨json, parsed⟩ := Option.ne_none_iff_exists'.mp accepted
  unfold parse at parsed
  split at parsed
  next json' rest value =>
    split at parsed
    next written =>
      obtain ⟨isFront, -⟩ := written
      rw [← isFront, List.append_assoc] at split
      have whole := parseValue_render (.object members) ((render (.object members)).length + 1) []
        (by omega) (.inr nofun)
      have isOther : ∀ numeral, json' ≠ .number numeral := by
        rintro numeral rfl
        obtain ⟨first, tail, starts⟩ := List.exists_cons_of_ne_nil numeral.chars_ne_nil
        have isFirst := numeral.isNumeralChar_of_mem first (by simp [starts])
        have brace : (render (.object members)).head? = some '{' := by cases members <;> rfl
        rw [split, render, starts] at brace
        cases brace
        exact absurd isFirst (by decide)
      have part := parseValue_render json' ((render (.object members)).length + 1) (rest ++ back)
        (by rw [split, List.length_append]; omega) (.inr isOther)
      rw [← split] at part
      rw [List.append_nil, part] at whole
      exact proper (List.append_eq_nil_iff.mp (Prod.mk.inj (Option.some.inj whole)).2).2
    next => cases parsed
  next => cases parsed

end Json

end FocalVector.Foundation
