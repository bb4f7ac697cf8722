import FocalVector.Foundation.Serde
import Mathlib.Data.String.Basic

/-!
Contract: how long JSON texts are.

Owns: the number of bytes of a JSON text, from the sizes of its parts.

Does not own: how the text is written.
-/

namespace FocalVector.Foundation

namespace Json

/-- The bytes of the text of a value. -/
def size (json : Json) : Nat := String.utf8Len json.render

def textSize (text : String) : Nat := String.utf8Len (renderText text)

/-- The items behind the first, each with its comma. -/
theorem utf8Len_renderItems (items : List Json) :
    String.utf8Len (renderItems items) = (items.map size).sum + items.length + 1 := by
  have marks : ']'.utf8Size = 1 ∧ ','.utf8Size = 1 := by decide
  induction items with
  | nil => simp [renderItems, marks]
  | cons item rest ih =>
    simp only [renderItems, String.utf8Len_cons, String.utf8Len_append, ih,
      List.map_cons, List.sum_cons, List.length_cons, marks, size]
    omega

theorem size_array (items : List Json) :
    (Json.array items).size = (items.map size).sum + (items.length - 1) + 2 := by
  have marks : ']'.utf8Size = 1 ∧ '['.utf8Size = 1 := by decide
  cases items with
  | nil => simp [size, render, marks]
  | cons item rest =>
    simp only [size, render, String.utf8Len_cons, String.utf8Len_append, utf8Len_renderItems,
      List.map_cons, List.sum_cons, List.length_cons, marks]
    omega

/-- The members behind the first, each with its comma and its colon. -/
theorem utf8Len_renderMembers (members : List (String × Json)) :
    String.utf8Len (renderMembers members) =
      (members.map fun member => textSize member.1 + member.2.size + 2).sum + 1 := by
  have marks : '\x7d'.utf8Size = 1 ∧ ','.utf8Size = 1 ∧ ':'.utf8Size = 1 := by decide
  induction members with
  | nil => simp [renderMembers, marks]
  | cons member rest ih =>
    simp only [renderMembers, String.utf8Len_cons, String.utf8Len_append, ih,
      List.map_cons, List.sum_cons, marks, size, textSize]
    omega

theorem size_object (first : String × Json) (rest : List (String × Json)) :
    (Json.object (first :: rest)).size =
      textSize first.1 + first.2.size + 3 +
        (rest.map fun member => textSize member.1 + member.2.size + 2).sum := by
  have marks : '\x7b'.utf8Size = 1 ∧ ':'.utf8Size = 1 := by decide
  simp only [size, render, String.utf8Len_cons, String.utf8Len_append, utf8Len_renderMembers,
    textSize, marks]
  omega

theorem size_tagged (name : String) (data : Json) :
    (Serde.tagged name data).size = textSize name + data.size + 3 := by
  simp [Serde.tagged, size_object]

theorem size_string_replicate {char : Char} (plain : escapeChar char = [char])
    (byte : char.utf8Size = 1) (count : Nat) :
    (Json.string (String.ofList (List.replicate count char))).size = count + 2 := by
  have quote : '"'.utf8Size = 1 := by decide
  have body : String.utf8Len ((List.replicate count char).flatMap escapeChar) = count := by
    induction count with
    | zero => rfl
    | succ count ih =>
      rw [List.replicate_succ, List.flatMap_cons, String.utf8Len_append, ih,
        plain, String.utf8Len_cons, String.utf8Len_nil, byte]
      omega
  simp only [size, render, renderText, String.toList_ofList, String.utf8Len_cons,
    String.utf8Len_append, String.utf8Len_nil, body, quote]

/-! ## Bounds -/

mutual

/-- At least as many as the characters of the text, without writing it. -/
def weight : Json → Nat
  | .null => 4
  | .bool _ => 5
  | .number numeral => numeral.chars.length
  | .string text => 6 * text.utf8ByteSize + 2
  | .array items => weightItems items + 2
  | .object members => weightMembers members + 2

def weightItems : List Json → Nat
  | [] => 0
  | item :: rest => weight item + 1 + weightItems rest

def weightMembers : List (String × Json) → Nat
  | [] => 0
  | member :: rest => 6 * member.1.utf8ByteSize + 4 + weight member.2 + weightMembers rest

end

theorem renderText_length_le (text : String) :
    (renderText text).length ≤ 6 * text.utf8ByteSize + 2 := by
  have each : ∀ char, (escapeChar char).length ≤ 6 * char.utf8Size := by
    intro char
    have positive := Char.utf8Size_pos char
    unfold escapeChar
    split_ifs <;> simp only [List.length_cons, List.length_nil] <;> omega
  have body : (text.toList.flatMap escapeChar).length ≤ 6 * String.utf8Len text.toList := by
    induction text.toList with
    | nil => exact Nat.zero_le _
    | cons char rest ih =>
      have first := each char
      rw [List.flatMap_cons, List.length_append, String.utf8Len_cons]
      omega
  rw [← String.utf8ByteSize_ofList, String.ofList_toList] at body
  simp only [renderText, List.length_cons, List.length_append, List.length_nil]
  omega

mutual

theorem render_length_le : ∀ json : Json, json.render.length ≤ json.weight
  | .null => le_rfl
  | .bool true => Nat.le_succ 4
  | .bool false => le_rfl
  | .number _ => le_rfl
  | .string text => renderText_length_le text
  | .array [] => le_rfl
  | .array (first :: rest) => by
    have head := render_length_le first
    have tail := renderItems_length_le rest
    simp only [render, weight, weightItems, List.length_cons, List.length_append]
    omega
  | .object [] => le_rfl
  | .object (first :: rest) => by
    have name := renderText_length_le first.1
    have head := render_length_le first.2
    have tail := renderMembers_length_le rest
    simp only [render, weight, weightMembers, List.length_cons, List.length_append]
    omega

theorem renderItems_length_le : ∀ items, (renderItems items).length ≤ weightItems items + 1
  | [] => le_rfl
  | item :: rest => by
    have head := render_length_le item
    have tail := renderItems_length_le rest
    simp only [renderItems, weightItems, List.length_cons, List.length_append]
    omega

theorem renderMembers_length_le :
    ∀ members, (renderMembers members).length ≤ weightMembers members + 1
  | [] => le_rfl
  | member :: rest => by
    have name := renderText_length_le member.1
    have head := render_length_le member.2
    have tail := renderMembers_length_le rest
    simp only [renderMembers, weightMembers, List.length_cons, List.length_append]
    omega

end

end Json

end FocalVector.Foundation
