import NoteScript.Proofs.Actions
import NoteScript.Proofs.LuaPatterns
import NoteScript.Proofs.StringValues
import NoteScript.Rules.Call

/-!
# Strings as patterns

The first argument of a replacement is a pattern in Lua. A string there is first written between double quotes and then, as it
stands, made to match literally, while Lua takes the quotes away first. The two orders come to the same because no percent sign is
put between a backslash and the character behind it.

* `Glyph`, `Glyphs`: the inside of a string of Lua as a row of characters, each bare or behind a backslash.
* `Glyphs.escape`: escaping the text of such a row for a pattern escapes what it stands for.
* `glyphs_bodyFrom`: an ordinary string is written as such a row.
* `replace_string`: what is written for a replacement, and what its pattern is read as.
-/

namespace NoteScript

namespace Literal

open Pattern (isMagic escapeChar)

/-- A piece of a string that Lua reads as one character on its own: no number of a character, no blanks that are skipped, and no
carriage return that loses its backslash. -/
def isOrdinary : List Char → Bool
  | '\\' :: c :: _ => c ∉ ['x', 'u', 'z', '\r'] && !c.isDigit
  | _ => true

/-- A character in a string of Lua, bare or behind a backslash. What stands behind the backslash depends on the next character
only if that is a carriage return. -/
inductive Glyph : List Char → Char → Prop where
  | bare {c : Char} (plain : c ∉ ['\\', '"', '\n', '\r']) : Glyph [c] c
  | escaped {letter c : Char} (plain : isMagic letter = false) (plain' : isMagic c = false)
      (means : ∀ rest : List Char, rest.head? ≠ some '\r' → luaEscape (letter :: rest) = some (String.utf8EncodeChar c, 1)) :
      Glyph ['\\', letter] c

/-- The inside of a string of Lua, and the characters that it stands for. -/
inductive Glyphs : List Char → List Char → Prop where
  | nil : Glyphs [] []
  | cons {glyph cs value : List Char} {c : Char} (first : Glyph glyph c) (others : Glyphs cs value) : Glyphs (glyph ++ cs) (c :: value)

namespace Glyphs

variable {cs value : List Char}

theorem head?_ne (h : Glyphs cs value) : cs.head? ≠ some '\r' := by
  cases h with
  | nil => simp
  | cons first =>
    cases first with
    | bare plain =>
      rintro ⟨⟩
      exact plain (by decide)
    | escaped => simp

theorem value_eq (h : Glyphs cs value) : lua.value cs = some (value.flatMap String.utf8EncodeChar) := by
  induction h with
  | nil => rfl
  | @cons glyph cs value c first others ih =>
    have head : lua.value (glyph ++ cs) = (lua.value cs).map (String.utf8EncodeChar c ++ ·) := by
      cases first with
      | bare plain => exact lua.value_plain (by simp_all) (if_neg (by simp_all)) cs
      | @escaped letter c _ _ means => exact lua.value_escape [letter] (means cs others.head?_ne)
    rw [head, ih]
    rfl

theorem isStringBody_eq (h : Glyphs cs value) : isStringBody cs = true := by
  induction h with
  | nil => rfl
  | cons first _ ih =>
    cases first with
    | bare plain => rwa [List.singleton_append, isStringBody_cons plain]
    | escaped => exact ih

/-- Escaping the text of a string for a pattern escapes what it stands for. -/
theorem escape (h : Glyphs cs value) : Glyphs (cs.flatMap escapeChar) (value.flatMap escapeChar) := by
  induction h with
  | nil => exact .nil
  | @cons glyph cs value c first others ih =>
    rw [List.flatMap_append, List.flatMap_cons]
    cases first with
    | bare plain =>
      rw [List.flatMap_singleton, escapeChar]
      split
      · have percent : Glyph ['%'] '%' := .bare (by decide)
        have row := Glyphs.cons percent (.cons (.bare plain) ih)
        exact row
      · exact .cons (.bare plain) ih
    | @escaped letter c magic magic' means =>
      have kept : ∀ {d}, isMagic d = false → escapeChar d = [d] := fun other => if_neg (Bool.eq_false_iff.mp other)
      rw [List.flatMap_cons, List.flatMap_singleton, kept magic, kept magic', kept rfl]
      exact .cons (.escaped magic magic' means) ih

end Glyphs

theorem glyph_bareChar {c : Char} (other : c ≠ '\\') : ∃ d, Glyph (bareChar c) d := by
  unfold bareChar
  split
  · exact ⟨'"', .escaped rfl rfl fun _ _ => rfl⟩
  · exact ⟨'\n', .escaped rfl rfl fun _ _ => rfl⟩
  · exact ⟨'\r', .escaped rfl rfl fun _ _ => rfl⟩
  · exact ⟨c, .bare (by simp_all)⟩

/-- An ordinary escape keeps its backslash where Lua gives it a meaning, and loses it otherwise. -/
theorem glyph_escape {c : Char} (ordinary : c ∉ ['x', 'u', 'z', '\r'] ∧ c.isDigit = false) :
    ∃ d, Glyph (if keepsBackslash c then ['\\', c] else [c]) d := by
  cases kept : keepsBackslash c with
  | false =>
    refine ⟨c, .bare fun special => ?_⟩
    simp only [List.mem_cons, List.not_mem_nil, or_false] at special
    rcases special with rfl | rfl | rfl | rfl
    · cases kept
    · cases kept
    · cases kept
    · exact ordinary.1 (by decide)
  | true =>
    have letters : c ∈ ['a', 'b', 'f', 'n', 'r', 't', 'v', '\\', '"', '\n'] := by
      simp_all [keepsBackslash]
    simp only [List.mem_cons, List.not_mem_nil, or_false] at letters
    rcases letters with rfl | rfl | rfl | rfl | rfl | rfl | rfl | rfl | rfl | rfl
    · exact ⟨'\x07', .escaped rfl rfl fun _ _ => rfl⟩
    · exact ⟨'\x08', .escaped rfl rfl fun _ _ => rfl⟩
    · exact ⟨'\x0c', .escaped rfl rfl fun _ _ => rfl⟩
    · exact ⟨'\n', .escaped rfl rfl fun _ _ => rfl⟩
    · exact ⟨'\r', .escaped rfl rfl fun _ _ => rfl⟩
    · exact ⟨'\t', .escaped rfl rfl fun _ _ => rfl⟩
    · exact ⟨'\x0b', .escaped rfl rfl fun _ _ => rfl⟩
    · exact ⟨'\\', .escaped rfl rfl fun _ _ => rfl⟩
    · exact ⟨'"', .escaped rfl rfl fun _ _ => rfl⟩
    · refine ⟨'\n', .escaped rfl rfl fun rest other => ?_⟩
      have feed : luaEscape ('\n' :: rest) = some ([10], if rest.head? = some '\r' then 2 else 1) := rfl
      rw [feed, if_neg other]
      rfl

theorem glyphs_bodyFrom {cs : List Char} (ordinary : ∀ piece ∈ pieces cs, isOrdinary piece = true) :
    ∃ value, Glyphs (bodyFrom 0 cs) value := by
  fun_induction pieces cs with
  | case1 => exact ⟨[], .nil⟩
  | case2 c rest ih =>
    obtain ⟨here, later⟩ := List.forall_mem_cons.mp ordinary
    obtain ⟨value, further⟩ := ih later
    have step : ∀ {glyph}, (∃ d, Glyph glyph d) → ∃ value, Glyphs (glyph ++ bodyFrom 0 (rest.drop (belonging c rest))) value := by
      rintro glyph ⟨d, first⟩
      exact ⟨d :: value, .cons first further⟩
    rw [bodyFrom]
    by_cases mark : c = '\\'
    · subst mark
      rw [if_pos (by decide), bodyFrom_drop]
      cases rest with
      | nil => exact ⟨['\\'], .cons (.escaped rfl rfl fun _ _ => rfl) .nil⟩
      | cons d rest =>
        have plain : d ∉ ['x', 'u', 'z', '\r'] ∧ d.isDigit = false := by
          have size : belonging '\\' (d :: rest) = escapeSize (d :: rest) := rfl
          have first : 0 < escapeSize (d :: rest) := by
            unfold escapeSize
            split <;> simp
          obtain ⟨n, shape⟩ := Nat.exists_eq_succ_of_ne_zero (Nat.ne_of_gt first)
          rw [size, shape, List.take_succ_cons] at here
          simpa [isOrdinary] using here
        have alone : d ≠ 'u' := fun same => plain.1 (by simp [same])
        have written : escape (d :: rest) = (if keepsBackslash d then ['\\', d] else [d], 1) :=
          escape.eq_4 d rest (fun _ same => absurd same alone) alone
        have size : belonging '\\' (d :: rest) = 1 := by
          change escapeSize (d :: rest) = 1
          unfold escapeSize
          split <;> simp_all
        rw [written]
        rw [size] at step
        exact step (glyph_escape plain)
    · have size : belonging c rest = 0 := if_neg (by simpa using mark)
      rw [if_neg (by simpa using mark)]
      rw [size] at step
      exact step (glyph_bareChar mark)

/-- The literal of a pattern that matches a string literally. -/
def patternLiteral (t : Token) : String := "\"" ++ Pattern.escape (Text.inner (ofString t.text)) ++ "\""

theorem patternLiteral_eq (t : Token) : patternLiteral t =
    String.ofList ('"' :: (bodyFrom 0 (content t.text.toList)).flatMap escapeChar ++ ['"']) := by
  have inside : Text.inner (ofString t.text) = String.ofList (bodyFrom 0 (content t.text.toList)) := by
    simp [Text.inner, ofString]
  rw [patternLiteral, inside, Pattern.escape, String.toList_ofList, ← String.toList_inj]
  simp

/-- Escaped characters are read as a pattern of these characters. -/
theorem ofText?_escape (value : List Char) :
    LuaPattern.ofText? (value.flatMap escapeChar) = some ⟨false, value.map (⟨.char ·, .once⟩), false⟩ := by
  have text : (LuaPattern.mk false (value.map (⟨.char ·, .once⟩)) false).text = value.flatMap escapeChar := by
    simp [LuaPattern.text, List.flatMap_map, LuaPattern.Item.text, LuaPattern.Single.text, LuaPattern.Suffix.text]
  rw [← text]
  refine LuaPattern.ofText?_text fun i mem => ?_
  obtain ⟨c, -, rfl⟩ := List.mem_map.mp mem
  rfl

end Literal

open Literal Edit

/-- A replacement whose pattern is an ordinary string: what is written for it, and that the pattern is one string of Lua which
is read as the characters of the string, none of them with a meaning of its own. -/
theorem replace_string {t : Token} (string : t.isString = true)
    (ordinary : ∀ piece ∈ pieces (content t.text.toList), isOrdinary piece = true) :
    (∀ (r : Rules) (all : Bool) (args : List Token) (d d' : Desk), arguments d = (.ok args, d') →
      Token.significant (Token.splitFirst args).1 = [t] →
      r.callReplace all d = (do
        let new ← r.replacement (Token.splitFirst args).2
        emit (":gsub(" ++ patternLiteral t ++ ", " ++ new ++ (if all then "" else ", 1") ++ ")")) d') ∧
    isLuaString (patternLiteral t) = true ∧
    ∃ value pattern : List Char, stringBytes? (ofString t.text) = some (value.flatMap String.utf8EncodeChar) ∧
      stringBytes? (patternLiteral t) = some (pattern.flatMap String.utf8EncodeChar) ∧
      LuaPattern.ofText? pattern = some ⟨false, value.map (⟨.char ·, .once⟩), false⟩ := by
  obtain ⟨value, glyphs⟩ := glyphs_bodyFrom ordinary
  refine ⟨fun r all args d d' given single => ?_, ?_, value, value.flatMap Pattern.escapeChar, ?_, ?_, ofText?_escape value⟩
  · have kind : (t.kind == .regex) = false := by
      rw [beq_iff_eq.mp string]
      rfl
    rw [Rules.callReplace, bind_ok given]
    simp only [single, kind, string, if_true, Bool.false_eq_true, if_false, patternLiteral]
    cases all <;> rfl
  · rw [patternLiteral_eq, isLuaString_quoted, glyphs.escape.isStringBody_eq]
  · rw [ofString, stringBytes?_quoted, glyphs.value_eq]
  · rw [patternLiteral_eq, stringBytes?_quoted, glyphs.escape.value_eq]

/-- A string with a magic character, an escape and a quote. -/
theorem replace_string_dotted :
    let t : Token := ⟨.string, "'a.\\n\"%'"⟩
    (∀ piece ∈ pieces (content t.text.toList), isOrdinary piece = true) ∧
    isLuaString (patternLiteral t) = true ∧
    ∃ value pattern : List Char, stringBytes? (ofString t.text) = some (value.flatMap String.utf8EncodeChar) ∧
      stringBytes? (patternLiteral t) = some (pattern.flatMap String.utf8EncodeChar) ∧
      LuaPattern.ofText? pattern = some ⟨false, value.map (⟨.char ·, .once⟩), false⟩ :=
  have ordinary : ∀ piece ∈ pieces (content "'a.\\n\"%'".toList), isOrdinary piece = true := by decide +kernel
  ⟨ordinary, (replace_string (t := ⟨.string, "'a.\\n\"%'"⟩) rfl ordinary).2⟩

end NoteScript
