import Mathlib.Tactic.Common
import NoteScript.Literal
import NoteScript.Proofs.Characters
import NoteScript.Token.Scan

/-!
# Strings that stay closed

Text of a script is written between double quotes of Lua. It stays there as long as Lua, which takes a backslash and the
next character as one, meets no other quote and no line break on the way. Most escapes of a script are written so that they
are whole; a code point escape is copied as it stands, whatever it holds, and a backslash in front of a carriage return is
dropped.

* `isLuaString`: a text that is one double-quoted string of Lua and nothing else.
* `pieces`: the characters and escapes that the inside of a string is made of. `isTame`: a piece that stays inside.
* `literals_closed_iff`: a string or the text of a template stays closed exactly if all its pieces are tame.
-/

namespace NoteScript.Literal

/-! ### Strings of Lua -/

/-- The inside of a double-quoted string: no quote and no line break but right behind a backslash, which takes the next
character with it. -/
def isStringBody : List Char → Bool
  | [] => true
  | '\\' :: _ :: rest => isStringBody rest
  | c :: rest => c != '\\' && c != '"' && c != '\n' && c != '\r' && isStringBody rest

/-- A text that Lua reads as one double-quoted string, from its first to its last character. -/
def isLuaString (s : String) : Bool := match s.toList with
  | '"' :: rest => rest.getLast? == some '"' && isStringBody rest.dropLast
  | _ => false

theorem isLuaString_quoted (cs : List Char) : isLuaString (String.ofList ('"' :: cs ++ ['"'])) = isStringBody cs := by
  simp [isLuaString]

theorem isStringBody_cons {c : Char} (h : c ∉ ['\\', '"', '\n', '\r']) (rest : List Char) :
    isStringBody (c :: rest) = isStringBody rest := by
  simp only [List.mem_cons, List.not_mem_nil, or_false, not_or] at h
  rw [isStringBody.eq_3 _ _ fun _ _ same => absurd same h.1]
  simp [h]

/-- Text behind a whole string body is read as if it stood alone. -/
theorem isStringBody_append {cs : List Char} (h : isStringBody cs = true) (cs' : List Char) :
    isStringBody (cs ++ cs') = isStringBody cs' := by
  fun_induction isStringBody cs with
  | case1 => rfl
  | case2 c rest ih => exact ih h
  | case3 c rest _ ih =>
    simp only [Bool.and_eq_true, bne_iff_ne] at h
    rw [List.cons_append, isStringBody_cons (by simp [h]), ih h.2]

/-- A body is spoilt by what it holds, not by what follows, unless it ends with a backslash. -/
theorem isStringBody_append_of_spoilt {cs : List Char} (h : isStringBody cs = false) (ends : cs.getLast? ≠ some '\\')
    (cs' : List Char) : isStringBody (cs ++ cs') = false := by
  fun_induction isStringBody cs with
  | case1 => cases h
  | case2 c rest ih =>
    refine ih h ?_
    cases rest with
    | nil => simp
    | cons => simpa using ends
  | case3 c rest pair ih =>
    have single : c ≠ '\\' := by
      rintro rfl
      cases rest with
      | nil => exact ends rfl
      | cons d rest => exact pair d rest rfl rfl
    rw [List.cons_append, isStringBody.eq_3 _ _ fun _ _ same => absurd same single]
    cases inside : isStringBody rest with
    | false =>
      have later : rest.getLast? ≠ some '\\' := by
        cases rest with
        | nil => simp
        | cons => simpa using ends
      rw [ih inside later, Bool.and_false]
    | true =>
      rw [inside, Bool.and_true] at h
      rw [h, Bool.false_and]

/-- Two texts in a row are a body exactly if both are, unless the first one ends with a backslash. -/
theorem isStringBody_append_eq {cs : List Char} (ends : cs.getLast? ≠ some '\\') (cs' : List Char) :
    isStringBody (cs ++ cs') = (isStringBody cs && isStringBody cs') := by
  cases whole : isStringBody cs with
  | false => rw [isStringBody_append_of_spoilt whole ends, Bool.false_and]
  | true => rw [isStringBody_append whole, Bool.true_and]

/-! ### What the inside of a string is made of -/

/-- The number of characters that belong to a backslash: a code point escape goes up to its closing brace, or over four
digits, any other escape is one character. -/
def escapeSize : List Char → Nat
  | 'u' :: '\x7b' :: rest => (rest.takeWhile (· != '\x7d')).length + 3
  | 'u' :: _ => 5
  | _ => 1

/-- The number of characters that belong to the one in front of them. -/
def belonging (c : Char) (rest : List Char) : Nat := if c == '\\' then escapeSize rest else 0

/-- The characters that stand alone and the escapes, each with all that belongs to it. -/
def pieces : List Char → List (List Char)
  | [] => []
  | c :: rest => (c :: rest.take (belonging c rest)) :: pieces (rest.drop (belonging c rest))
termination_by cs => cs.length
decreasing_by
  simp only [List.length_cons, List.length_drop]
  omega

/-- A piece that stays inside the quotes: no carriage return that loses its backslash, and no code point escape that holds a
quote, a line break or half an escape. -/
def isTame : List Char → Bool
  | ['\\', '\r'] => false
  | '\\' :: 'u' :: '\x7b' :: inside => isStringBody inside
  | '\\' :: 'u' :: digits => isStringBody (digits ++ ['\x7d'])
  | _ => true

theorem bodyFrom_drop (skip : Nat) (cs : List Char) : bodyFrom skip cs = bodyFrom 0 (cs.drop skip) :=
  Text.skip_eq_drop skip cs (fun _ => rfl) fun _ _ _ => rfl

theorem isStringBody_bareChar {c : Char} (h : c ≠ '\\') : isStringBody (bareChar c) = true := by
  unfold bareChar
  split
  · rfl
  · rfl
  · rfl
  · rw [isStringBody_cons (by simp_all)]
    rfl

/-- A code point escape in braces is copied up to its closing brace, or to the end where there is none. -/
theorem isStringBody_braced (rest : List Char) {size : Nat} (h : size = (rest.takeWhile (· != '\x7d')).length + 1) :
    isStringBody (rest.take size ++ bodyFrom 0 (rest.drop size)) =
      (isStringBody (rest.take size) && isStringBody (bodyFrom 0 (rest.drop size))) := by
  have split : rest = rest.takeWhile (· != '\x7d') ++ rest.dropWhile (· != '\x7d') := List.takeWhile_append_dropWhile.symm
  cases behind : rest.dropWhile (· != '\x7d') with
  | nil =>
    have all : rest.length < size := by
      rw [behind, List.append_nil] at split
      rw [h, ← split]
      exact Nat.lt_succ_self _
    rw [List.drop_eq_nil_of_le (Nat.le_of_lt all), List.take_of_length_le (Nat.le_of_lt all)]
    simp [bodyFrom, isStringBody]
  | cons c others =>
    have closing : c = '\x7d' := by
      have first := List.head?_dropWhile_not (· != '\x7d') rest
      simpa [behind] using first
    have copied : rest.take size = rest.takeWhile (· != '\x7d') ++ ['\x7d'] := by
      rw [behind, closing] at split
      nth_rewrite 1 [split]
      rw [h, List.take_length_add_append]
      rfl
    refine isStringBody_append_eq ?_ _
    rw [copied, List.getLast?_concat]
    decide

/-- What is written for an escape is a string body if the escape is tame. If it is not, no text behind it makes it one. -/
theorem isStringBody_escape (rest : List Char) : isStringBody ((escape rest).1 ++ bodyFrom (escape rest).2 rest) =
      (isTame ('\\' :: rest.take (escapeSize rest)) && isStringBody (bodyFrom 0 (rest.drop (escapeSize rest)))) := by
  have opening : '\x7b' ∉ ['\\', '"', '\n', '\r'] := by decide
  rw [bodyFrom_drop]
  fun_cases escape rest with
  | case1 => rfl
  | case2 rest digits => exact (isStringBody_cons opening _).trans (isStringBody_braced rest rfl)
  | case3 rest unbraced =>
    have tame : isTame ('\\' :: 'u' :: rest.take 4) = isStringBody (rest.take 4 ++ ['\x7d']) := by
      cases rest with
      | nil => rfl
      | cons d rest => exact isTame.eq_3 _ fun inside same => unbraced (rest.drop 3) (by simp_all)
    have closed : (rest.take 4 ++ ['\x7d']).getLast? ≠ some '\\' := by
      rw [List.getLast?_concat]
      decide
    rw [escapeSize.eq_2 rest unbraced, List.take_succ_cons, tame]
    exact (isStringBody_cons opening _).trans (isStringBody_append_eq closed _)
  | case4 c rest _ single =>
    have size : escapeSize (c :: rest) = 1 := by
      unfold escapeSize
      split <;> simp_all
    have tame : isTame ['\\', c] = (c != '\r') := by
      unfold isTame
      split <;> simp_all
    rw [size, List.take_succ_cons, List.take_zero, List.drop_one, List.tail_cons, tame]
    by_cases kept : keepsBackslash c = true
    · have other : c ≠ '\r' := by
        rintro rfl
        exact absurd kept (by decide)
      rw [if_pos kept, bne_iff_ne.mpr other]
      rfl
    · rw [if_neg kept]
      by_cases carriage : c = '\r'
      · subst carriage
        rfl
      · have plain : c ∉ ['\\', '"', '\n', '\r'] := by
          simp only [List.mem_cons, List.not_mem_nil, or_false, carriage]
          rintro (rfl | rfl | rfl) <;> exact kept rfl
        rw [List.singleton_append, isStringBody_cons plain, bne_iff_ne.mpr carriage, Bool.true_and]

theorem isStringBody_bodyFrom (cs : List Char) : isStringBody (bodyFrom 0 cs) = (pieces cs).all isTame := by
  fun_induction pieces cs with
  | case1 => rfl
  | case2 c rest ih =>
    rw [List.all_cons, ← ih, bodyFrom, belonging]
    by_cases mark : c = '\\'
    · subst mark
      rw [if_pos (by decide), if_pos (by decide)]
      exact isStringBody_escape rest
    · have tame : isTame [c] = true := by
        unfold isTame
        split <;> simp_all
      rw [if_neg (by simpa using mark), if_neg (by simpa using mark), List.take_zero, List.drop_zero,
        isStringBody_append (isStringBody_bareChar mark), tame, Bool.true_and]

theorem quoted_body (raw : String) : "\"" ++ body raw ++ "\"" = String.ofList ('"' :: bodyFrom 0 raw.toList ++ ['"']) := by
  simp [body, ← String.toList_inj]

/-- A string of a script, or a text in a template, is written as one string of Lua exactly if all it is made of is tame. -/
theorem literals_closed_iff (source : String) :
    (∀ t ∈ Token.tokenize source, t.isString = true →
      (isLuaString (ofString t.text) = true ↔ ∀ piece ∈ pieces (content t.text.toList), isTame piece = true)) ∧
    ∀ t ∈ Token.tokenize source, ∀ parts, t.kind = .template parts → ∀ raw, .text raw ∈ parts →
      (isLuaString ("\"" ++ body raw ++ "\"") = true ↔ ∀ piece ∈ pieces raw.toList, isTame piece = true) := by
  refine ⟨fun t _ _ => ?_, fun t _ parts _ raw _ => ?_⟩
  · rw [ofString, isLuaString_quoted, isStringBody_bodyFrom, List.all_eq_true]
  · rw [quoted_body, isLuaString_quoted, isStringBody_bodyFrom, List.all_eq_true]

/-- A carriage return behind a backslash, and a quote among the digits of a code point escape in a template. -/
theorem literals_closed_iff_open :
    isLuaString (ofString "'a\\\r\nb'") = false ∧ isLuaString ("\"" ++ body "\\u\"abc" ++ "\"") = false := by
  obtain ⟨strings, templates⟩ := literals_closed_iff "x = 'a\\\r\nb' + `\\u\"abc`"
  have string := strings ⟨.string, "'a\\\r\nb'"⟩ (by decide +kernel) rfl
  have text := templates ⟨.template [.text "\\u\"abc"], "`\\u\"abc`"⟩ (by decide +kernel) _ rfl _ List.mem_cons_self
  constructor
  · refine Bool.eq_false_iff.mpr fun closed => ?_
    exact absurd (string.mp closed ['\\', '\r'] (by decide +kernel)) (by decide)
  · refine Bool.eq_false_iff.mpr fun closed => ?_
    exact absurd (text.mp closed ['\\', 'u', '"', 'a', 'b', 'c'] (by decide +kernel)) (by decide)

end NoteScript.Literal
