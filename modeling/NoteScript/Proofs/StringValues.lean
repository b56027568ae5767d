import Mathlib.Tactic.Common
import NoteScript.Proofs.Quoting

/-!
# The value of a string

A script and Lua each have rules for what the inside of a string stands for. A script's string is a row of code points, a
string of Lua is a row of bytes, and the two are the same if the bytes are the code points in UTF-8.

* `Reading`: how a language reads the inside of a string. `script`, `lua`: the two readings.
* `Spells`: an inside made of characters and of those escapes which the two languages have in common, or which lose their
  backslash, with the code points it stands for.
* `stringBytes?_body`: what is written for such an inside stands for the same string in Lua.
-/

namespace NoteScript.Literal

open Token (isHexDigit)

variable {digits rest : List Char} {n : Nat} {c : Char}

/-! ### Hexadecimal numbers -/

def hexValue (c : Char) : Nat :=
  if c.isDigit then c.toNat - '0'.toNat else if c ≤ 'F' then c.toNat - 'A'.toNat + 10 else c.toNat - 'a'.toNat + 10

/-- The number that a row of hexadecimal digits stands for. There is at least one digit. -/
def hexNumber? (digits : List Char) : Option Nat :=
  if digits ≠ [] ∧ digits.all isHexDigit then some (digits.foldl (fun n c => 16 * n + hexValue c) 0) else none

/-- The number at the start of a text that has a fixed count of digits. -/
def fixed? (size : Nat) (cs : List Char) : Option Nat := if size ≤ cs.length then hexNumber? (cs.take size) else none

/-- The number in braces at the start of a text, and the count of characters up to the closing brace. -/
def braced? : List Char → Option (Nat × Nat)
  | '\x7b' :: cs =>
    let digits := cs.takeWhile isHexDigit
    if (cs.drop digits.length).head? = some '\x7d' then (hexNumber? digits).map (·, digits.length + 2) else none
  | _ => none

theorem hexNumber?_digits (h : hexNumber? digits = some n) : ∀ c ∈ digits, isHexDigit c = true := by
  unfold hexNumber? at h
  split at h
  case isTrue all => simpa using all.2
  case isFalse => cases h

theorem head?_hexDigits (h : hexNumber? digits = some n) (rest : List Char) : (digits ++ rest).head? ≠ some '\x7b' := by
  cases digits with
  | nil => cases h
  | cons d digits =>
    intro same
    cases same
    exact absurd (hexNumber?_digits h _ List.mem_cons_self) (by decide)

theorem fixed?_append (h : hexNumber? digits = some n) (rest : List Char) : fixed? digits.length (digits ++ rest) = some n := by
  rw [fixed?, if_pos (by simp), List.take_left, h]

theorem braced?_append (h : hexNumber? digits = some n) (rest : List Char) :
    braced? ('\x7b' :: digits ++ '\x7d' :: rest) = some (n, digits.length + 2) := by
  have taken : (digits ++ '\x7d' :: rest).takeWhile isHexDigit = digits := by
    rw [List.takeWhile_append_of_pos (hexNumber?_digits h), List.takeWhile_cons_of_neg (by decide), List.append_nil]
  rw [List.cons_append, braced?, taken, List.drop_left, h]
  rfl

/-! ### How a language reads a string -/

/-- How the inside of a string is read: what a character stands for, and what the characters behind a backslash stand for,
with their count. -/
structure Reading (α : Type) where
  plain : Char → Option (List α)
  escaped : List Char → Option (List α × Nat)

namespace Reading

variable {α : Type} (r : Reading α)

/-- What a text stands for, where `skip` characters belong to an escape that was read. -/
def valueFrom (skip : Nat) : List Char → Option (List α)
  | [] => some []
  | c :: rest =>
    match skip with
    | k + 1 => valueFrom k rest
    | 0 =>
      if c = '\\' then (r.escaped rest).bind fun (value, size) => (valueFrom size rest).map (value ++ ·)
      else (r.plain c).bind fun value => (valueFrom 0 rest).map (value ++ ·)

def value (cs : List Char) : Option (List α) := r.valueFrom 0 cs

theorem valueFrom_drop (skip : Nat) (cs : List Char) : r.valueFrom skip cs = r.value (cs.drop skip) :=
  Text.skip_eq_drop skip cs (fun _ => rfl) fun _ _ _ => rfl

theorem value_plain {c : Char} (bare : c ≠ '\\') {unit : List α} (h : r.plain c = some unit) (rest : List Char) :
    r.value (c :: rest) = (r.value rest).map (unit ++ ·) := by
  rw [value, valueFrom, if_neg bare, h]
  rfl

theorem value_escape (cs : List Char) {unit : List α} {rest : List Char} (h : r.escaped (cs ++ rest) = some (unit, cs.length)) :
    r.value ('\\' :: cs ++ rest) = (r.value rest).map (unit ++ ·) := by
  rw [List.cons_append, value, valueFrom, if_pos rfl, h]
  simp [valueFrom_drop]

end Reading

/-! ### The script -/

/-- The letters that stand for a control character behind a backslash. -/
def controlChar? : Char → Option Char
  | 'n' => some '\n'
  | 'r' => some '\r'
  | 't' => some '\t'
  | 'b' => some '\x08'
  | 'f' => some '\x0c'
  | 'v' => some '\x0b'
  | _ => none

def lineTerminators : List Char := ['\n', '\r', '\u2028', '\u2029']

/-- The character of a code point. A surrogate is none. -/
def scalar? (n : Nat) : Option Char := if n.isValidChar then some (Char.ofNat n) else none

/-- The escapes of a script. A line break behind a backslash stands for an empty text. No digit may stand there but a zero that
has none behind it. -/
def scriptEscape : List Char → Option (List Char × Nat)
  | [] => none
  | c :: rest =>
    if c = 'x' then (fixed? 2 rest).map fun n => ([Char.ofNat n], 3)
    else if c = 'u' then
      if rest.head? = some '\x7b' then (braced? rest).bind fun (n, size) => (scalar? n).map ([·], size + 1)
      else ((fixed? 4 rest).bind scalar?).map ([·], 5)
    else if c.isDigit then if c = '0' ∧ ¬ rest.head?.any Char.isDigit then some (['\x00'], 1) else none
    else if c ∈ lineTerminators then some ([], if c = '\r' ∧ rest.head? = some '\n' then 2 else 1)
    else some ([(controlChar? c).getD c], 1)

/-- A script's string or the text of a template. A carriage return is left out: a string has none, and a template reads it as
a line feed. -/
def script : Reading Char where
  plain c := if c = '\r' then none else some [c]
  escaped := scriptEscape

/-! ### Lua -/

/-- The bytes of a code point, which may be a surrogate. -/
def utf8Bytes (n : Nat) : List UInt8 := if n < 0x80 then [.ofNat n]
  else if n < 0x800 then [.ofNat (0xc0 + n / 64), .ofNat (0x80 + n % 64)]
  else if n < 0x10000 then [.ofNat (0xe0 + n / 4096), .ofNat (0x80 + n / 64 % 64), .ofNat (0x80 + n % 64)]
  else [.ofNat (0xf0 + n / 262144), .ofNat (0x80 + n / 4096 % 64), .ofNat (0x80 + n / 64 % 64), .ofNat (0x80 + n % 64)]

/-- The byte at the start of a text that has up to three decimal digits. -/
def decimal? (cs : List Char) : Option (List UInt8 × Nat) := let digits := (cs.take 3).takeWhile Char.isDigit
  let n := Nat.ofDigitChars 10 digits 0
  if n < 256 then some ([.ofNat n], digits.length) else none

/-- The escapes of Lua. A letter or a sign that has no meaning of its own must not stand behind a backslash. -/
def luaEscape : List Char → Option (List UInt8 × Nat)
  | [] => none
  | c :: rest =>
    if c = 'a' then some ([7], 1)
    else if let some d := controlChar? c then some (String.utf8EncodeChar d, 1)
    else if c ∈ ['\\', '"', '\''] then some (String.utf8EncodeChar c, 1)
    else if c = 'x' then (fixed? 2 rest).map fun n => ([.ofNat n], 3)
    else if c = 'u' then (braced? rest).bind fun (n, size) => if n < 0x110000 then some (utf8Bytes n, size + 1) else none
    else if c = 'z' then some ([], (rest.takeWhile (· ∈ [' ', '\n', '\r', '\t', '\x0b', '\x0c'])).length + 1)
    else if c = '\n' then some ([10], if rest.head? = some '\r' then 2 else 1)
    else if c = '\r' then some ([10], if rest.head? = some '\n' then 2 else 1)
    else if c.isDigit then decimal? (c :: rest)
    else none

/-- The inside of a double-quoted string of Lua, whose text is in UTF-8. -/
def lua : Reading UInt8 where
  plain c := if c ∈ ['"', '\n', '\r'] then none else some (String.utf8EncodeChar c)
  escaped := luaEscape

/-- The bytes of a double-quoted string of Lua, if the text is one. -/
def stringBytes? (s : String) : Option (List UInt8) := match s.toList with
  | '"' :: rest => if rest.getLast? = some '"' then lua.value rest.dropLast else none
  | _ => none

theorem utf8Bytes_toNat (c : Char) : utf8Bytes c.toNat = String.utf8EncodeChar c := by
  have valid := c.valid
  simp only [UInt32.isValidChar, Nat.isValidChar] at valid
  have same : c.toNat = c.val.toNat := rfl
  rw [utf8Bytes, String.utf8EncodeChar, same]
  generalize c.val.toNat = n at valid
  grind

/-! ### Spellings that both have -/

/-- A character and a way to write it in a script. -/
inductive Spelling : Char → List Char → Prop
  | plain {c : Char} (bare : c ≠ '\\') (other : c ≠ '\r') : Spelling c [c]
  | control {letter c : Char} (h : controlChar? letter = some c) : Spelling c ['\\', letter]
  | itself {c : Char} (letter : c ∉ ['a', 'b', 'f', 'n', 'r', 't', 'v', 'x', 'z', 'u']) (digit : c.isDigit = false)
      (line : c ∉ lineTerminators) : Spelling c ['\\', c]
  | zero : Spelling '\x00' ['\\', '0']
  | byte {c : Char} {digits : List Char} (size : digits.length = 2) (h : hexNumber? digits = some c.toNat)
      (small : c.toNat < 0x80) : Spelling c ('\\' :: 'x' :: digits)
  | fixed {c : Char} {digits : List Char} (size : digits.length = 4) (h : hexNumber? digits = some c.toNat) :
      Spelling c ('\\' :: 'u' :: digits)
  | braced {c : Char} {digits : List Char} (h : hexNumber? digits = some c.toNat) :
      Spelling c ('\\' :: 'u' :: '\x7b' :: digits ++ ['\x7d'])

/-- A row of characters and a way to write them. A zero behind a backslash has no digit behind it. -/
inductive Spells : List Char → List Char → Prop
  | nil : Spells [] []
  | cons {c : Char} {piece value rest : List Char} (spelling : Spelling c piece)
      (apart : piece = ['\\', '0'] → rest.head?.any Char.isDigit = false) (others : Spells value rest) :
      Spells (c :: value) (piece ++ rest)

theorem scalar?_toNat (c : Char) : scalar? c.toNat = some c := by
  have valid : c.toNat.isValidChar := c.valid
  rw [scalar?, if_pos valid, Char.ofNat_toNat]

theorem script_value_spelling {piece : List Char} (h : Spelling c piece)
    (apart : piece = ['\\', '0'] → rest.head?.any Char.isDigit = false) :
    script.value (piece ++ rest) = (script.value rest).map ([c] ++ ·) := by
  cases h with
  | plain bare other => exact script.value_plain bare (if_neg other) rest
  | @control letter _ h =>
    refine script.value_escape [letter] ?_
    unfold controlChar? at h
    split at h <;> cases h <;> rfl
  | itself letter digit line =>
    refine script.value_escape [c] ?_
    have plain : controlChar? c = none := by
      unfold controlChar?
      split <;> simp_all
    have other : c ≠ 'x' ∧ c ≠ 'u' := by simp_all
    change scriptEscape (c :: rest) = _
    rw [scriptEscape, if_neg other.1, if_neg other.2, digit, if_neg Bool.false_ne_true, if_neg line, plain]
    rfl
  | zero =>
    refine script.value_escape ['0'] ?_
    change scriptEscape ('0' :: rest) = _
    simp [scriptEscape, apart rfl]
  | @byte _ digits size h small =>
    refine script.value_escape ('x' :: digits) ?_
    change scriptEscape ('x' :: (digits ++ rest)) = _
    rw [scriptEscape, if_pos rfl, ← size, fixed?_append h, Option.map_some, Char.ofNat_toNat, List.length_cons, size]
  | @fixed _ digits size h =>
    refine script.value_escape ('u' :: digits) ?_
    change scriptEscape ('u' :: (digits ++ rest)) = _
    rw [scriptEscape, if_neg (by decide), if_pos rfl, if_neg (head?_hexDigits h rest), ← size, fixed?_append h, Option.bind_some, scalar?_toNat,
      List.length_cons, size]
    rfl
  | @braced _ digits h =>
    refine script.value_escape ('u' :: '\x7b' :: digits ++ ['\x7d']) ?_
    have opening : ('\x7b' :: digits ++ '\x7d' :: rest).head? = some '\x7b' := rfl
    change scriptEscape ('u' :: '\x7b' :: (digits ++ ['\x7d'] ++ rest)) = _
    rw [List.append_assoc, List.singleton_append, ← List.cons_append, scriptEscape, if_neg (by decide), if_pos rfl, if_pos opening,
      braced?_append h, Option.bind_some]
    simp [scalar?_toNat]

theorem bodyFrom_escape (cs : List Char) {written : List Char} (h : escape (cs ++ rest) = (written, cs.length)) :
    bodyFrom 0 ('\\' :: cs ++ rest) = written ++ bodyFrom 0 rest := by
  rw [List.cons_append, bodyFrom, if_pos (beq_self_eq_true _), h, bodyFrom_drop, List.drop_left]

theorem bodyFrom_plain {cs : List Char} (plain : ∀ c ∈ cs, c ∉ ['\\', '"', '\n', '\r']) (rest : List Char) :
    bodyFrom 0 (cs ++ rest) = cs ++ bodyFrom 0 rest := by
  induction cs with
  | nil => rfl
  | cons c cs ih =>
    have here := plain c List.mem_cons_self
    simp only [List.mem_cons, List.not_mem_nil, or_false, not_or] at here
    have bare : bareChar c = [c] := by
      unfold bareChar
      split <;> simp_all
    rw [List.cons_append, bodyFrom, if_neg (by simpa using here.1), bare, ih fun d mem => plain d (List.mem_cons_of_mem c mem)]
    rfl

theorem not_mem_of_isHexDigit (h : isHexDigit c = true) : c ∉ ['\\', '"', '\n', '\r'] := by
  simp only [List.mem_cons, List.not_mem_nil, or_false, not_or]
  refine ⟨?_, ?_, ?_, ?_⟩ <;> rintro rfl <;> exact absurd h (by decide)

/-- A code point in braces has its bytes in Lua. -/
theorem luaEscape_braced (h : hexNumber? digits = some c.toNat) (rest : List Char) :
    luaEscape ('u' :: '\x7b' :: digits ++ '\x7d' :: rest) = some (String.utf8EncodeChar c, digits.length + 3) := by
  have small : c.toNat < 0x110000 := by
    have valid := c.valid
    simp only [UInt32.isValidChar, Nat.isValidChar] at valid
    change c.val.toNat < _
    omega
  have first : luaEscape ('u' :: ('\x7b' :: digits ++ '\x7d' :: rest)) =
      (braced? ('\x7b' :: digits ++ '\x7d' :: rest)).bind fun (n, size) => if n < 0x110000 then some (utf8Bytes n, size + 1) else none := rfl
  rw [List.cons_append, first, braced?_append h, Option.bind_some]
  simp [small, utf8Bytes_toNat]

theorem lua_value_braced (h : hexNumber? digits = some c.toNat) (behind : List Char) :
    lua.value ('\\' :: 'u' :: '\x7b' :: digits ++ ['\x7d'] ++ behind) = (lua.value behind).map (String.utf8EncodeChar c ++ ·) := by
  refine lua.value_escape ('u' :: '\x7b' :: digits ++ ['\x7d']) ?_
  have size : ('u' :: '\x7b' :: digits ++ ['\x7d']).length = digits.length + 3 := by simp
  rw [List.append_assoc, List.singleton_append, size]
  exact luaEscape_braced h behind

/-- What is written for a spelling stands for the same character in Lua. -/
theorem exists_written {piece : List Char} (h : Spelling c piece) (rest : List Char) : ∃ written,
    bodyFrom 0 (piece ++ rest) = written ++ bodyFrom 0 rest ∧
    ∀ behind : List Char, (piece = ['\\', '0'] → behind.head?.any Char.isDigit = false) →
      lua.value (written ++ behind) = (lua.value behind).map (String.utf8EncodeChar c ++ ·) := by
  cases h with
  | plain bare other =>
    by_cases special : c ∈ ['"', '\n']
    · simp only [List.mem_cons, List.not_mem_nil, or_false] at special
      rcases special with rfl | rfl
      · exact ⟨['\\', '"'], rfl, fun behind _ => lua.value_escape ['"'] rfl⟩
      · exact ⟨['\\', 'n'], rfl, fun behind _ => lua.value_escape ['n'] rfl⟩
    · have plain : c ∉ ['"', '\n', '\r'] := by simp_all
      refine ⟨[c], bodyFrom_plain ?_ rest, fun behind _ => lua.value_plain bare (if_neg plain) behind⟩
      simp_all
  | @control letter _ h =>
    refine ⟨['\\', letter], bodyFrom_escape [letter] ?_, fun behind _ => lua.value_escape [letter] ?_⟩
    · unfold controlChar? at h
      split at h <;> cases h <;> rfl
    · unfold controlChar? at h
      split at h <;> cases h <;> rfl
  | itself letter digit line =>
    by_cases special : c ∈ ['\\', '"']
    · simp only [List.mem_cons, List.not_mem_nil, or_false] at special
      rcases special with rfl | rfl
      · exact ⟨['\\', '\\'], bodyFrom_escape ['\\'] rfl, fun behind _ => lua.value_escape ['\\'] rfl⟩
      · exact ⟨['\\', '"'], bodyFrom_escape ['"'] rfl, fun behind _ => lua.value_escape ['"'] rfl⟩
    · have dropped : keepsBackslash c = false := by
        simp_all [keepsBackslash, lineTerminators]
      have plain : c ∉ ['"', '\n', '\r'] := by simp_all [lineTerminators]
      refine ⟨[c], bodyFrom_escape [c] ?_, fun behind _ => lua.value_plain ?_ (if_neg plain) behind⟩
      · change escape (c :: rest) = _
        rw [escape.eq_4 c rest (by simp_all) (by simp_all), dropped]
        rfl
      · simp_all
  | zero =>
    refine ⟨['\\', '0'], bodyFrom_escape ['0'] rfl, fun behind apart => lua.value_escape ['0'] ?_⟩
    have alone : (('0' :: behind).take 3).takeWhile Char.isDigit = ['0'] := by
      cases behind with
      | nil => rfl
      | cons d behind => simp_all
    have first : lua.escaped ('0' :: behind) = decimal? ('0' :: behind) := rfl
    rw [List.singleton_append, first, decimal?, alone]
    rfl
  | @byte _ digits size h small =>
    have digit : ∀ d ∈ digits, d ∉ ['\\', '"', '\n', '\r'] := fun d mem => not_mem_of_isHexDigit (hexNumber?_digits h d mem)
    refine ⟨'\\' :: 'x' :: digits, ?_, fun behind _ => lua.value_escape ('x' :: digits) ?_⟩
    · change bodyFrom 0 ('\\' :: ['x'] ++ (digits ++ rest)) = '\\' :: ['x'] ++ digits ++ bodyFrom 0 rest
      rw [bodyFrom_escape ['x'] rfl, bodyFrom_plain digit, List.append_assoc]
      rfl
    · have first : lua.escaped ('x' :: (digits ++ behind)) = (fixed? 2 (digits ++ behind)).map fun n => ([.ofNat n], 3) := rfl
      rw [List.cons_append, first, ← size, fixed?_append h, Option.map_some, ← utf8Bytes_toNat, utf8Bytes, if_pos small, List.length_cons, size]
  | @fixed _ digits size h =>
    refine ⟨'\\' :: 'u' :: '\x7b' :: digits ++ ['\x7d'], bodyFrom_escape ('u' :: digits) ?_, fun behind _ => lua_value_braced h behind⟩
    change escape ('u' :: (digits ++ rest)) = _
    have unbraced : ∀ more, digits ++ rest = '\x7b' :: more → False := fun more same =>
      head?_hexDigits h rest (by rw [same, List.head?_cons])
    rw [escape.eq_3 _ unbraced, ← size, List.take_left, List.length_cons, size]
  | @braced _ digits h =>
    refine ⟨'\\' :: 'u' :: '\x7b' :: digits ++ ['\x7d'], bodyFrom_escape ('u' :: '\x7b' :: digits ++ ['\x7d']) ?_,
      fun behind _ => lua_value_braced h behind⟩
    have inside : ∀ d ∈ digits, (d != '\x7d') = true := by
      intro d mem
      rw [bne_iff_ne]
      rintro rfl
      exact absurd (hexNumber?_digits h _ mem) (by decide)
    have taken : (digits ++ '\x7d' :: rest).takeWhile (· != '\x7d') = digits := by
      rw [List.takeWhile_append_of_pos inside, List.takeWhile_cons_of_neg (by decide), List.append_nil]
    change escape ('u' :: '\x7b' :: (digits ++ ['\x7d'] ++ rest)) = _
    rw [List.append_assoc, List.singleton_append, escape.eq_2, taken, List.take_length_add_append]
    simp

/-- No digit comes to stand in front of a text that has none there. -/
theorem head?_bodyFrom (h : rest.head?.any Char.isDigit = false) : (bodyFrom 0 rest).head?.any Char.isDigit = false := by
  cases rest with
  | nil => rfl
  | cons c rest =>
    rw [bodyFrom]
    by_cases mark : c = '\\'
    · subst mark
      rw [if_pos (by decide)]
      fun_cases escape rest with
      | case1 => rfl
      | case2 => rfl
      | case3 => rfl
      | case4 d rest =>
        by_cases kept : keepsBackslash d = true
        · rw [if_pos kept]
          rfl
        · rw [if_neg kept]
          simp_all [keepsBackslash]
    · rw [if_neg (by simpa using mark)]
      unfold bareChar
      split
      · rfl
      · rfl
      · rfl
      · exact h

theorem value_body {value raw : List Char} (h : Spells value raw) :
    script.value raw = some value ∧ lua.value (bodyFrom 0 raw) = some (value.flatMap String.utf8EncodeChar) := by
  induction h with
  | nil => exact ⟨rfl, rfl⟩
  | @cons c piece value rest spelling apart _ ih =>
    obtain ⟨written, body, bytes⟩ := exists_written spelling rest
    constructor
    · rw [script_value_spelling spelling apart, ih.1]
      rfl
    · rw [body, bytes _ fun zero => head?_bodyFrom (apart zero), ih.2, List.flatMap_cons]
      rfl

theorem stringBytes?_quoted (cs : List Char) : stringBytes? (String.ofList ('"' :: cs ++ ['"'])) = lua.value cs := by
  simp [stringBytes?]

theorem content_quoted (mark : Char) (cs : List Char) : content (mark :: cs ++ [mark]) = cs := by
  simp [content]

/-- A string or a text of a template that is spelled in the common ways stands for the same string in Lua, whatever the marks
around it are. -/
theorem stringBytes?_body {value : List Char} {raw : String} (h : Spells value raw.toList) :
    script.value raw.toList = some value ∧
    stringBytes? ("\"" ++ body raw ++ "\"") = some (value.flatMap String.utf8EncodeChar) ∧
    ∀ mark : Char, stringBytes? (ofString (String.ofList (mark :: raw.toList ++ [mark]))) =
      some (value.flatMap String.utf8EncodeChar) := by
  obtain ⟨denoted, bytes⟩ := value_body h
  refine ⟨denoted, ?_, fun mark => ?_⟩
  · rw [quoted_body, stringBytes?_quoted, bytes]
  · rw [ofString, String.toList_ofList, content_quoted, stringBytes?_quoted, bytes]

/-- A zero in front of another escape, a quote of either kind, and code points of one byte and of four. -/
theorem stringBytes?_body_mixed :
    Spells ['\x00', 'A', '\'', '"', '😀'] "\\0\\x41\\'\"\\u\x7b1f600\x7d".toList ∧
    stringBytes? ("\"" ++ body "\\0\\x41\\'\"\\u\x7b1f600\x7d" ++ "\"") =
      some [0, 0x41, 0x27, 0x22, 0xf0, 0x9f, 0x98, 0x80] := by
  have spelled : Spells ['\x00', 'A', '\'', '"', '😀'] "\\0\\x41\\'\"\\u\x7b1f600\x7d".toList := by
    refine .cons .zero (by decide) (.cons (@Spelling.byte 'A' ['4', '1'] rfl rfl (by decide)) (by decide) ?_)
    refine .cons (.itself (by decide) rfl (by decide)) (by decide) (.cons (.plain (by decide) (by decide)) (by decide) ?_)
    exact .cons (@Spelling.braced '😀' ['1', 'f', '6', '0', '0'] rfl) (by decide) .nil
  exact ⟨spelled, (stringBytes?_body spelled).2.1⟩

end NoteScript.Literal
