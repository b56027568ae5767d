import NoteScript.Text.Space

/-!
# Chunks

A chunk is finished code with what surrounds it in a file: a heading of comment lines, the preface that
gives strings the methods `split` and `slice`, and a line feed at the end. Each is optional.
-/

namespace NoteScript

/-- What surrounds the code of a chunk. -/
structure ChunkOptions where
  heading : Option String := none
  withPreface : Bool := false
  finalLineFeed : Bool := true

/-- A chunk, and the preface if it holds one. -/
structure Chunk where
  source : String
  preface : Option String
deriving DecidableEq

namespace Chunk

/-- The lines of the preface. -/
def prefaceLines : List String :=
  ["if not string.split then",
   "  local slice_mt = \x7b",
   "    __index = \x7b",
   "      slice = function(t, first, last)",
   "        local out = \x7b\x7d",
   "        first = math.max(1, first or 1)",
   "        last = math.min(#t, last or #t)",
   "        for i = first, last do out[#out + 1] = t[i] end",
   "        return setmetatable(out, getmetatable(t))",
   "      end,",
   "    \x7d,",
   "  \x7d",
   "  function string.split(s, sep)",
   "    local out = \x7b\x7d",
   "    if sep == nil or sep == \"\" then",
   "      for ch in s:gmatch(\".\") do out[#out + 1] = ch end",
   "    else",
   "      local start = 1",
   "      while true do",
   "        local i, j = s:find(sep, start, true)",
   "        if not i then",
   "          out[#out + 1] = s:sub(start)",
   "          break",
   "        end",
   "        out[#out + 1] = s:sub(start, i - 1)",
   "        start = j + 1",
   "      end",
   "    end",
   "    return setmetatable(out, slice_mt)",
   "  end",
   "end"]

/-- The preface that gives strings the methods `split` and `slice`. -/
def prefaceText : String := String.intercalate "\n" prefaceLines ++ "\n"

/-- A heading: a comment for each line, without trailing white space, and an empty line. An empty
heading is none. -/
def headingText (heading : String) : String :=
  if heading.isEmpty then ""
  else String.join ((Text.lines heading).map fun line => Text.stripEnd ("-- " ++ line) ++ "\n") ++ "\n"

/-- Put a chunk together. -/
def assemble (code : String) (options : ChunkOptions) : Chunk :=
  let preface := if options.withPreface then some prefaceText else none
  let start := ((options.heading.map headingText).getD "") ++ ((preface.map (· ++ "\n")).getD "")
  let finish := if options.finalLineFeed then "\n" else ""
  ⟨start ++ Text.stripEnd code ++ finish, preface⟩

end Chunk

end NoteScript
