/-!
# Blanks and words

A recipe line is a list of characters in which spaces and tabs separate words.  This module
names the two classes of characters that the library trims and the cuts it makes at them: a
word and what follows it, a text without its outer white space, a text in pieces.
-/

namespace SourceRecipe.Text

/-- Spaces and tabs separate the words of a recipe line; no other character does. -/
def isBlank (c : Char) : Bool :=
  c == ' ' || c == '\t'

/-- The word at the start of a line, empty when the line starts with a blank or ends. -/
def word (line : List Char) : List Char :=
  line.takeWhile (fun c => !isBlank c)

def afterWord (line : List Char) : List Char :=
  line.dropWhile (fun c => !isBlank c)

def afterBlanks (line : List Char) : List Char :=
  line.dropWhile isBlank

def blanks (line : List Char) : List Char :=
  line.takeWhile isBlank

@[simp]
theorem word_append_afterWord (line : List Char) : word line ++ afterWord line = line :=
  List.takeWhile_append_dropWhile

@[simp]
theorem blanks_append_afterBlanks (line : List Char) : blanks line ++ afterBlanks line = line :=
  List.takeWhile_append_dropWhile

/-- A text cut at every occurrence of a separator; `n` separators make `n + 1` pieces. -/
def pieces (separator : Char) : List Char → List (List Char)
  | [] => [[]]
  | c :: rest =>
      if c = separator then [] :: pieces separator rest
      else
        match pieces separator rest with
        | [] => [[c]]
        | first :: others => (c :: first) :: others

def dropReturns (line : List Char) : List Char :=
  (line.reverse.dropWhile (· == '\r')).reverse

/-- The lines of a text: line feeds separate them, and carriage returns at their ends do not
count. -/
def lines (text : List Char) : List (List Char) :=
  (pieces '\n' text).map dropReturns

/-- The characters of the Unicode property White_Space. -/
def isSpace (c : Char) : Bool :=
  let code := c.toNat
  (9 ≤ code && code ≤ 13) || code == 0x20 || code == 0x85 || code == 0xA0 || code == 0x1680 ||
    (0x2000 ≤ code && code ≤ 0x200A) || code == 0x2028 || code == 0x2029 || code == 0x202F ||
    code == 0x205F || code == 0x3000

def trimStart (text : List Char) : List Char :=
  text.dropWhile isSpace

def trim (text : List Char) : List Char :=
  (trimStart (trimStart text).reverse).reverse

end SourceRecipe.Text
