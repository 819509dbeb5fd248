import Mathlib
import RemDb.Lib.Wildcard

namespace RemDb
open RemDb.Lib

def byteLength (text : List Char) : Nat := (text.map Char.utf8Size).sum

def getFrom : List Char → Nat → Option (List Char)
  | text, 0 => some text
  | [], _+1 => none
  | letter :: rest, pos+1 => if letter.utf8Size ≤ pos+1 then getFrom rest (pos+1-letter.utf8Size) else none

-- The loop over the positions of a `%`.
def tryFrom (string : List Char) (matched : List Char → Bool) : Nat → Nat → Bool
  | 0, _ => false
  | left+1, pos =>
    match getFrom string pos with
    | some substring => matched substring || tryFrom string matched left (pos+1)
    | none => false

-- `string` is what the call was given, `rest` what its iterator has left.
def likeFrom : List Char → List Char → List Char → Bool
  | [], _, rest => rest.isEmpty
  | p_char :: pattern, string, rest =>
    if p_char = '%' then
      match pattern with
      | [] => true
      | next :: others =>
        if next = '%' then likeFrom (next :: others) string rest
        else tryFrom string (fun substring => likeFrom (next :: others) substring substring) (byteLength string+1) 0
    else if p_char = '_' then
      match rest with
      | [] => false
      | _ :: rest => likeFrom pattern string rest
    else if p_char = '\\' then
      match pattern, rest with
      | next_p_char :: pattern, s_char :: rest => if s_char = next_p_char then likeFrom pattern string rest else false
      | _ :: _, [] => false
      | [], rest => decide (rest = ['\\'])
    else
      match rest with
      | [] => false
      | s_char :: rest => if s_char = p_char then likeFrom pattern string rest else false

def likePatternMatch (string pattern : List Char) : Bool := likeFrom pattern string string

namespace LikePattern
open Wildcard

-- The positions a `%` tries: those up to the first character of several bytes.
def leading (string : List Char) : Nat := (string.takeWhile fun letter => decide (letter.utf8Size = 1)).length

section Restarting
variable {parts : List (Wildcard Char)} {part : Wildcard Char} {string rest : List Char}

end Restarting

section Loop
variable {letter : Char} {string : List Char}

end Loop

section Reading
variable {p_char : Char} {pattern : List Char}

end Reading

section Parts
variable {parts anys : List (Wildcard Char)} {part : Wildcard Char} {string rest : List Char}

end Parts

section Wide
variable {parts seg : List (Wildcard Char)} {part final : Wildcard Char} {string rest word more : List Char} {wide : Char}

end Wide

section Failing
variable {parts anys seg others : List (Wildcard Char)} {final : Wildcard Char}

end Failing

end LikePattern

end RemDb
