import Corridor.Fault
import Corridor.Number.Reading
import Corridor.Yaml.Character

/-!
# Quoted Scalars

A scalar between single or double quotes. Blanks around a line break are dropped and the breaks
are folded. Between single quotes a quote is written twice; between double quotes there are
escapes, one of which joins two lines.
-/

namespace Corridor.Yaml.Quoted

/-- The character that an escape of one letter stands for. -/
def escaped? : Char → Option Char
  | '0' => some '\x00'
  | 'a' => some '\x07'
  | 'b' => some '\x08'
  | 't' => some '\t'
  | '\t' => some '\t'
  | 'n' => some '\n'
  | 'v' => some '\x0b'
  | 'f' => some '\x0c'
  | 'r' => some '\r'
  | 'e' => some '\x1b'
  | ' ' => some ' '
  | '"' => some '"'
  | '\\' => some '\\'
  | '/' => some '/'
  | 'N' => some '\x85'
  | '_' => some '\xa0'
  | 'L' => some '\u2028'
  | 'P' => some '\u2029'
  | _ => none

/-- How many digits an escape by number has. -/
def codeLength? : Char → Option Nat
  | 'x' => some 2
  | 'u' => some 4
  | 'U' => some 8
  | _ => none

/-- Whether a character is a hexadecimal digit. -/
def isHexDigit (c : Char) : Bool :=
  c.isDigit || ('a' ≤ c && c ≤ 'f') || ('A' ≤ c && c ≤ 'F')

/-- The character of a number. A number between characters stands for the replacement
character. -/
def character (n : Nat) : Except Fault Char :=
  if 0x10FFFF < n then .error .escapeTooLarge
  else if n.isValidChar then .ok (Char.ofNat n)
  else .ok '\uFFFD'

/-- Reads an escape by number, without the letter. -/
def readCode (length : Nat) (cs : List Char) : Except Fault Char :=
  let digits := cs.take length
  if digits.length = length && digits.all isHexDigit then
    character (Decimal.digitsValue 16 digits)
  else .error .documentMalformed

/-- Whether a character lies between two words. -/
def isGap (c : Char) : Bool := isSpace c || isBreak c

/-- What stands for the blanks between two words. They must not end the text or run into a
document marker. -/
def gapText (region rest : List Char) : Except Fault (List Char) :=
  if region.any isBreak then
    if runsIntoMarker region rest then .error .documentMalformed
    else .ok (folded (keptBreaks region))
  else if rest.isEmpty then .error .documentMalformed
  else .ok region

theorem length_dropWhile_le (p : Char → Bool) (cs : List Char) :
    (cs.dropWhile p).length ≤ cs.length := (List.dropWhile_suffix p).length_le

/-- Reads what follows a single quote, up to the quote that closes it: the text and what is left
after it. -/
def readSingle : List Char → Except Fault (List Char × List Char)
  | [] => .error .documentMalformed
  | c :: cs =>
      if c = '\'' then
        match cs with
        | '\'' :: cs => do
            let (text, rest) ← readSingle cs
            return ('\'' :: text, rest)
        | cs => .ok ([], cs)
      else if isGap c then do
        let gap ← gapText (c :: cs.takeWhile isGap) (cs.dropWhile isGap)
        let (text, rest) ← readSingle (cs.dropWhile isGap)
        return (gap ++ text, rest)
      else do
        let (text, rest) ← readSingle cs
        return (c :: text, rest)
termination_by cs => cs.length
decreasing_by
  all_goals
    have := length_dropWhile_le isGap cs
    simp_all only [List.length_cons]
    omega

/-- Reads what follows a double quote, up to the quote that closes it. -/
def readDouble : List Char → Except Fault (List Char × List Char)
  | [] => .error .documentMalformed
  | c :: cs =>
      if c = '"' then .ok ([], cs)
      else if isGap c then do
        let gap ← gapText (c :: cs.takeWhile isGap) (cs.dropWhile isGap)
        let (text, rest) ← readDouble (cs.dropWhile isGap)
        return (gap ++ text, rest)
      else if c = '\\' then
        match cs with
        | [] => .error .documentMalformed
        | e :: es =>
            match escaped? e, codeLength? e with
            | some x, _ => do
                let (text, rest) ← readDouble es
                return (x :: text, rest)
            | none, some length => do
                let x ← readCode length es
                let (text, rest) ← readDouble (es.drop length)
                return (x :: text, rest)
            | none, none => do
                let region := e :: es.takeWhile isGap
                if !isBreak e || runsIntoMarker region (es.dropWhile isGap) then
                  .error .documentMalformed
                let (text, rest) ← readDouble (es.dropWhile isGap)
                return (keptBreaks region.tail ++ text, rest)
      else do
        let (text, rest) ← readDouble cs
        return (c :: text, rest)
termination_by cs => cs.length
decreasing_by
  all_goals
    first
      | have := length_dropWhile_le isGap cs
        simp_all only [List.length_cons]
        omega
      | have := length_dropWhile_le isGap es
        simp_all only [List.length_cons, List.length_drop]
        omega

end Corridor.Yaml.Quoted
