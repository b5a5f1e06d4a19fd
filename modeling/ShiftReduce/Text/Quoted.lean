import ShiftReduce.Text.Unprintable

/-!
Quoted text. Quote, backslash and the usual controls take a short escape, every other unprintable
character its code point in hexadecimal, and all else stands for itself.
-/
namespace ShiftReduce.Text

def hexadecimal (n : Nat) : String := String.ofList (Nat.toDigits 16 n)

def escape (c : Char) : String :=
  if c == '"' then "\\\""
  else if c == '\\' then "\\\\"
  else if c == '\n' then "\\n"
  else if c == '\t' then "\\t"
  else if c == '\r' then "\\r"
  else if c.toNat == 0 then "\\0"
  else if isUnprintable c then "\\u\x7b" ++ hexadecimal c.toNat ++ "\x7d"
  else c.toString

def quote (text : String) : String := "\"" ++ String.join (text.toList.map escape) ++ "\""

end ShiftReduce.Text
