import PushValue.Text.Printable
import PushValue.Text.Unpaired

/-!
# Quoted text

A quoted text stands between two quotes on one line and shows every character:
the quote itself, the backslash and line breaks are written with a backslash,
and characters without a glyph by their code point in hexadecimal.
-/

namespace PushValue
namespace Text

def hexadecimal (width n : Nat) : List Char :=
  let ds := Nat.toDigits 16 n
  List.replicate (width - ds.length) '0' ++ ds

/-- The code point of a character as an escape of the shortest of the three widths. -/
def codePointEscape (n : Nat) : List Char :=
  if n < 0x100 then '\\' :: 'x' :: hexadecimal 2 n
  else if n < 0x10000 then '\\' :: 'u' :: hexadecimal 4 n
  else '\\' :: 'U' :: hexadecimal 8 n

def singleQuote : Char := Char.ofNat 0x27

def doubleQuote : Char := Char.ofNat 0x22

def quotedChar (quote c : Char) : List Char :=
  if c = quote || c = '\\' then ['\\', c]
  else if c = '\n' then ['\\', 'n']
  else if c = '\r' then ['\\', 'r']
  else if c = '\t' then ['\\', 't']
  else if isPrintable c then [c]
  else codePointEscape ((half? c).getD c.toNat)

/-- Single quotes are used, unless the text holds one and holds no double quote. -/
def quoteFor (cs : List Char) : Char :=
  if cs.contains singleQuote && !cs.contains doubleQuote then doubleQuote else singleQuote

def quoted (s : String) : String :=
  let cs := s.toList
  let quote := quoteFor cs
  String.ofList (quote :: cs.flatMap (quotedChar quote) ++ [quote])

example : quoted "a\nb" = "'a\\nb'" := by decide +kernel

example : quoted "it's" = "\"it's\"" := by decide +kernel

end Text
end PushValue
