import FilterTree.Text.Printable

/-! Quoted text as it shows in displayed values: single quotes unless only the text itself would
need them escaped, a backslash before the quote and the backslash, and escapes for what is not
printable. -/

namespace FilterTree

def hexText (width n : Nat) : String :=
  let digits := Nat.toDigits 16 n
  String.ofList (List.replicate (width - digits.length) '0' ++ digits)

def quoteFor (hasSingle hasDouble : Bool) : Char :=
  if hasSingle && !hasDouble then '"' else '\''

def escapeChar (quote c : Char) : String :=
  if c = quote ∨ c = '\\' then String.ofList ['\\', c]
  else if c = '\t' then "\\t"
  else if c = '\n' then "\\n"
  else if c = '\r' then "\\r"
  else if isPrintable c then String.singleton c
  else if c.toNat < 0x100 then "\\x" ++ hexText 2 c.toNat
  else if c.toNat < 0x10000 then "\\u" ++ hexText 4 c.toNat
  else "\\U" ++ hexText 8 c.toNat

def quoted (s : String) : String :=
  let cs := s.toList
  let quote := quoteFor (cs.contains '\'') (cs.contains '"')
  String.singleton quote ++ String.join (cs.map (escapeChar quote)) ++ String.singleton quote

def escapeByte (quotes : List Char) (b : UInt8) : String :=
  let c := Char.ofNat b.toNat
  if quotes.contains c || c = '\\' then String.ofList ['\\', c]
  else if c = '\t' then "\\t"
  else if c = '\n' then "\\n"
  else if c = '\r' then "\\r"
  else if 0x20 ≤ b.toNat ∧ b.toNat < 0x7f then String.singleton c
  else "\\x" ++ hexText 2 b.toNat

/-- The quoted form of a byte string, with its mark in front. `escaped` are quotes that get a
backslash even where they could stand alone. -/
def quotedBytes (escaped : List Char) (bs : List UInt8) : String :=
  let quote := quoteFor (bs.contains 39) (bs.contains 34)
  "b" ++ String.singleton quote ++ String.join (bs.map (escapeByte (quote :: escaped))) ++
    String.singleton quote

end FilterTree
