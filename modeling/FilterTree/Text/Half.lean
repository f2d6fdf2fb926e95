/-! Halves of characters. A text may spell a character by the codes of its two halves; a half that
stands alone is no character. -/

namespace FilterTree

def isHighHalf (n : Nat) : Bool :=
  0xd800 ≤ n && n < 0xdc00

def isLowHalf (n : Nat) : Bool :=
  0xdc00 ≤ n && n < 0xe000

/-- What stands for a half without its other one. No character has this code either, and where text
is escaped the two are written alike. -/
def loneHalf : Char := '\uffff'

end FilterTree
