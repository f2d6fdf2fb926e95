import FilterTree.Text.Ranges

/-! White space, by Unicode 14. -/

namespace FilterTree

def spaceRanges : CodeRanges := #[
  (0x9, 0xd), (0x1c, 0x20), (0x85, 0x85), (0xa0, 0xa0), (0x1680, 0x1680), (0x2000, 0x200a),
  (0x2028, 0x2029), (0x202f, 0x202f), (0x205f, 0x205f), (0x3000, 0x3000)]

def isSpace (c : Char) : Bool :=
  spaceRanges.contains c

def dropSpaceEnd (cs : List Char) : List Char :=
  (cs.reverse.dropWhile isSpace).reverse

def trimmed (cs : List Char) : List Char :=
  dropSpaceEnd (cs.dropWhile isSpace)

end FilterTree
