import FilterTree.Value.Display
import FilterTree.Proofs.Text.Hex
import FilterTree.Proofs.Value.Scanner

/-! Displayed forms tell apart the values that are made of null, booleans, integers, strings and
collections of these. Each form says where it ends. -/

namespace FilterTree

namespace Value

mutual

/-- Null, booleans, integers, strings, and sequences and sets of these. -/
def isBasic : Value → Bool
  | .null | .bool _ | .int _ | .text _ => true
  | .list xs | .tuple xs | .set xs | .frozenset xs => areBasic xs
  | _ => false

def areBasic : List Value → Bool
  | [] => true
  | x :: xs => isBasic x && areBasic xs

end

end Value

/-! ### Quoted text -/

namespace Shown

def coded (width : Nat) (cs : List Char) : Option (Char × List Char) :=
  (Yaml.hexNumber? width cs).map fun n => (Char.ofNat n, cs.drop width)

def escaped : List Char → Option (Char × List Char)
  | [] => none
  | e :: cs =>
    if e = 't' then some ('\t', cs)
    else if e = 'n' then some ('\n', cs)
    else if e = 'r' then some ('\r', cs)
    else if e = 'x' then coded 2 cs
    else if e = 'u' then coded 4 cs
    else if e = 'U' then coded 8 cs
    else some (e, cs)

def character : List Char → Option (Char × List Char)
  | [] => none
  | c :: cs => if c = '\\' then escaped cs else some (c, cs)

theorem coded_hexText {width : Nat} (hwidth : 0 < width) {c : Char} (hc : c.toNat < 16 ^ width)
    (rest : List Char) : coded width ((hexText width c.toNat).toList ++ rest) = some (c, rest) := by
  obtain ⟨hlength, hnumber⟩ :=
    Yaml.hexNumber?_map_hexText (f := id) Yaml.hexDigit?_digitChar hwidth hc
  rw [List.map_id] at hlength hnumber
  rw [coded, Yaml.hexNumber?_append hlength, hnumber, Option.map_some, Char.ofNat_toNat,
    List.drop_left' hlength]

theorem character_hexText (mark : Char) {width : Nat}
    (hmark : ∀ cs, escaped (mark :: cs) = coded width cs) (hwidth : 0 < width) {c : Char}
    (hc : c.toNat < 16 ^ width) (rest : List Char) :
    character ((String.ofList ['\\', mark] ++ hexText width c.toNat).toList ++ rest) =
      some (c, rest) := by
  rw [String.toList_append, String.toList_ofList, List.append_assoc, List.cons_append, character,
    if_pos rfl, List.cons_append, List.nil_append, hmark, coded_hexText hwidth hc]

theorem character_escapeChar {quote : Char} (hquote : quote = '\'' ∨ quote = '"') (c : Char)
    (rest : List Char) : character ((escapeChar quote c).toList ++ rest) = some (c, rest) := by
  have hvalid : c.toNat < 0xd800 ∨ 0xdfff < c.toNat ∧ c.toNat < 0x110000 := c.valid
  unfold escapeChar
  split
  · next h =>
    rw [String.toList_ofList]
    rcases h with rfl | rfl
    · rcases hquote with rfl | rfl <;> rfl
    · rfl
  · next h =>
    have hslash : c ≠ '\\' := fun hc => h (.inr hc)
    split
    · next hc =>
      rw [hc]
      rfl
    · split
      · next hc =>
        rw [hc]
        rfl
      · split
        · next hc =>
          rw [hc]
          rfl
        · split
          · rw [String.toList_singleton, List.cons_append, character, if_neg hslash]
            rfl
          · split
            · exact character_hexText 'x' (fun _ => rfl) (by decide) (by omega) rest
            · split
              · exact character_hexText 'u' (fun _ => rfl) (by decide) (by omega) rest
              · exact character_hexText 'U' (fun _ => rfl) (by decide) (by omega) rest

theorem head?_escapeChar {quote : Char} (hquote : quote = '\'' ∨ quote = '"') (c : Char) :
    ∃ d rest, (escapeChar quote c).toList = d :: rest ∧ d ≠ quote := by
  have hslash : '\\' ≠ quote := by rcases hquote with rfl | rfl <;> decide
  unfold escapeChar
  split
  · exact ⟨'\\', _, String.toList_ofList .., hslash⟩
  · next h =>
    split
    · exact ⟨'\\', _, rfl, hslash⟩
    · split
      · exact ⟨'\\', _, rfl, hslash⟩
      · split
        · exact ⟨'\\', _, rfl, hslash⟩
        · split
          · exact ⟨c, [], String.toList_singleton c, fun hc => h (.inl hc)⟩
          · split
            · exact ⟨'\\', _, String.toList_append .., hslash⟩
            · split
              · exact ⟨'\\', _, String.toList_append .., hslash⟩
              · exact ⟨'\\', _, String.toList_append .., hslash⟩

theorem flatMap_escapeChar_cancel {quote : Char} (hquote : quote = '\'' ∨ quote = '"')
    {cs ds r r' : List Char} (h : cs.flatMap (fun c => (escapeChar quote c).toList) ++ quote :: r =
      ds.flatMap (fun c => (escapeChar quote c).toList) ++ quote :: r') : cs = ds ∧ r = r' := by
  induction cs generalizing ds with
  | nil =>
    cases ds with
    | nil => exact ⟨rfl, (List.cons.inj h).2⟩
    | cons d ds =>
      obtain ⟨e, rest, he, hne⟩ := head?_escapeChar hquote d
      rw [List.flatMap_cons, he] at h
      exact absurd (List.cons.inj h).1.symm hne
  | cons c cs ih =>
    cases ds with
    | nil =>
      obtain ⟨e, rest, he, hne⟩ := head?_escapeChar hquote c
      rw [List.flatMap_cons, he] at h
      exact absurd (List.cons.inj h).1 hne
    | cons d ds =>
      rw [List.flatMap_cons, List.flatMap_cons, List.append_assoc, List.append_assoc] at h
      -- the reader takes the same character from both texts
      have hfirst := congrArg character h
      rw [character_escapeChar hquote, character_escapeChar hquote] at hfirst
      obtain ⟨rfl, hrest⟩ := Prod.mk.inj (Option.some.inj hfirst)
      obtain ⟨rfl, rfl⟩ := ih hrest
      exact ⟨rfl, rfl⟩

theorem quoteFor_eq (hasSingle hasDouble : Bool) :
    quoteFor hasSingle hasDouble = '\'' ∨ quoteFor hasSingle hasDouble = '"' := by
  cases hasSingle <;> cases hasDouble <;> decide

theorem toList_quoted (s : String) : ∃ quote : Char, (quote = '\'' ∨ quote = '"') ∧
    (quoted s).toList =
      quote :: (s.toList.flatMap (fun c => (escapeChar quote c).toList) ++ [quote]) := by
  refine ⟨_, quoteFor_eq (s.toList.contains '\'') (s.toList.contains '"'), ?_⟩
  unfold quoted
  rw [String.toList_append, String.toList_append, String.toList_singleton, String.toList_join,
    List.flatMap_map]
  rfl

theorem quoted_cancel {s t : String} {r r' : List Char}
    (h : (quoted s).toList ++ r = (quoted t).toList ++ r') : s = t ∧ r = r' := by
  obtain ⟨quote, hquote, hs⟩ := toList_quoted s
  obtain ⟨other, -, ht⟩ := toList_quoted t
  rw [hs, ht, List.cons_append, List.cons_append, List.append_assoc, List.append_assoc] at h
  obtain ⟨rfl, hrest⟩ := List.cons.inj h
  obtain ⟨htext, rfl⟩ := flatMap_escapeChar_cancel hquote hrest
  exact ⟨String.toList_inj.mp htext, rfl⟩

/-! ### Values -/

open Value

def typeOf (c : Char) : String :=
  if c = 'N' then "NoneType"
  else if c = 'T' ∨ c = 'F' then "bool"
  else if c = '\'' ∨ c = '"' then "str"
  else if c = '[' then "list"
  else if c = '(' then "tuple"
  else if c = 's' ∨ c = '{' then "set"
  else if c = 'f' then "frozenset"
  else if c = '-' ∨ c.isDigit then "int"
  else ""

theorem typeOf_of_isDigit {c : Char} (h : c.isDigit = true) : typeOf c = "int" := by
  have hne {x : Char} (hx : x.isDigit = false) : c ≠ x := ne_of_isDigit h hx
  unfold typeOf
  rw [if_neg (hne rfl), if_neg (by simp [hne]), if_neg (by simp [hne]), if_neg (hne rfl),
    if_neg (hne rfl), if_neg (by simp [hne]), if_neg (hne rfl), if_pos (.inr h)]

def joined (xs : List Value) : List Char :=
  (", ".intercalate (displayAll xs)).toList

def tupleEnd (xs : List Value) : List Char :=
  if xs.length = 1 then [',', ')'] else [')']

theorem toList_enclosed (left right : String) (items : List String) :
    (enclosed left right items).toList =
      left.toList ++ ((", ".intercalate items).toList ++ right.toList) := by
  simp [enclosed]

theorem toList_display_list (xs : List Value) :
    (Value.list xs).display.toList = '[' :: (joined xs ++ [']']) :=
  toList_enclosed "[" "]" (displayAll xs)

theorem toList_display_tuple (xs : List Value) :
    (Value.tuple xs).display.toList = '(' :: (joined xs ++ tupleEnd xs) := by
  rcases xs with _ | ⟨x, _ | ⟨y, ys⟩⟩
  · rfl
  · have hone : (Value.tuple [x]).display = "(" ++ x.display ++ ",)" := rfl
    simp [hone, joined, tupleEnd, displayAll]
  · exact toList_enclosed "(" ")" (displayAll (x :: y :: ys))

theorem toList_display_set {xs : List Value} (hxs : xs ≠ []) :
    (Value.set xs).display.toList = '{' :: (joined xs ++ ['}']) := by
  cases xs with
  | nil => exact absurd rfl hxs
  | cons x xs => exact toList_enclosed "\x7b" "\x7d" (displayAll (x :: xs))

theorem toList_display_frozenset {xs : List Value} (hxs : xs ≠ []) :
    (Value.frozenset xs).display.toList =
      "frozenset(".toList ++ '{' :: (joined xs ++ ['}', ')']) := by
  cases xs with
  | nil => exact absurd rfl hxs
  | cons x xs => exact toList_enclosed "frozenset(\x7b" "\x7d)" (displayAll (x :: xs))

theorem head?_display {v : Value} (hv : v.isBasic = true) :
    ∃ c rest, v.display.toList = c :: rest ∧ typeOf c = v.typeName := by
  cases v with
  | null => exact ⟨_, _, rfl, rfl⟩
  | bool b => cases b <;> exact ⟨_, _, rfl, rfl⟩
  | int n =>
    obtain ⟨d, rest, hd, hdigit, -⟩ := head?_toDigits n.natAbs
    have hint : (Value.int n).display = toString n := rfl
    rw [hint, toList_toString_int]
    split
    · exact ⟨_, _, rfl, rfl⟩
    · exact ⟨d, rest, hd, typeOf_of_isDigit hdigit⟩
  | text s =>
    obtain ⟨quote, hquote, hs⟩ := toList_quoted s
    exact ⟨quote, _, hs, by rcases hquote with rfl | rfl <;> rfl⟩
  | list xs => exact ⟨_, _, toList_display_list xs, rfl⟩
  | tuple xs => exact ⟨_, _, toList_display_tuple xs, rfl⟩
  | set xs =>
    cases xs with
    | nil => exact ⟨_, _, rfl, rfl⟩
    | cons x xs => exact ⟨_, _, toList_display_set (List.cons_ne_nil x xs), rfl⟩
  | frozenset xs =>
    cases xs with
    | nil => exact ⟨_, _, rfl, rfl⟩
    | cons x xs => exact ⟨_, _, toList_display_frozenset (List.cons_ne_nil x xs), rfl⟩
  | _ => cases hv

theorem typeName_eq_of_display {x y : Value} (hx : x.isBasic = true) (hy : y.isBasic = true)
    {r r' : List Char} (h : x.display.toList ++ r = y.display.toList ++ r') :
    x.typeName = y.typeName := by
  obtain ⟨c, rest, hc, htype⟩ := head?_display hx
  obtain ⟨d, rest', hd, htype'⟩ := head?_display hy
  rw [hc, hd] at h
  obtain ⟨rfl, -⟩ := List.cons.inj h
  exact htype.symm.trans htype'

inductive Closes : List Char → Prop
  | list (rest : List Char) : Closes (']' :: rest)
  | tuple (rest : List Char) : Closes (')' :: rest)
  | single (rest : List Char) : Closes (',' :: ')' :: rest)
  | set (rest : List Char) : Closes ('}' :: rest)

theorem closes_tupleEnd (xs : List Value) (rest : List Char) : Closes (tupleEnd xs ++ rest) := by
  unfold tupleEnd
  split
  · exact .single rest
  · exact .tuple rest

theorem Closes.stops {r : List Char} (h : Closes r) : BeginsWithout Char.isDigit r := by
  cases h <;> exact .cons rfl _

theorem not_closes_display {v : Value} (hv : v.isBasic = true) (rest : List Char) :
    ¬Closes (v.display.toList ++ rest) := by
  obtain ⟨c, tail, hc, htype⟩ := head?_display hv
  have hempty : typeOf c ≠ "" := by
    rw [htype]
    cases v <;> simp_all [isBasic, typeName]
  rw [hc, List.cons_append]
  generalize tail ++ rest = more
  intro h
  cases h <;> exact hempty rfl

def joinedRest (xs : List Value) : List Char :=
  if xs.isEmpty then [] else ',' :: ' ' :: joined xs

theorem joined_cons (x : Value) (xs : List Value) :
    joined (x :: xs) = x.display.toList ++ joinedRest xs := by
  cases xs with
  | nil => simp [joined, joinedRest, displayAll]
  | cons y ys => simp [joined, joinedRest, displayAll]

theorem stops_joinedRest (xs : List Value) {r : List Char} (hr : Closes r) :
    BeginsWithout Char.isDigit (joinedRest xs ++ r) := by
  cases xs with
  | nil => exact hr.stops
  | cons x xs => exact .cons rfl _

/-- Whether the displayed items of two collections tell the items, and where each collection ends. -/
def ItemsCancel (xs ys : List Value) : Prop :=
  ∀ r r' : List Char, Closes r → Closes r' → joined xs ++ r = joined ys ++ r' → xs = ys ∧ r = r'

theorem ItemsCancel.between {xs ys : List Value} (hitems : ItemsCancel xs ys) (left : List Char)
    (right : List Value → List Char) (hright : ∀ zs rest, Closes (right zs ++ rest))
    {r r' : List Char}
    (h : left ++ (joined xs ++ right xs) ++ r = left ++ (joined ys ++ right ys) ++ r') :
    xs = ys ∧ r = r' := by
  simp only [List.append_assoc] at h
  obtain ⟨rfl, hrest⟩ := hitems _ _ (hright xs r) (hright ys r') (List.append_cancel_left h)
  exact ⟨rfl, List.append_cancel_left hrest⟩

theorem ItemsCancel.orEmpty {xs ys : List Value} (hitems : ItemsCancel xs ys)
    (shown : List Value → List Char) {left right bare : List Char} {c d : Char} (hne : c ≠ d)
    (hempty : shown [] = left ++ c :: bare)
    (hshown : ∀ zs ≠ [], shown zs = left ++ d :: (joined zs ++ right))
    (hright : ∀ rest, Closes (right ++ rest)) {r r' : List Char}
    (h : shown xs ++ r = shown ys ++ r') : xs = ys ∧ r = r' := by
  have hdiffer (zs : List Value) (hzs : zs ≠ []) (r r' : List Char) :
      shown [] ++ r ≠ shown zs ++ r' := by
    intro hsame
    rw [hempty, hshown zs hzs] at hsame
    simp only [List.append_assoc] at hsame
    exact hne (List.cons.inj (List.append_cancel_left hsame)).1
  by_cases hxs : xs = []
  · by_cases hys : ys = []
    · subst hxs hys
      exact ⟨rfl, List.append_cancel_left h⟩
    · subst hxs
      exact absurd h (hdiffer ys hys r r')
  · by_cases hys : ys = []
    · subst hys
      exact absurd h.symm (hdiffer xs hxs r' r)
    · rw [hshown xs hxs, hshown ys hys, List.append_cons left d (joined xs ++ right),
        List.append_cons left d (joined ys ++ right)] at h
      exact hitems.between (left ++ [d]) (fun _ => right) (fun _ => hright) h

section Cancel
variable {xs ys : List Value} {r r' : List Char}

theorem bool_cancel {b c : Bool}
    (h : (Value.bool b).display.toList ++ r = (Value.bool c).display.toList ++ r') :
    b = c ∧ r = r' := by
  cases b <;> cases c
  · exact ⟨rfl, List.append_cancel_left h⟩
  · exact absurd (List.cons.inj h).1 (by decide)
  · exact absurd (List.cons.inj h).1 (by decide)
  · exact ⟨rfl, List.append_cancel_left h⟩

theorem int_cancel {n m : Int} (hr : BeginsWithout Char.isDigit r)
    (hr' : BeginsWithout Char.isDigit r')
    (h : (Value.int n).display.toList ++ r = (Value.int m).display.toList ++ r') :
    n = m ∧ r = r' := by
  have hread : Scan.whole ((toString n).toList ++ r) = Scan.whole ((toString m).toList ++ r') :=
    congrArg Scan.whole h
  rw [Scan.whole_toString n hr, Scan.whole_toString m hr'] at hread
  exact Prod.mk.inj (Option.some.inj hread)

theorem list_cancel (hitems : ItemsCancel xs ys)
    (h : (Value.list xs).display.toList ++ r = (Value.list ys).display.toList ++ r') :
    xs = ys ∧ r = r' := by
  rw [toList_display_list, toList_display_list] at h
  exact hitems.between ['['] (fun _ => [']']) (fun _ => Closes.list) h

theorem tuple_cancel (hitems : ItemsCancel xs ys)
    (h : (Value.tuple xs).display.toList ++ r = (Value.tuple ys).display.toList ++ r') :
    xs = ys ∧ r = r' := by
  rw [toList_display_tuple, toList_display_tuple] at h
  exact hitems.between ['('] tupleEnd closes_tupleEnd h

theorem set_cancel (hitems : ItemsCancel xs ys)
    (h : (Value.set xs).display.toList ++ r = (Value.set ys).display.toList ++ r') :
    xs = ys ∧ r = r' := by
  have hempty : (Value.set []).display.toList = [] ++ 's' :: "et()".toList := rfl
  exact hitems.orEmpty (fun zs => (Value.set zs).display.toList) (by decide : 's' ≠ '{') hempty
    (fun _ => toList_display_set) Closes.set h

theorem frozenset_cancel (hitems : ItemsCancel xs ys)
    (h : (Value.frozenset xs).display.toList ++ r = (Value.frozenset ys).display.toList ++ r') :
    xs = ys ∧ r = r' := by
  have hempty : (Value.frozenset []).display.toList = "frozenset(".toList ++ ')' :: [] := rfl
  exact hitems.orEmpty (fun zs => (Value.frozenset zs).display.toList) (by decide : ')' ≠ '{')
    hempty (fun _ => toList_display_frozenset) (fun rest => Closes.set (')' :: rest)) h

end Cancel

mutual

/-- A displayed form tells the value and where its own end is; for a number this is where the digits
end. -/
theorem display_cancel : ∀ (x y : Value) (r r' : List Char), x.isBasic = true → y.isBasic = true →
    BeginsWithout Char.isDigit r → BeginsWithout Char.isDigit r' →
    x.display.toList ++ r = y.display.toList ++ r' → x = y ∧ r = r'
  | .null => by
    intro y r r' hx hy _ _ h
    have htype := typeName_eq_of_display hx hy h
    cases y with
    | null => exact ⟨rfl, List.append_cancel_left h⟩
    | loop | foreign => cases hy
    | _ => simp [typeName] at htype
  | .bool b => by
    intro y r r' hx hy _ _ h
    have htype := typeName_eq_of_display hx hy h
    cases y with
    | bool c =>
      obtain ⟨rfl, rfl⟩ := bool_cancel h
      exact ⟨rfl, rfl⟩
    | loop | foreign => cases hy
    | _ => simp [typeName] at htype
  | .int n => by
    intro y r r' hx hy hr hr' h
    have htype := typeName_eq_of_display hx hy h
    cases y with
    | int m =>
      obtain ⟨rfl, rfl⟩ := int_cancel hr hr' h
      exact ⟨rfl, rfl⟩
    | loop | foreign => cases hy
    | _ => simp [typeName] at htype
  | .text s => by
    intro y r r' hx hy _ _ h
    have htype := typeName_eq_of_display hx hy h
    cases y with
    | text t =>
      obtain ⟨rfl, rfl⟩ := quoted_cancel h
      exact ⟨rfl, rfl⟩
    | loop | foreign => cases hy
    | _ => simp [typeName] at htype
  | .list xs => by
    intro y r r' hx hy _ _ h
    have htype := typeName_eq_of_display hx hy h
    cases y with
    | list ys =>
      have hitems : ItemsCancel xs ys := fun r r' => joined_cancel xs ys r r' hx hy
      obtain ⟨rfl, rfl⟩ := list_cancel hitems h
      exact ⟨rfl, rfl⟩
    | loop | foreign => cases hy
    | _ => simp [typeName] at htype
  | .tuple xs => by
    intro y r r' hx hy _ _ h
    have htype := typeName_eq_of_display hx hy h
    cases y with
    | tuple ys =>
      have hitems : ItemsCancel xs ys := fun r r' => joined_cancel xs ys r r' hx hy
      obtain ⟨rfl, rfl⟩ := tuple_cancel hitems h
      exact ⟨rfl, rfl⟩
    | loop | foreign => cases hy
    | _ => simp [typeName] at htype
  | .set xs => by
    intro y r r' hx hy _ _ h
    have htype := typeName_eq_of_display hx hy h
    cases y with
    | set ys =>
      have hitems : ItemsCancel xs ys := fun r r' => joined_cancel xs ys r r' hx hy
      obtain ⟨rfl, rfl⟩ := set_cancel hitems h
      exact ⟨rfl, rfl⟩
    | loop | foreign => cases hy
    | _ => simp [typeName] at htype
  | .frozenset xs => by
    intro y r r' hx hy _ _ h
    have htype := typeName_eq_of_display hx hy h
    cases y with
    | frozenset ys =>
      have hitems : ItemsCancel xs ys := fun r r' => joined_cancel xs ys r r' hx hy
      obtain ⟨rfl, rfl⟩ := frozenset_cancel hitems h
      exact ⟨rfl, rfl⟩
    | loop | foreign => cases hy
    | _ => simp [typeName] at htype
  | .float _ | .nan _ | .operator _ | .join _ | .bytes _ | .buffer _ | .date _ _ | .moment _ _
  | .map _ | .loop _ | .foreign _ _ => by
    intro _ _ _ hx
    cases hx

theorem joined_cancel : ∀ (xs ys : List Value) (r r' : List Char), areBasic xs = true →
    areBasic ys = true → Closes r → Closes r' → joined xs ++ r = joined ys ++ r' →
    xs = ys ∧ r = r'
  | [] => by
    intro ys r r' _ hys hr _ h
    cases ys with
    | nil => exact ⟨rfl, h⟩
    | cons y ys =>
      have hr_eq : r = joined (y :: ys) ++ r' := h
      rw [joined_cons, List.append_assoc] at hr_eq
      rw [hr_eq] at hr
      exact absurd hr (not_closes_display (Bool.and_eq_true_iff.mp hys).1 _)
  | x :: xs => by
    intro ys r r' hxs hys hr hr' h
    have hxs' := Bool.and_eq_true_iff.mp hxs
    cases ys with
    | nil =>
      have hr_eq : joined (x :: xs) ++ r = r' := h
      rw [joined_cons, List.append_assoc] at hr_eq
      rw [← hr_eq] at hr'
      exact absurd hr' (not_closes_display hxs'.1 _)
    | cons y ys =>
      have hys' := Bool.and_eq_true_iff.mp hys
      rw [joined_cons, joined_cons, List.append_assoc, List.append_assoc] at h
      obtain ⟨rfl, hrest⟩ := display_cancel x y _ _ hxs'.1 hys'.1 (stops_joinedRest xs hr)
        (stops_joinedRest ys hr') h
      cases xs with
      | nil =>
        cases ys with
        | nil => exact ⟨rfl, hrest⟩
        | cons z zs =>
          -- one collection ends where the other one goes on with a comma and a space
          have hr_eq : r = ',' :: ' ' :: (joined (z :: zs) ++ r') := hrest
          rw [hr_eq] at hr
          cases hr
      | cons z zs =>
        cases ys with
        | nil =>
          have hr_eq : ',' :: ' ' :: (joined (z :: zs) ++ r) = r' := hrest
          rw [← hr_eq] at hr'
          cases hr'
        | cons w ws =>
          obtain ⟨heq, hr_eq⟩ := joined_cancel (z :: zs) (w :: ws) r r' hxs'.2 hys'.2 hr hr'
            (List.cons.inj (List.cons.inj hrest).2).2
          exact ⟨by rw [heq], hr_eq⟩

end

theorem display_injective {x y : Value} (hx : x.isBasic = true) (hy : y.isBasic = true)
    (h : x.display = y.display) : x = y :=
  (display_cancel x y [] [] hx hy .nil .nil (by rw [h])).1

end Shown

end FilterTree
