import FilterTree.Value.Literal
import FilterTree.Proofs.Text.Numeral
import FilterTree.Proofs.Value.Legible

/-! A scanner for quoted identifiers and literals, on its own and without regard to how they are
written. It stops where the text of a literal stops, whatever follows. The only values without a literal
are those with an integer that cannot be written. -/

namespace FilterTree

namespace Value

mutual

/-- Null, booleans, whole numbers, strings, and lists of these to any depth. -/
def isPlain : Value → Bool
  | .null | .bool _ | .int _ | .text _ => true
  | .list xs => arePlain xs
  | _ => false

def arePlain : List Value → Bool
  | [] => true
  | x :: xs => isPlain x && arePlain xs

end

/-- Mappings, dates and bytes, of which a literal has the plain form. -/
def isSaid : Value → Bool
  | .map _ | .date _ _ | .moment _ _ | .bytes _ | .buffer _ => true
  | _ => false

theorem literalText_of_isSaid {v : Value} (h : v.isSaid = true) :
    v.literalText = v.plainText.map (delimited '\'') := by
  have hliteral : v.literal = delimited '\'' v.plain := by
    cases v with
    | map | date | moment | bytes | buffer => rfl
    | _ => cases h
  unfold literalText plainText
  cases hl : v.isLegible with
  | true => rw [written_of_isLegible hl, written_of_isLegible hl, hliteral]; rfl
  | false => rw [written_of_not_isLegible hl, written_of_not_isLegible hl]; rfl

end Value

namespace Scan

def quotedRest (quote : Char) : List Char → Option (List Char × List Char)
  | [] => none
  | [c] => if c = quote then some ([], []) else none
  | c :: d :: rest =>
    if c = quote then
      if d = quote then (quotedRest quote rest).map fun (inner, rest) => (quote :: inner, rest)
      else some ([], d :: rest)
    else (quotedRest quote (d :: rest)).map fun (inner, rest) => (c :: inner, rest)

def quotedText (quote : Char) : List Char → Option (String × List Char)
  | [] => none
  | c :: rest =>
    if c = quote then
      (quotedRest quote rest).map fun (inner, rest) => (String.ofList inner, rest)
    else none

def digits (cs : List Char) : Option (Nat × List Char) :=
  let run := cs.takeWhile Char.isDigit
  if run.isEmpty then none else some (digitsValue run, cs.dropWhile Char.isDigit)

def whole : List Char → Option (Int × List Char)
  | [] => none
  | c :: rest =>
    if c = '-' then (digits rest).map fun (n, rest) => (-(n : Int), rest)
    else (digits (c :: rest)).map fun (n, rest) => ((n : Int), rest)

def words : List (List Char × Value) :=
  [("null".toList, .null), ("true".toList, .bool true), ("false".toList, .bool false)]

def bare (cs : List Char) : Option (Value × List Char) :=
  match words.find? fun (w, _) => w.isPrefixOf cs with
  | some (w, v) => some (v, cs.drop w.length)
  | none => (whole cs).map fun (n, rest) => (.int n, rest)

mutual

/-- One literal at the front of a text, and what follows it. The fuel bounds the nesting and the
number of items. -/
def literal : Nat → List Char → Option (Value × List Char)
  | 0, _ | _, [] => none
  | fuel + 1, c :: rest =>
    if c = '\'' then (quotedText '\'' (c :: rest)).map fun (s, rest) => (.text s, rest)
    else if c = '(' then
      if rest.head? = some ')' then some (.list [], rest.tail)
      else (items fuel rest).map fun (xs, rest) => (.list xs, rest)
    else bare (c :: rest)

def items : Nat → List Char → Option (List Value × List Char)
  | 0, _ => none
  | fuel + 1, cs =>
    match literal fuel cs with
    | none => none
    | some (x, rest) =>
      if rest.head? = some ')' then some ([x], rest.tail)
      else if rest.head? = some ',' then
        (items fuel rest.tail).map fun (xs, rest) => (x :: xs, rest)
      else none

end

def first (cs : List Char) : Option (Value × List Char) :=
  literal cs.length cs

/-! ### Reading what was written -/

theorem toList_delimited (quote : Char) (s : String) : (delimited quote s).toList =
    quote ::
      ((s.toList.flatMap fun c => if c = quote then [quote, quote] else [c]) ++ [quote]) := by
  rw [delimited, String.toList_ofList]
  rfl

theorem quotedRest_doubled (quote : Char) {rest : List Char}
    (hrest : BeginsWithout (· == quote) rest) (cs : List Char) :
    quotedRest quote ((cs.flatMap fun c => if c = quote then [quote, quote] else [c]) ++
      quote :: rest) = some (cs, rest) := by
  induction cs with
  | nil =>
    cases rest with
    | nil => simp [quotedRest]
    | cons d rest =>
      have hd : d ≠ quote := by simpa [BeginsWithout] using hrest
      simp [quotedRest, hd]
  | cons c cs ih =>
    rw [List.flatMap_cons]
    by_cases hc : c = quote
    · subst hc
      simp only [if_pos, List.cons_append, List.nil_append, quotedRest, ih, Option.map_some]
    · rw [if_neg hc, List.singleton_append, List.cons_append]
      -- a character other than the quote is read with a look at the next one, which is there
      -- because the text ends with a quote
      cases htail : (cs.flatMap fun c => if c = quote then [quote, quote] else [c]) ++
          quote :: rest with
      | nil => simp at htail
      | cons d tail =>
        rw [htail] at ih
        rw [quotedRest, if_neg hc, ih]
        rfl

theorem quotedText_delimited (quote : Char) (s : String) {rest : List Char}
    (hrest : BeginsWithout (· == quote) rest) :
    quotedText quote ((delimited quote s).toList ++ rest) = some (s, rest) := by
  have hinner := quotedRest_doubled quote hrest s.toList
  rw [toList_delimited, List.cons_append, List.append_assoc, List.singleton_append, quotedText,
    if_pos rfl, hinner]
  simp

theorem digits_toDigits (n : Nat) {rest : List Char} (hrest : BeginsWithout Char.isDigit rest) :
    digits (Nat.toDigits 10 n ++ rest) = some (n, rest) := by
  have hall : ∀ c ∈ Nat.toDigits 10 n, c.isDigit = true := fun c => isDigit_of_mem_toDigits
  simp [digits, hrest.takeWhile_append hall, hrest.dropWhile_append hall, digitsValue_toDigits]

theorem whole_toString (n : Int) {rest : List Char} (hrest : BeginsWithout Char.isDigit rest) :
    whole ((toString n).toList ++ rest) = some (n, rest) := by
  rw [toList_toString_int]
  have hdigits := digits_toDigits n.natAbs hrest
  split
  · next hn =>
    simp only [List.cons_append, whole, if_pos, hdigits, Option.map_some]
    congr 2
    omega
  · next hn =>
    obtain ⟨d, run, hd, hdigit, -⟩ := head?_toDigits n.natAbs
    have hne : d ≠ '-' := ne_of_isDigit hdigit rfl
    rw [hd, List.cons_append] at hdigits ⊢
    rw [whole, if_neg hne, hdigits]
    simp only [Option.map_some]
    congr 2
    omega

/-- What may follow a literal. -/
abbrev Stops (rest : List Char) : Prop :=
  BeginsWithout (fun c => c == '\'' || c.isDigit) rest

theorem Stops.quote {rest : List Char} (h : Stops rest) : BeginsWithout (· == '\'') rest :=
  fun c hc => (Bool.or_eq_false_iff.mp (h c hc)).1

theorem Stops.digit {rest : List Char} (h : Stops rest) : BeginsWithout Char.isDigit rest :=
  fun c hc => (Bool.or_eq_false_iff.mp (h c hc)).2

theorem head?_literal {v : Value} (hv : v.isPlain = true) :
    ∃ c rest, v.literal.toList = c :: rest ∧
      ((v = .null ∧ c = 'n') ∨ c ∈ ['t', 'f', '-', '\'', '('] ∨ c.isDigit = true) := by
  cases v with
  | null => exact ⟨'n', _, rfl, .inl ⟨rfl, rfl⟩⟩
  | bool b => cases b <;> exact ⟨_, _, rfl, .inr (.inl (by decide))⟩
  | int n =>
    obtain ⟨d, rest, hd, hdigit, -⟩ := head?_toDigits n.natAbs
    by_cases hn : n < 0
    · refine ⟨'-', Nat.toDigits 10 n.natAbs, ?_, .inr (.inl (by decide))⟩
      rw [Value.literal, toList_toString_int, if_pos hn]
    · refine ⟨d, rest, ?_, .inr (.inr hdigit)⟩
      rw [Value.literal, toList_toString_int, if_neg hn, hd]
  | text s =>
    exact ⟨_, _, toList_delimited '\'' s, .inr (.inl (by decide))⟩
  | list xs =>
    refine ⟨'(', (",".intercalate (Value.literalAll xs) ++ ")").toList, ?_, .inr (.inl (by decide))⟩
    rw [Value.literal, String.append_assoc, String.toList_append]
    rfl
  | _ => cases hv

theorem intercalate_literalAll (x y : Value) (ys : List Value) :
    (",".intercalate (Value.literalAll (x :: y :: ys))).toList =
      x.literal.toList ++ ',' :: (",".intercalate (Value.literalAll (y :: ys))).toList := by
  simp [Value.literalAll]

theorem head?_items (x : Value) (xs : List Value) (hxs : Value.arePlain (x :: xs) = true) :
    ∃ c rest, (",".intercalate (Value.literalAll (x :: xs))).toList = c :: rest ∧ c ≠ ')' := by
  obtain ⟨c, rest, hc, hopens⟩ := head?_literal (Bool.and_eq_true_iff.mp hxs).1
  have hne : c ≠ ')' := by
    rintro rfl
    revert hopens
    simp
  cases xs with
  | nil => exact ⟨c, rest, by simpa [Value.literalAll] using hc, hne⟩
  | cons y ys => exact ⟨c, _, by rw [intercalate_literalAll, hc, List.cons_append], hne⟩

theorem bare_of_digit {c : Char} (hc : c = '-' ∨ c.isDigit = true) (rest : List Char) :
    bare (c :: rest) = (whole (c :: rest)).map fun (n, rest) => (.int n, rest) := by
  have hne : c ≠ 'n' ∧ c ≠ 't' ∧ c ≠ 'f' := by
    refine ⟨?_, ?_, ?_⟩ <;> rintro rfl <;> revert hc <;> decide
  have hnone : (words.find? fun (w, _) => w.isPrefixOf (c :: rest)) = none := by
    simp [words, hne.1.symm, hne.2.1.symm, hne.2.2.symm]
  rw [bare, hnone]

theorem literal_toString (fuel : Nat) (n : Int) {rest : List Char}
    (hrest : BeginsWithout Char.isDigit rest) :
    literal (fuel + 1) ((toString n).toList ++ rest) = some (.int n, rest) := by
  have hwhole := whole_toString n hrest
  obtain ⟨c, tail, hc, hsign⟩ : ∃ c tail, (toString n).toList = c :: tail ∧
      (c = '-' ∨ c.isDigit = true) := by
    obtain ⟨d, tail, hd, hdigit, -⟩ := head?_toDigits n.natAbs
    rw [toList_toString_int]
    split
    · exact ⟨_, _, rfl, .inl rfl⟩
    · exact ⟨d, tail, hd, .inr hdigit⟩
  have hne : c ≠ '\'' ∧ c ≠ '(' := by
    constructor <;> rintro rfl <;> revert hsign <;> decide
  rw [hc, List.cons_append] at hwhole ⊢
  rw [literal, if_neg hne.1, if_neg hne.2, bare_of_digit hsign, hwhole]
  rfl

mutual

/-- The scanner gets a literal back, and stops where it ends. -/
theorem literal_append (v : Value) (hv : v.isPlain = true) (fuel : Nat) (rest : List Char)
    (hfuel : v.literal.toList.length ≤ fuel) (hrest : Stops rest) :
    literal fuel (v.literal.toList ++ rest) = some (v, rest) := by
  cases fuel with
  | zero =>
    obtain ⟨c, tail, hc, -⟩ := head?_literal hv
    simp [hc] at hfuel
  | succ fuel =>
    cases v with
    | null => rfl
    | bool b => cases b <;> rfl
    | int n => exact literal_toString fuel n hrest.digit
    | text s =>
      have hs := quotedText_delimited '\'' s hrest.quote
      rw [toList_delimited, List.cons_append] at hs
      change literal (fuel + 1) ((delimited '\'' s).toList ++ rest) = _
      rw [toList_delimited, List.cons_append, literal, if_pos rfl, hs]
      rfl
    | list xs =>
      cases xs with
      | nil => simp [Value.literal, Value.literalAll, literal]
      | cons x xs =>
        have htext : (Value.list (x :: xs)).literal.toList ++ rest =
            '(' :: ((",".intercalate (Value.literalAll (x :: xs))).toList ++ ')' :: rest) := by
          simp [Value.literal]
        have hlength : (",".intercalate (Value.literalAll (x :: xs))).toList.length < fuel := by
          simp only [Value.literal, String.toList_append, List.length_append] at hfuel
          have hparens : "(".toList.length = 1 ∧ ")".toList.length = 1 := ⟨rfl, rfl⟩
          omega
        have hitems := items_append (x :: xs) (List.cons_ne_nil x xs) hv fuel rest hlength
        obtain ⟨c, tail, hc, hne⟩ := head?_items x xs hv
        -- no item begins with a parenthesis that closes, so the list is not taken for an empty one
        have hnot : ((",".intercalate (Value.literalAll (x :: xs))).toList ++ ')' :: rest).head? ≠
            some ')' := by
          rw [hc]
          simpa using hne
        rw [htext, literal, if_neg (by decide), if_pos rfl, if_neg hnot, hitems]
        rfl
    | _ => cases hv

theorem items_append : ∀ xs : List Value, xs ≠ [] → Value.arePlain xs = true →
    ∀ (fuel : Nat) (rest : List Char),
    (",".intercalate (Value.literalAll xs)).toList.length < fuel →
    items fuel ((",".intercalate (Value.literalAll xs)).toList ++ ')' :: rest) = some (xs, rest)
  | [], hne, _, _, _, _ => absurd rfl hne
  | _, _, _, 0, _, hfuel => absurd hfuel (Nat.not_lt_zero _)
  | [x], _, hxs, fuel + 1, rest, hfuel => by
    have htext : (",".intercalate (Value.literalAll [x])).toList = x.literal.toList := by
      simp [Value.literalAll]
    rw [htext] at hfuel ⊢
    have hx := literal_append x (Bool.and_eq_true_iff.mp hxs).1 fuel (')' :: rest)
      (Nat.le_of_lt_succ hfuel) (.cons (by decide) rest)
    rw [items, hx]
    rfl
  | x :: y :: ys, _, hxs, fuel + 1, rest, hfuel => by
    have hxs' := Bool.and_eq_true_iff.mp hxs
    rw [intercalate_literalAll] at hfuel ⊢
    simp only [List.length_append, List.length_cons] at hfuel
    rw [List.append_assoc, List.cons_append]
    have hx := literal_append x hxs'.1 fuel
      (',' :: ((",".intercalate (Value.literalAll (y :: ys))).toList ++ ')' :: rest)) (by omega)
      (.cons (by decide) _)
    have hys := items_append (y :: ys) (List.cons_ne_nil y ys) hxs'.2 fuel rest (by omega)
    rw [items, hx]
    simp only [List.head?_cons, List.tail_cons, hys]
    rfl

end

theorem first_append {v : Value} (hv : v.isPlain = true) {rest : List Char} (hrest : Stops rest) :
    first (v.literal.toList ++ rest) = some (v, rest) :=
  literal_append v hv _ rest (by rw [List.length_append]; omega) hrest

/-- Where a literal or an identifier ends can be told from the text alone, and what stands in it. -/
theorem reads_literal_and_identifier :
    (∀ v : Value, v.isPlain = true →
      (v.isLegible = true → ∃ text, v.literalText = .ok text ∧
        ∀ rest, Stops rest → first (text.toList ++ rest) = some (v, rest)) ∧
      (v.isLegible = false → v.literalText = .error .longInteger)) ∧
    (∀ (name : String) (rest : List Char), BeginsWithout (· == '"') rest →
      quotedText '"' ((Value.text name).identifier.toList ++ rest) = some (name, rest)) ∧
    ∀ v : Value, v.isSaid = true →
      (∀ text, v.plainText = .ok text → ∃ quoted, v.literalText = .ok quoted ∧
        ∀ rest, BeginsWithout (· == '\'') rest →
          quotedText '\'' (quoted.toList ++ rest) = some (text, rest)) ∧
      ∀ e, v.plainText = .error e → v.literalText = .error e := by
  refine ⟨fun v hv => ⟨fun hlegible => ?_, fun hlong => ?_⟩, fun name rest hrest => ?_,
    fun v hv => ⟨fun text htext => ?_, fun e he => ?_⟩⟩
  · exact ⟨v.literal, Value.written_of_isLegible hlegible _, fun rest hrest => first_append hv hrest⟩
  · exact Value.written_of_not_isLegible hlong _
  · exact quotedText_delimited '"' name hrest
  · refine ⟨delimited '\'' text, ?_, fun rest hrest => quotedText_delimited '\'' text hrest⟩
    rw [Value.literalText_of_isSaid hv, htext]
    rfl
  · rw [Value.literalText_of_isSaid hv, he]
    rfl

/-- Quotes, commas and parentheses in a string do not end it, nor the list that it stands in. -/
theorem reads_literal_and_identifier_nested :
    let v : Value := .list [.text "'),'", .list [], .int (-7), .list [.null, .text "", .bool true]]
    (∃ text, v.literalText = .ok text ∧
      first (text.toList ++ ",null)".toList) = some (v, ",null)".toList)) ∧
    quotedText '"' ((Value.text "a\"").identifier.toList ++ "=1".toList) = some ("a\"", "=1".toList) ∧
    ∃ text quoted, (Value.map [(.text "a", .null)]).plainText = .ok text ∧
      (Value.map [(.text "a", .null)]).literalText = .ok quoted ∧
      quotedText '\'' (quoted.toList ++ []) = some (text, []) := by
  intro v
  obtain ⟨hliteral, hidentifier, hsaid⟩ := reads_literal_and_identifier
  have hseven : (Value.int (-7)).isLegible = true := Value.isLegible_of_natAbs_lt_ten (by decide)
  have hv : v.isLegible = true := by
    change (true && (true && ((Value.int (-7)).isLegible && true))) = true
    rw [hseven]
    rfl
  have hmap : (Value.map [(.text "a", .null)]).plainText =
      .ok (Value.map [(.text "a", .null)]).plain := Value.written_of_isLegible rfl _
  obtain ⟨text, htext, hfirst⟩ := (hliteral v rfl).1 hv
  obtain ⟨quoted, hquoted, hback⟩ := (hsaid (.map [(.text "a", .null)]) rfl).1 _ hmap
  exact ⟨⟨text, htext, hfirst _ (by simp [Stops, BeginsWithout])⟩,
    hidentifier "a\"" _ (by simp [BeginsWithout]), _, quoted, hmap, hquoted, hback [] .nil⟩

/-- An integer of too many digits has no literal. -/
theorem literalText_tooLong : (Value.int Value.tooLong).isPlain = true ∧
    (Value.int Value.tooLong).literalText = .error .longInteger :=
  ⟨rfl, Value.written_of_not_isLegible Value.isLegible_tooLong _⟩

end Scan

end FilterTree
